import LangId.Config.Settings
import LangId.Knowledge.Bundled
import LangId.Knowledge.Load

/-!
# Where definitions come from

The knowledge base that settings ask for: the one of a directory, or the bundled one. Only training
for the former heeds the bound on tokens; the latter is the same for all settings.
-/
namespace LangId

/-- The knowledge base that settings ask for. -/
def Settings.knowledge (s : Settings) (t : Tree) : Except Payload.LoadError KnowledgeBase :=
  match s.definitions.directory with
  | none => KnowledgeBase.bundled.mapError .build
  | some directory => KnowledgeBase.load t (Path.ofString directory) s.classifier.maxTokens

end LangId
