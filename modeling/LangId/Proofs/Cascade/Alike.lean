import LangId.Proofs.Cascade.Verdict

/-!
# What a verdict depends on

Identification looks at three things of a sample: the name of the file, the text, and whether the
content is binary. It never looks at the rest of the path or at the size. Two samples that are alike
in these (`Sample.Alike`) have the same verdict, with any classifier (`verdict_of_alike`): all that
a stage reads goes through `proposal?`.
-/
namespace LangId

/-- Two samples that identification cannot tell apart. -/
structure Sample.Alike (a b : Sample) : Prop where
  basename : a.basename = b.basename
  content : a.content = b.content
  isBinary : a.isBinary = b.isBinary

namespace KnowledgeBase

variable {kb : KnowledgeBase} {a b : Sample}

theorem proposal?_of_alike (h : a.Alike b) (c : Candidates) (s : Stage) :
    kb.proposal? a c s = kb.proposal? b c s := by
  have hextensions : a.extensions = b.extensions := by
    rw [Sample.extensions, Sample.extensions, h.basename]
  have hlines : a.lines = b.lines := by rw [Sample.lines, Sample.lines, h.content]
  cases s with
  | filename => simp only [proposal?, h.basename]
  | shebang => simp only [proposal?, h.content]
  | extension => simp only [proposal?, hextensions]
  | modeline => simp only [proposal?, hlines]
  | heuristics => simp only [proposal?, hextensions, h.content]

theorem narrow_of_alike (h : a.Alike b) (c : Candidates) (s : Stage) :
    kb.narrow s a c = kb.narrow s b c := by
  simp only [narrow, narrow?, proposal?_of_alike h]

theorem runStages_of_alike (h : a.Alike b) (stages : List Stage) (c : Candidates) :
    kb.runStages a c stages = kb.runStages b c stages := by
  induction stages generalizing c with
  | nil => rfl
  | cons s stages ih => simp only [runStages, narrow_of_alike h, ih]

/-- **What a verdict depends on.** -/
theorem verdict_of_alike (h : a.Alike b) (chooser : Option Chooser) :
    kb.verdict chooser a = kb.verdict chooser b := by
  have hsettle : settle chooser a = settle chooser b := by
    funext c
    unfold settle
    rw [h.content]
  simp only [verdict, narrow_of_alike h, runStages_of_alike h, h.isBinary, hsettle]

/-- The results for two samples that are alike differ in their paths alone. -/
theorem identify_of_alike (h : a.Alike b) (chooser : Option Chooser) :
    (kb.identify chooser a).map (·.verdict) = (kb.identify chooser b).map (·.verdict) := by
  rw [identify, identify, verdict_of_alike h]
  cases kb.verdict chooser b <;> rfl

end KnowledgeBase

end LangId
