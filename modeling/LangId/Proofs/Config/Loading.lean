import LangId.CommandLine.Run
import LangId.Proofs.Config.Accepted
import LangId.Proofs.Steps

/-!
# How loading settings ends

A file with settings that can be read ends in accepted settings, in an error that a caller expects
and the command line reports, or in something else: loading breaks off. `Settings.Escapes` lists the
ways in which it does, each with its error, and says of the octets of the file, of the variables around
it and of the directories what brings it about.

**Results.**
* `loading_ends`: the three ways to end, and when the third one is taken.
* `undecodable_escapes`: a file of a single octet with which it is taken.
* `settings_crash_iff`: a command line breaks off over the same files.
-/
namespace LangId

open Data Text

namespace Settings

/-- Loading the octets of a file breaks off with an error that nobody expects. -/
inductive Escapes (locate : Locator) (environment : Environment.Variables) (path : String)
    (bytes : List UInt8) : LoadError → Prop
  /-- The octets are no text. -/
  | undecodable : Utf8.decode? bytes = none → Escapes locate environment path bytes .undecodable
  /-- The document spells a value that does not exist. -/
  | noSuchValue {text : List Char} {reason : String} : Utf8.decode? bytes = some text →
      Yaml.read (unifyEnds text) = .error (.noSuchValue reason) →
      Escapes locate environment path bytes (.noSuchValue reason)
  /-- The document says something for which its reader has no check. -/
  | oversight {text : List Char} {o : Yaml.Oversight} : Utf8.decode? bytes = some text →
      Yaml.read (unifyEnds text) = .error (.oversight o) →
      Escapes locate environment path bytes (.fault (.oversight o))
  /-- A section is named by something that is no text. -/
  | badKey {entries : List (Value × Value)} {e : Value × Value} :
      Yaml.readFile bytes = .ok (.map entries) → e ∈ entries → isTextKey e.1 = false →
      Escapes locate environment path bytes .badKey
  /-- A variable holds something unreadable. -/
  | environment {entries : List (Value × Value)} {e : Environment.Unreadable} :
      entriesOf bytes = .ok entries → Environment.values environment = .error e →
      Escapes locate environment path bytes (.refused path (.environment e))
  /-- The directory of definitions cannot be made out. -/
  | directory {entries found : List (Value × Value)} {f : DirectoryFault} :
      entriesOf bytes = .ok entries → Environment.values environment = .ok found →
      directoryFault? locate (merged found entries) = some f →
      Escapes locate environment path bytes (.refused path (.directory f))

open CommandLine

variable {t : Tree} {locate : Locator} {environment : Environment.Variables} {way : List String}
  {path : String} {bytes : List UInt8} {e : LoadError} {s : Settings}

/-! ## The document -/

theorem readFile_eq_yaml {x : Yaml.Error} :
    Yaml.readFile bytes = .error (.yaml x) ↔
      ∃ text, Utf8.decode? bytes = some text ∧ Yaml.read (unifyEnds text) = .error x := by
  unfold Yaml.readFile
  cases Utf8.decode? bytes with
  | none => simp
  | some text => simp [mapError_eq_error]

theorem readFile_eq_undecodable :
    Yaml.readFile bytes = .error .undecodable ↔ Utf8.decode? bytes = none := by
  unfold Yaml.readFile
  cases Utf8.decode? bytes with
  | none => simp
  | some text => simp [mapError_eq_error]

/-- The entries of a file cannot be told: it is reported, or it breaks off. -/
theorem entriesOf_eq_error (h : entriesOf bytes = .error e) :
    isReportedSettings e = true ∨ Escapes locate environment path bytes e := by
  unfold entriesOf at h
  split at h
  · cases h
  · rename_i entries hentries
    split at h
    · cases h
    · rename_i hkeys
      cases h
      obtain ⟨entry, hmem, hkey⟩ : ∃ entry ∈ entries, isTextKey entry.1 = false := by
        simpa using hkeys
      exact .inr (.badKey hentries hmem hkey)
  · cases h
    exact .inl rfl
  · rename_i hread
    cases h
    exact .inr (.undecodable (readFile_eq_undecodable.1 hread))
  · cases h
    exact .inl rfl
  · rename_i hread
    cases h
    obtain ⟨text, htext, hyaml⟩ := readFile_eq_yaml.1 hread
    exact .inr (.noSuchValue htext hyaml)
  · rename_i hread
    cases h
    obtain ⟨text, htext, hyaml⟩ := readFile_eq_yaml.1 hread
    exact .inr (.oversight htext hyaml)

/-! ## Reading with the environment -/

theorem read_eq_environment {entries : List (Value × Value)} {u : Environment.Unreadable}
    (h : Environment.values environment = .error u) :
    read locate environment entries = .error (.environment u) := by
  rw [read, h]

theorem read_eq_directory {entries found : List (Value × Value)} {f : DirectoryFault}
    (hfound : Environment.values environment = .ok found)
    (h : directoryFault? locate (merged found entries) = some f) :
    read locate environment entries = .error (.directory f) := by
  rw [read, hfound]
  dsimp only
  rw [h]

/-- Settings are refused: for issues, which are reported, or reading breaks off. -/
theorem read_eq_error {entries : List (Value × Value)} {r : Refusal}
    (hentries : entriesOf bytes = .ok entries) (h : read locate environment entries = .error r) :
    (∃ issues, r = .invalid issues) ∨ Escapes locate environment path bytes (.refused path r) := by
  unfold read at h
  split at h
  · rename_i hvalues
    cases h
    exact .inr (.environment hentries hvalues)
  rename_i hvalues
  split at h
  · rename_i hfault
    cases h
    exact .inr (.directory hentries hvalues hfault)
  split at h
  · cases h
  · cases h
    exact .inl ⟨_, rfl⟩

/-! ## Loading -/

/-- A file that can be read is loaded by reading its entries with the environment. -/
theorem load_of_read (h : t.read way = .ok bytes) : load t locate environment way path =
    (entriesOf bytes >>= fun entries =>
      (read locate environment entries).mapError (.refused path)) := by
  have hreaches : t.reaches way = true := by
    obtain ⟨found, hfound, -⟩ := bind_eq_ok.1 h
    rw [Tree.reaches, hfound]
  rw [load, if_pos hreaches, h]

/-- What is loaded is a file that can be read. -/
theorem read_of_load (h : load t locate environment way path = .ok s) :
    ∃ bytes, t.read way = .ok bytes := by
  unfold load at h
  split at h
  · split at h
    · cases h
    · rename_i bytes hbytes
      exact ⟨bytes, hbytes⟩
  · cases h

theorem load_of_entriesOf (h : t.read way = .ok bytes) (hentries : entriesOf bytes = .error e) :
    load t locate environment way path = .error e := by
  rw [load_of_read h]
  exact bind_eq_error.2 (.inl hentries)

theorem load_of_refusal (h : t.read way = .ok bytes) {entries : List (Value × Value)} {r : Refusal}
    (hentries : entriesOf bytes = .ok entries) (hread : read locate environment entries = .error r) :
    load t locate environment way path = .error (.refused path r) := by
  rw [load_of_read h]
  exact bind_eq_error.2 (.inr ⟨entries, hentries, mapError_eq_error.2 ⟨r, hread, rfl⟩⟩)

/-- What escapes is what loading ends in, and it is not reported. -/
theorem load_of_escapes (h : t.read way = .ok bytes)
    (hescapes : Escapes locate environment path bytes e) :
    load t locate environment way path = .error e ∧ isReportedSettings e = false := by
  cases hescapes with
  | undecodable htext =>
    refine ⟨load_of_entriesOf h ?_, rfl⟩
    rw [entriesOf, readFile_eq_undecodable.2 htext]
  | noSuchValue htext hyaml =>
    refine ⟨load_of_entriesOf h ?_, rfl⟩
    rw [entriesOf, readFile_eq_yaml.2 ⟨_, htext, hyaml⟩]
  | oversight htext hyaml =>
    refine ⟨load_of_entriesOf h ?_, rfl⟩
    rw [entriesOf, readFile_eq_yaml.2 ⟨_, htext, hyaml⟩]
  | @badKey entries entry hentries hmem hkey =>
    refine ⟨load_of_entriesOf h ?_, rfl⟩
    have hkeys : (entries.all fun e => isTextKey e.1) = false :=
      List.all_eq_false.2 ⟨entry, hmem, by simp [hkey]⟩
    rw [entriesOf, hentries]
    simp only [hkeys, Bool.false_eq_true, if_false]
  | environment hentries hvalues =>
    exact ⟨load_of_refusal h hentries (read_eq_environment hvalues), rfl⟩
  | directory hentries hvalues hfault =>
    exact ⟨load_of_refusal h hentries (read_eq_directory hvalues hfault), rfl⟩

/-- A loading that fails is reported, or it breaks off. -/
theorem load_eq_error (h : t.read way = .ok bytes)
    (hload : load t locate environment way path = .error e) :
    isReportedSettings e = true ∨ Escapes locate environment path bytes e := by
  rw [load_of_read h] at hload
  rcases bind_eq_error.1 hload with hentries | ⟨entries, hentries, hread⟩
  · exact entriesOf_eq_error hentries
  · obtain ⟨r, hr, rfl⟩ := mapError_eq_error.1 hread
    rcases read_eq_error hentries hr with ⟨issues, rfl⟩ | hescapes
    · exact .inl rfl
    · exact .inr hescapes

/-- Settings that are loaded are accepted. -/
theorem accepted_of_load (h : t.read way = .ok bytes)
    (hload : load t locate environment way path = .ok s) :
    s.Accepted ∧ ∀ d, s.definitions.directory = some d → ∃ text, locate text = .ok d := by
  rw [load_of_read h] at hload
  obtain ⟨entries, -, hread⟩ := bind_eq_ok.1 hload
  exact accepted_of_read (mapError_eq_ok.1 hread)

/-- **Loading.** A file that can be read ends in accepted settings or in an error that is reported,
unless loading breaks off, which it does exactly with the errors that escape. -/
theorem loading_ends (locate : Locator) (environment : Environment.Variables) (path : String)
    (h : t.read way = .ok bytes) :
    ((∃ s, load t locate environment way path = .ok s ∧ s.Accepted ∧
        ∀ d, s.definitions.directory = some d → ∃ text, locate text = .ok d) ∨
      (∃ e, load t locate environment way path = .error e ∧ isReportedSettings e = true) ∨
      ∃ e, load t locate environment way path = .error e ∧
        Escapes locate environment path bytes e) ∧
    ∀ e, Escapes locate environment path bytes e →
      load t locate environment way path = .error e ∧ isReportedSettings e = false := by
  refine ⟨?_, fun e hescapes => load_of_escapes h hescapes⟩
  cases hload : load t locate environment way path with
  | ok s => exact .inl ⟨s, rfl, accepted_of_load h hload⟩
  | error e =>
    rcases load_eq_error h hload with hreported | hescapes
    · exact .inr (.inl ⟨e, rfl, hreported⟩)
    · exact .inr (.inr ⟨e, rfl, hescapes⟩)

/-- A directory with one file with settings. -/
def oneFile (bytes : List UInt8) : Tree := .directory [("c.yaml", .file bytes)]

/-- A file with three sections. -/
def threeSections : List UInt8 := Utf8.encode <|
  "definitions:\n  directory: d\nanalysis:\n  include_files: true\nsampling:\n  max_bytes: 2048".toList

/-- A file in which a bound is too small. -/
def smallBound : List UInt8 := Utf8.encode "sampling:\n  max_bytes: 1".toList

/-- Directories are looked up below one. -/
def belowHome : Locator := fun text => .ok ("/home/" ++ text)

/-- A file with entries is loaded, beside a variable, and a file with a refused entry is reported. -/
theorem threeSections_loaded :
    let environment := [("CODELINGO_ANALYSIS__MAX_WORKERS", "2")]
    (oneFile threeSections).read ["c.yaml"] = .ok threeSections ∧
    (∃ s, load (oneFile threeSections) belowHome environment ["c.yaml"] "c.yaml" = .ok s ∧
      s.Accepted ∧ s.sampling = ⟨2048⟩ ∧
      s.analysis = { maxWorkers := 2, includeFiles := true } ∧
      s.definitions.directory = some "/home/d" ∧ ∃ text, belowHome text = .ok "/home/d") ∧
    (∀ e, ¬Escapes belowHome environment "c.yaml" threeSections e) ∧
    (oneFile smallBound).read ["c.yaml"] = .ok smallBound ∧
    ∃ e, load (oneFile smallBound) belowHome environment ["c.yaml"] "c.yaml" = .error e ∧
      isReportedSettings e = true := by
  intro environment
  have hread : (oneFile threeSections).read ["c.yaml"] = .ok threeSections := rfl
  have hread' : (oneFile smallBound).read ["c.yaml"] = .ok smallBound := rfl
  have hvalues : (load (oneFile threeSections) belowHome environment ["c.yaml"] "c.yaml").toOption.map
      (fun s => (s.sampling, s.analysis, s.definitions.directory)) =
      some (⟨2048⟩, { maxWorkers := 2, includeFiles := true }, some "/home/d") := by decide +kernel
  obtain ⟨s, hs, hvalues⟩ := Option.map_eq_some_iff.1 hvalues
  have hload := toOption_eq_some.1 hs
  simp only [Prod.mk.injEq] at hvalues
  obtain ⟨hsampling, hanalysis, hdirectory⟩ := hvalues
  obtain ⟨hends, hescapes⟩ := loading_ends belowHome environment "c.yaml" hread
  have hno (e : LoadError) : ¬Escapes belowHome environment "c.yaml" threeSections e := fun he =>
    nomatch hload.symm.trans (hescapes e he).1
  refine ⟨hread, ?_, hno, hread', ?_⟩
  · rcases hends with ⟨s', hs', haccepted, hlocated⟩ | ⟨e, he, -⟩ | ⟨e, -, he⟩
    · obtain rfl := Except.ok.inj (hload.symm.trans hs')
      exact ⟨s, hload, haccepted, hsampling, hanalysis, hdirectory, hlocated _ hdirectory⟩
    · cases hload.symm.trans he
    · exact absurd he (hno e)
  · have hend : (match load (oneFile smallBound) belowHome environment ["c.yaml"] "c.yaml" with
      | .ok _ => false
      | .error e => isReportedSettings e) = true := by decide +kernel
    obtain ⟨hends', hescapes'⟩ := loading_ends belowHome environment "c.yaml" hread'
    rcases hends' with ⟨s, hs, -⟩ | hreported | ⟨e, he, hescaped⟩
    · rw [hs] at hend
      cases hend
    · exact hreported
    · rw [he] at hend
      cases hend.symm.trans (hescapes' e hescaped).2

/-- A single octet that is no text escapes, although the file is there and can be read. -/
theorem undecodable_escapes : ¬∀ (t : Tree) (locate : Locator) (environment : Environment.Variables)
    (way : List String) (path : String) (bytes : List UInt8), t.read way = .ok bytes →
      (∃ s, load t locate environment way path = .ok s ∧ s.Accepted) ∨
      ∃ e, load t locate environment way path = .error e ∧ isReportedSettings e = true := by
  intro h
  have hload : load (oneFile [0xFF]) .ok [] ["c.yaml"] "c.yaml" = .error .undecodable := rfl
  rcases h (oneFile [0xFF]) .ok [] ["c.yaml"] "c.yaml" [0xFF] rfl with ⟨s, hs, -⟩ | ⟨e, he, hreported⟩
  · cases hload.symm.trans hs
  · obtain rfl := Except.error.inj (hload.symm.trans he)
    cases hreported

end Settings

namespace CommandLine

open Settings

/-- **A command line** breaks off over its settings exactly where loading them does. -/
theorem settings_crash_iff {s : Surroundings} {text : String} {bytes : List UInt8}
    (h : s.tree.read (s.way (Path.ofString text)) = .ok bytes) :
    (∃ c, s.settings (some text) = .error (.crash c)) ↔
      ∃ e, Escapes s.locator s.environment (Path.ofString text).toString bytes e := by
  unfold Surroundings.settings
  dsimp only
  constructor
  · rintro ⟨c, hc⟩
    obtain ⟨e, he, hcrash⟩ := mapError_eq_error.1 hc
    refine ⟨e, (load_eq_error h he).resolve_left fun hreported => ?_⟩
    rw [if_pos hreported] at hcrash
    cases hcrash
  · rintro ⟨e, hescapes⟩
    obtain ⟨he, hreported⟩ := load_of_escapes h hescapes
    refine ⟨.settingsFile e, mapError_eq_error.2 ⟨e, he, ?_⟩⟩
    rw [hreported]
    rfl

end CommandLine

end LangId
