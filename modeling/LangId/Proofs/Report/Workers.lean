import LangId.Proofs.Report.Analysis

/-!
# Analyses by several workers

The files of an analysis are evaluated by a pool of workers, as many as the settings ask for, while
their outcomes are merged in the order of the paths. `Identifier.Step` lists what can happen next in a
pool; which of it does is not up to the program. `Identifier.Settles` leaves the choice open: whatever
happens next, and whatever after that, the pool comes to an end, and to the same one.

**Invariant.** What a worker has found out about a path is what evaluating the path comes to (`Sound`),
so that the report that is still to come (`awaited`) is not changed by any step.

**Results.**
* `exists_step`: a pool with a worker is never stuck, and `load_lt`: it does not go on for ever.
* `settles_analyze`: a pool ends as an analysis that evaluates one path after the other.
-/
namespace LangId

/-- How far a pool has come with a path. -/
inductive Progress where
  | waiting
  | running
  | evaluated (result : Except ScoreError Outcome)

namespace Progress

def isWaiting : Progress → Bool
  | waiting => true
  | _ => false

def isRunning : Progress → Bool
  | running => true
  | _ => false

/-- How many steps are left to take with a path. -/
def load : Progress → Nat
  | waiting => 3
  | running => 2
  | evaluated _ => 1

end Progress

/-- A pool of workers in the middle of an analysis. -/
structure Pool where
  /-- The paths that are still to be merged, in their order. -/
  jobs : List (String × Progress)
  /-- The report on all paths before these. -/
  report : Report

namespace Pool

/-- A pool in which all paths wait. -/
def start (paths : List String) : Pool where
  jobs := (paths.map Path.canonical).map fun path => (path, .waiting)
  report := {}

/-- How many workers are busy. -/
def busy (p : Pool) : Nat := p.jobs.countP (·.2.isRunning)

/-- How many steps are left to take with some paths. -/
def left : List (String × Progress) → Nat
  | [] => 0
  | (_, progress) :: rest => progress.load + left rest

/-- How many steps are left to take. -/
def load (p : Pool) : Nat := left p.jobs

end Pool

namespace Identifier

variable (i : Identifier) (provider : Provider)

/-- Adds to a report what a worker has found out. -/
def collect (r : Report) : Except ScoreError Outcome → Except Interruption Report
  | .error e => .error (.score e)
  | .ok o => (r.merge i.settings.analysis o).mapError .unreadable

/-- What can happen next in a pool. -/
inductive Step : Pool → Pool → Prop
  /-- A worker that is free begins with the first path that waits. -/
  | take {front behind : List (String × Progress)} {path : String} {r : Report}
      (first : ∀ job ∈ front, job.2.isWaiting = false)
      (free : Pool.busy ⟨front ++ (path, .waiting) :: behind, r⟩ < i.settings.analysis.maxWorkers) :
      Step ⟨front ++ (path, .waiting) :: behind, r⟩ ⟨front ++ (path, .running) :: behind, r⟩
  /-- A worker is done with a path, whether or not with those before it. -/
  | finish {front behind : List (String × Progress)} {path : String} {r : Report} :
      Step ⟨front ++ (path, .running) :: behind, r⟩
        ⟨front ++ (path, .evaluated (i.evaluate path provider)) :: behind, r⟩
  /-- The outcome of the first path is merged. -/
  | merge {behind : List (String × Progress)} {path : String} {r r' : Report}
      {result : Except ScoreError Outcome} (merged : i.collect r result = .ok r') :
      Step ⟨(path, .evaluated result) :: behind, r⟩ ⟨behind, r'⟩

/-- How a pool has ended, if it has: all paths are merged, or the outcome of the first one ends the
analysis. -/
def ending? : Pool → Option (Except Interruption Report)
  | ⟨[], r⟩ => some (.ok r)
  | ⟨(_, .evaluated result) :: _, r⟩ =>
    match i.collect r result with
    | .error e => some (.error e)
    | .ok _ => none
  | _ => none

/-- Whatever steps are taken, the pool ends, and in this way. -/
inductive Settles : Pool → Except Interruption Report → Prop
  | ended {p : Pool} {result : Except Interruption Report} (done : i.ending? p = some result) :
      Settles p result
  | step {p : Pool} {result : Except Interruption Report} (unended : i.ending? p = none)
      (next : ∃ q, i.Step provider p q) (all : ∀ q, i.Step provider p q → Settles q result) :
      Settles p result

/-- What the workers of a pool have found out is what evaluating the paths comes to. -/
def Sound (p : Pool) : Prop :=
  ∀ job ∈ p.jobs, ∀ result, job.2 = .evaluated result → result = i.evaluate job.1 provider

/-- The report that a pool is to end with. -/
def awaited (p : Pool) : Except Interruption Report :=
  (p.jobs.map (·.1)).foldlM (i.add provider) p.report

variable {i provider} {p q : Pool} {result result' : Except Interruption Report}
  {paths : List String}

theorem add_eq_collect (r : Report) (path : String) :
    i.add provider r path = i.collect r (i.evaluate path provider) := by
  unfold add collect
  cases i.evaluate path provider <;> rfl

/-! ## One step -/

theorem sound_start : i.Sound provider (Pool.start paths) := by
  intro job hjob result hresult
  obtain ⟨path, -, rfl⟩ := List.mem_map.1 hjob
  cases hresult

theorem sound_step (h : i.Sound provider p) (hstep : i.Step provider p q) :
    i.Sound provider q := by
  cases hstep with
  | take _ _ =>
    rw [Sound] at h ⊢
    simp only [List.forall_mem_append, List.forall_mem_cons] at h ⊢
    exact ⟨h.1, nofun, h.2.2⟩
  | finish =>
    rw [Sound] at h ⊢
    simp only [List.forall_mem_append, List.forall_mem_cons] at h ⊢
    exact ⟨h.1, fun _ hresult => (Progress.evaluated.inj hresult).symm, h.2.2⟩
  | merge _ => exact (List.forall_mem_cons.1 h).2

/-- No step changes the report that is to come. -/
theorem awaited_step (h : i.Sound provider p) (hstep : i.Step provider p q) :
    i.awaited provider q = i.awaited provider p := by
  cases hstep with
  | take _ _ => simp only [awaited, List.map_append, List.map_cons]
  | finish => simp only [awaited, List.map_append, List.map_cons]
  | @merge behind path r r' found merged =>
    obtain rfl : found = i.evaluate path provider :=
      (List.forall_mem_cons.1 h).1 found rfl
    rw [awaited, awaited, List.map_cons, List.foldlM_cons, add_eq_collect, merged]
    rfl

theorem awaited_ending (h : i.Sound provider p) (hend : i.ending? p = some result) :
    i.awaited provider p = result := by
  unfold ending? at hend
  split at hend
  · exact Option.some.inj hend
  · rename_i path found behind r
    obtain rfl : found = i.evaluate path provider :=
      (List.forall_mem_cons.1 h).1 found rfl
    split at hend
    · rename_i e he
      obtain rfl := Option.some.inj hend
      rw [awaited, List.map_cons, List.foldlM_cons, add_eq_collect, he]
      rfl
    · cases hend
  · cases hend

/-- A pool with a worker that has not ended can take a step: a busy worker finishes, or a free one
begins, or the first outcome is merged. -/
theorem exists_step (hw : 0 < i.settings.analysis.maxWorkers) (hunended : i.ending? p = none) :
    ∃ q, i.Step provider p q := by
  obtain ⟨jobs, r⟩ := p
  by_cases hrunning : ∃ job ∈ jobs, job.2.isRunning = true
  · obtain ⟨⟨path, state⟩, hmem, hstate⟩ := hrunning
    cases state with
    | running =>
      obtain ⟨front, behind, rfl⟩ := List.append_of_mem hmem
      exact ⟨_, .finish⟩
    | _ => cases hstate
  · have hidle : ∀ job ∈ jobs, ¬job.2.isRunning = true := fun job hjob hr => hrunning ⟨job, hjob, hr⟩
    cases hfirst : jobs.find? (·.2.isWaiting) with
    | some job =>
      obtain ⟨hwaiting, front, behind, rfl, hfront⟩ := List.find?_eq_some_iff_append.1 hfirst
      obtain ⟨path, state⟩ := job
      cases state with
      | waiting =>
        refine ⟨_, .take (fun job hjob => by simpa using hfront job hjob) ?_⟩
        rwa [Pool.busy, List.countP_eq_zero.2 hidle]
      | _ => cases hwaiting
    | none =>
      cases jobs with
      | nil => cases hunended
      | cons job behind =>
        obtain ⟨path, state⟩ := job
        cases state with
        | waiting => exact absurd rfl (List.find?_eq_none.1 hfirst _ List.mem_cons_self)
        | running => exact absurd rfl (hidle _ List.mem_cons_self)
        | evaluated found =>
          unfold ending? at hunended
          dsimp only at hunended
          cases hc : i.collect r found with
          | error e =>
            rw [hc] at hunended
            cases hunended
          | ok r' => exact ⟨_, .merge hc⟩

theorem left_append (jobs jobs' : List (String × Progress)) :
    Pool.left (jobs ++ jobs') = Pool.left jobs + Pool.left jobs' := by
  induction jobs with
  | nil => exact (Nat.zero_add _).symm
  | cons job jobs ih =>
    rw [List.cons_append, Pool.left, Pool.left, ih, Nat.add_assoc]

/-- Every step brings a pool nearer to its end. -/
theorem load_lt (hstep : i.Step provider p q) : q.load < p.load := by
  cases hstep with
  | take _ _ =>
    simp only [Pool.load, left_append, Pool.left, Progress.load]
    omega
  | finish =>
    simp only [Pool.load, left_append, Pool.left, Progress.load]
    omega
  | merge _ =>
    simp only [Pool.load, Pool.left, Progress.load]
    omega

/-! ## All steps -/

/-- There is only one way in which a pool can settle. -/
theorem Settles.unique (h : i.Settles provider p result) (h' : i.Settles provider p result') :
    result = result' := by
  induction h with
  | ended done =>
    cases h' with
    | ended done' => exact Option.some.inj (done.symm.trans done')
    | step unended _ _ => cases done.symm.trans unended
  | step unended next _ ih =>
    cases h' with
    | ended done => cases done.symm.trans unended
    | step _ _ all =>
      obtain ⟨q, hq⟩ := next
      exact ih q hq (all q hq)

/-- A pool ends as it is to, whichever steps are taken. -/
theorem settles_awaited (hw : 0 < i.settings.analysis.maxWorkers) (h : i.Sound provider p) :
    i.Settles provider p (i.awaited provider p) := by
  induction hn : p.load using Nat.strongRecOn generalizing p with
  | ind n ih =>
    cases hend : i.ending? p with
    | some result =>
      rw [awaited_ending h hend]
      exact .ended hend
    | none =>
      refine .step hend (exists_step hw hend) fun q hq => ?_
      rw [← awaited_step h hq]
      exact ih q.load (hn ▸ load_lt hq) (sound_step h hq) rfl

/-- **Workers.** However many workers there are, and whichever of them is done first, the analysis
ends as if the paths were evaluated one after the other. -/
theorem settles_analyze (hw : 0 < i.settings.analysis.maxWorkers) :
    i.Settles provider (Pool.start paths) (i.analyze paths provider) := by
  have hawaited : i.awaited provider (Pool.start paths) = i.analyze paths provider := by
    simp only [awaited, analyze, Pool.start, List.map_map, Function.comp_def]
  rw [← hawaited]
  exact settles_awaited hw sound_start

end Identifier

end LangId
