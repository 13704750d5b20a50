import LangId.Classifier.Model
import LangId.Proofs.Tables

/-!
# What a tally holds

A tally keeps its keys in the order in which they first came up, but what is found in it
(`contents`) does not depend on this order. All counts come in by `addAll`, those of training texts
too (`train_eq_addAll`), and adding is one step on the contents (`contents_add`) that commutes with
every other one (`plus_comm`).

**Results.**
* `contents_addAll`: what is found after counts have been added, one step for each of them.
* `alike_of_contents`: two tallies with the same contents make models that are alike.
-/
namespace LangId

/-- What is found under each key. -/
abbrev Contents := String → Option Int

/-- What is found after a count has been added. -/
def Contents.plus (c : Contents) (entry : String × Int) : Contents := fun k =>
  if k = entry.1 then some ((c k).getD 0 + entry.2) else c k

theorem Contents.plus_comm (c : Contents) (a b : String × Int) :
    (c.plus a).plus b = (c.plus b).plus a := by
  funext k
  unfold plus
  by_cases ha : k = a.1
  · by_cases hb : k = b.1
    · rw [if_pos hb, if_pos ha, if_pos ha, if_pos hb, Option.getD_some, Option.getD_some]
      congr 1
      omega
    · rw [if_neg hb, if_pos ha, if_pos ha, if_neg hb]
  · by_cases hb : k = b.1
    · rw [if_pos hb, if_neg ha, if_neg ha, if_pos hb]
    · rw [if_neg hb, if_neg ha, if_neg ha, if_neg hb]

namespace Tally

theorem add_ne_nil {κ : Type} [BEq κ] (t : Tally κ) (key : κ) (n : Int) : t.add key n ≠ [] := by
  cases t with
  | nil => exact List.cons_ne_nil _ _
  | cons entry rest =>
    rw [add]
    split <;> exact List.cons_ne_nil _ _

variable {t u : Tally String}

/-- What is found in a tally. -/
def contents (t : Tally String) : Contents := fun k => t.lookup k

theorem add_eq_upsert (t : Tally String) (key : String) (n : Int) :
    t.add key n = Table.upsert key (fun m => m.getD 0 + n) t := by
  induction t with
  | nil => simp [add, Table.upsert]
  | cons entry rest ih => simp [add, Table.upsert, ih]

/-- **One count.** -/
theorem contents_add (t : Tally String) (key : String) (n : Int) :
    (t.add key n).contents = t.contents.plus (key, n) := by
  funext k
  rw [contents, add_eq_upsert, Table.lookup_upsert, Contents.plus]
  split
  · rename_i h
    rw [h]
    rfl
  · rfl

/-- **All counts.** -/
theorem contents_addAll (t : Tally String) (entries : List (String × Int)) :
    (t.addAll entries).contents = entries.foldl Contents.plus t.contents := by
  induction entries generalizing t with
  | nil => rfl
  | cons entry rest ih =>
    rw [List.foldl_cons, ← contents_add]
    exact ih (t.add entry.1 entry.2)

/-! ## Keys -/

/-- No key comes twice. -/
theorem nodup_addAll (h : (t.map (·.1)).Nodup) (entries : List (String × Int)) :
    ((t.addAll entries).map (·.1)).Nodup := by
  induction entries generalizing t with
  | nil => exact h
  | cons entry rest ih =>
    have hstep : ((t.add entry.1 entry.2).map (·.1)).Nodup := by
      rw [add_eq_upsert]
      exact Table.nodup_upsert h
    exact ih hstep

theorem isEmpty_of_contents (h : t.contents = u.contents) : t.isEmpty = u.isEmpty := by
  rw [Bool.eq_iff_iff, List.isEmpty_iff, List.isEmpty_iff, Table.eq_nil_iff_lookup,
    Table.eq_nil_iff_lookup]
  exact iff_of_eq (congrArg (fun c : Contents => ∀ k, c k = none) h)

theorem total_of_perm (h : t.Perm u) : t.total = u.total := by
  rw [total, total]
  exact (h.map _).foldl_eq' (fun a _ b _ c => Int.add_right_comm c a b) 0

end Tally

namespace Model

/-- Training adds one for each token. -/
theorem train_eq_addAll (bound : Nat) (t : Tally String) (samples : List (List Char)) :
    train bound t samples =
      t.addAll (samples.flatMap fun s => (Token.tokenize s bound).map fun token => (token, 1)) := by
  induction samples generalizing t with
  | nil => rfl
  | cons sample rest ih =>
    have hstep : train bound t (sample :: rest) =
        train bound (t.addEach (Token.tokenize sample bound)) rest := rfl
    rw [hstep, ih, List.flatMap_cons, Tally.addAll, Tally.addAll, List.foldl_append, Tally.addEach,
      List.foldl_map]

/-- Two models that differ at most in the order in which their tokens first came up. -/
structure Alike (a b : Model) : Prop where
  language : a.language = b.language
  counts : a.counts.contents = b.counts.contents
  total : a.total = b.total

theorem Alike.refl (m : Model) : m.Alike m := ⟨rfl, rfl, rfl⟩

theorem Alike.symm {a b : Model} (h : a.Alike b) : b.Alike a :=
  ⟨h.language.symm, h.counts.symm, h.total.symm⟩

theorem Alike.count {a b : Model} (h : a.Alike b) (token : String) :
    a.count token = b.count token := congrArg (Option.getD · 0) (congrFun h.counts token)

/-- The tokens of models that are alike are the same. -/
theorem Alike.mem_tokens {a b : Model} (h : a.Alike b) {token : String} :
    token ∈ a.counts.map (·.1) ↔ token ∈ b.counts.map (·.1) := by
  rw [← Decidable.not_iff_not, ← Table.lookup_eq_none, ← Table.lookup_eq_none]
  exact iff_of_eq (congrArg (· = none) (congrFun h.counts token))

theorem ofCounts_eq_ok {name : String} {t : Tally String} {m : Model}
    (h : ofCounts name t = .ok m) :
    m = ⟨name, t.filter (·.2 != 0), Tally.total (t.filter (·.2 != 0))⟩ := by
  unfold ofCounts at h
  dsimp only at h
  split at h
  · exact (Except.ok.inj h).symm
  · cases h

/-- The models of two tallies with the same contents. -/
theorem alike_of_contents {name : String} {t u : Tally String} {a b : Model}
    (ht : (t.map (·.1)).Nodup) (hu : (u.map (·.1)).Nodup) (h : t.contents = u.contents)
    (ha : ofCounts name t = .ok a) (hb : ofCounts name u = .ok b) : a.Alike b := by
  obtain rfl := ofCounts_eq_ok ha
  obtain rfl := ofCounts_eq_ok hb
  have hperm : (t.filter (·.2 != 0)).Perm (u.filter (·.2 != 0)) :=
    (Table.perm_of_lookup ht hu fun k => congrFun h k).filter _
  have hkept : ((t.filter (·.2 != 0)).map (·.1)).Nodup :=
    ht.sublist (List.filter_sublist.map _)
  exact ⟨rfl, funext fun k => Table.lookup_of_perm hkept hperm, Tally.total_of_perm hperm⟩

end Model

end LangId
