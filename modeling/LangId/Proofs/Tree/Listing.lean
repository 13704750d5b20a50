import LangId.Proofs.Tree.Scanning

/-!
# Listings of directories

The entries of a directory are listed in no particular order. Two trees hold the same if the same
stands at every place of them (`Tree.SameContents`), however their directories are listed. Nothing
that is read from a tree tells them apart, and since a walk brings names in order, neither does a
scan (`Scanner.ofTree_congr`, `Scanner.paths_congr`).
-/
namespace LangId.Tree

/-- What stands at one place of two trees is the same; directories may hold different entries. -/
inductive Alike : Option Tree → Option Tree → Prop
  | missing : Alike none none
  | file (bytes : List UInt8) : Alike (some (.file bytes)) (some (.file bytes))
  | link (target : String) : Alike (some (.link target)) (some (.link target))
  | directory (entries entries' : List (String × Tree)) :
      Alike (some (.directory entries)) (some (.directory entries'))

/-- Two trees hold the same. -/
def SameContents (t t' : Tree) : Prop := ∀ p, Alike (t.at? p) (t'.at? p)

variable {t t' d : Tree} {entries entries' : List (String × Tree)} {p way : Place} {name : String}

theorem Alike.refl : ∀ x : Option Tree, Alike x x
  | none => .missing
  | some (.file bytes) => .file bytes
  | some (.link target) => .link target
  | some (.directory entries) => .directory entries entries

/-- A directory can be listed in another order. -/
theorem Wellformed.of_perm (ht : (Tree.directory entries).Wellformed)
    (hperm : entries.Perm entries') : (Tree.directory entries').Wellformed := by
  cases ht with
  | directory nodup names below =>
    refine .directory ((hperm.map _).nodup_iff.1 nodup) ?_ ?_
    · exact fun e he => names e (hperm.mem_iff.2 he)
    · exact fun e he => below e (hperm.mem_iff.2 he)

theorem sameContents_of_perm (ht : (directory entries).Wellformed)
    (hperm : entries.Perm entries') : SameContents (.directory entries) (.directory entries')
  | [] => .directory entries entries'
  | name :: p => by
    have hentry : Tree.entry? (directory entries) name = Tree.entry? (directory entries') name := by
      cases ht with
      | directory nodup => exact Table.lookup_of_perm nodup hperm
    rw [at?_cons, at?_cons, hentry]
    exact .refl _

theorem Alike.exists_eq_some {x : Option Tree} (h : Alike (some d) x) : ∃ d', x = some d' := by
  cases h with
  | _ => exact ⟨_, rfl⟩

theorem Alike.symm {x y : Option Tree} (h : Alike x y) : Alike y x := by
  cases h with
  | missing => exact .missing
  | file bytes => exact .file bytes
  | link target => exact .link target
  | directory entries entries' => exact .directory entries' entries

/-- What two trees that hold the same have at a place holds the same. -/
theorem SameContents.at (h : SameContents t t') (hd : t.at? p = some d) :
    ∃ d', t'.at? p = some d' ∧ SameContents d d' := by
  obtain ⟨d', hd'⟩ : ∃ d', t'.at? p = some d' := (hd ▸ h p).exists_eq_some
  refine ⟨d', hd', fun q => ?_⟩
  have hq := h (p ++ q)
  rw [at?_append, at?_append, hd, hd'] at hq
  exact hq

theorem SameContents.symm (h : SameContents t t') : SameContents t' t := fun p => (h p).symm

/-! ## Ways -/

section Ways

variable {here : Place} {onward : Place → List String → Except Fault Place}

theorem SameContents.goWith (h : SameContents t t') :
    t.goWith onward here way = t'.goWith onward here way := by
  induction way generalizing here with
  | nil => rw [Tree.goWith, Tree.goWith]
  | cons name rest ih =>
    by_cases habove : name = ".."
    · subst habove
      rw [Tree.goWith, Tree.goWith]
      exact ih
    · rw [goWith.eq_3 _ _ _ _ _ habove, goWith.eq_3 _ _ _ _ _ habove]
      have hthere := h (here ++ [name])
      generalize t.at? (here ++ [name]) = x, t'.at? (here ++ [name]) = y at hthere
      cases hthere with
      | directory => exact ih
      | _ => rfl

theorem SameContents.go (h : SameContents t t') (links : Nat) : t.go links = t'.go links := by
  induction links with
  | zero => exact funext fun here => funext fun way => h.goWith
  | succ links ih =>
    funext here way
    rw [Tree.go, Tree.go, ih]
    exact h.goWith

theorem SameContents.resolveWith (h : SameContents t t') :
    t.resolveWith onward here way = t'.resolveWith onward here way := by
  induction way generalizing here with
  | nil => rw [Tree.resolveWith, Tree.resolveWith]
  | cons name rest ih =>
    by_cases habove : name = ".."
    · subst habove
      rw [Tree.resolveWith, Tree.resolveWith]
      exact ih
    · rw [resolveWith.eq_3 _ _ _ _ _ habove, resolveWith.eq_3 _ _ _ _ _ habove]
      have hthere := h (here ++ [name])
      generalize t.at? (here ++ [name]) = x, t'.at? (here ++ [name]) = y at hthere
      cases hthere with
      | link target =>
        dsimp only
        split
        · exact ih
        · rfl
      | _ => exact ih

theorem SameContents.resolveWithin (h : SameContents t t') (depth : Nat) :
    t.resolveWithin depth = t'.resolveWithin depth := by
  induction depth with
  | zero => exact funext fun here => funext fun way => h.resolveWith
  | succ depth ih =>
    funext here way
    rw [Tree.resolveWithin, Tree.resolveWithin, ih]
    exact h.resolveWith

end Ways

/-- What a way leads to, in two trees. -/
theorem SameContents.find (h : SameContents t t') (way : List String) :
    (∃ f, t.find way = .error f ∧ t'.find way = .error f) ∨
      ∃ d d', t.find way = .ok d ∧ t'.find way = .ok d' ∧ Alike (some d) (some d') := by
  have hlocate : t.locate way = t'.locate way := by
    rw [locate, locate, h.go]
  cases hplace : t'.locate way with
  | error f =>
    exact .inl ⟨f, by rw [Tree.find, hlocate, hplace]; rfl, by rw [Tree.find, hplace]; rfl⟩
  | ok place =>
    have hfind (t : Tree) (heq : t.locate way = .ok place) :
        t.find way = (t.at? place).elim (Except.error .missing) Except.ok := by
      rw [Tree.find, heq]
      cases hat : t.at? place with
      | some d => exact bind_eq_ok.2 ⟨place, rfl, by rw [hat]; rfl⟩
      | none => exact bind_eq_error.2 (.inr ⟨place, rfl, by rw [hat]; rfl⟩)
    rw [hfind t (hlocate.trans hplace), hfind t' hplace]
    have hthere := h place
    generalize t.at? place = x, t'.at? place = y at hthere
    cases hthere with
    | missing => exact .inl ⟨_, rfl, rfl⟩
    | file bytes => exact .inr ⟨_, _, rfl, rfl, .file bytes⟩
    | link target => exact .inr ⟨_, _, rfl, rfl, .link target⟩
    | directory entries entries' => exact .inr ⟨_, _, rfl, rfl, .directory entries entries'⟩

theorem SameContents.reaches (h : SameContents t t') (way : List String) :
    t.reaches way = t'.reaches way := by
  rw [Tree.reaches, Tree.reaches]
  rcases h.find way with ⟨f, heq, heq'⟩ | ⟨d, d', heq, heq', -⟩
  · rw [heq, heq']
  · rw [heq, heq']

theorem SameContents.read (h : SameContents t t') (way : List String) :
    t.read way = t'.read way := by
  rw [Tree.read, Tree.read]
  rcases h.find way with ⟨f, heq, heq'⟩ | ⟨d, d', heq, heq', halike⟩
  · rw [heq, heq']
  · rw [heq, heq']
    cases halike with
    | _ => rfl

/-! ## Links -/

theorem linksBelow_perm (h : entries.Perm entries') : linksBelow entries = linksBelow entries' := by
  induction h with
  | nil => rfl
  | cons e _ ih => rw [linksBelow, linksBelow, ih]
  | swap e e' rest =>
    rw [linksBelow, linksBelow, linksBelow, linksBelow]
    omega
  | trans _ _ ih ih' => exact ih.trans ih'

theorem linksBelow_map {f : String → Tree → Tree}
    (h : ∀ e ∈ entries, (f e.1 e.2).links = e.2.links) :
    linksBelow (entries.map fun e => (e.1, f e.1 e.2)) = linksBelow entries := by
  induction entries with
  | nil => rfl
  | cons e entries ih =>
    obtain ⟨he, hentries⟩ := List.forall_mem_cons.1 h
    rw [List.map_cons, linksBelow, linksBelow, he, ih hentries]

theorem SameContents.lookup (h : SameContents (.directory entries) (.directory entries'))
    (hd : entries.lookup name = some d) :
    ∃ d', entries'.lookup name = some d' ∧ SameContents d d' := by
  have hat : (directory entries).at? [name] = some d := at?_singleton.trans hd
  obtain ⟨d', hd', hsame⟩ := h.at hat
  exact ⟨d', at?_singleton.symm.trans hd', hsame⟩

/-- Entries can be brought into the order in which another tree lists them. -/
theorem SameContents.perm (hnodup : (entries.map (·.1)).Nodup)
    (hnodup' : (entries'.map (·.1)).Nodup)
    (h : SameContents (.directory entries) (.directory entries')) :
    entries.Perm (entries'.map fun e => (e.1, (entries.lookup e.1).getD e.2)) := by
  have hnames : ((entries'.map fun e => (e.1, (entries.lookup e.1).getD e.2)).map (·.1)).Nodup := by
    rwa [List.map_map]
  refine Table.perm_of_lookup hnodup hnames fun name => ?_
  rw [Table.lookup_map fun name e => (entries.lookup name).getD e]
  cases hd : entries.lookup name with
  | some d =>
    obtain ⟨d', hd', -⟩ := h.lookup hd
    rw [hd']
    rfl
  | none =>
    cases hd' : entries'.lookup name with
    | some d' =>
      obtain ⟨d, hsome, -⟩ := h.symm.lookup hd'
      cases hd.symm.trans hsome
    | none => rfl

/-- As many links stand in the one tree as in the other. -/
theorem SameContents.links (ht : t.Wellformed) (ht' : t'.Wellformed) (h : SameContents t t') :
    t.links = t'.links := by
  have htop := h []
  rw [at?_nil, at?_nil] at htop
  induction ht generalizing t' with
  | @directory entries nodup names below ih =>
    cases htop with
    | directory _ entries' =>
      cases ht' with
      | directory nodup' names' below' =>
        rw [Tree.links, Tree.links, linksBelow_perm (h.perm nodup nodup')]
        refine linksBelow_map (f := fun name e => (entries.lookup name).getD e) fun e' hmem' => ?_
        obtain ⟨d, hd, hsame⟩ := h.symm.lookup ((Table.mem_iff_lookup nodup').1 hmem')
        have hmem : (e'.1, d) ∈ entries := (Table.mem_iff_lookup nodup).2 hd
        rw [hd, Option.getD_some]
        exact ih _ hmem (below' _ hmem') hsame.symm (hsame.symm [])
  | _ =>
    cases htop with
    | _ => rfl

theorem SameContents.resolve (ht : t.Wellformed) (ht' : t'.Wellformed) (h : SameContents t t')
    (way : List String) : t.resolve way = t'.resolve way := by
  rw [Tree.resolve, Tree.resolve, h.links ht ht', h.resolveWithin]

/-! ## Files -/

theorem Tracked.of_sameContents (h : SameContents t t') (hp : t.Tracked p) : t'.Tracked p := by
  obtain ⟨hbelow, ⟨bytes, hat⟩, houtside⟩ := hp
  refine ⟨hbelow, ⟨bytes, ?_⟩, houtside⟩
  have hthere := h p
  rw [hat] at hthere
  generalize t'.at? p = x at hthere
  cases hthere with
  | file => rfl

/-- A walk comes to the files in the order of the names, however these are listed. -/
theorem SameContents.files (ht : t.Wellformed) (ht' : t'.Wellformed) (h : SameContents t t') :
    t.files = t'.files := by
  have hperm : t.files.Perm t'.files :=
    (List.perm_ext_iff_of_nodup (nodup_files ht) (nodup_files ht')).2 fun p => by
      rw [mem_files_iff ht, mem_files_iff ht']
      exact ⟨.of_sameContents h, .of_sameContents h.symm⟩
  exact hperm.eq_of_pairwise (fun _ _ _ _ hpq hqp => absurd hqp hpq.asymm) (pairwise_files ht)
    (pairwise_files ht')

end LangId.Tree

namespace LangId.Gitignore.Filter

open LangId.Tree (Place SameContents)

variable {t t' : Tree}

theorem ofTree_congr (h : SameContents t t') (root : Place) : ofTree t root = ofTree t' root := by
  have hrepository : repository? t root = repository? t' root := by
    simp only [repository?, h.reaches]
  have hbase : base t = base t' := by
    funext p
    simp only [base, linesIn, h.reaches, h.read]
  rw [ofTree, ofTree, hrepository, hbase]

end LangId.Gitignore.Filter

namespace LangId.Scanner

open LangId.Tree (SameContents)

variable {s : Scanner} {t t' : Tree}

theorem ofTree_congr (ht : t.Wellformed) (ht' : t'.Wellformed) (h : SameContents t t')
    (way : List String) (respect : Bool) : ofTree t way respect = ofTree t' way respect := by
  have hfilter : Gitignore.Filter.ofTree t = Gitignore.Filter.ofTree t' :=
    funext fun root => Gitignore.Filter.ofTree_congr h root
  rw [ofTree, ofTree, h.resolve ht ht', hfilter]

theorem isIgnored_congr (ht : t.Wellformed) (ht' : t'.Wellformed) (h : SameContents t t')
    (path : String) : s.isIgnored t path = s.isIgnored t' path := by
  simp only [isIgnored, Gitignore.Filter.ignores, h.resolve ht ht']

theorem places_congr (ht : t.Wellformed) (ht' : t'.Wellformed) (h : SameContents t t') :
    s.places t = s.places t' := by
  rw [places, places]
  cases hd : t.at? s.root with
  | some d =>
    obtain ⟨d', hd', hsame⟩ := h.at hd
    rw [hd']
    exact hsame.files (ht.at hd).2 (ht'.at hd').2
  | none =>
    cases hd' : t'.at? s.root with
    | some d' =>
      obtain ⟨d, hsome, -⟩ := h.symm.at hd'
      cases hd.symm.trans hsome
    | none => rfl

/-- A scan reports the same, in the same order, however directories are listed. -/
theorem paths_congr (ht : t.Wellformed) (ht' : t'.Wellformed) (h : SameContents t t') :
    s.paths t = s.paths t' := by
  rw [paths_eq, paths_eq, places_congr ht ht' h]
  simp only [isIgnored_congr ht ht' h]

end LangId.Scanner
