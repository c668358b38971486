/-
  Words that stand for a page-table tree.

  `Rep` says that the words below a table stand for a tree of `Arch.PageTable`.  WHERE they do, and where the
  tables are distinct frames in use (`Lies`), the walks of `Map_Page` and `Unmap_Borrowed_Page` on the words do
  what the walks on the tree do (`Simulates`), and the hardware's walk finds the leaf that is in the tree.
-/
import Mathlib.Data.List.Pairwise
import Aegir.Arch.Tables

namespace Aegir.Arch

open Aegir.Kernel List Function

namespace PageTable

/-! ## Translations of a tree -/

variable {i j frame : Nat} {is : List Nat} {sub : PageTable}

/-- The indices of a walk from a level down. -/
def pathFrom (virtual : Nat) : Nat → List Nat
  | 0 => [indexFor virtual 0]
  | n + 1 => indexFor virtual (n + 1) :: pathFrom virtual n

/-- The leaf that a walk ends at, and its level. -/
def lookup : List Nat → PageTable → Option (Leaf × Nat)
  | [], _ => none
  | i :: is, t =>
    match t i with
    | .invalid => none
    | .leaf l => if l.isLeaf then some (l, is.length) else none
    | .table _ sub => lookup is sub

theorem pathFrom_length (virtual n : Nat) : (pathFrom virtual n).length = n + 1 := by
  induction n with
  | zero => rfl
  | succ n ih => rw [pathFrom, length_cons, ih]

theorem lookup_zero (is : List Nat) : lookup is zero = none := by
  cases is with
  | nil => rfl
  | cons i is => rfl

theorem lookup_update_ne (hne : j ≠ i) (e : Pte) (js : List Nat) (t : PageTable) :
    lookup (j :: js) (update t i e) = lookup (j :: js) t := by
  rw [lookup, lookup, update_of_ne hne]

theorem lookup_single (e : Pte) {js : List Nat} {t : PageTable} (hlen : js.length = 1) (hne : js ≠ [i]) :
    lookup js (update t i e) = lookup js t := by
  obtain ⟨j, rfl⟩ := length_eq_one_iff.mp hlen
  exact lookup_update_ne (fun h => hne (by rw [h])) _ _ _

theorem lookup_invalid {t : PageTable} (h : t i = .invalid) : lookup (i :: is) t = none := by
  rw [lookup, h]

theorem lookup_leaf {t : PageTable} {l : Leaf} (h : t i = .leaf l) :
    lookup (i :: is) t = if l.isLeaf then some (l, is.length) else none := by
  rw [lookup, h]

theorem lookup_table {t : PageTable} (h : t i = .table frame sub) : lookup (i :: is) t = lookup is sub := by
  rw [lookup, h]

/-- A table that changed below `i`, and there only on the walk `is`, unless the walk failed (`failed`). -/
theorem lookup_below {t sub' : PageTable} {failed : Prop} (hold : ∀ js, lookup (i :: js) t = lookup js sub)
    (hkeep : ∀ js, js.length = is.length → (js ≠ is ∨ failed) → lookup js sub' = lookup js sub) (js : List Nat)
    (hlen : js.length = (i :: is).length) (hne : js ≠ i :: is ∨ failed) :
    lookup js (update t i (.table frame sub')) = lookup js t := by
  cases js with
  | nil => rfl
  | cons a js =>
    by_cases hai : a = i
    · subst hai
      rw [lookup_table (update_self _ _ _), hold]
      refine hkeep js (by simpa using hlen) ?_
      rcases hne with h | h
      · exact .inl fun e => h (by rw [e])
      · exact .inr h
    · exact lookup_update_ne hai _ _ _

/-- **`mapAt` and translations**: a walk that succeeds puts its leaf where nothing was; all other walks of the
    same depth find what they found before. -/
theorem mapAt_lookup (l : Leaf) (is : List Nat) (t : PageTable) (p : Pmm) : ((mapAt l is t p).1 = .ok →
      lookup is t = none ∧ lookup is (mapAt l is t p).2.1 = if l.isLeaf then some (l, 0) else none) ∧
    (∀ js, js.length = is.length → (js ≠ is ∨ (mapAt l is t p).1 ≠ .ok) →
      lookup js (mapAt l is t p).2.1 = lookup js t) := by
  fun_induction mapAt l is t p with
  | case2 i t p hi =>
    constructor
    · intro _
      exact ⟨lookup_invalid hi, lookup_leaf (update_self _ _ _)⟩
    · intro js hlen hne
      exact lookup_single _ hlen (hne.resolve_right fun h => h rfl)
  | case5 i j is t p hi frame p' hp s sub p'' hs ih =>
    -- a new table below this one
    rw [hs] at ih
    constructor
    · intro h
      exact ⟨lookup_invalid hi, (lookup_table (update_self _ _ _)).trans (ih.1 h).2⟩
    · exact lookup_below (fun js => by rw [lookup_zero, lookup_invalid hi]) ih.2
  | case7 i j is t p frame sub hi s sub' p' hs ih =>
    rw [hs] at ih
    constructor
    · intro h
      rw [lookup_table (update_self _ _ _), lookup_table hi]
      exact ih.1 h
    · exact lookup_below (fun js => lookup_table hi) ih.2
  | _ => exact ⟨fun h => (by cases h), fun _ _ _ => rfl⟩

/-- **`unmapAt` and translations**: a walk that succeeds ends at a borrowed leaf, which goes; all other walks
    find what they found before. -/
theorem unmapAt_lookup (is : List Nat) (t : PageTable) : ((unmapAt is t).1 = .ok →
      (∃ l, lookup is t = some (l, 0) ∧ l.borrowed = true) ∧ lookup is (unmapAt is t).2 = none) ∧
    (∀ js, js.length = is.length → (js ≠ is ∨ (unmapAt is t).1 ≠ .ok) →
      lookup js (unmapAt is t).2 = lookup js t) := by
  fun_induction unmapAt is t with
  | case2 i t l hi hl =>
    obtain ⟨hleaf, hb⟩ : l.isLeaf = true ∧ l.borrowed = true := by simpa using hl
    constructor
    · intro _
      refine ⟨⟨l, ?_, hb⟩, lookup_invalid (update_self _ _ _)⟩
      rw [lookup_leaf hi, if_pos hleaf]
      rfl
    · intro js hlen hne
      exact lookup_single _ hlen (hne.resolve_right fun h => h rfl)
  | case5 i j is t frame sub hi s sub' hs ih =>
    rw [hs] at ih
    constructor
    · intro h
      rw [lookup_table (update_self _ _ _), lookup_table hi]
      exact ih.1 h
    · exact lookup_below (fun js => lookup_table hi) ih.2
  | _ => exact ⟨fun h => (by cases h), fun _ _ _ => rfl⟩

/-! ## Words that stand for a tree -/

variable {g : Nat} {words words' : Nat → Nat → Nat}

/-- A word stands for an entry; `below` says what a pointer leads to, `high` that a leaf has to read as one
    (a level-0 entry is never followed). -/
def Represents (below : Nat → PageTable → Prop) (high : Bool) (word : Nat) : Pte → Prop
  | .invalid => word &&& pteV = 0
  | .leaf l => word = leafWord l ∧ l.frame % pageSize = 0 ∧ l.frame < 2 ^ 64 ∧ (high = true → l.isLeaf = true)
  | .table frame sub => word = tableWord frame ∧ frame % pageSize = 0 ∧ frame < 2 ^ 64 ∧ below frame sub

/-- **The words below a table stand for a tree.** -/
def Rep (words : Nat → Nat → Nat) : Nat → Nat → PageTable → Prop
  | 0, table, t => ∀ i < 512, Represents (fun _ _ => False) false (words table i) (t i)
  | n + 1, table, t => ∀ i < 512, Represents (Rep words n) true (words table i) (t i)

theorem mem_tables_succ {n : Nat} {t : PageTable} :
    g ∈ tables (n + 1) t ↔ ∃ i < 512, ∃ frame sub, t i = .table frame sub ∧ (g ∈ tables n sub ∨ g = frame) := by
  rw [tables, held_level_succ, mem_flatMap]
  constructor
  · rintro ⟨i, hi, hg⟩
    cases ht : t i with
    | invalid =>
      rw [ht] at hg
      exact absurd hg not_mem_nil
    | leaf l =>
      rw [ht] at hg
      exact absurd hg not_mem_nil
    | table frame sub =>
      rw [ht] at hg
      refine ⟨i, mem_range.mp hi, frame, sub, ht, ?_⟩
      rcases mem_append.mp hg with h | h
      · exact .inl h
      · exact .inr (mem_singleton.mp h)
  · rintro ⟨i, hi, frame, sub, ht, hg⟩
    refine ⟨i, mem_range.mpr hi, ?_⟩
    rw [ht]
    refine mem_append.mpr ?_
    rcases hg with h | h
    · exact .inl h
    · exact .inr (mem_singleton.mpr h)

theorem Rep.congr {n table : Nat} {t : PageTable} (h : Rep words n table t)
    (hsame : ∀ g ∈ table :: tables n t, words' g = words g) : Rep words' n table t := by
  induction n generalizing table t with
  | zero =>
    intro i hi
    rw [hsame table mem_cons_self]
    exact h i hi
  | succ n ih =>
    intro i hi
    rw [hsame table mem_cons_self]
    have hw := h i hi
    cases ht : t i with
    | invalid =>
      rw [ht] at hw
      exact hw
    | leaf l =>
      rw [ht] at hw
      exact hw
    | table frame sub =>
      rw [ht] at hw
      obtain ⟨hword, halign, hlt, hbelow⟩ := hw
      refine ⟨hword, halign, hlt, ih hbelow fun g hg => hsame g (mem_cons_of_mem _ ?_)⟩
      refine mem_tables_succ.mpr ⟨i, hi, frame, sub, ht, ?_⟩
      rcases mem_cons.mp hg with h | h
      · exact .inr h
      · exact .inl h

theorem Rep.ofZero {table : Nat} (h : ∀ i, words table i = 0) (n : Nat) :
    Rep words n table zero := by
  cases n with
  | zero =>
    intro i _
    rw [h i]
    exact Nat.zero_and _
  | succ n =>
    intro i _
    rw [h i]
    exact Nat.zero_and _

theorem tables_zero (n : Nat) : tables n zero = [] := held_zero _ n

theorem tables_disjoint {n frame' : Nat} {t sub' : PageTable} (hnodup : (tables (n + 1) t).Nodup)
    (hi : i < 512) (hj : j < 512) (hne : j ≠ i) (ht : t i = .table frame sub) (ht' : t j = .table frame' sub')
    (hg : g ∈ frame' :: tables n sub') : g ∉ frame :: tables n sub := by
  rw [tables, held_level_succ, nodup_flatMap] at hnodup
  have : Std.Symm (onFun List.Disjoint fun i =>
      (t i).held (fun _ => []) fun frame sub => held (fun _ => []) n sub ++ [frame]) := ⟨fun _ _ h => h.symm⟩
  have hdis := hnodup.2.forall (mem_range.mpr hi) (mem_range.mpr hj) hne.symm
  have hmem : ∀ {k f : Nat} {s : PageTable}, t k = .table f s → g ∈ f :: tables n s →
      g ∈ (t k).held (fun _ => []) fun frame sub => held (fun _ => []) n sub ++ [frame] := by
    intro k f s hk h
    rw [hk]
    refine mem_append.mpr ?_
    rcases mem_cons.mp h with h | h
    · exact .inr (mem_singleton.mpr h)
    · exact .inl h
  intro h
  exact hdis (hmem ht h) (hmem ht' hg)

theorem mem_tables_below {n : Nat} {t : PageTable} (hi : i < 512) (ht : t i = .table frame sub)
    (hg : g ∈ frame :: tables n sub) : g ∈ tables (n + 1) t := by
  refine mem_tables_succ.mpr ⟨i, hi, frame, sub, ht, ?_⟩
  rcases mem_cons.mp hg with h | h
  · exact .inr h
  · exact .inl h

theorem nodup_below {n : Nat} {t : PageTable} (hnodup : (tables (n + 1) t).Nodup) (hi : i < 512)
    (ht : t i = .table frame sub) : (frame :: tables n sub).Nodup := by
  rw [tables, held_level_succ, nodup_flatMap] at hnodup
  have h := hnodup.1 i (mem_range.mpr hi)
  rw [ht] at h
  have hswap : (tables n sub ++ [frame]).Perm ([frame] ++ tables n sub) := perm_append_comm
  exact hswap.nodup_iff.mp h

/-- **One entry changes**: the other entries stand for what they stood for. -/
theorem Rep.update {n table : Nat} {t : PageTable} {e : Pte}
    (h : Rep words (n + 1) table t) (hnodup : (tables (n + 1) t).Nodup) (hi : i < 512)
    (htable : ∀ j, j ≠ i → words' table j = words table j)
    (hothers : ∀ g ∈ tables (n + 1) t, (∀ frame sub, t i = .table frame sub → g ∉ frame :: tables n sub) →
      words' g = words g)
    (hnew : Represents (Rep words' n) true (words' table i) e) :
    Rep words' (n + 1) table (update t i e) := by
  intro j hj
  by_cases hji : j = i
  · subst hji
    rw [update_self]
    exact hnew
  · rw [update_of_ne hji, htable j hji]
    have hw := h j hj
    cases ht : t j with
    | invalid =>
      rw [ht] at hw
      exact hw
    | leaf l =>
      rw [ht] at hw
      exact hw
    | table frame sub =>
      rw [ht] at hw
      obtain ⟨hword, halign, hlt, hbelow⟩ := hw
      refine ⟨hword, halign, hlt, hbelow.congr fun g hg => ?_⟩
      refine hothers g (mem_tables_below hj ht hg) fun frame' sub' ht' => ?_
      exact tables_disjoint hnodup hi hj hji ht' ht hg

theorem Rep.updateLast {table : Nat} {t : PageTable} {e : Pte}
    (h : Rep words 0 table t) (htable : ∀ j, j ≠ i → words' table j = words table j)
    (hnew : Represents (fun _ _ => False) false (words' table i) e) :
    Rep words' 0 table (Function.update t i e) := by
  intro j hj
  by_cases hji : j = i
  · subst hji
    rw [update_self]
    exact hnew
  · rw [update_of_ne hji, htable j hji]
    exact h j hj

/-! ## The walks on words are the walks on trees -/

/-- A tree in the words, its tables distinct frames that are in use. -/
structure Lies (m : Ram) (n table : Nat) (t : PageTable) : Prop where
  rep : Rep m.words n table t
  nodup : (table :: tables n t).Nodup
  taken : ∀ g ∈ table :: tables n t, ¬ m.pmm.Available g

theorem Lies.below {m : Ram} {n table : Nat} {t : PageTable} (h : Lies m (n + 1) table t) (hi : i < 512)
    (ht : t i = .table frame sub) : Lies m n frame sub := by
  have hw := h.rep i hi
  rw [ht] at hw
  refine ⟨hw.2.2.2, nodup_below (nodup_cons.mp h.nodup).2 hi ht, fun g hg => ?_⟩
  exact h.taken g (mem_cons_of_mem _ (mem_tables_below hi ht hg))

end PageTable

namespace Ram

variable {m m' : Ram} {table : Nat}

theorem store_same (m : Ram) (table index word : Nat) : (m.store table index word).words table index = word := by
  show update m.words table (update (m.words table) index word) table index = word
  rw [update_self, update_self]

theorem store_index (m : Ram) (table index word : Nat) {j : Nat} (hne : j ≠ index) :
    (m.store table index word).words table j = m.words table j := by
  show update m.words table (update (m.words table) index word) table j = m.words table j
  rw [update_self, update_of_ne hne]

theorem store_table (m : Ram) (table index word : Nat) {g : Nat} (hne : g ≠ table) :
    (m.store table index word).words g = m.words g := update_of_ne hne _ _

theorem allocateTable_ok (hp : m.pmm.Wf) (h : m.allocateTable = (.ok table, m')) :
    m.pmm.allocateFrame = (.ok table, m'.pmm) ∧ (∀ i, m'.words table i = 0) ∧
      (∀ g, g ≠ table → m'.words g = m.words g) ∧ table % pageSize = 0 ∧ table < 2 ^ 64 := by
  unfold allocateTable at h
  split at h
  · cases h
  · rename_i p hf
    cases h
    obtain ⟨hwf, -, hav, hvalid, -, -, -, -⟩ := Pmm.allocateFrame_ok hp hf
    obtain ⟨-, hlt, halign⟩ := Pmm.validFrame_iff.mp hvalid
    have hnext := hwf.next_lt
    refine ⟨hf, fun i => ?_, fun g hne => ?_, halign, ?_⟩
    · show update m.words table (fun _ => 0) table i = 0
      rw [update_self]
    · exact update_of_ne hne _ _
    · omega

theorem allocateTable_error {e : MmuStatus} (h : m.allocateTable = (.error e, m')) :
    e = .allocationFailed ∧ (∃ s, m.pmm.allocateFrame = (.error s, m'.pmm)) ∧ m'.words = m.words := by
  unfold allocateTable at h
  split at h
  · rename_i s p hf
    cases h
    exact ⟨rfl, ⟨s, hf⟩, rfl⟩
  · cases h

end Ram

namespace PageTable

variable {m : Ram} {n table : Nat} {t : PageTable} {l : Leaf} {s : MmuStatus × Ram}
  {r : MmuStatus × PageTable × Pmm}

theorem mapAt_succ (l : Leaf) (virtual n : Nat) (t : PageTable) (p : Pmm) :
    mapAt l (pathFrom virtual (n + 1)) t p =
      match t (indexFor virtual (n + 1)) with
      | .invalid =>
        match p.allocateFrame with
        | (.error _, p') => (.allocationFailed, t, p')
        | (.ok frame, p') =>
          let (s, sub, p'') := mapAt l (pathFrom virtual n) zero p'
          (s, update t (indexFor virtual (n + 1)) (.table frame sub), p'')
      | .leaf _ => (.alreadyMapped, t, p)
      | .table frame sub =>
        let (s, sub', p') := mapAt l (pathFrom virtual n) sub p
        (s, update t (indexFor virtual (n + 1)) (.table frame sub'), p') := by
  cases n <;> rfl

theorem unmapAt_succ (virtual n : Nat) (t : PageTable) : unmapAt (pathFrom virtual (n + 1)) t =
      match t (indexFor virtual (n + 1)) with
      | .table frame sub =>
        let (s, sub') := unmapAt (pathFrom virtual n) sub
        (s, update t (indexFor virtual (n + 1)) (.table frame sub'))
      | _ => (.notMapped, t) := by
  cases n <;> rfl

/-- What a walk on the words gives, and what the walk on the tree gives: the answers are the same, the new words
    stand for the new tree, and other tables that are in use keep their words. -/
structure Simulates (m : Ram) (n table : Nat) (t : PageTable) (s : MmuStatus × Ram) (r : MmuStatus × PageTable × Pmm) :
    Prop where
  status : s.1 = r.1
  pmm : s.2.pmm = r.2.2
  rep : Rep s.2.words n table r.2.1
  others : ∀ g, g ∉ table :: tables n t → ¬ m.pmm.Available g → s.2.words g = m.words g

theorem Simulates.same (h : Rep m.words n table t) (s : MmuStatus) : Simulates m n table t (s, m) (s, t, m.pmm) :=
  ⟨rfl, rfl, h, fun _ _ _ => rfl⟩

theorem Simulates.below {i frame : Nat} {sub : PageTable}
    (h : Lies m (n + 1) table t) (hi : i < 512) (ht : t i = .table frame sub) (hs : Simulates m n frame sub s r) :
    Simulates m (n + 1) table t s (r.1, update t i (.table frame r.2.1), r.2.2) := by
  obtain ⟨hstatus, hpmm, hrep, hothers⟩ := hs
  obtain ⟨hnot, hnodup⟩ := nodup_cons.mp h.nodup
  have hw := h.rep i hi
  rw [ht] at hw
  obtain ⟨hword, halign, hlt, -⟩ := hw
  have htable : s.2.words table = m.words table := by
    refine hothers table (fun hmem => ?_) (h.taken table mem_cons_self)
    exact hnot (mem_tables_below hi ht hmem)
  refine ⟨hstatus, hpmm, ?_, fun g hg hgav => hothers g (fun hmem => ?_) hgav⟩
  · refine h.rep.update hnodup hi (fun j _ => by rw [htable]) (fun g hg hgi => ?_) ?_
    · exact hothers g (hgi frame sub ht) (h.taken g (mem_cons_of_mem _ hg))
    · rw [htable]
      exact ⟨hword, halign, hlt, hrep⟩
  · exact hg (mem_cons_of_mem _ (mem_tables_below hi ht hmem))

theorem Simulates.fresh {m' : Ram} {i frame : Nat}
    (hp : m.pmm.Wf) (h : Lies m (n + 1) table t) (hi : i < 512) (ha : m.allocateTable = (.ok frame, m'))
    (hs : Simulates (m'.store table i (tableWord frame)) n frame zero s r) :
    Simulates m (n + 1) table t s (r.1, update t i (.table frame r.2.1), r.2.2) := by
  obtain ⟨halloc, -, hkeep, halign, hlt⟩ := Ram.allocateTable_ok hp ha
  obtain ⟨-, -, hav, -, -, hmono, -, -⟩ := Pmm.allocateFrame_ok hp halloc
  obtain ⟨hnot, hnodup⟩ := nodup_cons.mp h.nodup
  have htaken := h.taken table mem_cons_self
  have hne : table ≠ frame := fun e => htaken (e ▸ hav)
  -- what was in use keeps its words, the entry of this table apart
  have hwalk : ∀ g, ¬ m.pmm.Available g → s.2.words g = (m'.store table i (tableWord frame)).words g := by
    intro g hg
    refine hs.others g (fun hmem => ?_) fun hav' => hg (hmono g hav')
    rw [tables_zero] at hmem
    exact hg (mem_singleton.mp hmem ▸ hav)
  have hother : ∀ g, ¬ m.pmm.Available g → g ≠ table → s.2.words g = m.words g := by
    intro g hg hgt
    rw [hwalk g hg, Ram.store_table _ _ _ _ hgt]
    exact hkeep g fun e => hg (e ▸ hav)
  refine ⟨hs.status, hs.pmm, ?_, fun g hg hgav => hother g hgav fun e => hg (e ▸ mem_cons_self)⟩
  refine h.rep.update hnodup hi (fun j hj => ?_) (fun g hg _ => ?_) ?_
  · rw [hwalk table htaken, Ram.store_index _ _ _ _ hj, hkeep table hne]
  · exact hother g (h.taken g (mem_cons_of_mem _ hg)) fun e => hnot (e ▸ hg)
  · rw [hwalk table htaken, Ram.store_same]
    exact ⟨rfl, halign, hlt, hs.rep⟩

theorem mapWalk_last (l : Leaf) (halign : l.frame % pageSize = 0) (hlt : l.frame < 2 ^ 64) (virtual : Nat)
    (h : Rep m.words 0 table t) :
    Simulates m 0 table t (m.mapWalk virtual (leafWord l) 0 table) (mapAt l (pathFrom virtual 0) t m.pmm) := by
  have hi : indexFor virtual 0 < 512 := Nat.mod_lt _ (by omega)
  have hw := h _ hi
  show Simulates m 0 table t _ (mapAt l [indexFor virtual 0] t m.pmm)
  rw [Ram.mapWalk, mapAt]
  cases ht : t (indexFor virtual 0) with
  | invalid =>
    rw [ht] at hw
    rw [if_neg (by rw [show m.words table (indexFor virtual 0) &&& pteV = 0 from hw]; simp)]
    refine ⟨rfl, rfl, ?_, ?_⟩
    · refine h.updateLast (fun j hj => Ram.store_index m table _ _ hj) ?_
      rw [Ram.store_same]
      exact ⟨rfl, halign, hlt, fun h => (by cases h)⟩
    · intro g hg _
      exact Ram.store_table m table _ _ fun e => hg (e ▸ mem_cons_self)
  | leaf l' =>
    rw [ht] at hw
    obtain ⟨hword, halign', hlt', -⟩ := hw
    rw [if_pos (by rw [hword]; exact (leafWord_spec l' hlt' halign').1)]
    exact .same h _
  | table frame sub =>
    rw [ht] at hw
    exact hw.2.2.2.elim

/-- **`Map_Page`'s walk** on the words is the walk on the tree. -/
theorem mapWalk_simulates (l : Leaf) (halign : l.frame % pageSize = 0) (hlt : l.frame < 2 ^ 64) (virtual : Nat)
    (hp : m.pmm.Wf) (h : Lies m n table t) :
    Simulates m n table t (m.mapWalk virtual (leafWord l) n table) (mapAt l (pathFrom virtual n) t m.pmm) := by
  induction n generalizing table t m with
  | zero => exact mapWalk_last l halign hlt virtual h.rep
  | succ n ih =>
    have hi : indexFor virtual (n + 1) < 512 := Nat.mod_lt _ (by omega)
    have hw := h.rep _ hi
    rw [Ram.mapWalk, mapAt_succ]
    cases ht : t (indexFor virtual (n + 1)) with
    | invalid =>
      -- a new table, and the walk goes on in it
      rw [ht] at hw
      rw [if_pos (show m.words table (indexFor virtual (n + 1)) &&& pteV = 0 from hw)]
      cases ha : m.allocateTable with
      | mk r m' =>
        cases r with
        | error e =>
          obtain ⟨rfl, ⟨s, halloc⟩, hwords⟩ := Ram.allocateTable_error ha
          rw [halloc]
          exact ⟨rfl, rfl, h.rep.congr fun g _ => by rw [hwords], fun g _ _ => by rw [hwords]⟩
        | ok frame =>
          obtain ⟨halloc, hzero, -, -, -⟩ := Ram.allocateTable_ok hp ha
          obtain ⟨hp', -, hav, -, hout, -, -, -⟩ := Pmm.allocateFrame_ok hp halloc
          have hne : table ≠ frame := fun e => h.taken table mem_cons_self (e ▸ hav)
          have hlies : Lies (m'.store table (indexFor virtual (n + 1)) (tableWord frame)) n frame zero := by
            refine ⟨Rep.ofZero (fun i => ?_) n, ?_, fun g hg => ?_⟩
            · rw [Ram.store_table _ _ _ _ hne.symm]
              exact hzero i
            · rw [tables_zero]
              exact nodup_singleton frame
            · rw [tables_zero] at hg
              rw [mem_singleton.mp hg]
              exact hout
          rw [halloc]
          exact Simulates.fresh hp h hi ha (ih (m := m'.store table _ _) hp' hlies)
    | leaf l' =>
      rw [ht] at hw
      obtain ⟨hword, halign', hlt', hhigh⟩ := hw
      obtain ⟨hv, hleaf, -, -, -⟩ := leafWord_spec l' hlt' halign'
      rw [hword, if_neg hv, if_pos (by have := hleaf.trans (hhigh rfl); simpa [pteIsLeaf] using this)]
      exact .same h.rep _
    | table frame sub =>
      rw [ht] at hw
      obtain ⟨hword, hfalign, hflt, hbelow⟩ := hw
      obtain ⟨hv, hleaf, hphys⟩ := tableWord_spec hflt hfalign
      rw [hword, if_neg hv, if_neg (by simpa [pteIsLeaf] using hleaf), hphys]
      exact Simulates.below h hi ht (ih hp (h.below hi ht))

theorem unmapWalk_last (virtual : Nat) (h : Rep m.words 0 table t) :
    Simulates m 0 table t (m.unmapWalk virtual 0 table)
      ((unmapAt (pathFrom virtual 0) t).1, (unmapAt (pathFrom virtual 0) t).2, m.pmm) := by
  have hi : indexFor virtual 0 < 512 := Nat.mod_lt _ (by omega)
  have hw := h _ hi
  show Simulates m 0 table t _ ((unmapAt [indexFor virtual 0] t).1, (unmapAt [indexFor virtual 0] t).2, m.pmm)
  rw [Ram.unmapWalk, unmapAt]
  cases ht : t (indexFor virtual 0) with
  | invalid =>
    rw [ht] at hw
    rw [if_pos (.inl (show m.words table (indexFor virtual 0) &&& pteV = 0 from hw))]
    exact .same h _
  | leaf l =>
    rw [ht] at hw
    obtain ⟨hword, halign, hlt, -⟩ := hw
    obtain ⟨hv, hleaf, -, -, hb⟩ := leafWord_spec l hlt halign
    dsimp only
    rw [hword]
    by_cases hl : l.isLeaf = true ∧ l.borrowed = true
    · -- a borrowed leaf goes
      have hborrowed : leafWord l &&& pteBorrowed ≠ 0 := of_decide_eq_true (hb.trans hl.2)
      have hread : pteIsLeaf (leafWord l) = true := hleaf.trans hl.1
      rw [if_neg (by simp [hv, hread, hborrowed]), if_pos (by simp [hl.1, hl.2])]
      refine ⟨rfl, rfl, ?_, fun g hg _ => Ram.store_table m table _ _ fun e => hg (e ▸ mem_cons_self)⟩
      refine h.updateLast (fun j hj => Ram.store_index m table _ _ hj) ?_
      rw [Ram.store_same]
      exact Nat.zero_and _
    · have hrefused : leafWord l &&& pteV = 0 ∨ ¬ pteIsLeaf (leafWord l) = true ∨ leafWord l &&& pteBorrowed = 0 := by
        by_cases hread : l.isLeaf = true
        · refine .inr (.inr ?_)
          by_contra hne
          exact hl ⟨hread, hb.symm.trans (decide_eq_true hne)⟩
        · exact .inr (.inl (by rw [hleaf]; exact hread))
      rw [if_pos hrefused, if_neg (by simpa using hl)]
      exact .same h _
  | table frame sub =>
    rw [ht] at hw
    exact hw.2.2.2.elim

/-- **`Unmap_Borrowed_Page`'s walk** on the words is the walk on the tree. -/
theorem unmapWalk_simulates (virtual : Nat) (h : Lies m n table t) :
    Simulates m n table t (m.unmapWalk virtual n table)
      ((unmapAt (pathFrom virtual n) t).1, (unmapAt (pathFrom virtual n) t).2, m.pmm) := by
  induction n generalizing table t with
  | zero => exact unmapWalk_last virtual h.rep
  | succ n ih =>
    have hi : indexFor virtual (n + 1) < 512 := Nat.mod_lt _ (by omega)
    have hw := h.rep _ hi
    rw [Ram.unmapWalk, unmapAt_succ]
    cases ht : t (indexFor virtual (n + 1)) with
    | invalid =>
      rw [ht] at hw
      rw [if_pos (.inl (show m.words table (indexFor virtual (n + 1)) &&& pteV = 0 from hw))]
      exact .same h.rep _
    | leaf l =>
      rw [ht] at hw
      obtain ⟨hword, halign, hlt, hhigh⟩ := hw
      obtain ⟨-, hleaf, -, -, -⟩ := leafWord_spec l hlt halign
      rw [hword, if_pos (.inr (hleaf.trans (hhigh rfl)))]
      exact .same h.rep _
    | table frame sub =>
      rw [ht] at hw
      obtain ⟨hword, halign, hlt, -⟩ := hw
      obtain ⟨hv, hleaf, hphys⟩ := tableWord_spec hlt halign
      rw [hword, if_neg (by simp [hv, hleaf]), hphys]
      exact Simulates.below h hi ht (ih (h.below hi ht))

/-! ## The hardware's walk -/

/-- **The walk on words finds the leaf of the tree**, unless it faults there. -/
theorem walkWords_rep {words : Nat → Nat → Nat} {faults : Nat → Bool} (virtual : Nat) (h : Rep words n table t)
    (hinvalid : ∀ pte, pte &&& pteV = 0 → faults pte = true)
    (hpointer : ∀ g ∈ tables n t, faults (tableWord g) = false) :
    walkWords faults words virtual n table =
      ((lookup (pathFrom virtual n) t).filter fun r => !faults (leafWord r.1)).map
        fun r => (leafWord r.1, r.2) := by
  induction n generalizing table t with
  | zero =>
    have hw := h _ (show indexFor virtual 0 < 512 from Nat.mod_lt _ (by omega))
    rw [walkWords, pathFrom]
    cases ht : t (indexFor virtual 0) with
    | invalid =>
      rw [ht] at hw
      rw [lookup_invalid ht, if_pos (.inl (hinvalid _ hw))]
      rfl
    | leaf l =>
      rw [ht] at hw
      obtain ⟨hword, halign, hlt, -⟩ := hw
      obtain ⟨-, hleaf, -, -, -⟩ := leafWord_spec l hlt halign
      rw [lookup_leaf ht, hword, hleaf]
      cases hl : l.isLeaf <;> cases hf : faults (leafWord l) <;> simp [Option.filter, hf]
    | table frame sub =>
      rw [ht] at hw
      exact hw.2.2.2.elim
  | succ n ih =>
    have hi : indexFor virtual (n + 1) < 512 := Nat.mod_lt _ (by omega)
    have hw := h _ hi
    rw [walkWords, pathFrom]
    cases ht : t (indexFor virtual (n + 1)) with
    | invalid =>
      rw [ht] at hw
      rw [lookup_invalid ht, if_pos (hinvalid _ hw)]
      rfl
    | leaf l =>
      rw [ht] at hw
      obtain ⟨hword, halign, hlt, hhigh⟩ := hw
      obtain ⟨-, hleaf, -, -, -⟩ := leafWord_spec l hlt halign
      rw [lookup_leaf ht, hword, if_pos (hleaf.trans (hhigh rfl)), if_pos (hhigh rfl), pathFrom_length]
      cases hf : faults (leafWord l) <;> simp [Option.filter, hf]
    | table frame sub =>
      rw [ht] at hw
      obtain ⟨hword, halign, hlt, hbelow⟩ := hw
      obtain ⟨-, hleaf, hphys⟩ := tableWord_spec hlt halign
      have hmem : ∀ g ∈ frame :: tables n sub, faults (tableWord g) = false :=
        fun g hg => hpointer g (mem_tables_below hi ht hg)
      rw [lookup_table ht, hword, if_neg (by rw [hmem frame mem_cons_self]; simp),
        if_neg (by rw [hleaf]; simp), hphys]
      exact ih hbelow fun g hg => hmem g (mem_cons_of_mem _ hg)

theorem lookup_aligned {words : Nat → Nat → Nat} {virtual k : Nat} (h : Rep words n table t)
    (hl : lookup (pathFrom virtual n) t = some (l, k)) : l.frame % pageSize = 0 ∧ l.frame < 2 ^ 64 := by
  induction n generalizing table t with
  | zero =>
    have hw := h _ (show indexFor virtual 0 < 512 from Nat.mod_lt _ (by omega))
    rw [pathFrom] at hl
    cases ht : t (indexFor virtual 0) with
    | invalid =>
      rw [lookup_invalid ht] at hl
      cases hl
    | leaf l' =>
      rw [ht] at hw
      rw [lookup_leaf ht] at hl
      split at hl
      · cases hl
        exact ⟨hw.2.1, hw.2.2.1⟩
      · cases hl
    | table frame sub =>
      rw [ht] at hw
      exact hw.2.2.2.elim
  | succ n ih =>
    have hw := h _ (show indexFor virtual (n + 1) < 512 from Nat.mod_lt _ (by omega))
    rw [pathFrom] at hl
    cases ht : t (indexFor virtual (n + 1)) with
    | invalid =>
      rw [lookup_invalid ht] at hl
      cases hl
    | leaf l' =>
      rw [ht] at hw
      rw [lookup_leaf ht] at hl
      split at hl
      · cases hl
        exact ⟨hw.2.1, hw.2.2.1⟩
      · cases hl
    | table frame sub =>
      rw [ht] at hw
      rw [lookup_table ht] at hl
      exact ih hw.2.2.2 hl

end PageTable

open PageTable

/-- What the hardware makes of an address with a leaf, at a level. -/
def Translation.of (virtual : Nat) (r : Leaf × Nat) : Option Translation :=
  if r.1.usable = false ∨ r.1.frame % 2 ^ (12 + r.2 * 9) ≠ 0 then none
  else some ⟨r.1.frame + virtual % 2 ^ (12 + r.2 * 9), r.1.flags, r.1.borrowed⟩

variable {m : Ram} {root virtual : Nat} {t : PageTable}

/-- **Translation is the tree's**: the words decode to the leaf that was put in. -/
theorem translate_rep (h : Rep m.words 2 root t) (hlow : ∀ g ∈ tables 2 t, g < 2 ^ 56)
    (hc : Canonical virtual) : translate m root virtual = (lookup (path virtual) t).bind (Translation.of virtual) := by
  have hinvalid : ∀ pte, pte &&& pteV = 0 → pteFaults pte = true := by
    intro pte hpte
    simp [pteFaults, hpte]
  rw [translate, if_pos hc, walkWords_rep virtual h hinvalid fun g hg => tableWord_faults (hlow g hg)]
  show _ = (lookup (pathFrom virtual 2) t).bind _
  cases hl : lookup (pathFrom virtual 2) t with
  | none => rfl
  | some r =>
    obtain ⟨l, k⟩ := r
    obtain ⟨halign, hlt⟩ := lookup_aligned h hl
    obtain ⟨-, -, hphys, hflags, hb⟩ := leafWord_spec l hlt halign
    show _ = Translation.of virtual (l, k)
    unfold Translation.of
    cases hu : l.usable with
    | false => simp [Option.filter, leafWord_faults l hlt halign, hu]
    | true =>
      rw [Option.filter_some, if_pos (by simp [leafWord_faults l hlt halign, hu]), Option.map_some]
      dsimp only
      rw [hphys, hflags, hb]
      simp

/-- The kernel reads the leaf that is in the tree. -/
theorem leafAt_rep (h : Rep m.words 2 root t) (hlow : ∀ g ∈ tables 2 t, g < 2 ^ 56) :
    leafAt m root virtual = (lookup (path virtual) t).map fun r => (leafWord r.1, r.2) := by
  have hpointer : ∀ g ∈ tables 2 t, decide (tableWord g &&& pteV = 0) = false := by
    intro g hg
    rw [tableWord_and ((hlow g hg).trans (by decide)) (by decide)]
    rfl
  rw [leafAt, walkWords_rep virtual h (by simp) hpointer]
  show _ = (lookup (pathFrom virtual 2) t).map _
  cases hl : lookup (pathFrom virtual 2) t with
  | none => rfl
  | some r =>
    obtain ⟨halign, hlt⟩ := lookup_aligned h hl
    have hv := (leafWord_spec r.1 hlt halign).1
    simp [Option.filter, hv]

end Aegir.Arch
