/-
  Page tables translate what was mapped.

  The trees of all address spaces lie in the words, on distinct frames, and NONE of these is free (`Forest`):
  so a new table is another frame again, and a walk that writes one entry writes it in one tree only.  Every
  operation keeps that; what `Map_Page` and `Unmap_Borrowed_Page` do to translations follows from what they do
  to the leaves of one tree.
-/
import Mathlib.Data.List.Flatten
import Aegir.Arch.PageTrees
import Aegir.Kernel.Boot

namespace Aegir.Arch

open Aegir.Kernel PageTable List Function

/-! ## The operations -/

section

variable {m : Ram} {root physical : Nat} {t : PageTable}

theorem mapPage_simulates (hp : m.pmm.Wf) (h : Lies m 2 root t) (virtual : Nat)
    (hlt : physical < 2 ^ 64) (flags : PageFlags) (borrowed : Bool) :
    Simulates m 2 root t (m.mapPage root virtual physical flags borrowed)
      (t.mapPage root virtual physical flags borrowed m.pmm) := by
  unfold Ram.mapPage PageTable.mapPage
  by_cases hbad : root % pageSize ≠ 0 ∨ virtual % pageSize ≠ 0 ∨ physical % pageSize ≠ 0
  · rw [if_pos hbad, if_pos hbad]
    exact .same h.rep _
  · rw [if_neg hbad, if_neg hbad]
    have halign : physical % pageSize = 0 := by omega
    exact mapWalk_simulates ⟨physical, flags, borrowed⟩ halign hlt virtual hp h

theorem unmapBorrowedPage_simulates (h : Lies m 2 root t) (virtual : Nat) :
    Simulates m 2 root t (m.unmapBorrowedPage root virtual)
      ((t.unmapBorrowedPage root virtual).1, (t.unmapBorrowedPage root virtual).2, m.pmm) := by
  unfold Ram.unmapBorrowedPage PageTable.unmapBorrowedPage
  by_cases hbad : root % pageSize ≠ 0 ∨ virtual % pageSize ≠ 0
  · rw [if_pos hbad, if_pos hbad]
    exact .same h.rep _
  · rw [if_neg hbad, if_neg hbad]
    exact unmapWalk_simulates virtual h

theorem mapGigapage_simulates (h : Lies m 2 root t) (virtual : Nat) (hlt : physical < 2 ^ 64)
    {flags : PageFlags} (hflags : Leaf.isLeaf ⟨physical, flags, false⟩ = true) :
    ∃ s t', (tables 2 t').Perm (tables 2 t) ∧
      Simulates m 2 root t (m.mapGigapage root virtual physical flags) (s, t', m.pmm) := by
  have hi : indexFor virtual 2 < 512 := Nat.mod_lt _ (by omega)
  have hw := h.rep _ hi
  unfold Ram.mapGigapage
  by_cases hbad : root % pageSize ≠ 0 ∨ virtual % Ram.gigapageSize ≠ 0 ∨ physical % Ram.gigapageSize ≠ 0
  · rw [if_pos hbad]
    exact ⟨_, t, .refl _, .same h.rep _⟩
  rw [if_neg hbad]
  by_cases hv : m.words root (indexFor virtual 2) &&& pteV ≠ 0
  · rw [if_pos hv]
    exact ⟨_, t, .refl _, .same h.rep _⟩
  rw [if_neg hv]
  have halign : physical % pageSize = 0 := by
    unfold Ram.gigapageSize at hbad
    unfold pageSize
    omega
  have ht : t (indexFor virtual 2) = .invalid := by
    cases ht : t (indexFor virtual 2) with
    | invalid => rfl
    | leaf l =>
      rw [ht] at hw
      obtain ⟨hword, halign', hlt', -⟩ := hw
      rw [hword] at hv
      exact absurd (leafWord_spec l hlt' halign').1 hv
    | table frame sub =>
      rw [ht] at hw
      obtain ⟨hword, halign', hlt', -⟩ := hw
      rw [hword] at hv
      exact absurd (tableWord_spec hlt' halign').1 hv
  refine ⟨.ok, update t (indexFor virtual 2) (.leaf ⟨physical, flags, false⟩), ?_, rfl, rfl, ?_, ?_⟩
  · have hgain : (share (fun _ => []) 2 (.leaf ⟨physical, flags, false⟩)).Perm
        ([] ++ share (fun _ => []) 2 (t (indexFor virtual 2))) := by
      rw [ht]
      exact .refl _
    exact held_update hi hgain
  · refine h.rep.update (nodup_cons.mp h.nodup).2 hi (fun j hj => Ram.store_index m root _ _ hj)
      (fun g hg _ => Ram.store_table m root _ _ fun e => (nodup_cons.mp h.nodup).1 (e ▸ hg)) ?_
    rw [Ram.store_same]
    exact ⟨rfl, halign, hlt, fun _ => hflags⟩
  · intro g hg _
    exact Ram.store_table m root _ _ fun e => hg (e ▸ mem_cons_self)

end

/-! ## All address spaces of a machine -/

/-- The trees of the roots lie in the words, on distinct frames that are in use. -/
structure Forest (m : Ram) (roots : List Nat) (tree : Nat → PageTable) : Prop where
  wf : m.pmm.Wf
  within : m.pmm.Within (2 ^ 56)
  rep : ∀ r ∈ roots, Rep m.words 2 r (tree r)
  nodup : (roots.flatMap fun r => r :: tables 2 (tree r)).Nodup
  distinct : roots.Nodup
  taken : ∀ r ∈ roots, ∀ g ∈ r :: tables 2 (tree r), ¬ m.pmm.Available g
  low : ∀ r ∈ roots, ∀ g ∈ r :: tables 2 (tree r), g < 2 ^ 56

section

variable {m : Ram} {roots : List Nat} {tree : Nat → PageTable} {root g table : Nat} {words : Nat → Nat → Nat}

section

variable (h : Forest m roots tree)

include h

theorem Forest.lies (hr : root ∈ roots) : Lies m 2 root (tree root) :=
  ⟨h.rep root hr, (nodup_flatMap.mp h.nodup).1 root hr, h.taken root hr⟩

theorem Forest.disjoint {r r' : Nat} (hr : r ∈ roots) (hr' : r' ∈ roots) (hne : r' ≠ r)
    (hg : g ∈ r' :: tables 2 (tree r')) : g ∉ r :: tables 2 (tree r) := by
  have : Std.Symm (Function.onFun List.Disjoint fun r => r :: tables 2 (tree r)) := ⟨fun _ _ h => h.symm⟩
  intro hg'
  exact (nodup_flatMap.mp h.nodup).2.forall hr' hr hne hg hg'

/-- A walk in one tree leaves the words of another. -/
theorem Forest.rep_other {s : MmuStatus × Ram} {r : MmuStatus × PageTable × Pmm} {q : Nat}
    (hr : root ∈ roots) (hs : Simulates m 2 root (tree root) s r) (hq : q ∈ roots) (hne : q ≠ root) :
    Rep s.2.words 2 q (tree q) :=
  (h.rep q hq).congr fun g hg => hs.others g (h.disjoint hr hq hne hg) (h.taken q hq g hg)

/-- **A walk in one tree** leaves the other trees as they are, and takes new frames. -/
theorem Forest.walk {s : MmuStatus × Ram} {r : MmuStatus × PageTable × Pmm} {ts : List Nat}
    (hr : root ∈ roots) (hs : Simulates m 2 root (tree root) s r) (hdraws : m.pmm.Draws ts r.2.2)
    (hperm : (tables 2 r.2.1).Perm (ts ++ tables 2 (tree root))) :
    Forest s.2 roots (update tree root r.2.1) := by
  obtain ⟨hwf, hnodup, hdrawn, hmono, -⟩ := hdraws.spec h.wf
  have hwithin := hdraws.within h.wf h.within
  have hpmm : s.2.pmm = r.2.2 := hs.pmm
  refine ⟨hpmm ▸ hwf, hpmm ▸ hwithin, fun q hq => ?_, ?_, h.distinct, fun q hq g hg => ?_, fun q hq g hg => ?_⟩
  · by_cases hqr : q = root
    · subst hqr
      rw [update_self]
      exact hs.rep
    · rw [update_of_ne hqr]
      exact h.rep_other hr hs hq hqr
  · have hgain : (roots.flatMap fun q => q :: tables 2 (update tree root r.2.1 q)).Perm
        (ts ++ roots.flatMap fun q => q :: tables 2 (tree q)) := by
      refine Lib.flatMap_gain h.distinct hr (fun q hq => by rw [update_of_ne hq]) ?_
      rw [update_self]
      exact (hperm.cons root).trans perm_middle.symm
    refine hgain.nodup_iff.mpr (nodup_append'.mpr ⟨hnodup, h.nodup, fun g hg hg' => ?_⟩)
    obtain ⟨q, hq, hgq⟩ := mem_flatMap.mp hg'
    exact h.taken q hq g hgq (hdrawn g hg).1
  · rw [hpmm]
    by_cases hqr : q = root
    · subst hqr
      rw [update_self] at hg
      intro hav
      rcases mem_cons.mp hg with rfl | hg
      · exact h.taken g hr g mem_cons_self (hmono g hav)
      · rcases mem_append.mp (hperm.mem_iff.mp hg) with hg | hg
        · exact (hdrawn g hg).2.2 hav
        · exact h.taken q hr g (mem_cons_of_mem _ hg) (hmono g hav)
    · rw [update_of_ne hqr] at hg
      exact fun hav => h.taken q hq g hg (hmono g hav)
  · by_cases hqr : q = root
    · subst hqr
      rw [update_self] at hg
      rcases mem_cons.mp hg with rfl | hg
      · exact h.low g hr g mem_cons_self
      · rcases mem_append.mp (hperm.mem_iff.mp hg) with hg | hg
        · exact hwithin.lt (hdrawn g hg).2
        · exact h.low q hr g (mem_cons_of_mem _ hg)
    · rw [update_of_ne hqr] at hg
      exact h.low q hq g hg

end

theorem tables_mapPage (t : PageTable) (virtual physical : Nat) (flags : PageFlags) (borrowed : Bool) (p : Pmm) :
    ∃ ts, p.Draws ts (t.mapPage root virtual physical flags borrowed p).2.2 ∧
      (tables 2 (t.mapPage root virtual physical flags borrowed p).2.1).Perm (ts ++ tables 2 t) := by
  obtain ⟨ts, hdraws, hperm⟩ := mapPage_held (fun _ => []) root t virtual physical flags borrowed p
  refine ⟨ts, hdraws, ?_⟩
  have hnone : gain (fun _ => []) ⟨physical, flags, borrowed⟩
      (t.mapPage root virtual physical flags borrowed p).1 = [] := by
    exact ite_self []
  rw [hnone, append_nil] at hperm
  exact hperm

/-- A table is reached from a table through valid pointers. -/
def Reaches (words : Nat → Nat → Nat) : Nat → Nat → Nat → Prop
  | 0, table, g => g = table
  | n + 1, table, g =>
    g = table ∨ ∃ i < 512, words table i &&& pteV ≠ 0 ∧ pteIsLeaf (words table i) = false ∧
      Reaches words n (pteToPhysical (words table i)) g

theorem tables_level_zero {t : PageTable} (h : Rep words 0 table t) : tables 0 t = [] := by
  rw [tables, held_level_zero, flatMap_eq_nil_iff]
  intro i hi
  have hw := h i (mem_range.mp hi)
  cases ht : t i with
  | invalid => rfl
  | leaf l => rfl
  | table frame sub =>
    rw [ht] at hw
    exact hw.2.2.2.elim

theorem reaches_of_mem {n : Nat} {t : PageTable} (h : Rep words n table t)
    (hg : g ∈ table :: tables n t) : Reaches words n table g := by
  induction n generalizing table t with
  | zero =>
    rw [tables_level_zero h] at hg
    exact mem_singleton.mp hg
  | succ n ih =>
    rcases mem_cons.mp hg with rfl | hg
    · exact .inl rfl
    · obtain ⟨i, hi, frame, sub, ht, hg⟩ := mem_tables_succ.mp hg
      have hw := h i hi
      rw [ht] at hw
      obtain ⟨hword, halign, hlt, hbelow⟩ := hw
      obtain ⟨hv, hleaf, hphys⟩ := tableWord_spec hlt halign
      refine .inr ⟨i, hi, ?_, ?_, ?_⟩
      · rw [hword]
        exact hv
      · rw [hword]
        exact hleaf
      · rw [hword, hphys]
        refine ih hbelow ?_
        rcases hg with hg | rfl
        · exact mem_cons_of_mem _ hg
        · exact mem_cons_self

/-- **The machines that the kernel builds**, with the roots of their address spaces.  Memory lies where Sv39
    entries can name it, below 2^56.  Whatever else runs takes and gives back frames, writes other pages and drops
    address spaces; it neither writes nor gives back the tables of those that stay. -/
inductive Built : Ram → List Nat → Prop
  | start {m : Ram} (hp : m.pmm.Wf) (hb : m.pmm.Within (2 ^ 56)) : Built m []
  | newTable {m m' : Ram} {roots : List Nat} {root : Nat} (h : Built m roots)
    (ha : m.allocateTable = (.ok root, m')) : Built m' (root :: roots)
  | mapPage {m : Ram} {roots : List Nat} {root : Nat} (h : Built m roots) (hr : root ∈ roots)
    (virtual physical : Nat) (flags : PageFlags) (borrowed : Bool) (hlt : physical < 2 ^ 64) :
    Built (m.mapPage root virtual physical flags borrowed).2 roots
  | unmapBorrowedPage {m : Ram} {roots : List Nat} {root : Nat} (h : Built m roots) (hr : root ∈ roots)
    (virtual : Nat) : Built (m.unmapBorrowedPage root virtual).2 roots
  | mapGigapage {m : Ram} {roots : List Nat} {root : Nat} (h : Built m roots) (hr : root ∈ roots)
    (virtual physical : Nat) (flags : PageFlags) (hlt : physical < 2 ^ 64)
    (hflags : flags.read = true ∨ flags.write = true ∨ flags.execute = true) :
    Built (m.mapGigapage root virtual physical flags).2 roots
  | other {m m' : Ram} {roots roots' : List Nat} (h : Built m roots) (hsub : roots'.Sublist roots)
    (hp : m'.pmm.Wf) (hb : m'.pmm.Within (2 ^ 56)) (hwords : ∀ r ∈ roots', ∀ g, Reaches m.words 2 r g → m'.words g = m.words g)
    (hfree : ∀ r ∈ roots', ∀ g, Reaches m.words 2 r g → ¬ m'.pmm.Available g) : Built m' roots'

theorem Leaf.isLeaf_iff (l : Leaf) :
    l.isLeaf = true ↔ l.flags.read = true ∨ l.flags.write = true ∨ l.flags.execute = true := by
  rw [Leaf.isLeaf, Bool.or_eq_true, Bool.or_eq_true, or_assoc]

theorem Forest.newTable {m' : Ram} (h : Forest m roots tree) (ha : m.allocateTable = (.ok root, m')) :
    Forest m' (root :: roots) (update tree root zero) := by
  obtain ⟨halloc, hzero, hkeep, -, -⟩ := Ram.allocateTable_ok h.wf ha
  obtain ⟨hwf, -, hav, hvalid, hout, hmono, -, -⟩ := Pmm.allocateFrame_ok h.wf halloc
  have hnew : root ∉ roots := fun hr => h.taken root hr root mem_cons_self hav
  have htree : ∀ q ∈ roots, update tree root zero q = tree q :=
    fun q hq => update_of_ne (fun e : q = root => hnew (e ▸ hq)) _ _
  have hfresh : ∀ q ∈ roots, ∀ g ∈ q :: tables 2 (tree q), g ≠ root :=
    fun q hq g hg e => h.taken q hq g hg (e ▸ hav)
  have hwithin := h.within.allocateFrame h.wf halloc
  refine ⟨hwf, hwithin, fun q hq => ?_, ?_, nodup_cons.mpr ⟨hnew, h.distinct⟩, fun q hq g hg => ?_,
    fun q hq g hg => ?_⟩
  · rcases mem_cons.mp hq with rfl | hq
    · rw [update_self]
      exact Rep.ofZero hzero 2
    · rw [htree q hq]
      exact (h.rep q hq).congr fun g hg => hkeep g (hfresh q hq g hg)
  · have hrest : (roots.flatMap fun r => r :: tables 2 (update tree root zero r)) =
        roots.flatMap fun r => r :: tables 2 (tree r) := flatMap_congr fun q hq => by rw [htree q hq]
    rw [flatMap_cons, update_self, tables_zero, hrest]
    refine nodup_cons.mpr ⟨fun hmem => ?_, h.nodup⟩
    obtain ⟨q, hq, hg⟩ := mem_flatMap.mp hmem
    exact hfresh q hq root hg rfl
  · rcases mem_cons.mp hq with rfl | hq
    · rw [update_self, tables_zero] at hg
      rw [mem_singleton.mp hg]
      exact hout
    · rw [htree q hq] at hg
      exact fun hav' => h.taken q hq g hg (hmono g hav')
  · rcases mem_cons.mp hq with rfl | hq
    · rw [update_self, tables_zero] at hg
      rw [mem_singleton.mp hg]
      exact hwithin.lt ⟨hvalid, hout⟩
    · rw [htree q hq] at hg
      exact h.low q hq g hg

/-- **The trees stay** whatever is done. -/
theorem Built.forest (h : Built m roots) : ∃ tree, Forest m roots tree := by
  induction h with
  | start hp hb => exact ⟨fun _ => zero, hp, hb, nofun, nodup_nil, nodup_nil, nofun, nofun⟩
  | newTable _ ha ih =>
    obtain ⟨tree, hf⟩ := ih
    exact ⟨_, hf.newTable ha⟩
  | mapPage _ hr virtual physical flags borrowed hlt ih =>
    obtain ⟨tree, hf⟩ := ih
    obtain ⟨ts, hdraws, hperm⟩ := tables_mapPage (tree _) virtual physical flags borrowed _
    exact ⟨_, hf.walk hr (mapPage_simulates hf.wf (hf.lies hr) virtual hlt flags borrowed) hdraws hperm⟩
  | @unmapBorrowedPage m roots root _ hr virtual ih =>
    obtain ⟨tree, hf⟩ := ih
    have hperm : (tables 2 ((tree root).unmapBorrowedPage root virtual).2).Perm ([] ++ tables 2 (tree root)) :=
      unmapBorrowedPage_held (fun _ _ => rfl) root (tree root) virtual
    exact ⟨_, hf.walk hr (unmapBorrowedPage_simulates (hf.lies hr) virtual) .done hperm⟩
  | @mapGigapage m roots root _ hr virtual physical flags hlt hflags ih =>
    obtain ⟨tree, hf⟩ := ih
    obtain ⟨s, t', hperm, hs⟩ := mapGigapage_simulates (hf.lies hr) virtual hlt ((Leaf.isLeaf_iff _).mpr hflags)
    have hperm' : (tables 2 t').Perm ([] ++ tables 2 (tree root)) := hperm
    exact ⟨_, hf.walk hr hs .done hperm'⟩
  | other _ hsub hp hb hwords hfree ih =>
    obtain ⟨tree, hf⟩ := ih
    refine ⟨tree, hp, hb, fun r hr => ?_, hf.nodup.sublist (hsub.flatMap _), hf.distinct.sublist hsub, ?_,
      fun r hr => hf.low r (hsub.subset hr)⟩
    · have hrep := hf.rep r (hsub.subset hr)
      exact hrep.congr fun g hg => hwords r hr g (reaches_of_mem hrep hg)
    · intro r hr g hg
      exact hfree r hr g (reaches_of_mem (hf.rep r (hsub.subset hr)) hg)

end

/-! ## What the operations do to translations -/

variable {V W : Nat}

/-- **Two addresses take the same walk** exactly if they are on one page. -/
theorem path_eq_iff (hV : Canonical V) (hW : Canonical W) : path W = path V ↔ W / pageSize = V / pageSize := by
  have hindex : ∀ x, path x = [x / 2 ^ 30 % 512, x / 2 ^ 21 % 512, x / 2 ^ 12 % 512] := fun _ => rfl
  unfold Canonical at hV hW
  unfold pageSize
  rw [hindex, hindex]
  constructor
  · intro h
    injection h with h2 h
    injection h with h1 h
    injection h with h0 _
    omega
  · intro h
    have h2 : W / 2 ^ 30 = V / 2 ^ 30 := by omega
    have h1 : W / 2 ^ 21 = V / 2 ^ 21 := by omega
    have h0 : W / 2 ^ 12 = V / 2 ^ 12 := by omega
    rw [h2, h1, h0]

theorem Canonical.congr (hV : Canonical V) (h : W / pageSize = V / pageSize) : Canonical W := by
  unfold Canonical pageSize at *
  omega

theorem Translation.of_page {l : Leaf} (halign : l.frame % pageSize = 0) (virtual : Nat) :
    Translation.of virtual (l, 0) =
      if l.usable then some ⟨l.frame + virtual % pageSize, l.flags, l.borrowed⟩ else none := by
  have hnot : ¬ l.frame % 2 ^ (12 + 0 * 9) ≠ 0 := not_not.mpr halign
  unfold Translation.of
  cases l.usable with
  | true => rw [if_neg (by simpa using hnot), if_pos rfl]; rfl
  | false => rw [if_pos (.inl rfl), if_neg Bool.false_ne_true]

theorem translate_same {m m' : Ram} {root : Nat} {t t' : PageTable} (h : Rep m.words 2 root t)
    (hlow : ∀ g ∈ tables 2 t, g < 2 ^ 56) (h' : Rep m'.words 2 root t') (hlow' : ∀ g ∈ tables 2 t', g < 2 ^ 56)
    (hlookup : Canonical W → lookup (path W) t' = lookup (path W) t) : translate m' root W = translate m root W := by
  by_cases hW : Canonical W
  · rw [translate_rep h hlow hW, translate_rep h' hlow' hW, hlookup hW]
  · rw [translate, translate, if_neg hW, if_neg hW]

/-- **Every page that `Map_Page` maps translates as it was asked to**, where the hardware takes the leaf, and
    nothing else changes. -/
theorem mapPage_translates {m : Ram} {roots : List Nat} {root : Nat} (h : Built m roots) (hr : root ∈ roots)
    {P : Nat} (hV : Canonical V) (hP : P < 2 ^ 64) (flags : PageFlags) (borrowed : Bool) :
    ((m.mapPage root V P flags borrowed).1 = .ok → ∀ W, translate (m.mapPage root V P flags borrowed).2 root W =
      if W / pageSize = V / pageSize then
        if Leaf.usable ⟨P, flags, borrowed⟩ then some ⟨P + W % pageSize, flags, borrowed⟩ else none
      else translate m root W) ∧
    ((m.mapPage root V P flags borrowed).1 ≠ .ok → ∀ W,
      translate (m.mapPage root V P flags borrowed).2 root W = translate m root W) ∧
    (∀ r ∈ roots, r ≠ root → ∀ W, translate (m.mapPage root V P flags borrowed).2 r W = translate m r W) := by
  obtain ⟨tree, hf⟩ := h.forest
  have hs := mapPage_simulates hf.wf (hf.lies hr) V hP flags borrowed
  have hrep := hf.rep root hr
  have hlow := fun r hr g hg => hf.low r hr g (mem_cons_of_mem _ hg)
  obtain ⟨ts, hdraws, hperm⟩ := tables_mapPage (tree root) V P flags borrowed m.pmm
  have hlow' : ∀ g ∈ tables 2 ((tree root).mapPage root V P flags borrowed m.pmm).2.1, g < 2 ^ 56 := by
    have hwalk := (hf.walk hr hs hdraws hperm).low root hr
    rw [update_self] at hwalk
    exact fun g hg => hwalk g (mem_cons_of_mem _ hg)
  -- what the walk on the tree does
  have hlookup : (((tree root).mapPage root V P flags borrowed m.pmm).1 = .ok → P % pageSize = 0 ∧
        lookup (path V) ((tree root).mapPage root V P flags borrowed m.pmm).2.1 =
          if Leaf.isLeaf ⟨P, flags, borrowed⟩ then some (⟨P, flags, borrowed⟩, 0) else none) ∧
      (∀ W, path W ≠ path V ∨ ((tree root).mapPage root V P flags borrowed m.pmm).1 ≠ .ok →
        lookup (path W) ((tree root).mapPage root V P flags borrowed m.pmm).2.1 = lookup (path W) (tree root)) := by
    unfold PageTable.mapPage
    by_cases hbad : root % pageSize ≠ 0 ∨ V % pageSize ≠ 0 ∨ P % pageSize ≠ 0
    · rw [if_pos hbad]
      exact ⟨fun h => (by cases h), fun _ _ => rfl⟩
    · rw [if_neg hbad]
      obtain ⟨hput, hkeep⟩ := mapAt_lookup ⟨P, flags, borrowed⟩ (path V) (tree root) m.pmm
      exact ⟨fun hok => ⟨by omega, (hput hok).2⟩, fun W hW => hkeep (path W) rfl hW⟩
  rw [hs.status]
  refine ⟨fun hok W => ?_, fun hne W => ?_, fun r hrm hrne W => ?_⟩
  · by_cases hW : W / pageSize = V / pageSize
    · -- the page itself
      have hWc := hV.congr hW
      obtain ⟨halign, hput⟩ := hlookup.1 hok
      rw [if_pos hW, translate_rep hs.rep hlow' hWc, (path_eq_iff hV hWc).mpr hW, hput]
      by_cases hleaf : Leaf.isLeaf ⟨P, flags, borrowed⟩ = true
      · rw [if_pos hleaf]
        exact Translation.of_page halign W
      · have hnot : Leaf.usable ⟨P, flags, borrowed⟩ = false := by
          simp only [Leaf.isLeaf, Bool.or_eq_true, not_or, Bool.not_eq_true] at hleaf
          simp [Leaf.usable, hleaf]
        rw [if_neg hleaf, hnot]
        rfl
    · rw [if_neg hW]
      refine translate_same hrep (hlow root hr) hs.rep hlow' fun hWc => hlookup.2 W (.inl fun e => ?_)
      exact hW ((path_eq_iff hV hWc).mp e)
  · exact translate_same hrep (hlow root hr) hs.rep hlow' fun _ => hlookup.2 W (.inr hne)
  · -- another tree
    exact translate_same (hf.rep r hrm) (hlow r hrm) (hf.rep_other hr hs hrm hrne) (hlow r hrm) fun _ => rfl

/-- **`Unmap_Borrowed_Page` takes out exactly one page**, and only one that was mapped as borrowed. -/
theorem unmapBorrowedPage_translates {m : Ram} {roots : List Nat} {root : Nat} (h : Built m roots)
    (hr : root ∈ roots) (hV : Canonical V) :
    ((m.unmapBorrowedPage root V).1 = .ok → (∃ pte, leafAt m root V = some (pte, 0) ∧ pte &&& pteBorrowed ≠ 0) ∧
      ∀ W, translate (m.unmapBorrowedPage root V).2 root W =
        if W / pageSize = V / pageSize then none else translate m root W) ∧
    ((m.unmapBorrowedPage root V).1 ≠ .ok → ∀ W,
      translate (m.unmapBorrowedPage root V).2 root W = translate m root W) ∧
    (∀ r ∈ roots, r ≠ root → ∀ W, translate (m.unmapBorrowedPage root V).2 r W = translate m r W) := by
  obtain ⟨tree, hf⟩ := h.forest
  have hs := unmapBorrowedPage_simulates (hf.lies hr) V
  have hrep := hf.rep root hr
  have hlow := fun r hr g hg => hf.low r hr g (mem_cons_of_mem _ hg)
  have hlow' : ∀ g ∈ tables 2 ((tree root).unmapBorrowedPage root V).2, g < 2 ^ 56 := by
    intro g hg
    have hperm : (tables 2 ((tree root).unmapBorrowedPage root V).2).Perm (tables 2 (tree root)) :=
      unmapBorrowedPage_held (fun _ _ => rfl) root (tree root) V
    exact hlow root hr g (hperm.mem_iff.mp hg)
  have hlookup : (((tree root).unmapBorrowedPage root V).1 = .ok →
        (∃ l, lookup (path V) (tree root) = some (l, 0) ∧ l.borrowed = true) ∧
          lookup (path V) ((tree root).unmapBorrowedPage root V).2 = none) ∧
      (∀ W, path W ≠ path V ∨ ((tree root).unmapBorrowedPage root V).1 ≠ .ok →
        lookup (path W) ((tree root).unmapBorrowedPage root V).2 = lookup (path W) (tree root)) := by
    unfold PageTable.unmapBorrowedPage
    split_ifs with hbad
    · exact ⟨fun h => (by cases h), fun _ _ => rfl⟩
    · obtain ⟨hout, hkeep⟩ := unmapAt_lookup (path V) (tree root)
      exact ⟨hout, fun W hW => hkeep (path W) rfl hW⟩
  rw [hs.status]
  refine ⟨fun hok => ⟨?_, fun W => ?_⟩, fun hne W => ?_, fun r hrm hrne W => ?_⟩
  · obtain ⟨⟨l, hl, hb⟩, -⟩ := hlookup.1 hok
    obtain ⟨halign, hlt⟩ := lookup_aligned (n := 2) hrep hl
    refine ⟨leafWord l, ?_, of_decide_eq_true ((leafWord_spec l hlt halign).2.2.2.2.trans hb)⟩
    rw [leafAt_rep hrep (hlow root hr), hl]
    rfl
  · by_cases hW : W / pageSize = V / pageSize
    · have hWc := hV.congr hW
      rw [if_pos hW, translate_rep hs.rep hlow' hWc, (path_eq_iff hV hWc).mpr hW, (hlookup.1 hok).2]
      rfl
    · rw [if_neg hW]
      refine translate_same hrep (hlow root hr) hs.rep hlow' fun hWc => hlookup.2 W (.inl fun e => ?_)
      exact hW ((path_eq_iff hV hWc).mp e)
  · exact translate_same hrep (hlow root hr) hs.rep hlow' fun _ => hlookup.2 W (.inr hne)
  · exact translate_same (hf.rep r hrm) (hlow r hrm) (hf.rep_other hr hs hrm hrne) (hlow r hrm) fun _ => rfl

/-- **Page tables are correct.**  In every machine that the kernel builds, for every root and every canonical
    address: `Map_Page` that succeeds makes the page translate to the frame with those flags, if the hardware takes
    such a leaf, and to nothing if it does not; no other translation changes, in this tree or another; where it
    fails, none changes at all.  `Unmap_Borrowed_Page` that succeeds removes exactly this page, whose leaf was a
    borrowed one; where it fails, nothing changes. -/
theorem translations_exact {m : Ram} {roots : List Nat} {root : Nat} (h : Built m roots) (hr : root ∈ roots)
    {V P : Nat} (hV : Canonical V) (hP : P < 2 ^ 64) (flags : PageFlags) (borrowed : Bool) :
    (((m.mapPage root V P flags borrowed).1 = .ok → ∀ W, translate (m.mapPage root V P flags borrowed).2 root W =
        if W / pageSize = V / pageSize then
          if P < 2 ^ 56 ∧ (flags.read = true ∨ flags.execute = true ∧ flags.write = false) then
            some ⟨P + W % pageSize, flags, borrowed⟩
          else none
        else translate m root W) ∧
      ((m.mapPage root V P flags borrowed).1 ≠ .ok → ∀ W,
        translate (m.mapPage root V P flags borrowed).2 root W = translate m root W) ∧
      (∀ r ∈ roots, r ≠ root → ∀ W,
        translate (m.mapPage root V P flags borrowed).2 r W = translate m r W)) ∧
    (((m.unmapBorrowedPage root V).1 = .ok → (∃ pte, leafAt m root V = some (pte, 0) ∧ pte &&& pteBorrowed ≠ 0) ∧
        ∀ W, translate (m.unmapBorrowedPage root V).2 root W =
          if W / pageSize = V / pageSize then none else translate m root W) ∧
      ((m.unmapBorrowedPage root V).1 ≠ .ok → ∀ W,
        translate (m.unmapBorrowedPage root V).2 root W = translate m root W) ∧
      (∀ r ∈ roots, r ≠ root → ∀ W, translate (m.unmapBorrowedPage root V).2 r W = translate m r W)) := by
  refine ⟨?_, unmapBorrowedPage_translates h hr hV⟩
  have hmap := mapPage_translates h hr hV hP flags borrowed
  simpa [Leaf.usable] using hmap

theorem smallMachine_within : smallMachine.pmm.Within (2 ^ 56) := ⟨by decide, by decide, nofun⟩

/-- A page of the first root of the small machine is mapped, and unmapped again. -/
theorem translations_exact_firstPage : ∃ m roots root, Built m roots ∧ root ∈ roots ∧
    translate (m.mapPage root 0x40000000 0x80000000 userRW true).2 root 0x40000123 =
      some ⟨0x80000123, userRW, true⟩ ∧
    translate ((m.mapPage root 0x40000000 0x80000000 userRW true).2.unmapBorrowedPage root 0x40000000).2 root
      0x40000123 = none := by
  have hstart : Built ⟨fun _ _ => 0, smallMachine.pmm⟩ [] := .start smallMachine.pmm_wf smallMachine_within
  have hsome : (Ram.allocateTable ⟨fun _ _ => 0, smallMachine.pmm⟩).1 = .ok 0x80500000 := by decide +kernel
  have hbuilt := hstart.newTable (Prod.ext hsome rfl)
  refine ⟨_, _, 0x80500000, hbuilt, mem_cons_self, ?_, ?_⟩
  · have hok : ((Ram.allocateTable ⟨fun _ _ => 0, smallMachine.pmm⟩).2.mapPage 0x80500000 0x40000000 0x80000000
        userRW true).1 = .ok := by decide +kernel
    have hmapped := (translations_exact hbuilt mem_cons_self (V := 0x40000000) (P := 0x80000000) (by decide)
      (by decide) userRW true).1.1 hok 0x40000123
    rw [hmapped, if_pos (by decide)]
    rfl
  · have hthen := hbuilt.mapPage mem_cons_self 0x40000000 0x80000000 userRW true (by decide)
    have hok : (((Ram.allocateTable ⟨fun _ _ => 0, smallMachine.pmm⟩).2.mapPage 0x80500000 0x40000000 0x80000000
        userRW true).2.unmapBorrowedPage 0x80500000 0x40000000).1 = .ok := by decide +kernel
    have hgone := ((translations_exact hthen mem_cons_self (V := 0x40000000) (P := 0) (by decide)
      (by decide) userRW true).2.1 hok).2 0x40000123
    rw [hgone, if_pos (by decide)]

/-- A page that may be written and not read. -/
def writeOnly : PageFlags := { userRW with read := false }

/-- `Map_Page` answers Ok to a leaf that allows writes only, at which every access faults. -/
theorem translations_writeOnly : ∃ m roots root, Built m roots ∧ root ∈ roots ∧
    (m.mapPage root 0x40000000 0x80000000 writeOnly false).1 = .ok ∧
    translate (m.mapPage root 0x40000000 0x80000000 writeOnly false).2 root 0x40000000 = none := by
  have hstart : Built ⟨fun _ _ => 0, smallMachine.pmm⟩ [] := .start smallMachine.pmm_wf smallMachine_within
  have hsome : (Ram.allocateTable ⟨fun _ _ => 0, smallMachine.pmm⟩).1 = .ok 0x80500000 := by decide +kernel
  refine ⟨_, _, 0x80500000, hstart.newTable (Prod.ext hsome rfl), mem_cons_self, ?_⟩
  decide +kernel

/-! ## Address spaces as maps -/

/-- A call on the address space `root`: it maps a leaf at a page, or unmaps the page. -/
structure PageCall where
  root : Nat
  virtual : Nat
  leaf : Option Leaf

namespace PageCall

variable {m : Ram} {roots : List Nat} {c : PageCall}

/-- The call on the machine. -/
def perform (m : Ram) (c : PageCall) : MmuStatus × Ram :=
  match c.leaf with
  | some l => m.mapPage c.root c.virtual l.frame l.flags l.borrowed
  | none => m.unmapBorrowedPage c.root c.virtual

/-- What a call that succeeds does to the maps: one page of one of them changes. -/
def apply (T : Nat → Nat → Option Translation) (c : PageCall) (r W : Nat) : Option Translation :=
  if r = c.root ∧ W / pageSize = c.virtual / pageSize then
    c.leaf.bind fun l => if l.usable then some ⟨l.frame + W % pageSize, l.flags, l.borrowed⟩ else none
  else T r W

/-- The call names one of the roots, a canonical address, and a frame of 64 bits. -/
structure Proper (roots : List Nat) (c : PageCall) : Prop where
  root : c.root ∈ roots
  virtual : Canonical c.virtual
  leaf : ∀ l ∈ c.leaf, l.frame < 2 ^ 64

/-- The machine after calls, one after the other. -/
def performAll (m : Ram) : List PageCall → Ram
  | [] => m
  | c :: cs => performAll (c.perform m).2 cs

/-- The maps after calls on the machine `m`: those that it refuses change nothing. -/
def applyAll (m : Ram) (T : Nat → Nat → Option Translation) : List PageCall → Nat → Nat → Option Translation
  | [] => T
  | c :: cs => applyAll (c.perform m).2 (if (c.perform m).1 = .ok then c.apply T else T) cs

theorem perform_built (h : Built m roots) (hc : c.Proper roots) : Built (c.perform m).2 roots := by
  unfold perform
  split
  · rename_i l hl
    exact h.mapPage hc.root _ _ _ _ (hc.leaf l hl)
  · exact h.unmapBorrowedPage hc.root _

theorem perform_translates (h : Built m roots) (hc : c.Proper roots) {r : Nat} (hr : r ∈ roots) (W : Nat) :
    translate (c.perform m).2 r W = (if (c.perform m).1 = .ok then c.apply (translate m) else translate m) r W := by
  have hspec : ((c.perform m).1 = .ok → ∀ W, translate (c.perform m).2 c.root W = c.apply (translate m) c.root W) ∧
      ((c.perform m).1 ≠ .ok → ∀ W, translate (c.perform m).2 c.root W = translate m c.root W) ∧
      (∀ r ∈ roots, r ≠ c.root → ∀ W, translate (c.perform m).2 r W = translate m r W) := by
    unfold perform apply
    cases hl : c.leaf with
    | none =>
      obtain ⟨hok, hrest⟩ := unmapBorrowedPage_translates h hc.root hc.virtual
      exact ⟨fun hs W => by simpa using (hok hs).2 W, hrest⟩
    | some l =>
      obtain ⟨hok, hrest⟩ := mapPage_translates h hc.root hc.virtual (hc.leaf l hl) l.flags l.borrowed
      exact ⟨fun hs W => by simpa using hok hs W, hrest⟩
  obtain ⟨hok, hno, hother⟩ := hspec
  by_cases hroot : r = c.root
  · subst hroot
    split
    · exact hok ‹_› W
    · exact hno ‹_› W
  · -- a call on another address space
    rw [hother r hr hroot W]
    split
    · exact (if_neg fun e => hroot e.1).symm
    · rfl

/-- **Address spaces are maps.**  Whatever calls are made on whichever of the address spaces, in any order, what each of
    them translates is what the calls on it that succeeded made of it, page by page: no call on another address space
    shows, and no refused call; a leaf that the hardware does not take makes its page translate to nothing. -/
theorem spaces_refine_maps (h : Built m roots) (cs : List PageCall) (hcs : ∀ c ∈ cs, c.Proper roots) :
    ∀ r ∈ roots, ∀ W, translate (performAll m cs) r W = applyAll m (translate m) cs r W := by
  -- the induction is on the calls; `T` are the maps so far
  have hrun : ∀ T : Nat → Nat → Option Translation, (∀ r ∈ roots, ∀ W, translate m r W = T r W) →
      ∀ r ∈ roots, ∀ W, translate (performAll m cs) r W = applyAll m T cs r W := by
    induction cs generalizing m with
    | nil => exact fun _ hT => hT
    | cons c cs ih =>
      intro T hT
      obtain ⟨hc, hrest⟩ := forall_mem_cons.mp hcs
      apply ih (perform_built h hc) hrest
      intro r hr W
      rw [perform_translates h hc hr W]
      split
      · exact if_congr Iff.rfl rfl (hT r hr W)
      · exact hT r hr W
  exact hrun _ fun _ _ _ => rfl

/-- Two address spaces map the same page, one of them twice, which is refused; then this one unmaps it. -/
def mapBoth : List PageCall :=
  [⟨0x80500000, 0x40000000, some ⟨0x80000000, userRW, true⟩⟩,
    ⟨0x80500000, 0x40000000, some ⟨0x80001000, userRW, true⟩⟩,
    ⟨0x80501000, 0x40000000, some ⟨0x80001000, userRW, true⟩⟩, ⟨0x80500000, 0x40000000, none⟩]

/-- The small machine with two empty root tables. -/
def twoTables : Ram := (Ram.allocateTable (Ram.allocateTable ⟨fun _ _ => 0, smallMachine.pmm⟩).2).2

theorem twoTables_built : Built twoTables [0x80501000, 0x80500000] := by
  have hfirst : (Ram.allocateTable ⟨fun _ _ => 0, smallMachine.pmm⟩).1 = .ok 0x80500000 := by decide +kernel
  have hsecond : (Ram.allocateTable (Ram.allocateTable ⟨fun _ _ => 0, smallMachine.pmm⟩).2).1 = .ok 0x80501000 := by
    decide +kernel
  have hone := (Built.start smallMachine.pmm_wf smallMachine_within).newTable (Prod.ext hfirst rfl)
  exact hone.newTable (Prod.ext hsecond rfl)

/-- The first address space has lost the page, and the second keeps its own. -/
theorem spaces_refine_maps_both : translate (performAll twoTables mapBoth) 0x80500000 0x40000123 = none ∧
    translate (performAll twoTables mapBoth) 0x80501000 0x40000123 = some ⟨0x80001123, userRW, true⟩ := by
  have hproper : ∀ c ∈ mapBoth, c.Proper [0x80501000, 0x80500000] := by
    intro c hc
    simp only [mapBoth, mem_cons, not_mem_nil, or_false] at hc
    rcases hc with rfl | rfl | rfl | rfl
    · exact ⟨by decide, by decide, fun l hl => by cases hl; decide⟩
    · exact ⟨by decide, by decide, fun l hl => by cases hl; decide⟩
    · exact ⟨by decide, by decide, fun l hl => by cases hl; decide⟩
    · exact ⟨by decide, by decide, nofun⟩
  constructor
  · rw [spaces_refine_maps twoTables_built mapBoth hproper 0x80500000 (by decide)]
    decide +kernel
  · rw [spaces_refine_maps twoTables_built mapBoth hproper 0x80501000 (by decide)]
    decide +kernel

end PageCall

end Aegir.Arch
