/-
  An address space gives back what it took.

  `Life root tables owned t p` is the life of one address space, with others using the allocator in between:
  `tables` are the frames of its page tables, `owned` the leaves with a frame of their own.

  `Destroy_User_Address_Space` gives back all tables.  An owned leaf is found by its permission bits: one
  with neither R, W nor X, as the image loader maps for a program header without flags, reads as a pointer,
  and its frame never comes back (`destroy_conserves_iff`).
-/
import Aegir.Arch.Tables
import Aegir.Laws.Paging
import Aegir.Kernel.Boot

namespace Aegir.Arch

open Aegir.Kernel PageTable List

/-- The frame behind such a leaf belongs to the address space. -/
def Leaf.owned (l : Leaf) : Bool := !l.flags.global && !l.borrowed

/-- The owned leaf that a `Map_Page` with this answer puts in. -/
def entered (s : MmuStatus) (l : Leaf) : List Leaf := if s = .ok ∧ l.owned = true then [l] else []

/-- The frames that an address space holds: its root, its other tables, and its owned pages. -/
def holdings (root : Nat) (tables : List Nat) (owned : List Leaf) : List Nat :=
  root :: tables ++ owned.map Leaf.frame

/-- **The life of an address space.**  Whoever maps an owned page brings a frame that he took from the
    allocator for it; the others leave alone what the address space holds. -/
inductive Life (root : Nat) : List Nat → List Leaf → PageTable → Pmm → Prop
  | new {first last : Nat} {tables : List Nat} {t : PageTable} {p p' : Pmm} (hp : p.Wf)
    (hnew : newUserAddressSpace first last p = (.ok (root, t), p')) (hdraws : p.Draws (root :: tables) p') :
    Life root tables [] t p'
  | map {tables ts : List Nat} {owned : List Leaf} {t t' : PageTable} {p p' : Pmm} {s : MmuStatus}
    {virtual physical : Nat} {flags : PageFlags} {borrowed : Bool} (h : Life root tables owned t p)
    (hfresh : (⟨physical, flags, borrowed⟩ : Leaf).owned = true → p.Out physical ∧ physical ∉ holdings root tables owned)
    (hmap : t.mapPage root virtual physical flags borrowed p = (s, t', p')) (hdraws : p.Draws ts p') :
    Life root (tables ++ ts) (owned ++ entered s ⟨physical, flags, borrowed⟩) t' p'
  | unmap {tables : List Nat} {owned : List Leaf} {t : PageTable} {p : Pmm} (h : Life root tables owned t p)
    (virtual : Nat) : Life root tables owned (t.unmapBorrowedPage root virtual).2 p
  | others {tables : List Nat} {owned : List Leaf} {t : PageTable} {p p' : Pmm} (h : Life root tables owned t p)
    (hp : p'.Wf) (hready : p'.isReady = true) (hout : ∀ f ∈ holdings root tables owned, p'.Out f) :
    Life root tables owned t p'

/-- The frames that `Destroy_User_Address_Space` passes to `Deallocate_Frame`, in order. -/
def releases (root : Nat) (t : PageTable) : List Nat := held reclaims 2 t ++ [root]

/-- **Teardown conserves frames**: the frames given back are the ones in `frames`, each of them once, all are
    accepted, and the allocator has gained these and no others. -/
structure Conserved (root : Nat) (t : PageTable) (p : Pmm) (frames : List Nat) : Prop where
  exact : (releases root t).Perm frames
  once : (releases root t).Nodup
  accepted : ∀ s ∈ p.answers (releases root t), s = .ok
  status : (destroyUserAddressSpace root t p).1 = .ok
  gained : ∀ f, (destroyUserAddressSpace root t p).2.Available f ↔ p.Available f ∨ f ∈ frames

variable {root : Nat} {tables : List Nat} {owned : List Leaf} {t : PageTable} {p : Pmm}

/-! ## Making an address space -/

variable {own : Leaf → List Nat} {p' : Pmm}

theorem mapTrampoline_held (hown : ∀ l : Leaf, l.flags.global = true → own l = [])
    (root page n : Nat) (t : PageTable) (p : Pmm) :
    ∃ ts, p.Draws ts (mapTrampoline root page n t p).2.2 ∧
      (held own 2 (mapTrampoline root page n t p).2.1).Perm (ts ++ held own 2 t) := by
  induction n generalizing page t p with
  | zero => exact ⟨[], .done, .refl _⟩
  | succ n ih =>
    obtain ⟨ts, hdraws, hperm⟩ := mapPage_held own root t page (kernelVirtToPhys page) kernelRX false p
    have hgain : ∀ s, gain own ⟨kernelVirtToPhys page, kernelRX, false⟩ s = [] := by
      intro s
      rw [gain, hown _ rfl, ite_self]
    rw [hgain, append_nil] at hperm
    unfold mapTrampoline
    cases hmap : t.mapPage root page (kernelVirtToPhys page) kernelRX false p with
    | mk s r =>
      obtain ⟨t', p'⟩ := r
      rw [hmap] at hdraws hperm
      cases s with
      | ok =>
        obtain ⟨us, hdraws', hperm'⟩ := ih (page + pageSize) t' p'
        refine ⟨ts ++ us, hdraws.trans hdraws', hperm'.trans ?_⟩
        refine (hperm.append_left us).trans ?_
        rw [← append_assoc]
        exact perm_append_comm.append_right _
      | _ => exact ⟨ts, hdraws, hperm⟩

/-- **`New_User_Address_Space`**: the root and the tables of the trampoline are all that it holds. -/
theorem newUserAddressSpace_held (hown : ∀ l : Leaf, l.flags.global = true → own l = [])
    {first last : Nat} (hnew : newUserAddressSpace first last p = (.ok (root, t), p')) :
    ∃ ts, p.Draws (root :: ts) p' ∧ (held own 2 t).Perm ts := by
  unfold newUserAddressSpace at hnew
  cases ha : p.allocateFrame with
  | mk r p1 =>
    rw [ha] at hnew
    cases r with
    | error e => cases hnew
    | ok frame =>
      dsimp only at hnew
      obtain ⟨ts, hdraws, hperm⟩ := mapTrampoline_held hown frame (first - first % pageSize)
        ((last - (first - first % pageSize) + pageSize - 1) / pageSize) .zero p1
      cases htramp : mapTrampoline frame (first - first % pageSize)
          ((last - (first - first % pageSize) + pageSize - 1) / pageSize) .zero p1 with
      | mk s q =>
        rw [htramp] at hnew hdraws hperm
        cases s with
        | ok =>
          cases hnew
          rw [held_zero, append_nil] at hperm
          exact ⟨ts, .got ha hdraws, hperm⟩
        | _ => cases hnew

/-! ## The invariant -/

variable {flags : PageFlags}

/-- What holds at every moment of a life. -/
structure Held (root : Nat) (tables : List Nat) (owned : List Leaf) (t : PageTable) (p : Pmm) : Prop where
  wf : p.Wf
  ready : p.isReady = true
  out : ∀ f ∈ holdings root tables owned, p.Out f
  nodup : (holdings root tables owned).Nodup
  tree : (held reclaims 2 t).Perm (tables ++ (owned.filter Leaf.isLeaf).map Leaf.frame)

theorem reclaims_eq_nil {l : Leaf} (h : l.owned = false) : reclaims l = [] := by
  rw [reclaims, if_neg]
  rintro ⟨-, hg, hb⟩
  simp [Leaf.owned, hg, hb] at h

/-- What a leaf brings to the walk of teardown is its frame, if it is owned and has a permission. -/
theorem gain_reclaims (l : Leaf) (s : MmuStatus) :
    gain reclaims l s = ((entered s l).filter Leaf.isLeaf).map Leaf.frame := by
  unfold gain entered
  by_cases hs : s = .ok
  · by_cases hl : l.owned = true
    · rw [if_pos hs, if_pos ⟨hs, hl⟩]
      have hflags : l.flags.global = false ∧ l.borrowed = false := by
        simpa [Leaf.owned, and_comm] using hl
      by_cases hleaf : l.isLeaf = true
      · rw [reclaims, if_pos ⟨hleaf, hflags⟩, filter_cons_of_pos hleaf]
        rfl
      · rw [reclaims, if_neg (fun h => hleaf h.1), filter_cons_of_neg hleaf]
        rfl
    · rw [if_pos hs, if_neg (fun h => hl h.2), reclaims_eq_nil (by simpa using hl)]
      rfl
  · rw [if_neg hs, if_neg (fun h => hs h.1)]
    rfl

/-- **A `Map_Page` step**: new tables, and the leaf's frame, join what is held. -/
theorem Held.map {ts : List Nat} {t' : PageTable} {s : MmuStatus} {virtual physical : Nat} {borrowed : Bool} (h : Held root tables owned t p)
    (hfresh : (⟨physical, flags, borrowed⟩ : Leaf).owned = true →
      p.Out physical ∧ physical ∉ holdings root tables owned)
    (hmap : t.mapPage root virtual physical flags borrowed p = (s, t', p')) (hdraws : p.Draws ts p') :
    Held root (tables ++ ts) (owned ++ entered s ⟨physical, flags, borrowed⟩) t' p' := by
  obtain ⟨us, hdraws', hperm⟩ := mapPage_held reclaims root t virtual physical flags borrowed p
  rw [hmap, gain_reclaims] at hperm
  rw [hmap] at hdraws'
  obtain rfl : us = ts := hdraws'.unique h.wf hdraws
  obtain ⟨hwf, hnodup, hnew, hle, hkeep⟩ := hdraws.spec h.wf
  -- the owned frame that goes in, if one does
  have hentered : ∀ f ∈ (entered s ⟨physical, flags, borrowed⟩).map Leaf.frame,
      p.Out f ∧ f ∉ holdings root tables owned := by
    intro f hf
    obtain ⟨l, hl, rfl⟩ := mem_map.mp hf
    by_cases hs : s = .ok ∧ (⟨physical, flags, borrowed⟩ : Leaf).owned = true
    · rw [entered, if_pos hs, mem_singleton] at hl
      rw [hl]
      exact hfresh hs.2
    · rw [entered, if_neg hs] at hl
      exact absurd hl not_mem_nil
  have hone : ((entered s ⟨physical, flags, borrowed⟩).map Leaf.frame).Nodup := by
    unfold entered
    split
    · exact nodup_singleton _
    · exact nodup_nil
  -- the frames held after the step, up to their order
  have hsplit : (holdings root (tables ++ us) (owned ++ entered s ⟨physical, flags, borrowed⟩)).Perm
      (us ++ ((entered s ⟨physical, flags, borrowed⟩).map Leaf.frame ++ holdings root tables owned)) := by
    refine perm_iff_count.mpr fun f => ?_
    simp only [holdings, map_append, cons_append, count_cons, count_append]
    omega
  constructor
  · exact hwf
  · rw [hdraws.isReady]
    exact h.ready
  · intro f hf
    rcases mem_append.mp (hsplit.mem_iff.mp hf) with hf | hf
    · exact (hnew f hf).2
    · rcases mem_append.mp hf with hf | hf
      · exact hkeep f (hentered f hf).1
      · exact hkeep f (h.out f hf)
  · rw [hsplit.nodup_iff, nodup_append']
    refine ⟨hnodup, ?_, fun f hf hrest => ?_⟩
    · rw [nodup_append']
      exact ⟨hone, h.nodup, fun f hf hin => (hentered f hf).2 hin⟩
    · have hav := (hnew f hf).1
      rcases mem_append.mp hrest with hin | hin
      · exact (hentered f hin).1.2 hav
      · exact (h.out f hin).2 hav
  · refine hperm.trans ?_
    have hold := h.tree
    refine perm_iff_count.mpr fun f => ?_
    have hcount := perm_iff_count.mp hold f
    simp only [filter_append, map_append, count_append] at hcount ⊢
    omega

/-- **The invariant of a life.** -/
theorem Life.held (h : Life root tables owned t p) : Held root tables owned t p := by
  induction h with
  | @new first last tables t p p' hp hnew hdraws =>
    have hown : ∀ l : Leaf, l.flags.global = true → reclaims l = [] := by
      intro l hl
      exact reclaims_eq_nil (by simp [Leaf.owned, hl])
    obtain ⟨ts, hdraws', hperm⟩ := newUserAddressSpace_held hown hnew
    have hts : root :: ts = root :: tables := hdraws'.unique hp hdraws
    obtain rfl : ts = tables := (cons.inj hts).2
    obtain ⟨hwf, hnodup, hnew', -, -⟩ := hdraws.spec hp
    constructor
    · exact hwf
    · exact hdraws.ready (cons_ne_nil _ _)
    · intro f hf
      rw [holdings, map_nil, append_nil] at hf
      exact (hnew' f hf).2
    · rw [holdings, map_nil, append_nil]
      exact hnodup
    · rw [filter_nil, map_nil, append_nil]
      exact hperm
  | map h hfresh hmap hdraws ih => exact ih.map hfresh hmap hdraws
  | unmap h virtual ih =>
    have hown : ∀ l : Leaf, l.borrowed = true → reclaims l = [] := by
      intro l hl
      exact reclaims_eq_nil (by simp [Leaf.owned, hl])
    exact ⟨ih.wf, ih.ready, ih.out, ih.nodup, (unmapBorrowedPage_held hown root _ virtual).trans ih.tree⟩
  | others h hp hready hout ih => exact ⟨hp, hready, hout, ih.nodup, ih.tree⟩

/-! ## Teardown -/

theorem destroyUserAddressSpace_eq (hroot : root ≠ 0) (halign : root % pageSize = 0) (t : PageTable) (p : Pmm) :
    (destroyUserAddressSpace root t p).2 = p.giveBack (releases root t) := by
  rw [destroyUserAddressSpace, if_neg (by omega), destroyTable_eq, releases, Pmm.giveBack_append]
  show _ = (Pmm.deallocateFrame _ root).2
  split <;> rename_i h <;> rw [h]

/-- **What teardown gives back** in any life: the tables, and the owned leaves that have a permission. -/
theorem Held.releases_perm (h : Held root tables owned t p) :
    (releases root t).Perm (holdings root tables (owned.filter Leaf.isLeaf)) := by
  refine perm_append_comm.trans ?_
  exact h.tree.cons root

/-- **Address-space teardown conserves frames** exactly when every owned page that was mapped has at least
    one of the permissions R, W and X. -/
theorem destroy_conserves_iff (h : Life root tables owned t p) :
    Conserved root t p (holdings root tables owned) ↔ ∀ l ∈ owned, l.isLeaf = true := by
  have hheld := h.held
  have hperm := hheld.releases_perm
  constructor
  · intro hc
    have hlen := (hperm.symm.trans hc.exact).length_eq
    simp only [holdings, length_append, length_map, length_cons] at hlen
    have hfilter : (owned.filter Leaf.isLeaf).length = owned.length := by omega
    exact length_filter_eq_length_iff.mp hfilter
  · intro hall
    rw [filter_eq_self.mpr hall] at hperm
    have hnodup : (releases root t).Nodup := hperm.nodup_iff.mpr hheld.nodup
    have hout : ∀ f ∈ releases root t, p.Out f := fun f hf => hheld.out f (hperm.mem_iff.mp hf)
    obtain ⟨haccepted, hgained⟩ := Pmm.giveBack_out hheld.wf (fun _ => hheld.ready) hnodup hout
    have hrootOut : p.Out root := hheld.out root mem_cons_self
    have hroot := Pmm.validFrame_iff.mp hrootOut.1
    have hpos := hheld.wf.base_pos
    have heq := destroyUserAddressSpace_eq (by omega) hroot.2.2 t p
    constructor
    · exact hperm
    · exact hnodup
    · exact haccepted
    · -- the last answer is the one for the root
      have hanswer := haccepted ((p.giveBack (held reclaims 2 t)).deallocateFrame root).1 (by
        rw [releases, Pmm.answers_append]
        exact mem_append_right _ mem_cons_self)
      rw [destroyUserAddressSpace, if_neg (by omega), destroyTable_eq]
      cases hd : (p.giveBack (held reclaims 2 t)).deallocateFrame root with
      | mk s q =>
        rw [hd] at hanswer
        subst hanswer
        rfl
    · intro f
      rw [heq, hgained f, hperm.mem_iff]

/-! ## Two lives -/

/-- What the image loader does for a segment of one page: an address space, a frame, and the frame mapped at
    the bottom of the user window with the segment's flags. -/
def onePageImage (flags : PageFlags) (p : Pmm) : Option (Nat × PageTable × Nat × Pmm) :=
  match newUserAddressSpace smallMachine.trampolineFirst smallMachine.trampolineLast p with
  | (.ok (root, t), p₁) =>
    match p₁.allocateFrame with
    | (.ok frame, p₂) =>
      match t.mapPage root 0x40000000 frame flags false p₂ with
      | (.ok, t', p₃) => some (root, t', frame, p₃)
      | _ => none
    | _ => none
  | _ => none

theorem onePageImage_life {frame : Nat} (hflags : flags.global = false) (hp : p.Wf) {q : Pmm}
    (h : onePageImage flags p = some (root, t, frame, q)) :
    ∃ tables, Life root tables [⟨frame, flags, false⟩] t q := by
  unfold onePageImage at h
  split at h
  · rename_i root1 t1 p1 hnew
    split at h
    · rename_i frame1 p2 halloc
      split at h
      · rename_i t2 p3 hmap
        cases h
        have hown : ∀ l : Leaf, l.flags.global = true → reclaims l = [] := by
          intro l hl
          exact reclaims_eq_nil (by simp [Leaf.owned, hl])
        obtain ⟨tables, hdraws, -⟩ := newUserAddressSpace_held hown hnew
        have hlife : Life root tables [] t1 p1 := .new hp hnew hdraws
        have hdrawn : p1.Draws [frame] p2 := .got halloc .done
        obtain ⟨hwf, -, hout, -, hkeep⟩ := hdrawn.spec hlife.held.wf
        have hnext : Life root tables [] t1 p2 := by
          refine hlife.others hwf (hdrawn.ready (cons_ne_nil _ _)) fun f hf => ?_
          exact hkeep f (hlife.held.out f hf)
        obtain ⟨ts, hdraws', -⟩ := mapPage_held reclaims root t1 0x40000000 frame flags false p2
        rw [hmap] at hdraws'
        refine ⟨tables ++ ts, ?_⟩
        have hfresh : p2.Out frame ∧ frame ∉ holdings root tables [] := by
          obtain ⟨hav, hout⟩ := hout frame mem_cons_self
          exact ⟨hout, fun hin => (hlife.held.out frame hin).2 hav⟩
        have howned : (⟨frame, flags, false⟩ : Leaf).owned = true := by
          simp [Leaf.owned, hflags]
        have hmapped := hnext.map (fun _ => hfresh) hmap hdraws'
        rw [entered, if_pos ⟨rfl, howned⟩] at hmapped
        exact hmapped
      · cases h
    · cases h
  · cases h

/-- A readable and executable page comes back. -/
theorem destroy_conserves_iff_readable : ∃ root tables owned t p, Life root tables owned t p ∧ owned ≠ [] ∧
    Conserved root t p (holdings root tables owned) := by
  have hsome : (onePageImage ⟨true, false, true, true, false⟩ smallMachine.pmm).isSome = true := by decide +kernel
  obtain ⟨⟨root, t, frame, q⟩, h⟩ := Option.isSome_iff_exists.mp hsome
  obtain ⟨tables, hlife⟩ := onePageImage_life rfl smallMachine.pmm_wf h
  refine ⟨root, tables, _, t, q, hlife, cons_ne_nil _ _, (destroy_conserves_iff hlife).mpr ?_⟩
  intro l hl
  rw [mem_singleton.mp hl]
  rfl

/-- **A segment without permissions**: the frame of its page is never given back. -/
theorem destroy_loses_unreadable : ¬ ∀ root tables owned t p, Life root tables owned t p →
    Conserved root t p (holdings root tables owned) := by
  intro hall
  have hsome : (onePageImage ⟨false, false, false, true, false⟩ smallMachine.pmm).isSome = true := by decide +kernel
  obtain ⟨⟨root, t, frame, q⟩, h⟩ := Option.isSome_iff_exists.mp hsome
  obtain ⟨tables, hlife⟩ := onePageImage_life rfl smallMachine.pmm_wf h
  have hlen := (hlife.held.releases_perm.symm.trans (hall _ _ _ _ _ hlife).exact).length_eq
  simp [holdings, Leaf.isLeaf] at hlen

end Aegir.Arch
