/-
  The code that builds, changes and destroys address spaces touches page tables, the allocator and
  the contents of frames, and nothing else.

  `k.Paged k'` says so; all laws about caps, threads and slots then carry over.
-/
import Aegir.Kernel.PmmLaws
import Aegir.Kernel.Threads
import Aegir.Traps.Objects

namespace Aegir.Arch

open Aegir.Kernel

/-! ## The allocator under page-table operations -/

namespace PageTable

theorem mapAt_wf (l : Leaf) (is : List Nat) (t : PageTable) (p : Pmm) (hp : p.Wf) :
    (mapAt l is t p).2.2.Wf := by
  fun_induction mapAt l is t p with
  | case4 i j is t p hi e p' hp' => exact (Pmm.allocateFrame_error hp hp').1
  | case5 i j is t p hi frame p' hp' s sub p'' hs ih =>
    have := ih (Pmm.allocateFrame_ok hp hp').1
    rw [hs] at this
    exact this
  | case7 i j is t p frame sub hi s sub' p' hs ih =>
    have := ih hp
    rw [hs] at this
    exact this
  | _ => exact hp

theorem mapPage_wf (root : Nat) (t : PageTable) (virtual physical : Nat) (flags : PageFlags)
    (borrowed : Bool) (p : Pmm) (hp : p.Wf) :
    (mapPage root t virtual physical flags borrowed p).2.2.Wf := by
  unfold mapPage
  split
  · exact hp
  · exact mapAt_wf _ _ _ _ hp

end PageTable

theorem foldl_wf {f : Pmm → Nat → Pmm} (hf : ∀ p i, p.Wf → (f p i).Wf) (is : List Nat) (p : Pmm)
    (hp : p.Wf) : (is.foldl f p).Wf := by
  induction is generalizing p with
  | nil => exact hp
  | cons i is ih => exact ih _ (hf p i hp)

theorem destroyEntry_wf {below : Nat → PageTable → Pmm → Pmm}
    (hb : ∀ frame sub p, p.Wf → (below frame sub p).Wf) (t : PageTable) (p : Pmm) (i : Nat)
    (hp : p.Wf) : (destroyEntry below t p i).Wf := by
  unfold destroyEntry
  split
  · exact hp
  · split
    · exact hp.deallocateFrame _
    · exact hp
  · exact hb _ _ _ hp

theorem destroyTable_wf (level : Nat) (t : PageTable) (p : Pmm) (hp : p.Wf) :
    (destroyTable level t p).Wf := by
  induction level generalizing t p with
  | zero =>
    exact foldl_wf (destroyEntry_wf (fun _ _ _ h => h) t) _ _ hp
  | succ level ih =>
    exact foldl_wf (destroyEntry_wf (fun frame sub p h => (ih sub p h).deallocateFrame frame) t) _ _ hp

theorem destroyUserAddressSpace_wf (root : Nat) (t : PageTable) (p : Pmm) (hp : p.Wf) :
    (destroyUserAddressSpace root t p).2.Wf := by
  have h := (destroyTable_wf 2 t p hp).deallocateFrame root
  unfold destroyUserAddressSpace
  split
  · exact hp
  · split <;> rename_i heq <;> rw [heq] at h <;> exact h

theorem mapTrampoline_wf (root n page : Nat) (t : PageTable) (p : Pmm) (hp : p.Wf) :
    (mapTrampoline root page n t p).2.2.Wf := by
  induction n generalizing page t p with
  | zero => exact hp
  | succ n ih =>
    unfold mapTrampoline
    have h := PageTable.mapPage_wf root t page (kernelVirtToPhys page) kernelRX false p hp
    split
    · rename_i heq
      rw [heq] at h
      exact ih _ _ _ h
    · exact h

theorem newUserAddressSpace_wf (first last : Nat) (p : Pmm) (hp : p.Wf) :
    (newUserAddressSpace first last p).2.Wf := by
  unfold newUserAddressSpace
  split
  · rename_i h
    exact (Pmm.allocateFrame_error hp h).1
  · rename_i root p' h
    have hp' := (Pmm.allocateFrame_ok hp h).1
    have ht := mapTrampoline_wf root
      ((last - (first - first % pageSize) + pageSize - 1) / pageSize) (first - first % pageSize)
      .zero p' hp'
    dsimp only
    split
    · rename_i heq
      rw [heq] at ht
      exact ht
    · rename_i heq
      rw [heq] at ht
      exact destroyUserAddressSpace_wf _ _ _ ht

end Aegir.Arch

namespace Aegir.Kernel

open Aegir.Arch

namespace State

variable {k k' k'' : State}

/-- Only page tables, the allocator and frame contents change. -/
structure Paged (k k' : State) : Prop where
  same : k' = { k with pmm := k'.pmm, space := k'.space, memory := k'.memory }
  wf : k.pmm.Wf → k'.pmm.Wf

namespace Paged

theorem refl (k : State) : Paged k k := ⟨rfl, id⟩

theorem trans (h : Paged k k') (h' : Paged k' k'') : Paged k k'' := by
  refine ⟨?_, fun hp => h'.wf (h.wf hp)⟩
  rw [h'.same, h.same]

theorem of_pmm (k : State) {p : Pmm} (hp : k.pmm.Wf → p.Wf) : Paged k { k with pmm := p } := ⟨rfl, hp⟩

end Paged

theorem zeroFrame_paged (k : State) (frame : Nat) : Paged k (k.zeroFrame frame) := ⟨rfl, id⟩

theorem freeStack_paged (k : State) (top : Nat) : Paged k (k.freeStack top) :=
  .of_pmm k fun hp => hp.deallocateFrame _

theorem mapPage_paged (k : State) (root virtual physical : Nat) (flags : PageFlags) (b : Bool) :
    Paged k (k.mapPage root virtual physical flags b).2 :=
  ⟨rfl, fun hp => PageTable.mapPage_wf _ _ _ _ _ _ _ hp⟩

theorem unmapBorrowedPage_paged (k : State) (root virtual : Nat) :
    Paged k (k.unmapBorrowedPage root virtual).2 := ⟨rfl, id⟩

theorem destroyAddressSpace_paged (k : State) (root : Nat) : Paged k (k.destroyAddressSpace root) := by
  unfold destroyAddressSpace
  split
  · exact .refl k
  · exact ⟨rfl, fun hp => destroyUserAddressSpace_wf _ _ _ hp⟩

theorem mapPages_paged (root : Nat) (virtual physical : Nat → Nat) (flags : PageFlags) (n page : Nat)
    (k : State) : Paged k (k.mapPages root virtual physical flags page n).2 := by
  induction n generalizing k page with
  | zero => exact .refl k
  | succ n ih =>
    unfold mapPages
    have h := mapPage_paged k root (virtual page) (physical page) flags true
    split
    · rename_i heq
      rw [heq] at h
      exact h.trans (ih _ _)
    · rename_i heq
      rw [heq] at h
      exact h

theorem mapPages_paged_of {root page n : Nat} {virtual physical : Nat → Nat} {flags : PageFlags}
    {r : Bool × State} (h : k.mapPages root virtual physical flags page n = r) : Paged k r.2 := by
  rw [← h]
  exact mapPages_paged root virtual physical flags n page k

theorem unmapPages_paged (root : Nat) (virtual : Nat → Nat) (n page : Nat) (k : State) :
    Paged k (k.unmapPages root virtual page n).2 := by
  induction n generalizing k page with
  | zero => exact .refl k
  | succ n ih =>
    unfold unmapPages
    have h := unmapBorrowedPage_paged k root (virtual page)
    split
    · rename_i heq
      rw [heq] at h
      exact h.trans (ih _ _)
    · rename_i heq
      rw [heq] at h
      exact h

theorem allocate_paged {p : Pmm} {r : Except PmmStatus Nat} (h : k.pmm.allocateFrame = (r, p)) :
    Paged k { k with pmm := p } := by
  refine .of_pmm k fun hp => ?_
  cases r with
  | error s => exact (Pmm.allocateFrame_error hp h).1
  | ok f => exact (Pmm.allocateFrame_ok hp h).1

theorem deallocate_paged (k : State) (frame : Nat) :
    Paged k { k with pmm := (k.pmm.deallocateFrame frame).2 } := .of_pmm k fun hp => hp.deallocateFrame _

theorem mapStack_paged (root n i : Nat) (k : State) : Paged k (k.mapStack root i n).2 := by
  induction n generalizing k i with
  | zero => exact .refl k
  | succ n ih =>
    unfold mapStack
    split
    · rename_i h
      exact allocate_paged h
    · rename_i frame p h
      have h1 : Paged k { k with pmm := p, memory := k.pmm.clearLink frame k.memory } :=
        ⟨rfl, (allocate_paged h).wf⟩
      have h2 := mapPage_paged { k with pmm := p, memory := k.pmm.clearLink frame k.memory } root
        (userStackTop - i * pageSize) frame userRWX false
      dsimp only
      split
      · rename_i heq
        rw [heq] at h2
        exact (h1.trans h2).trans (ih _ _)
      · rename_i heq
        rw [heq] at h2
        exact (h1.trans h2).trans (deallocate_paged _ _)

theorem mapFresh_paged (k : State) (root : Nat) (virtual : Nat → Nat) (flags : PageFlags) :
    Paged k (k.mapFresh root virtual flags).2 := by
  unfold mapFresh
  split
  · rename_i h
    exact allocate_paged h
  · rename_i frame p h
    have h1 := allocate_paged h
    have h2 := mapPage_paged { k with pmm := p } root (virtual frame) frame flags false
    dsimp only
    split
    · rename_i heq
      rw [heq] at h2
      exact h1.trans h2
    · rename_i heq
      rw [heq] at h2
      exact (h1.trans h2).trans (deallocate_paged _ _)

theorem loadPages_paged (src : ImageSource) (root vaddr offset filesz : Nat) (flags : PageFlags)
    (n pageVA : Nat) (k : State) :
    Paged k (k.loadPages src root vaddr offset filesz flags pageVA n).2 := by
  induction n generalizing k pageVA with
  | zero => exact .refl k
  | succ n ih =>
    unfold loadPages
    split
    · rename_i h
      exact allocate_paged h
    · rename_i frame p h
      have h1 : Paged k { k with
          pmm := p
          memory := Function.update k.memory frame (k.segmentPage src pageVA vaddr offset filesz) } :=
        (allocate_paged h).trans ⟨rfl, id⟩
      dsimp only
      have h2 := mapPage_paged { k with
          pmm := p
          memory := Function.update k.memory frame
            (k.segmentPage src pageVA vaddr offset filesz) } root pageVA frame flags false
      split
      · rename_i heq
        rw [heq] at h2
        exact (h1.trans h2).trans (ih _ _)
      · rename_i heq
        rw [heq] at h2
        exact (h1.trans h2).trans (deallocate_paged _ _)

theorem loadSegment_paged (k : State) (src : ImageSource) (size root ph : Nat) :
    Paged k (k.loadSegment src size root ph).2 := by
  unfold loadSegment
  dsimp only
  split
  · exact .refl k
  · split
    · exact .refl k
    · split
      · exact .refl k
      · split
        · exact .refl k
        · split
          · exact .refl k
          · exact loadPages_paged _ _ _ _ _ _ _ _ _

theorem loadSegments_paged (src : ImageSource) (size root phOffset entrySize n index : Nat)
    (k : State) : Paged k (k.loadSegments src size root phOffset entrySize index n).2 := by
  induction n generalizing k index with
  | zero => exact .refl k
  | succ n ih =>
    unfold loadSegments
    have h := loadSegment_paged k src size root (add64 phOffset (index * entrySize))
    split
    · rename_i heq
      rw [heq] at h
      exact h.trans (ih _ _)
    · rename_i heq
      rw [heq] at h
      exact h

theorem loadIntoAddressSpace_paged (k : State) (src : ImageSource) (size root : Nat) :
    Paged k (k.loadIntoAddressSpace src size root).2 := by
  unfold loadIntoAddressSpace
  dsimp only
  split
  · exact .refl k
  · split
    · exact .refl k
    · split
      · exact .refl k
      · exact loadSegments_paged _ _ _ _ _ _ _ _

/-- **Building an address space** is paging, whether it succeeds or is undone. -/
theorem buildAddressSpace_paged (k : State) (image : ImageSource) (size : Nat) :
    Paged k (k.buildAddressSpace image size).2 := by
  unfold buildAddressSpace
  have h0 := newUserAddressSpace_wf k.trampolineFirst k.trampolineLast k.pmm
  split
  · rename_i p heq
    rw [heq] at h0
    exact .of_pmm k h0
  · rename_i root table p heq
    rw [heq] at h0
    have h1 : Paged k { k with pmm := p, space := Function.update k.space root table } := ⟨rfl, h0⟩
    dsimp only
    generalize { k with pmm := p, space := Function.update k.space root table } = k₁ at h1 ⊢
    have h2 := h1.trans (mapStack_paged root userStackPages 1 k₁)
    split
    · rename_i k₂ heq2
      rw [heq2] at h2
      exact h2.trans (destroyAddressSpace_paged _ _)
    · rename_i k₂ heq2
      rw [heq2] at h2
      have h3 := h2.trans (mapFresh_paged k₂ root (fun _ => ipcBufferVA) userRW)
      split
      · rename_i k₃ heq3
        rw [heq3] at h3
        exact h3.trans (destroyAddressSpace_paged _ _)
      · rename_i buffer k₃ heq3
        rw [heq3] at h3
        have h4 := (h3.trans (zeroFrame_paged k₃ buffer)).trans
          (mapFresh_paged (k₃.zeroFrame buffer) root physToVirt kernelRW)
        split
        · rename_i k₄ heq4
          rw [heq4] at h4
          exact h4.trans (destroyAddressSpace_paged _ _)
        · rename_i stack k₄ heq4
          rw [heq4] at h4
          have h5 := h4.trans (loadIntoAddressSpace_paged k₄ image size root)
          split
          · rename_i k5 heq5
            rw [heq5] at h5
            exact h5
          · rename_i k5 heq5
            rw [heq5] at h5
            exact (h5.trans (freeStack_paged _ _)).trans (destroyAddressSpace_paged _ _)

theorem built_paged {image : ImageSource} {size : Nat} {r : Option (Nat × Nat × Nat)}
    (h : k.buildAddressSpace image size = (r, k')) : Paged k k' := by
  have hp := buildAddressSpace_paged k image size
  rwa [h] at hp

theorem mapObjectStack_paged (root object : Nat) (va pages : U64) (n page : Nat) (k : State) :
    Paged k (k.mapObjectStack root object va pages page n).2 := by
  induction n generalizing k page with
  | zero => exact .refl k
  | succ n ih =>
    unfold mapObjectStack
    have h := mapPage_paged k root (stackPageVA va pages page) (k.frameAt object page) userRWX false
    split
    · rename_i heq
      rw [heq] at h
      exact h.trans (ih _ _)
    · rename_i heq
      rw [heq] at h
      exact h

theorem undoStackPages_paged (root : Nat) (va pages : U64) (n page : Nat) (k : State) :
    Paged k (k.undoStackPages root va pages page n) := by
  induction n generalizing k page with
  | zero => exact .refl k
  | succ n ih =>
    exact (unmapBorrowedPage_paged k root _).trans (ih _ _)

theorem undoStackMap_paged (k : State) (root : Nat) (va pages : U64) (mapped : Nat) :
    Paged k (k.undoStackMap root va pages mapped) := undoStackPages_paged _ _ _ _ _ _

end State

end Aegir.Kernel
