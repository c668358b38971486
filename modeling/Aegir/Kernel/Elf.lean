/-
  The ELF loader (`Kernel.ELF.Load_Into_Address_Space`).

  The image is a byte source: a range of the physmap (boot files) or the frames of a memory object.
  Every loadable segment gets fresh zeroed frames, filled with the segment's bytes and mapped as
  pages OWNED by the address space.  All sums of header fields are modular.

  A failure leaves what was mapped so far to the caller, who destroys the address space.
-/
import Aegir.Kernel.Tasks
import Aegir.Lib.Run

namespace Aegir.Kernel

open Aegir.Arch Aegir.Lib

/-- `Kernel.ELF.Source`. -/
inductive ImageSource where
  | physmapBytes (base : Nat)
  | objectFrames (object : Nat)
deriving DecidableEq, Repr

/-- `User_Stack_Top` and `User_Stack_Pages`. -/
def userStackTop : Nat := 0x80000000
def userStackPages : Nat := 64

namespace State

variable (k : State) (src : ImageSource)

/-- The byte at a physical address. -/
def byteAt (pa : Nat) : Nat :=
  let off := pa % pageSize
  (k.memory (pa - off) (off - off % 8)).toNat / 2 ^ (8 * (off % 8)) % 256

/-- `Read_Byte`. -/
def readByte (offset : Nat) : Nat :=
  match src with
  | .physmapBytes base => k.byteAt (sub64 (add64 base offset) physmapBase)
  | .objectFrames object =>
    let frame := k.frameAt object (offset / pageSize)
    if frame = 0 then 0 else k.byteAt (frame + offset % pageSize)

/-- `Read_LE16`, `Read_LE32`, `Read_LE64`: `n` bytes, the lowest first. -/
def readLE (k : State) (src : ImageSource) (offset : Nat) : Nat → Nat
  | 0 => 0
  | n + 1 => k.readByte src offset + 256 * readLE k src (add64 offset 1) n

/-- The page at `pageVA` of a segment: zeros, overlaid with the bytes of the image that fall into
    it. -/
def segmentPage (pageVA vaddr offset filesz : Nat) : Page := fun w =>
  UInt64.ofNat <| (List.range 8).foldr (fun i acc =>
    let va := pageVA + w + i
    (if vaddr ≤ va ∧ va < add64 vaddr filesz then
      k.readByte src (add64 offset (va - vaddr)) else 0) + 256 * acc) 0

/-- The page loop of a segment: `n` pages from `pageVA` on. -/
def loadPages (k : State) (src : ImageSource) (root vaddr offset filesz : Nat) (flags : PageFlags) :
    Nat → Nat → Bool × State
  | _, 0 => (true, k)
  | pageVA, n + 1 =>
    match k.pmm.allocateFrame with
    | (.error _, p) => (false, { k with pmm := p })
    | (.ok frame, p) =>
      let k₁ := { k with
        pmm := p
        memory := Function.update k.memory frame (k.segmentPage src pageVA vaddr offset filesz) }
      match k₁.mapPage root pageVA frame flags false with
      | (.ok, k₂) => loadPages k₂ src root vaddr offset filesz flags (pageVA + pageSize) n
      | (_, k₂) => (false, { k₂ with pmm := (k₂.pmm.deallocateFrame frame).2 })

/-- One program header: `false` when the image is refused. -/
def loadSegment (size root ph : Nat) : Bool × State :=
  if add64 ph 56 > size then (false, k)
  else if k.readLE src ph 4 ≠ 1 then (true, k)
  else
    let pflags := k.readLE src (add64 ph 4) 4
    let offset := k.readLE src (add64 ph 8) 8
    let vaddr := k.readLE src (add64 ph 16) 8
    let filesz := k.readLE src (add64 ph 32) 8
    let memsz := k.readLE src (add64 ph 40) 8
    if add64 offset filesz > size ∨ filesz > memsz then (false, k)
    else if vaddr < 0x40000000 ∨ userStackTop ≤ vaddr ∨ memsz > userStackTop - vaddr then (false, k)
    else
      let first := vaddr - vaddr % pageSize
      let last := Pmm.alignUp (vaddr + memsz) pageSize
      if last > userStackTop - userStackPages * pageSize then (false, k)
      else
        k.loadPages src root vaddr offset filesz
          ⟨pflags / 4 % 2 == 1, pflags / 2 % 2 == 1, pflags % 2 == 1, true, false⟩ first
          ((last - first) / pageSize)

/-- The program-header loop from `index` on. -/
def loadSegments (k : State) (src : ImageSource) (size root phOffset entrySize : Nat) :
    Nat → Nat → Bool × State
  | _, 0 => (true, k)
  | index, n + 1 =>
    match k.loadSegment src size root (add64 phOffset (index * entrySize)) with
    | (true, k') => loadSegments k' src size root phOffset entrySize (index + 1) n
    | (false, k') => (false, k')

/-- `Load_Into_Address_Space`; `false` for every status but Ok.  The header loop runs over
    `0 .. PH_Count - 1` in 16-bit modular arithmetic, so a count of zero means 65536. -/
def loadIntoAddressSpace (size root : Nat) : Bool × State :=
  if size < 64 ∨ k.readByte src 0 ≠ 0x7f ∨ k.readByte src 1 ≠ 69 ∨ k.readByte src 2 ≠ 76 ∨
      k.readByte src 3 ≠ 70 then (false, k)
  else if k.readByte src 4 ≠ 2 ∨ k.readByte src 5 ≠ 1 ∨ k.readLE src 18 2 ≠ 243 then (false, k)
  else
    let entrySize := k.readLE src 54 2
    if entrySize < 56 then (false, k)
    else
      let count := k.readLE src 56 2
      k.loadSegments src size root (k.readLE src 32 8) entrySize 0
        (if count = 0 then 65536 else count)

/-! ## What the loader checks -/

/-- The fields of a program header that the loader reads. -/
structure ProgramHeader where
  kind : Nat
  flags : Nat
  offset : Nat
  vaddr : Nat
  filesz : Nat
  memsz : Nat

def programHeader (ph : Nat) : ProgramHeader where
  kind := k.readLE src ph 4
  flags := k.readLE src (add64 ph 4) 4
  offset := k.readLE src (add64 ph 8) 8
  vaddr := k.readLE src (add64 ph 16) 8
  filesz := k.readLE src (add64 ph 32) 8
  memsz := k.readLE src (add64 ph 40) 8

namespace ProgramHeader

variable (h : ProgramHeader)

def pageFlags : PageFlags := ⟨h.flags / 4 % 2 == 1, h.flags / 2 % 2 == 1, h.flags % 2 == 1, true, false⟩

/-- The pages of the segment. -/
def first : Nat := h.vaddr - h.vaddr % pageSize
def last : Nat := Pmm.alignUp (h.vaddr + h.memsz) pageSize
def pages : Nat := (h.last - h.first) / pageSize

/-- The segment passes the checks of the loader. -/
def Accepted (size : Nat) : Prop :=
  ¬ (add64 h.offset h.filesz > size ∨ h.filesz > h.memsz) ∧
  ¬ (h.vaddr < 0x40000000 ∨ userStackTop ≤ h.vaddr ∨ h.memsz > userStackTop - h.vaddr) ∧
  ¬ h.last > userStackTop - userStackPages * pageSize

instance (size : Nat) : Decidable (h.Accepted size) := inferInstanceAs (Decidable (_ ∧ _ ∧ _))

end ProgramHeader

/-- **One header**, by the checks on its words. -/
theorem loadSegment_eq (k : State) (src : ImageSource) (size root ph : Nat) :
    k.loadSegment src size root ph =
      let h := k.programHeader src ph
      if add64 ph 56 > size then (false, k) else if h.kind ≠ 1 then (true, k)
      else if h.Accepted size then k.loadPages src root h.vaddr h.offset h.filesz h.pageFlags h.first h.pages
      else (false, k) := by
  unfold loadSegment
  dsimp only
  refine ite_congr rfl (fun _ => rfl) fun _ => ite_congr rfl (fun _ => rfl) fun _ => ?_
  split
  · rename_i h1
    rw [if_neg fun hacc => hacc.1 h1]
  · rename_i h1
    split
    · rename_i h2
      rw [if_neg fun hacc => hacc.2.1 h2]
    · rename_i h2
      split
      · rename_i h3
        rw [if_neg fun hacc => hacc.2.2 h3]
      · rename_i h3
        rw [if_pos ⟨h1, h2, h3⟩]
        rfl

/-- The header at `ph` passes the checks: the loader goes on to its pages, or to the next header. -/
def Passes (size ph : Nat) : Prop :=
  add64 ph 56 ≤ size ∧ ((k.programHeader src ph).kind = 1 → (k.programHeader src ph).Accepted size)

instance (k : State) (src : ImageSource) (size ph : Nat) : Decidable (k.Passes src size ph) :=
  inferInstanceAs (Decidable (_ ∧ (_ → _)))

/-- **What the words of a header make the loader read lies inside the image**, in sums that do not wrap. -/
def HeaderFits (size ph : Nat) : Prop :=
  add64 ph 56 ≤ size →
    ph + 4 ≤ size ∧
    ((k.programHeader src ph).kind = 1 → ph + 24 ≤ size ∧ add64 ph 32 + 16 ≤ size ∧
      ((k.programHeader src ph).Accepted size → (k.programHeader src ph).filesz = 0 ∨
        (k.programHeader src ph).offset + (k.programHeader src ph).filesz ≤ size))

instance (k : State) (src : ImageSource) (size ph : Nat) : Decidable (k.HeaderFits src size ph) :=
  inferInstanceAs (Decidable (_ → _ ∧ (_ → _ ∧ _ ∧ (_ → _ ∨ _))))

end State

/-!
## The loader and its log

The same functions once more, each with the LOG of the bytes of the image it reads and of the program headers it
examines, in the order of the source.  Without the log they are the same functions (`loadTraced_value`).
-/

/-- What the loader looks at. -/
inductive Touch where
  | byte (offset : Nat)
  | header (index : Nat)
deriving DecidableEq, Repr

/-- The index of an examined header. -/
def Touch.index : Touch → Option Nat
  | .byte _ => none
  | .header i => some i

namespace State

variable (k : State) (src : ImageSource)

/-! ## Reading -/

/-- `Read_Byte`. -/
def peek (offset : Nat) : Traced Touch Nat :=
  .look (.byte offset) (k.readByte src offset)

/-- `Read_LE16`, `Read_LE32`, `Read_LE64`. -/
def peekLE (k : State) (src : ImageSource) (offset : Nat) : Nat → Traced Touch Nat
  | 0 => pure 0
  | n + 1 => do
    let low ← k.peek src offset
    let high ← peekLE k src (add64 offset 1) n
    pure (low + 256 * high)

/-- Bytes are compared one after another until one differs (`or else`). -/
def agrees (k : State) (src : ImageSource) : Nat → List Nat → Traced Touch Bool
  | _, [] => pure true
  | offset, b :: bs => do
    let x ← k.peek src offset
    if x ≠ b then pure false else agrees k src (offset + 1) bs

/-- `Copy_From`, as it is called for one page. -/
def pageReads (pageVA vaddr offset filesz : Nat) : List Touch :=
  let copyStart := max pageVA vaddr
  let copyEnd := min (add64 pageVA pageSize) (add64 vaddr filesz)
  (List.range (copyEnd - copyStart)).map fun i => .byte (add64 (add64 offset (copyStart - vaddr)) i)

def copyPage (pageVA vaddr offset filesz : Nat) : Traced Touch Page :=
  ⟨k.segmentPage src pageVA vaddr offset filesz, pageReads pageVA vaddr offset filesz⟩

/-! ## Loading -/

def loadPagesTraced (k : State) (src : ImageSource) (root vaddr offset filesz : Nat) (flags : PageFlags) :
    Nat → Nat → Traced Touch (Bool × State)
  | _, 0 => pure (true, k)
  | pageVA, n + 1 =>
    match k.pmm.allocateFrame with
    | (.error _, p) => pure (false, { k with pmm := p })
    | (.ok frame, p) => do
      let page ← k.copyPage src pageVA vaddr offset filesz
      let k₁ := { k with pmm := p, memory := Function.update k.memory frame page }
      match k₁.mapPage root pageVA frame flags false with
      | (.ok, k₂) => loadPagesTraced k₂ src root vaddr offset filesz flags (pageVA + pageSize) n
      | (_, k₂) => pure (false, { k₂ with pmm := (k₂.pmm.deallocateFrame frame).2 })

def loadSegmentTraced (size root ph : Nat) : Traced Touch (Bool × State) :=
  if add64 ph 56 > size then pure (false, k)
  else do
    let ptype ← k.peekLE src ph 4
    if ptype ≠ 1 then pure (true, k)
    else do
      let pflags ← k.peekLE src (add64 ph 4) 4
      let offset ← k.peekLE src (add64 ph 8) 8
      let vaddr ← k.peekLE src (add64 ph 16) 8
      let filesz ← k.peekLE src (add64 ph 32) 8
      let memsz ← k.peekLE src (add64 ph 40) 8
      if add64 offset filesz > size ∨ filesz > memsz then pure (false, k)
      else if vaddr < 0x40000000 ∨ userStackTop ≤ vaddr ∨ memsz > userStackTop - vaddr then pure (false, k)
      else
        let first := vaddr - vaddr % pageSize
        let last := Pmm.alignUp (vaddr + memsz) pageSize
        if last > userStackTop - userStackPages * pageSize then pure (false, k)
        else
          k.loadPagesTraced src root vaddr offset filesz
            ⟨pflags / 4 % 2 == 1, pflags / 2 % 2 == 1, pflags % 2 == 1, true, false⟩ first
            ((last - first) / pageSize)

def loadSegmentsTraced (k : State) (src : ImageSource) (size root phOffset entrySize : Nat) :
    Nat → Nat → Traced Touch (Bool × State)
  | _, 0 => pure (true, k)
  | index, n + 1 => do
    let _ ← Traced.look (.header index) ()
    let r ← k.loadSegmentTraced src size root (add64 phOffset (index * entrySize))
    match r with
    | (true, k') => loadSegmentsTraced k' src size root phOffset entrySize (index + 1) n
    | (false, k') => pure (false, k')

/-- `Load_Into_Address_Space`. -/
def loadTraced (size root : Nat) : Traced Touch (Bool × State) :=
  if size < 64 then pure (false, k)
  else do
    let magic ← k.agrees src 0 [0x7f, 69, 76, 70]
    if magic = false then pure (false, k)
    else do
      let format ← k.agrees src 4 [2, 1]
      if format = false then pure (false, k)
      else do
        let machine ← k.peekLE src 18 2
        if machine ≠ 243 then pure (false, k)
        else do
          let _entry ← k.peekLE src 24 8
          let phOffset ← k.peekLE src 32 8
          let entrySize ← k.peekLE src 54 2
          let count ← k.peekLE src 56 2
          if entrySize < 56 then pure (false, k)
          else
            k.loadSegmentsTraced src size root phOffset entrySize 0 (if count = 0 then 65536 else count)

/-! ## Without the log -/

variable (k : State) (src : ImageSource)

@[simp] theorem peekLE_value (offset n : Nat) : (k.peekLE src offset n).value = k.readLE src offset n := by
  induction n generalizing offset with
  | zero => rfl
  | succ n ih =>
    show k.readByte src offset + 256 * (k.peekLE src (add64 offset 1) n).value = _
    rw [ih]
    rfl

@[simp] theorem copyPage_value (pageVA vaddr offset filesz : Nat) :
    (k.copyPage src pageVA vaddr offset filesz).value = k.segmentPage src pageVA vaddr offset filesz := rfl

theorem loadPagesTraced_value (root vaddr offset filesz : Nat) (flags : PageFlags) (pageVA n : Nat) :
    (k.loadPagesTraced src root vaddr offset filesz flags pageVA n).value =
      k.loadPages src root vaddr offset filesz flags pageVA n := by
  induction n generalizing k pageVA with
  | zero => rfl
  | succ n ih =>
    unfold loadPagesTraced loadPages
    cases k.pmm.allocateFrame with
    | mk r p =>
      cases r with
      | error e => rfl
      | ok frame =>
        dsimp only
        rw [Traced.bind_value, copyPage_value]
        generalize State.mapPage _ root pageVA frame flags false = r
        obtain ⟨status, k₂⟩ := r
        cases status with
        | ok => exact ih _ _
        | _ => rfl

theorem loadSegmentTraced_value (size root ph : Nat) :
    (k.loadSegmentTraced src size root ph).value = k.loadSegment src size root ph := by
  unfold loadSegmentTraced loadSegment
  simp only [Traced.ite_value, Traced.bind_value, Traced.pure_value, peekLE_value, loadPagesTraced_value]

theorem loadSegmentsTraced_value (size root phOffset entrySize index n : Nat) :
    (k.loadSegmentsTraced src size root phOffset entrySize index n).value =
      k.loadSegments src size root phOffset entrySize index n := by
  induction n generalizing k index with
  | zero => rfl
  | succ n ih =>
    have hone := loadSegmentTraced_value k src size root (add64 phOffset (index * entrySize))
    unfold loadSegmentsTraced loadSegments
    rw [Traced.bind_value, Traced.bind_value, hone]
    generalize k.loadSegment src size root (add64 phOffset (index * entrySize)) = r
    obtain ⟨done, k'⟩ := r
    cases done with
    | true => exact ih _ _
    | false => rfl

@[simp] theorem agrees_nil (offset : Nat) : (k.agrees src offset []).value = true := rfl

@[simp] theorem agrees_cons (offset b : Nat) (bs : List Nat) : (k.agrees src offset (b :: bs)).value =
    (k.readByte src offset == b && (k.agrees src (offset + 1) bs).value) := by
  have hstep : (k.agrees src offset (b :: bs)).value =
      if k.readByte src offset ≠ b then false else (k.agrees src (offset + 1) bs).value :=
    apply_ite Traced.value _ _ _
  rw [hstep]
  by_cases hb : k.readByte src offset = b
  · simp [hb]
  · simp [hb]

/-- **The traced loader is the loader.** -/
theorem loadTraced_value (size root : Nat) :
    (k.loadTraced src size root).value = k.loadIntoAddressSpace src size root := by
  have hmagic : (k.agrees src 0 [0x7f, 69, 76, 70]).value = false ↔ k.readByte src 0 ≠ 0x7f ∨
      k.readByte src 1 ≠ 69 ∨ k.readByte src 2 ≠ 76 ∨ k.readByte src 3 ≠ 70 := by
    simp only [agrees_cons, agrees_nil, Bool.and_true, Bool.and_eq_false_iff, beq_eq_false_iff_ne, ne_eq]
  have hformat : (k.agrees src 4 [2, 1]).value = false ↔ k.readByte src 4 ≠ 2 ∨ k.readByte src 5 ≠ 1 := by
    simp only [agrees_cons, agrees_nil, Bool.and_true, Bool.and_eq_false_iff, beq_eq_false_iff_ne, ne_eq]
  unfold loadTraced loadIntoAddressSpace
  by_cases hsize : size < 64
  · rw [if_pos hsize, if_pos (.inl hsize)]
    rfl
  by_cases hm : k.readByte src 0 ≠ 0x7f ∨ k.readByte src 1 ≠ 69 ∨ k.readByte src 2 ≠ 76 ∨ k.readByte src 3 ≠ 70
  · rw [if_neg hsize, if_pos (.inr hm), Traced.bind_value, if_pos (hmagic.mpr hm)]
    rfl
  rw [if_neg hsize, if_neg (not_or.mpr ⟨hsize, hm⟩), Traced.bind_value, if_neg (mt hmagic.mp hm), Traced.bind_value]
  by_cases hf : k.readByte src 4 ≠ 2 ∨ k.readByte src 5 ≠ 1
  · rw [if_pos (hformat.mpr hf), if_pos (or_assoc.mp (.inl hf))]
    rfl
  rw [if_neg (mt hformat.mp hf), Traced.bind_value, peekLE_value]
  by_cases hmach : k.readLE src 18 2 ≠ 243
  · rw [if_pos hmach, if_pos (.inr (.inr hmach))]
    rfl
  have hall : ¬ (k.readByte src 4 ≠ 2 ∨ k.readByte src 5 ≠ 1 ∨ k.readLE src 18 2 ≠ 243) := by
    rw [← or_assoc]
    exact not_or.mpr ⟨hf, hmach⟩
  rw [if_neg hmach, if_neg hall]
  simp only [Traced.bind_value, Traced.ite_value, Traced.pure_value, peekLE_value, loadSegmentsTraced_value]

end State

end Aegir.Kernel
