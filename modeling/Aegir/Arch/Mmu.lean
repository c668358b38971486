/-
  Sv39 page tables (`Arch.MMU`).

  `Map_Page` walks down from the root, allocating a zeroed table for every missing level, and puts ONE leaf
  into a free level-0 entry; it never overwrites a valid one.  A leaf is marked GLOBAL (kernel pages) or
  BORROWED (the frame belongs to an object), and teardown gives back the frames of all other leaves and of
  the tables.

  No one else refers to the tables, so the model keeps them as a tree whose nodes remember their frame.
-/
import Mathlib.Logic.Function.Basic
import Aegir.Kernel.PhysicalMemory

namespace Aegir.Arch

open Aegir.Kernel Function

/-- `Arch.Physmap_Base`: all physical memory is reached at this offset. -/
def physmapBase : Nat := 0xFFFFFFC000000000

/-- `Arch.Kernel_Delta`. -/
def kernelDelta : Nat := 0xFFFFFFFF80200000 - 0x80200000

def physToVirt (pa : Nat) : Nat := add64 physmapBase pa

def kernelVirtToPhys (va : Nat) : Nat := sub64 va kernelDelta

/-- `Arch.MMU.Status`. -/
inductive MmuStatus where
  | ok
  | allocationFailed
  | invalidAddress
  | alreadyMapped
  | notMapped
deriving DecidableEq, Repr

/-- `Page_Flags`. -/
structure PageFlags where
  read : Bool
  write : Bool
  execute : Bool
  user : Bool
  global : Bool
deriving DecidableEq, Repr

def kernelRW : PageFlags := ⟨true, true, false, false, true⟩
def kernelRX : PageFlags := ⟨true, false, true, false, true⟩
def userRW : PageFlags := ⟨true, true, false, true, false⟩
def userRWX : PageFlags := ⟨true, true, true, true, false⟩

/-- A leaf entry: the frame it maps, its permissions and the kernel-private borrowed mark. -/
structure Leaf where
  frame : Nat
  flags : PageFlags
  borrowed : Bool
deriving DecidableEq, Repr

/-- `Is_Leaf`: an entry with no permission at all reads as a table pointer. -/
def Leaf.isLeaf (l : Leaf) : Bool := l.flags.read || l.flags.write || l.flags.execute

/-- A page-table entry; `leaf` is what `Map_Page` puts at level 0, `table frame entries`
    is a valid non-leaf entry with the table it points at. -/
inductive Pte where
  | invalid
  | leaf (l : Leaf)
  | table (frame : Nat) (entries : Nat → Pte)

/-- The 512 entries of one table. -/
abbrev PageTable := Nat → Pte

namespace PageTable

/-- `Zero_Page`: a table of invalid entries. -/
def zero : PageTable := fun _ => .invalid

/-- `Index_For`: the 9 bits of a virtual address that index the table of a level. -/
def indexFor (virtual level : Nat) : Nat := virtual / 2 ^ (12 + level * 9) % 512

/-- The indices of the walk, level 2 first. -/
def path (virtual : Nat) : List Nat := [indexFor virtual 2, indexFor virtual 1, indexFor virtual 0]

/-- The walk of `Map_Page` along the indices: intermediate tables are allocated on the way, and a
    level-0 entry takes the leaf only if it is not valid. -/
def mapAt (l : Leaf) : List Nat → PageTable → Pmm → MmuStatus × PageTable × Pmm
  | [], t, p => (.invalidAddress, t, p)
  | [i], t, p =>
    match t i with
    | .invalid => (.ok, update t i (.leaf l), p)
    | _ => (.alreadyMapped, t, p)
  | i :: j :: is, t, p =>
    match t i with
    | .invalid =>
      match p.allocateFrame with
      | (.error _, p') => (.allocationFailed, t, p')
      | (.ok frame, p') =>
        let (s, sub, p'') := mapAt l (j :: is) zero p'
        (s, update t i (.table frame sub), p'')
    | .leaf _ => (.alreadyMapped, t, p)
    | .table frame sub =>
      let (s, sub', p') := mapAt l (j :: is) sub p
      (s, update t i (.table frame sub'), p')

/-- `Map_Page` below the root table `t` at frame `root`. -/
def mapPage (root : Nat) (t : PageTable) (virtual physical : Nat) (flags : PageFlags)
    (borrowed : Bool) (p : Pmm) : MmuStatus × PageTable × Pmm :=
  if root % pageSize ≠ 0 ∨ virtual % pageSize ≠ 0 ∨ physical % pageSize ≠ 0 then
    (.invalidAddress, t, p)
  else mapAt ⟨physical, flags, borrowed⟩ (path virtual) t p

/-- The walk of `Unmap_Borrowed_Page`: clear a borrowed leaf, refuse everything else. -/
def unmapAt : List Nat → PageTable → MmuStatus × PageTable
  | [], t => (.notMapped, t)
  | [i], t =>
    match t i with
    | .leaf l =>
      if l.isLeaf && l.borrowed then (.ok, update t i .invalid) else (.notMapped, t)
    | _ => (.notMapped, t)
  | i :: j :: is, t =>
    match t i with
    | .table frame sub =>
      let (s, sub') := unmapAt (j :: is) sub
      (s, update t i (.table frame sub'))
    | _ => (.notMapped, t)

/-- `Unmap_Borrowed_Page`. -/
def unmapBorrowedPage (root : Nat) (t : PageTable) (virtual : Nat) : MmuStatus × PageTable :=
  if root % pageSize ≠ 0 ∨ virtual % pageSize ≠ 0 then (.invalidAddress, t)
  else unmapAt (path virtual) t

/-- The leaf at the end of a walk. -/
def leafAt : List Nat → PageTable → Option Leaf
  | [], _ => none
  | [i], t =>
    match t i with
    | .leaf l => some l
    | _ => none
  | i :: j :: is, t =>
    match t i with
    | .table _ sub => leafAt (j :: is) sub
    | _ => none

/-- The virtual address a walk translates: bit 38 is sign-extended (Sv39 canonical form). -/
def vaOf (i₂ i₁ i₀ : Nat) : Nat :=
  i₂ * 2 ^ 30 + i₁ * 2 ^ 21 + i₀ * 2 ^ 12 + (if 256 ≤ i₂ then 2 ^ 64 - 2 ^ 39 else 0)

/-! ## What a walk changes -/

variable {i : Nat} {t : PageTable}

theorem leafAt_single (e : Pte) {js : List Nat} (hlen : js.length = 1) (hne : js ≠ [i]) :
    leafAt js (update t i e) = leafAt js t := by
  obtain ⟨j, rfl⟩ := List.length_eq_one_iff.mp hlen
  have hj : j ≠ i := fun h => hne (by rw [h])
  simp [leafAt, update_of_ne hj]

/-- A table that changed below `i`, and there only on the walk `is`, unless the walk failed (`failed`). -/
theorem leafAt_below {j frame : Nat} {is : List Nat} {sub sub' : PageTable} {failed : Prop}
    (hold : ∀ b cs, leafAt (i :: b :: cs) t = leafAt (b :: cs) sub)
    (hkeep : ∀ js, js.length = (j :: is).length → (js ≠ j :: is ∨ failed) → leafAt js sub' = leafAt js sub)
    (js : List Nat) (hlen : js.length = (i :: j :: is).length) (hne : js ≠ i :: j :: is ∨ failed) :
    leafAt js (update t i (.table frame sub')) = leafAt js t := by
  obtain ⟨a, b, cs, rfl⟩ : ∃ a b cs, js = a :: b :: cs := by
    match js, hlen with
    | a :: b :: cs, _ => exact ⟨a, b, cs, rfl⟩
  by_cases hai : a = i
  · subst hai
    rw [hold, ← hkeep (b :: cs) (by simpa using hlen) (by
      rcases hne with h | h
      · exact .inl fun e => h (by rw [e])
      · exact .inr h)]
    simp [leafAt]
  · simp [leafAt, update_of_ne hai]

/-- **One `mapAt` step, seen through translations.**  The walk either succeeds, and then the path
    had no leaf and has the new one, or it changes no translation of its depth; other paths of the
    same depth keep their leaf in any case. -/
theorem mapAt_spec (l : Leaf) (is : List Nat) (t : PageTable) (p : Pmm) :
    ((mapAt l is t p).1 = .ok → leafAt is t = none ∧ leafAt is (mapAt l is t p).2.1 = some l) ∧
    (∀ js, js.length = is.length → (js ≠ is ∨ (mapAt l is t p).1 ≠ .ok) →
      leafAt js (mapAt l is t p).2.1 = leafAt js t) := by
  fun_induction mapAt l is t p with
  | case1 t p => exact ⟨fun h => (by cases h), fun _ _ _ => rfl⟩
  | case2 i t p hi =>
    refine ⟨fun _ => ?_, fun js hlen hne => ?_⟩
    · simp [leafAt, hi]
    · exact leafAt_single _ hlen (hne.resolve_right fun h => h rfl)
  | case3 i t p hi => exact ⟨fun h => (by cases h), fun _ _ _ => rfl⟩
  | case4 i j is t p hi e p' hp => exact ⟨fun h => (by cases h), fun _ _ _ => rfl⟩
  | case5 i j is t p hi frame p' hp s sub p'' hs ih =>
    rw [hs] at ih
    refine ⟨fun h => ?_, fun js hlen hne => ?_⟩
    · obtain ⟨-, h2⟩ := ih.1 h
      exact ⟨by simp [leafAt, hi], by simpa [leafAt] using h2⟩
    · refine leafAt_below (fun b cs => ?_) ih.2 js hlen hne
      have hzero : leafAt (b :: cs) zero = none := by cases cs <;> rfl
      simp [leafAt, hi, hzero]
  | case6 i j is t p l' hi => exact ⟨fun h => (by cases h), fun _ _ _ => rfl⟩
  | case7 i j is t p frame sub hi s sub' p' hs ih =>
    rw [hs] at ih
    refine ⟨fun h => ?_, fun js hlen hne => ?_⟩
    · obtain ⟨h1, h2⟩ := ih.1 h
      exact ⟨by simpa [leafAt, hi] using h1, by simpa [leafAt] using h2⟩
    · exact leafAt_below (fun b cs => by simp [leafAt, hi]) ih.2 js hlen hne

end PageTable

/-- One turn of the loop of `Destroy_Table`: an owned leaf gives its frame back, `below` destroys a
    child table. -/
def destroyEntry (below : Nat → PageTable → Pmm → Pmm) (t : PageTable) (p : Pmm) (i : Nat) : Pmm :=
  match t i with
  | .invalid => p
  | .leaf l =>
    if l.isLeaf ∧ l.flags.global = false ∧ l.borrowed = false then (p.deallocateFrame l.frame).2
    else p
  | .table frame sub => below frame sub p

/-- `Destroy_Table`: give back the frames of the owned leaves and of the child tables, entry by
    entry; the last level has no child tables. -/
def destroyTable : Nat → PageTable → Pmm → Pmm
  | 0, t, p => (List.range 512).foldl (destroyEntry (fun _ _ p => p) t) p
  | level + 1, t, p =>
    (List.range 512).foldl
      (destroyEntry (fun frame sub p => ((destroyTable level sub p).deallocateFrame frame).2) t) p

/-- `Destroy_User_Address_Space`: the tree below the root, then the root frame. -/
def destroyUserAddressSpace (root : Nat) (t : PageTable) (p : Pmm) : MmuStatus × Pmm :=
  if root = 0 ∨ root % pageSize ≠ 0 then (.invalidAddress, p)
  else
    match (destroyTable 2 t p).deallocateFrame root with
    | (.ok, p') => (.ok, p')
    | (.invalidRange, p') => (.ok, p')
    | (_, p') => (.allocationFailed, p')

/-- The trampoline loop of `New_User_Address_Space`: map `n` pages from `page` on as kernel RX,
    global. -/
def mapTrampoline (root : Nat) : Nat → Nat → PageTable → Pmm → MmuStatus × PageTable × Pmm
  | _, 0, t, p => (.ok, t, p)
  | page, n + 1, t, p =>
    match t.mapPage root page (kernelVirtToPhys page) kernelRX false p with
    | (.ok, t', p') => mapTrampoline root (page + pageSize) n t' p'
    | r => r

/-- `New_User_Address_Space`: a root table with only the trampoline pages
    `[first, last)` in it. -/
def newUserAddressSpace (first last : Nat) (p : Pmm) : Except MmuStatus (Nat × PageTable) × Pmm :=
  match p.allocateFrame with
  | (.error _, p') => (.error .allocationFailed, p')
  | (.ok root, p') =>
    let start := first - first % pageSize
    match mapTrampoline root start ((last - start + pageSize - 1) / pageSize) .zero p' with
    | (.ok, t, p'') => (.ok (root, t), p'')
    | (_, t, p'') => (.error .allocationFailed, (destroyUserAddressSpace root t p'').2)

end Aegir.Arch
