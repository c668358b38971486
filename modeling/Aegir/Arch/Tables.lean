/-
  What a page-table tree holds.

  `held own n t` lists the frames that belong to the tree below a table of level `n`: the frame of every
  child table, and for every leaf the frames that `own` says come with it.  Mapping a page ADDS to this list
  exactly the tables it had to allocate and, if it succeeds, what the new leaf brings; unmapping takes away
  what the leaf brought; destroying the tree gives back one such list, frame by frame.
-/
import Aegir.Arch.Mmu
import Aegir.Kernel.PmmLaws

namespace Aegir.Lib

open List

/-- **One entry of a row gains `xs`**, the others stay: so does the row. -/
theorem flatMap_gain {ι α : Type*} {f g : ι → List α} {xs : List α} {is : List ι} {i : ι} (hnodup : is.Nodup)
    (hi : i ∈ is) (hother : ∀ j, j ≠ i → g j = f j) (hgain : (g i).Perm (xs ++ f i)) :
    (is.flatMap g).Perm (xs ++ is.flatMap f) := by
  induction is with
  | nil => exact absurd hi not_mem_nil
  | cons j is ih =>
    obtain ⟨hj, hnodup⟩ := nodup_cons.mp hnodup
    rw [flatMap_cons, flatMap_cons]
    by_cases hij : j = i
    · -- the entry that changes: the rest of the row is as it was
      subst hij
      have hrest : is.flatMap g = is.flatMap f := by
        refine flatMap_congr fun k hk => hother k ?_
        intro e
        exact hj (e ▸ hk)
      rw [hrest, ← append_assoc]
      exact hgain.append_right _
    · rcases mem_cons.mp hi with e | hi
      · exact absurd e.symm hij
      · rw [hother j hij]
        refine ((ih hnodup hi).append_left (f j)).trans ?_
        rw [← append_assoc, ← append_assoc]
        exact perm_append_comm.append_right _

end Aegir.Lib

namespace Aegir.Arch

open Aegir.Kernel Aegir.Lib

/-! ## The frames of a tree -/

/-- What one entry holds. -/
def Pte.held (own : Leaf → List Nat) (below : Nat → PageTable → List Nat) : Pte → List Nat
  | .invalid => []
  | .leaf l => own l
  | .table frame sub => below frame sub

namespace PageTable

variable {own : Leaf → List Nat} {t : PageTable} {p : Pmm} {l : Leaf} {n i : Nat} {is : List Nat}

/-- The frames that belong to the tree below a table of a level, in the order of `Destroy_Table`. -/
def held (own : Leaf → List Nat) : Nat → PageTable → List Nat
  | 0, t => (List.range 512).flatMap fun i => (t i).held own fun _ _ => []
  | n + 1, t => (List.range 512).flatMap fun i => (t i).held own fun frame sub => held own n sub ++ [frame]

/-- The frames of the tables below a table. -/
def tables (n : Nat) (t : PageTable) : List Nat := held (fun _ => []) n t

/-- An entry's share of `held`, at a level. -/
def share (own : Leaf → List Nat) : Nat → Pte → List Nat
  | 0, e => e.held own fun _ _ => []
  | n + 1, e => e.held own fun frame sub => held own n sub ++ [frame]

theorem held_eq_share (own : Leaf → List Nat) (n : Nat) (t : PageTable) :
    held own n t = (List.range 512).flatMap fun i => share own n (t i) := by
  cases n <;> rfl

theorem held_level_zero (own : Leaf → List Nat) (t : PageTable) :
    held own 0 t = (List.range 512).flatMap fun i => (t i).held own fun _ _ => [] := rfl

theorem held_level_succ (own : Leaf → List Nat) (n : Nat) (t : PageTable) : held own (n + 1) t =
      (List.range 512).flatMap fun i => (t i).held own fun frame sub => held own n sub ++ [frame] := rfl

attribute [irreducible] held

theorem held_zero (own : Leaf → List Nat) (n : Nat) : held own n zero = [] := by
  rw [held_eq_share, List.flatMap_eq_nil_iff]
  intro i _
  cases n <;> rfl

theorem held_update {xs : List Nat} {e : Pte} (hi : i < 512)
    (hgain : (share own n e).Perm (xs ++ share own n (t i))) :
    (held own n (Function.update t i e)).Perm (xs ++ held own n t) := by
  rw [held_eq_share, held_eq_share]
  refine flatMap_gain List.nodup_range (List.mem_range.mpr hi) (fun j hj => ?_) ?_
  · rw [Function.update_of_ne hj]
  · rw [Function.update_self]
    exact hgain

/-! ## Mapping and unmapping -/

/-- What the tree gains when a leaf goes in. -/
def gain (own : Leaf → List Nat) (l : Leaf) (s : MmuStatus) : List Nat := if s = .ok then own l else []

theorem held_same (own : Leaf → List Nat) (l : Leaf) {s : MmuStatus} (hs : s ≠ .ok) :
    (held own n t).Perm ([] ++ gain own l s ++ held own n t) := by
  rw [gain, if_neg hs]
  exact .refl _

/-- **`Map_Page` and the tree's frames**: the tree gains the tables that were allocated on the way, also when
    the walk fails after that, and what the leaf brings if it goes in. -/
theorem mapAt_held (own : Leaf → List Nat) (l : Leaf) (is : List Nat) (t : PageTable) (p : Pmm)
    (hlt : ∀ i ∈ is, i < 512) :
    ∃ ts, p.Draws ts (mapAt l is t p).2.2 ∧ (held own (is.length - 1) (mapAt l is t p).2.1).Perm
        (ts ++ gain own l (mapAt l is t p).1 ++ held own (is.length - 1) t) := by
  fun_induction mapAt l is t p with
  | case2 i t p hi =>
    refine ⟨[], .done, held_update (hlt i List.mem_cons_self) ?_⟩
    rw [hi]
    show (own l).Perm ([] ++ own l ++ [])
    rw [List.nil_append, List.append_nil]
  | case4 i j is t p hi e p' hp' => exact ⟨[], .missed hp' .done, held_same own l (by simp)⟩
  | case5 i j is t p hi frame p' hp' s sub p'' hs ih =>
    -- a new table, and what is put below it
    obtain ⟨ts, hdraws, hperm⟩ := ih fun k hk => hlt k (List.mem_cons_of_mem i hk)
    rw [hs] at hdraws hperm
    rw [held_zero, List.append_nil] at hperm
    refine ⟨frame :: ts, .got hp' hdraws, held_update (hlt i List.mem_cons_self) ?_⟩
    rw [hi]
    show (held own (j :: is).length.pred sub ++ [frame]).Perm (frame :: ts ++ gain own l s ++ [])
    rw [List.append_nil]
    exact List.perm_append_comm.trans (hperm.cons frame)
  | case7 i j is t p frame sub hi s sub' p' hs ih =>
    obtain ⟨ts, hdraws, hperm⟩ := ih fun k hk => hlt k (List.mem_cons_of_mem i hk)
    rw [hs] at hdraws hperm
    refine ⟨ts, hdraws, held_update (hlt i List.mem_cons_self) ?_⟩
    rw [hi]
    show (held own (j :: is).length.pred sub' ++ [frame]).Perm
      (ts ++ gain own l s ++ (held own (j :: is).length.pred sub ++ [frame]))
    rw [← List.append_assoc]
    exact hperm.append_right [frame]
  | _ => exact ⟨[], .done, held_same own l (by simp)⟩

/-- **`Unmap_Borrowed_Page` and the tree's frames**: a borrowed leaf brings none, so none goes. -/
theorem unmapAt_held (hown : ∀ l : Leaf, l.borrowed = true → own l = []) (is : List Nat) (t : PageTable)
    (hlt : ∀ i ∈ is, i < 512) :
    (held own (is.length - 1) (unmapAt is t).2).Perm (held own (is.length - 1) t) := by
  fun_induction unmapAt is t with
  | case2 i t l hi hl =>
    have hb : l.borrowed = true := (Bool.and_eq_true _ _ ▸ hl).2
    have hgain : (share own 0 .invalid).Perm ([] ++ share own 0 (t i)) := by
      rw [hi]
      show ([] : List Nat).Perm ([] ++ own l)
      rw [hown l hb]
      exact .refl _
    exact held_update (hlt i List.mem_cons_self) hgain
  | case5 i j is t frame sub hi s sub' hs ih =>
    have hperm := ih fun k hk => hlt k (List.mem_cons_of_mem i hk)
    rw [hs] at hperm
    have hgain : (share own (is.length + 1) (.table frame sub')).Perm ([] ++ share own (is.length + 1) (t i)) := by
      rw [hi]
      exact hperm.append_right [frame]
    exact held_update (hlt i List.mem_cons_self) hgain
  | _ => exact .refl _

theorem path_lt (virtual : Nat) : ∀ i ∈ path virtual, i < 512 := by
  intro i hi
  simp only [path, List.mem_cons, List.not_mem_nil, or_false] at hi
  rcases hi with rfl | rfl | rfl <;> exact Nat.mod_lt _ (by omega)

theorem mapPage_held (own : Leaf → List Nat) (root : Nat) (t : PageTable) (virtual physical : Nat)
    (flags : PageFlags) (borrowed : Bool) (p : Pmm) :
    ∃ ts, p.Draws ts (t.mapPage root virtual physical flags borrowed p).2.2 ∧
      (held own 2 (t.mapPage root virtual physical flags borrowed p).2.1).Perm
        (ts ++ gain own ⟨physical, flags, borrowed⟩ (t.mapPage root virtual physical flags borrowed p).1 ++
          held own 2 t) := by
  by_cases h : root % pageSize ≠ 0 ∨ virtual % pageSize ≠ 0 ∨ physical % pageSize ≠ 0
  · rw [mapPage, if_pos h]
    exact ⟨[], .done, held_same own _ (by simp)⟩
  · rw [mapPage, if_neg h]
    exact mapAt_held own _ (path virtual) t p (path_lt virtual)

theorem unmapBorrowedPage_held (hown : ∀ l : Leaf, l.borrowed = true → own l = []) (root : Nat)
    (t : PageTable) (virtual : Nat) :
    (held own 2 (t.unmapBorrowedPage root virtual).2).Perm (held own 2 t) := by
  by_cases h : root % pageSize ≠ 0 ∨ virtual % pageSize ≠ 0
  · rw [unmapBorrowedPage, if_pos h]
  · rw [unmapBorrowedPage, if_neg h]
    exact unmapAt_held hown (path virtual) t (path_lt virtual)

end PageTable

/-! ## Teardown -/

/-- The frames that come with a leaf at teardown: an OWNED leaf's frame, if the walk knows it for a leaf. -/
def reclaims (l : Leaf) : List Nat :=
  if l.isLeaf ∧ l.flags.global = false ∧ l.borrowed = false then [l.frame] else []

theorem destroyEntry_eq {below : Nat → PageTable → Pmm → Pmm} {frames : Nat → PageTable → List Nat}
    (hbelow : ∀ frame sub p, below frame sub p = p.giveBack (frames frame sub)) (t : PageTable) (p : Pmm)
    (i : Nat) : destroyEntry below t p i = p.giveBack ((t i).held reclaims frames) := by
  unfold destroyEntry
  cases t i with
  | invalid => rfl
  | table frame sub => exact hbelow frame sub p
  | leaf l =>
    dsimp only [Pte.held]
    split_ifs with h
    · rw [reclaims, if_pos h]
      rfl
    · rw [reclaims, if_neg h]
      rfl

/-- **`Destroy_Table` gives back** the frames of its child tables and of the leaves it knows for owned. -/
theorem destroyTable_eq (n : Nat) (t : PageTable) (p : Pmm) :
    destroyTable n t p = p.giveBack (PageTable.held reclaims n t) := by
  induction n generalizing t p with
  | zero =>
    rw [destroyTable, PageTable.held_level_zero, Pmm.giveBack, List.foldl_flatMap]
    congr 1
    funext p i
    have hbelow : ∀ (_ : Nat) (_ : PageTable) (p : Pmm), p = p.giveBack [] := fun _ _ _ => rfl
    exact destroyEntry_eq hbelow t p i
  | succ n ih =>
    rw [destroyTable, PageTable.held_level_succ, Pmm.giveBack, List.foldl_flatMap]
    congr 1
    funext p i
    refine destroyEntry_eq (fun frame sub p => ?_) t p i
    rw [ih, Pmm.giveBack_append]
    rfl

/-!
## Page tables as words in memory (`Arch.MMU`)

A table is a page of 512 words.  An entry has the frame number in bits 10 and up, the permissions and the
kernel's own BORROWED mark below; an entry without R, W and X points at the next table.  The functions here
are those of the source on these words, and `translate` is what the hardware makes of them.  `Rep` says that
the words below a frame stand for a tree of `Arch.PageTable`.

Tables are reached through the physmap, so a table is named by the physical address of its page.
-/

open PageTable

/-! ## Entries -/

def pteV : Nat := 0x001
def pteR : Nat := 0x002
def pteW : Nat := 0x004
def pteX : Nat := 0x008
def pteU : Nat := 0x010
def pteG : Nat := 0x020
def pteA : Nat := 0x040
def pteD : Nat := 0x080

/-- `PTE_Borrowed`: bit 8, which the hardware leaves to the kernel. -/
def pteBorrowed : Nat := 0x100

/-- `PTE_To_Physical`. -/
def pteToPhysical (pte : Nat) : Nat := (pte >>> 10) * pageSize % 2 ^ 64

/-- `Is_Leaf`. -/
def pteIsLeaf (pte : Nat) : Bool := pte &&& (pteR ||| pteW ||| pteX) ≠ 0

/-- `Physical_To_PTE`. -/
def physicalToPte (physical : Nat) : Nat := (physical / pageSize) <<< 10 % 2 ^ 64

/-- `Leaf_Flags`. -/
def leafFlags (flags : PageFlags) (borrowed : Bool) : Nat :=
  let value := pteV ||| pteA ||| pteD
  let value := if flags.read then value ||| pteR else value
  let value := if flags.write then value ||| pteW else value
  let value := if flags.execute then value ||| pteX else value
  let value := if flags.user then value ||| pteU else value
  let value := if flags.global then value ||| pteG else value
  if borrowed then value ||| pteBorrowed else value

/-- The word of a leaf, and that of a pointer. -/
def leafWord (l : Leaf) : Nat := physicalToPte l.frame ||| leafFlags l.flags l.borrowed

def tableWord (frame : Nat) : Nat := physicalToPte frame ||| pteV

/-! ## The walks -/

/-- The words of a table by its page, and the allocator. -/
structure Ram where
  words : Nat → Nat → Nat
  pmm : Pmm

namespace Ram

def store (m : Ram) (table index word : Nat) : Ram :=
  { m with words := Function.update m.words table (Function.update (m.words table) index word) }

/-- `Zero_Page`. -/
def zeroPage (m : Ram) (table : Nat) : Ram := { m with words := Function.update m.words table fun _ => 0 }

/-- `Allocate_Table`. -/
def allocateTable (m : Ram) : Except MmuStatus Nat × Ram :=
  match m.pmm.allocateFrame with
  | (.error _, p) => (.error .allocationFailed, { m with pmm := p })
  | (.ok frame, p) => (.ok frame, ({ m with pmm := p } : Ram).zeroPage frame)

/-- The loop of `Map_Page` from a level down, and the write at the last one. -/
def mapWalk (virtual word : Nat) : Nat → Nat → Ram → MmuStatus × Ram
  | 0, table, m =>
    if m.words table (indexFor virtual 0) &&& pteV ≠ 0 then (.alreadyMapped, m)
    else (.ok, m.store table (indexFor virtual 0) word)
  | level + 1, table, m =>
    let index := indexFor virtual (level + 1)
    let pte := m.words table index
    if pte &&& pteV = 0 then
      match m.allocateTable with
      | (.error s, m') => (s, m')
      | (.ok newTable, m') =>
        mapWalk virtual word level newTable (m'.store table index (physicalToPte newTable ||| pteV))
    else if pte &&& (pteR ||| pteW ||| pteX) ≠ 0 then (.alreadyMapped, m)
    else mapWalk virtual word level (pteToPhysical pte) m

/-- `Map_Page`. -/
def mapPage (m : Ram) (root virtual physical : Nat) (flags : PageFlags) (borrowed : Bool) : MmuStatus × Ram :=
  if root % pageSize ≠ 0 ∨ virtual % pageSize ≠ 0 ∨ physical % pageSize ≠ 0 then (.invalidAddress, m)
  else mapWalk virtual (physicalToPte physical ||| leafFlags flags borrowed) 2 root m

/-- The loop of `Unmap_Borrowed_Page` from a level down, and its last test. -/
def unmapWalk (virtual : Nat) : Nat → Nat → Ram → MmuStatus × Ram
  | 0, table, m =>
    let pte := m.words table (indexFor virtual 0)
    if pte &&& pteV = 0 ∨ ¬ pteIsLeaf pte ∨ pte &&& pteBorrowed = 0 then (.notMapped, m)
    else (.ok, m.store table (indexFor virtual 0) 0)
  | level + 1, table, m =>
    let pte := m.words table (indexFor virtual (level + 1))
    if pte &&& pteV = 0 ∨ pteIsLeaf pte then (.notMapped, m) else unmapWalk virtual level (pteToPhysical pte) m

/-- `Unmap_Borrowed_Page`. -/
def unmapBorrowedPage (m : Ram) (root virtual : Nat) : MmuStatus × Ram :=
  if root % pageSize ≠ 0 ∨ virtual % pageSize ≠ 0 then (.invalidAddress, m) else unmapWalk virtual 2 root m

/-- `Gigapage_Size`. -/
def gigapageSize : Nat := 0x40000000

/-- `Map_Gigapage`. -/
def mapGigapage (m : Ram) (root virtual physical : Nat) (flags : PageFlags) : MmuStatus × Ram :=
  if root % pageSize ≠ 0 ∨ virtual % gigapageSize ≠ 0 ∨ physical % gigapageSize ≠ 0 then (.invalidAddress, m)
  else if m.words root (indexFor virtual 2) &&& pteV ≠ 0 then (.alreadyMapped, m)
  else (.ok, m.store root (indexFor virtual 2) (physicalToPte physical ||| leafFlags flags false))

end Ram

/-! ## Translation -/

/-- Where an address leads, and with which permissions. -/
structure Translation where
  physical : Nat
  flags : PageFlags
  borrowed : Bool
deriving DecidableEq

/-- The permissions in an entry. -/
def flagsOf (pte : Nat) : PageFlags where
  read := pte &&& pteR ≠ 0
  write := pte &&& pteW ≠ 0
  execute := pte &&& pteX ≠ 0
  user := pte &&& pteU ≠ 0
  global := pte &&& pteG ≠ 0

/-- The entries at which the hardware stops with a page fault: one that is not valid, one that allows writes but
    no reads, one with a bit above the frame number, and a pointer with U, A or D. -/
def pteFaults (pte : Nat) : Bool :=
  pte &&& pteV = 0 ∨ (pte &&& pteR = 0 ∧ pte &&& pteW ≠ 0) ∨ pte / 2 ^ 54 ≠ 0 ∨
    (pteIsLeaf pte = false ∧ pte &&& (pteU ||| pteA ||| pteD) ≠ 0)

/-- The walk from a level down, which stops at entries that fault: the leaf it ends at, and its level. -/
def walkWords (faults : Nat → Bool) (words : Nat → Nat → Nat) (virtual : Nat) : Nat → Nat → Option (Nat × Nat)
  | 0, table =>
    let pte := words table (indexFor virtual 0)
    if faults pte ∨ ¬ pteIsLeaf pte then none else some (pte, 0)
  | level + 1, table =>
    let pte := words table (indexFor virtual (level + 1))
    if faults pte then none
    else if pteIsLeaf pte then some (pte, level + 1)
    else walkWords faults words virtual level (pteToPhysical pte)

/-- The leaf at an address and its level, whether or not the hardware takes it. -/
def leafAt (m : Ram) (root virtual : Nat) : Option (Nat × Nat) :=
  walkWords (fun pte => pte &&& pteV = 0) m.words virtual 2 root

/-- The addresses that Sv39 translates: bits 63 to 39 are copies of bit 38. -/
def Canonical (virtual : Nat) : Prop := virtual < 2 ^ 38 ∨ (2 ^ 64 - 2 ^ 38 ≤ virtual ∧ virtual < 2 ^ 64)

instance (virtual : Nat) : Decidable (Canonical virtual) := inferInstanceAs (Decidable (_ ∨ _))

/-- The hardware's translation of an address below a root: a leaf of a higher level maps a larger page, which
    has to be aligned. -/
def translate (m : Ram) (root virtual : Nat) : Option Translation :=
  if Canonical virtual then
    match walkWords pteFaults m.words virtual 2 root with
    | none => none
    | some (pte, level) =>
      if pteToPhysical pte % 2 ^ (12 + level * 9) ≠ 0 then none
      else some ⟨pteToPhysical pte + virtual % 2 ^ (12 + level * 9), flagsOf pte, pte &&& pteBorrowed ≠ 0⟩
  else none

/-! ## Encodings round-trip -/

theorem word_eq {f : Nat} (hf : f < 2 ^ 10) (x : Nat) : x * 1024 ||| f = x * 1024 + f := by
  rw [Nat.mul_comm x 1024]
  exact (Nat.two_pow_add_eq_or_of_lt hf x).symm

theorem word_and {f mask : Nat} (hf : f < 2 ^ 10) (hm : mask < 2 ^ 10) (x : Nat) :
    (x * 1024 + f) &&& mask = f &&& mask := by
  rw [← word_eq hf, Nat.and_or_distrib_right]
  have hz : x * 1024 &&& mask = 0 := by
    refine Nat.eq_of_testBit_eq fun i => ?_
    rw [Nat.testBit_and, Nat.zero_testBit]
    by_cases hi : i < 10
    · have hlow : (x * 1024).testBit i = false := by
        have h1024 : x * 1024 = x <<< 10 := by rw [Nat.shiftLeft_eq]
        rw [h1024, Nat.testBit_shiftLeft]
        simp
        omega
      rw [hlow, Bool.false_and]
    · have hhigh : mask.testBit i = false := by
        refine Nat.testBit_lt_two_pow (hm.trans_le ?_)
        exact Nat.pow_le_pow_right (by decide) (by omega)
      rw [hhigh, Bool.and_false]
  rw [hz, Nat.zero_or]

theorem physicalToPte_eq {physical : Nat} (hlt : physical < 2 ^ 64) :
    physicalToPte physical = physical / pageSize * 1024 := by
  unfold physicalToPte pageSize
  omega

/-- **`PTE_To_Physical` undoes `Physical_To_PTE`**, whatever flags are in the word. -/
theorem pteToPhysical_word {physical f : Nat} (hlt : physical < 2 ^ 64) (halign : physical % pageSize = 0)
    (hf : f < 2 ^ 10) : pteToPhysical (physicalToPte physical ||| f) = physical := by
  rw [physicalToPte_eq hlt, word_eq hf]
  unfold pteToPhysical pageSize at *
  omega

theorem leafFlags_lt (flags : PageFlags) (borrowed : Bool) : leafFlags flags borrowed < 2 ^ 10 := by
  obtain ⟨r, w, x, u, g⟩ := flags
  revert r w x u g borrowed
  decide

theorem leafWord_and (l : Leaf) (hlt : l.frame < 2 ^ 64) {mask : Nat} (hm : mask < 2 ^ 10) :
    leafWord l &&& mask = leafFlags l.flags l.borrowed &&& mask := by
  unfold leafWord
  rw [physicalToPte_eq hlt, word_eq (leafFlags_lt _ _)]
  exact word_and (leafFlags_lt _ _) hm _

theorem tableWord_and {frame mask : Nat} (hlt : frame < 2 ^ 64) (hm : mask < 2 ^ 10) :
    tableWord frame &&& mask = pteV &&& mask := by
  unfold tableWord
  rw [physicalToPte_eq hlt, word_eq (by decide)]
  exact word_and (by decide) hm _

/-- **Leaves round-trip.** -/
theorem leafWord_spec (l : Leaf) (hlt : l.frame < 2 ^ 64) (halign : l.frame % pageSize = 0) :
    leafWord l &&& pteV ≠ 0 ∧ pteIsLeaf (leafWord l) = l.isLeaf ∧ pteToPhysical (leafWord l) = l.frame ∧
      flagsOf (leafWord l) = l.flags ∧ decide (leafWord l &&& pteBorrowed ≠ 0) = l.borrowed := by
  have hflags : ∀ (flags : PageFlags) (borrowed : Bool), leafFlags flags borrowed &&& pteV ≠ 0 ∧
      decide (leafFlags flags borrowed &&& (pteR ||| pteW ||| pteX) ≠ 0) = (flags.read || flags.write || flags.execute) ∧
      flagsOf (leafFlags flags borrowed) = flags ∧
      decide (leafFlags flags borrowed &&& pteBorrowed ≠ 0) = borrowed := by
    rintro ⟨r, w, x, u, g⟩ borrowed
    revert r w x u g borrowed
    decide
  obtain ⟨hv, hleaf, hf, hb⟩ := hflags l.flags l.borrowed
  refine ⟨?_, ?_, pteToPhysical_word hlt halign (leafFlags_lt _ _), ?_, ?_⟩
  · rw [leafWord_and l hlt (by decide)]
    exact hv
  · unfold pteIsLeaf
    rw [leafWord_and l hlt (by decide)]
    exact hleaf
  · unfold flagsOf at hf ⊢
    rw [leafWord_and l hlt (by decide), leafWord_and l hlt (by decide), leafWord_and l hlt (by decide),
      leafWord_and l hlt (by decide), leafWord_and l hlt (by decide)]
    exact hf
  · rw [leafWord_and l hlt (by decide)]
    exact hb

/-- **Pointers round-trip**, and are no leaves. -/
theorem tableWord_spec {frame : Nat} (hlt : frame < 2 ^ 64) (halign : frame % pageSize = 0) :
    tableWord frame &&& pteV ≠ 0 ∧ pteIsLeaf (tableWord frame) = false ∧ pteToPhysical (tableWord frame) = frame := by
  refine ⟨?_, ?_, pteToPhysical_word hlt halign (by decide)⟩
  · rw [tableWord_and hlt (by decide)]
    decide
  · unfold pteIsLeaf
    rw [tableWord_and hlt (by decide)]
    decide

/-- **What the hardware takes**: a frame of 56 bits, and R, or X without W.  A leaf without R, W and X has A and D
    set, which no pointer may. -/
def Leaf.usable (l : Leaf) : Bool :=
  l.frame < 2 ^ 56 && (l.flags.read || (l.flags.execute && !l.flags.write))

theorem leafWord_faults (l : Leaf) (hlt : l.frame < 2 ^ 64) (halign : l.frame % pageSize = 0) :
    pteFaults (leafWord l) = !l.usable := by
  have hhigh : leafWord l / 2 ^ 54 = l.frame / 2 ^ 56 := by
    have hflags := leafFlags_lt l.flags l.borrowed
    unfold leafWord
    rw [physicalToPte_eq hlt, word_eq hflags]
    unfold pageSize at *
    omega
  have hbits : ∀ (flags : PageFlags) (borrowed : Bool),
      (leafFlags flags borrowed &&& pteV = 0 ∨
        (leafFlags flags borrowed &&& pteR = 0 ∧ leafFlags flags borrowed &&& pteW ≠ 0) ∨
        (decide (leafFlags flags borrowed &&& (pteR ||| pteW ||| pteX) ≠ 0) = false ∧
          leafFlags flags borrowed &&& (pteU ||| pteA ||| pteD) ≠ 0)) ↔
      (flags.read || (flags.execute && !flags.write)) = false := by
    rintro ⟨r, w, x, u, g⟩ borrowed
    revert r w x u g borrowed
    decide
  have hfaults : pteFaults (leafWord l) = true ↔
      l.frame / 2 ^ 56 ≠ 0 ∨ (l.flags.read || (l.flags.execute && !l.flags.write)) = false := by
    rw [← hbits l.flags l.borrowed]
    unfold pteFaults pteIsLeaf
    rw [decide_eq_true_eq, hhigh]
    rw [leafWord_and l hlt (by decide), leafWord_and l hlt (by decide), leafWord_and l hlt (by decide),
      leafWord_and l hlt (by decide), leafWord_and l hlt (by decide)]
    tauto
  rw [Bool.eq_iff_iff, hfaults, Bool.not_eq_true', Leaf.usable, Bool.and_eq_false_iff, decide_eq_false_iff_not]
  have hframe : l.frame / 2 ^ 56 ≠ 0 ↔ ¬ l.frame < 2 ^ 56 := by omega
  rw [hframe]

theorem tableWord_faults {frame : Nat} (hlt : frame < 2 ^ 56) : pteFaults (tableWord frame) = false := by
  have hhigh : tableWord frame / 2 ^ 54 = 0 := by
    unfold tableWord
    rw [physicalToPte_eq (by omega), word_eq (by decide)]
    unfold pageSize pteV
    omega
  unfold pteFaults pteIsLeaf
  rw [hhigh]
  rw [tableWord_and (by omega) (by decide), tableWord_and (by omega) (by decide), tableWord_and (by omega) (by decide),
    tableWord_and (by omega) (by decide), tableWord_and (by omega) (by decide)]
  decide

end Aegir.Arch
