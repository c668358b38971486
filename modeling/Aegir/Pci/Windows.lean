/-
  PCI windows (`Device_Manager.Assign_BARs`, `Find_Virtio_Regions`).

  init gives every memory BAR of every PCI function an address: it reads the size back from the device, aligns
  the cursor of the 32-bit or the 64-bit window to it, and moves the cursor behind the BAR.  Then it walks the
  capability list for the regions that the driver will map.

  Nothing is compared with the END of a window, and no region with the size of its BAR; and a 64-bit BAR in
  the last slot takes a slot that does not exist.
-/
import Mathlib.Data.Nat.Bitwise
import Mathlib.Data.List.Pairwise
import Mathlib.Logic.Function.Basic

namespace Aegir.Pci

open List Function

/-- `MMIO32_Window` and `MMIO64_Window`. -/
def window (wide : Bool) : UInt64 := if wide = true then 0x400000000 else 0x40000000

/-- What the configuration space of one function returns: for a BAR slot the word found there, the word read
    back after all ones, and the word then read back from the slot behind it; and any other byte or word. -/
structure Config where
  orig : Nat → UInt32
  maskLo : Nat → UInt32
  maskHi : Nat → UInt32
  read8 : UInt64 → UInt8
  read32 : UInt64 → UInt32

namespace Config

variable (c : Config) (i : Nat)

/-- The probe of a slot: there is nothing to place (an I/O BAR, or none), or a memory BAR, of 64 bits or of
    32. -/
def kind : Option Bool :=
  if c.orig i &&& 1 = 1 then none
  else if c.maskLo i = 0 then none
  else some ((c.maskLo i / 2) &&& 3 = 2)

/-- The size of the memory BAR. -/
def size (wide : Bool) : UInt64 :=
  if wide = true then ~~~((c.maskHi i).toUInt64 <<< 32 ||| (c.maskLo i &&& 0xFFFFFFF0).toUInt64) + 1
  else (~~~(c.maskLo i &&& 0xFFFFFFF0) + 1).toUInt64

/-- The device decodes powers of two. -/
def PowerSizes : Prop := ∀ i wide, c.kind i = some wide → ∃ k, (c.size i wide).toNat = 2 ^ k

/-- The capabilities that a walk along the list meets; it ends at a null pointer, or after `guard` of them. -/
def capabilities : Nat → UInt8 → List UInt8
  | 0, _ => []
  | guard + 1, ptr => if ptr = 0 then [] else ptr :: capabilities guard (c.read8 (ptr.toUInt64 + 1))

/-- The capability describes one of the four regions. -/
def Describes (ptr : UInt8) : Prop :=
  c.read8 ptr.toUInt64 = 9 ∧ 1 ≤ (c.read8 (ptr.toUInt64 + 3)).toNat ∧ (c.read8 (ptr.toUInt64 + 3)).toNat ≤ 4

instance (ptr : UInt8) : Decidable (c.Describes ptr) := inferInstanceAs (Decidable (_ ∧ _))

/-- The BAR that it names. -/
def barOf (ptr : UInt8) : Nat := (c.read8 (ptr.toUInt64 + 4)).toNat

/-- The place of the region in the BAR. -/
def offsetOf (ptr : UInt8) : UInt64 := (c.read32 (ptr.toUInt64 + 8)).toUInt64

/-- The length of the region. -/
def lengthOf (ptr : UInt8) : UInt64 := (c.read32 (ptr.toUInt64 + 12)).toUInt64

end Config

/-- A cursor, aligned to a size. -/
def place (cursor size : UInt64) : UInt64 := (cursor + size - 1) &&& ~~~(size - 1)

/-- A BAR as it was programmed. -/
structure Bar where
  slot : Nat
  wide : Bool
  base : UInt64
  size : UInt64

/-- The state of `Assign_BARs`: the cursors, `Bar_Base`, `Bar_Seen`, and the BARs of the function that were
    programmed, the last one first. -/
structure Assign where
  cursor : Bool → UInt64
  base : Nat → UInt64
  seen : Nat → Bool
  bars : List Bar

/-- A memory BAR gets its address; one of 64 bits fills two slots. -/
def Assign.program (a : Assign) (i : Nat) (wide : Bool) (size : UInt64) : Assign :=
  let addr := place (a.cursor wide) size
  let base := update a.base i addr
  let seen := update a.seen i true
  { cursor := update a.cursor wide (addr + size)
    base := if wide = true then update base (i + 1) addr else base
    seen := if wide = true then update seen (i + 1) true else seen
    bars := ⟨i, wide, addr, size⟩ :: a.bars }

/-- One turn of the loop, and the next slot.  There is no `Bar_Base (6)`: the index check fails. -/
def assignStep (c : Config) (i : Nat) (a : Assign) : Option (Nat × Assign) :=
  match c.kind i with
  | none => some (i + 1, { a with seen := update a.seen i false })
  | some wide =>
    if wide = true ∧ i = 5 then none
    else some (if wide = true then i + 2 else i + 1, a.program i wide (c.size i wide))

/-- The loop over the slots. -/
def assignFrom (c : Config) : Nat → Nat → Assign → Option Assign
  | 0, _, a => some a
  | n + 1, i, a => if i ≤ 5 then (assignStep c i a).bind fun r => assignFrom c n r.1 r.2 else some a

/-- The state before a function. -/
def before (cursor : Bool → UInt64) : Assign := ⟨cursor, fun _ => 0, fun _ => false, []⟩

/-- `Assign_BARs`. -/
def assignBars (c : Config) (cursor : Bool → UInt64) : Option Assign := assignFrom c 6 0 (before cursor)

/-- A region that is reported to a driver, with the BAR that its capability names. -/
structure Region where
  pa : UInt64
  length : UInt64
  bar : Nat

/-- `Regions` and `Notify_Mult`. -/
structure Regions where
  region : Nat → Option Region
  notifyMult : UInt32

/-- One capability of the list. -/
def visit (c : Config) (a : Assign) (r : Regions) (ptr : UInt8) : Regions :=
  let cfgType := (c.read8 (ptr.toUInt64 + 3)).toNat
  if c.Describes ptr ∧ c.barOf ptr ≤ 5 ∧ a.seen (c.barOf ptr) = true then
    { region := update r.region cfgType
        (some ⟨a.base (c.barOf ptr) + c.offsetOf ptr, c.lengthOf ptr, c.barOf ptr⟩)
      notifyMult := if cfgType = 2 then c.read32 (ptr.toUInt64 + 16) else r.notifyMult }
  else r

/-- `Find_Virtio_Regions`. -/
def findVirtioRegions (c : Config) (a : Assign) : Regions :=
  (c.capabilities 48 (c.read8 0x34)).foldl (visit c a) ⟨fun _ => none, 0⟩

/-- The functions, one after the other: their BARs and their regions. -/
def enumerate : List Config → (Bool → UInt64) → Option (List (List Bar × Regions))
  | [], _ => some []
  | c :: cs, cursor => (assignBars c cursor).bind fun a =>
      (enumerate cs a.cursor).map ((a.bars, findVirtioRegions c a) :: ·)

/-! ## The law, and when it holds -/

/-- The slots of a BAR. -/
def Bar.Names (b : Bar) (slot : Nat) : Prop := slot = b.slot ∨ b.wide = true ∧ slot = b.slot + 1

/-- A BAR takes slots that exist, is aligned, and lies in its window, which ends at `ends`. -/
structure Bar.Placed (ends : Bool → Nat) (b : Bar) : Prop where
  slots : ∀ j, b.Names j → j ≤ 5
  aligned : b.base.toNat % b.size.toNat = 0
  low : (window b.wide).toNat ≤ b.base.toNat
  high : b.base.toNat + b.size.toNat ≤ ends b.wide

/-- Two BARs do not overlap. -/
def Bar.Apart (b b' : Bar) : Prop :=
  b.base.toNat + b.size.toNat ≤ b'.base.toNat ∨ b'.base.toNat + b'.size.toNat ≤ b.base.toNat

/-- A region lies inside the BAR that it names. -/
def Region.Inside (r : Region) (bars : List Bar) : Prop :=
  ∃ b ∈ bars, b.Names r.bar ∧ b.base.toNat ≤ r.pa.toNat ∧
    r.pa.toNat + r.length.toNat ≤ b.base.toNat + b.size.toNat

/-- The windows are exclusive. -/
structure Exclusive (ends : Bool → Nat) (fs : List (List Bar × Regions)) : Prop where
  placed : ∀ f ∈ fs, ∀ b ∈ f.1, b.Placed ends
  apart : (fs.flatMap Prod.fst).Pairwise Bar.Apart
  inside : ∀ f ∈ fs, ∀ t r, f.2.region t = some r → r.Inside f.1

/-- The next multiple of a size. -/
def alignUp (x size : Nat) : Nat := (x + size - 1) / size * size

/-- A slot is no trouble: a 64-bit BAR is not in the last one, and behind the aligned cursor the window has
    room for the BAR. -/
def SlotFits (ends : Bool → Nat) (c : Config) (i : Nat) (a : Assign) : Prop :=
  ∀ wide, c.kind i = some wide → ¬ (wide = true ∧ i = 5) ∧
    alignUp (a.cursor wide).toNat (c.size i wide).toNat + (c.size i wide).toNat ≤ ends wide

/-- No slot is trouble when its turn comes. -/
def SlotsFit (ends : Bool → Nat) (c : Config) : Nat → Nat → Assign → Prop
  | 0, _, _ => True
  | n + 1, i, a => i ≤ 5 → SlotFits ends c i a ∧
      ∀ r, assignStep c i a = some r → SlotsFit ends c n r.1 r.2

/-- The regions that the capabilities describe do not go beyond the BARs they name. -/
def CapsFit (c : Config) (bars : List Bar) : Prop :=
  ∀ ptr ∈ c.capabilities 48 (c.read8 0x34), c.Describes ptr → ∀ b ∈ bars, b.Names (c.barOf ptr) →
    (c.offsetOf ptr).toNat + (c.lengthOf ptr).toNat ≤ b.size.toNat

/-- No function is trouble when its turn comes. -/
def Fits (ends : Bool → Nat) : List Config → (Bool → UInt64) → Prop
  | [], _ => True
  | c :: cs, cursor => SlotsFit ends c 6 0 (before cursor) ∧
      ∀ a, assignBars c cursor = some a → CapsFit c a.bars ∧ Fits ends cs a.cursor

/-! ## Placement -/

theorem and_mask {x k : Nat} (hx : x < 2 ^ 64) (hk : k ≤ 64) :
    x &&& (2 ^ 64 - 1 - (2 ^ k - 1)) = x / 2 ^ k * 2 ^ k := by
  have hle : 2 ^ k ≤ 2 ^ 64 := Nat.pow_le_pow_right (by omega) hk
  rw [← Nat.shiftRight_eq_div_pow, ← Nat.shiftLeft_eq]
  refine Nat.eq_of_testBit_eq fun i => ?_
  rw [Nat.testBit_and, Nat.testBit_shiftLeft, Nat.testBit_shiftRight,
    show 2 ^ 64 - 1 - (2 ^ k - 1) = 2 ^ 64 - ((2 ^ k - 1) + 1) by omega,
    Nat.testBit_two_pow_sub_succ (by omega), Nat.testBit_two_pow_sub_one]
  by_cases hi : i < k
  · simp [hi]
  · rw [show k + (i - k) = i by omega]
    by_cases h64 : i < 64
    · simp [hi, h64, Nat.not_lt.mp hi]
    · have hbit : x.testBit i = false :=
        Nat.testBit_lt_two_pow (Nat.lt_of_lt_of_le hx (Nat.pow_le_pow_right (by omega) (by omega)))
      simp [hbit]

/-- **The placement** of a power of two is the next multiple, behind the cursor. -/
theorem place_spec {cursor size : UInt64} {k e : Nat} (hsize : size.toNat = 2 ^ k)
    (hfit : alignUp cursor.toNat size.toNat + size.toNat ≤ e) (he : e < 2 ^ 64) :
    cursor.toNat ≤ (place cursor size).toNat ∧ (place cursor size).toNat % size.toNat = 0 ∧
      (place cursor size + size).toNat = (place cursor size).toNat + size.toNat ∧
      (place cursor size).toNat + size.toNat ≤ e := by
  have hpow : 0 < 2 ^ k := Nat.two_pow_pos k
  have hone : (1 : UInt64).toNat = 1 := rfl
  have hup : cursor.toNat ≤ alignUp cursor.toNat size.toNat := by
    have hdiv := Nat.div_add_mod (cursor.toNat + 2 ^ k - 1) (2 ^ k)
    rw [alignUp, hsize, Nat.mul_comm]
    omega
  have hk : k ≤ 64 := by
    by_contra h
    have := Nat.pow_lt_pow_right (a := 2) (by omega) (show 64 < k by omega)
    omega
  have hmask : (size - 1).toNat = 2 ^ k - 1 := by
    rw [UInt64.toNat_sub_of_le _ _ (UInt64.le_iff_toNat_le.mpr (by omega)), hsize, hone]
  have hsum : (cursor + size - 1).toNat = cursor.toNat + 2 ^ k - 1 := by
    rw [UInt64.toNat_sub, UInt64.toNat_add, hsize, hone]
    omega
  have hplace : (place cursor size).toNat = alignUp cursor.toNat size.toNat := by
    rw [place, UInt64.toNat_and, UInt64.toNat_not, hsum, hmask, alignUp, hsize]
    exact and_mask (by omega) hk
  rw [UInt64.toNat_add, hplace]
  refine ⟨hup, ?_, Nat.mod_eq_of_lt (by omega), hfit⟩
  exact Nat.mul_mod_left _ _

/-- What holds while the BARs of a function are programmed: `older` are those of the functions before. -/
structure Inv (ends : Bool → Nat) (older : List Bar) (i : Nat) (a : Assign) : Prop where
  cursor : ∀ w, (window w).toNat ≤ (a.cursor w).toNat
  placed : ∀ b ∈ a.bars ++ older, b.Placed ends
  below : ∀ b ∈ a.bars ++ older, b.base.toNat + b.size.toNat ≤ (a.cursor b.wide).toNat
  apart : (a.bars ++ older).Pairwise Bar.Apart
  seen : ∀ j, a.seen j = true → j < i ∧ ∃ b ∈ a.bars, b.Names j ∧ a.base j = b.base

section

variable {ends : Bool → Nat} {older : List Bar} {i : Nat} {a : Assign} {c : Config}
  (h32 : ends false ≤ 2 ^ 32) (h64 : ends true < 2 ^ 64)

include h32 h64

theorem Inv.program {wide : Bool} {size : UInt64} {k : Nat} (h : Inv ends older i a) (hi : i ≤ 5)
    (hlast : ¬ (wide = true ∧ i = 5)) (hsize : size.toNat = 2 ^ k)
    (hfit : alignUp (a.cursor wide).toNat size.toNat + size.toNat ≤ ends wide) :
    Inv ends older (if wide = true then i + 2 else i + 1) (a.program i wide size) := by
  have hends : ends wide < 2 ^ 64 := by cases wide <;> omega
  obtain ⟨hup, haligned, hnext, hhigh⟩ := place_spec hsize hfit hends
  have hwindow := h.cursor wide
  have hcursor (w : Bool) : (a.cursor w).toNat ≤ ((a.program i wide size).cursor w).toNat := by
    by_cases hw : w = wide
    · subst hw
      show _ ≤ (update a.cursor w _ w).toNat
      rw [update_self, hnext]
      omega
    · exact Nat.le_of_eq (congrArg UInt64.toNat (update_of_ne hw _ _).symm)
  have hbars : (a.program i wide size).bars ++ older =
      ⟨i, wide, place (a.cursor wide) size, size⟩ :: (a.bars ++ older) := rfl
  refine ⟨fun w => Nat.le_trans (h.cursor w) (hcursor w), ?_, ?_, ?_, ?_⟩
  · rw [hbars]
    refine forall_mem_cons.mpr ⟨⟨?_, haligned, ?_, hhigh⟩, h.placed⟩
    · rintro j (rfl | ⟨hwide, rfl⟩)
      · exact hi
      · exact Nat.lt_of_le_of_ne hi fun h5 => hlast ⟨hwide, h5⟩
    · exact Nat.le_trans hwindow hup
  · rw [hbars]
    refine forall_mem_cons.mpr ⟨?_, fun b hb => Nat.le_trans (h.below b hb) (hcursor b.wide)⟩
    show _ ≤ (update a.cursor wide _ wide).toNat
    rw [update_self, hnext]
  · rw [hbars]
    refine pairwise_cons.mpr ⟨fun b hb => ?_, h.apart⟩
    have hbelow := h.below b hb
    obtain ⟨-, -, hlow, hbhigh⟩ := h.placed b hb
    unfold Bar.Apart
    dsimp only
    by_cases hw : b.wide = wide
    · rw [hw] at hbelow
      exact .inr (Nat.le_trans hbelow hup)
    · -- the 32-bit window lies below the 64-bit window
      have hgap : 2 ^ 32 ≤ (window true).toNat := by decide
      cases wide with
      | true =>
        rw [Bool.not_eq_true] at hw
        rw [hw] at hbhigh
        exact .inr (by omega)
      | false =>
        rw [Bool.not_eq_false] at hw
        rw [hw] at hlow
        exact .inl (by omega)
  · intro j hj
    unfold Assign.program at hj ⊢
    dsimp only at hj ⊢
    by_cases hnew : j = i ∨ wide = true ∧ j = i + 1
    · have hlt : j < if wide = true then i + 2 else i + 1 := by
        rcases hnew with rfl | ⟨rfl, rfl⟩
        · split <;> omega
        · rw [if_pos rfl]
          omega
      refine ⟨hlt, _, mem_cons_self, hnew, ?_⟩
      rcases hnew with rfl | ⟨rfl, rfl⟩
      · split
        · rw [update_of_ne (by omega), update_self]
        · rw [update_self]
      · rw [if_pos rfl, update_self]
    · rw [not_or, not_and] at hnew
      have hold {α : Type} (g : Nat → α) (x : α) : (if wide = true then
          update (update g i x) (i + 1) x else update g i x) j = g j := by
        split
        · rename_i hw
          rw [update_of_ne (hnew.2 hw), update_of_ne hnew.1]
        · rw [update_of_ne hnew.1]
      rw [hold] at hj ⊢
      obtain ⟨hlt, b, hb, hnames⟩ := h.seen j hj
      exact ⟨by split <;> omega, b, mem_cons_of_mem _ hb, hnames⟩

/-- **One slot.** -/
theorem assignStep_inv (h : Inv ends older i a) (hi : i ≤ 5) (hpow : c.PowerSizes)
    (hfit : SlotFits ends c i a) : ∃ r, assignStep c i a = some r ∧ Inv ends older r.1 r.2 := by
  unfold assignStep
  cases hkind : c.kind i with
  | none =>
    refine ⟨_, rfl, h.cursor, h.placed, h.below, h.apart, fun j hj => ?_⟩
    have hj' : a.seen j = true := by
      by_cases hji : j = i
      · subst hji
        simp at hj
      · exact (update_of_ne hji _ _).symm.trans hj
    obtain ⟨hlt, hbar⟩ := h.seen j hj'
    exact ⟨Nat.lt_succ_of_lt hlt, hbar⟩
  | some wide =>
    obtain ⟨hlast, hroom⟩ := hfit wide hkind
    obtain ⟨k, hk⟩ := hpow i wide hkind
    exact ⟨_, if_neg hlast, h.program h32 h64 hi hlast hk hroom⟩

theorem assignFrom_inv (n : Nat) (h : Inv ends older i a) (hpow : c.PowerSizes)
    (hfit : SlotsFit ends c n i a) : ∃ j a', assignFrom c n i a = some a' ∧ Inv ends older j a' := by
  induction n generalizing i a with
  | zero => exact ⟨i, a, rfl, h⟩
  | succ n ih =>
    rw [assignFrom]
    by_cases hi : i ≤ 5
    · obtain ⟨hslot, hrest⟩ := hfit hi
      obtain ⟨r, hr, hinv⟩ := assignStep_inv h32 h64 h hi hpow hslot
      rw [if_pos hi, hr]
      exact ih hinv (hrest r hr)
    · rw [if_neg hi]
      exact ⟨i, a, rfl, h⟩

omit h32 in
/-- **The regions** of a function lie inside its BARs. -/
theorem findVirtioRegions_inside (h : Inv ends older i a) (hcaps : CapsFit c a.bars)
    (h32 : ends false ≤ 2 ^ 32) (t : Nat) (r : Region) (hr : (findVirtioRegions c a).region t = some r) :
    r.Inside a.bars := by
  have hfold (ptrs : List UInt8) (hptrs : ∀ ptr ∈ ptrs, ptr ∈ c.capabilities 48 (c.read8 0x34)) (R : Regions)
      (hR : ∀ t r, R.region t = some r → r.Inside a.bars) :
      ∀ t r, (ptrs.foldl (visit c a) R).region t = some r → r.Inside a.bars := by
    induction ptrs generalizing R with
    | nil => exact hR
    | cons ptr ptrs ih =>
      obtain ⟨hptr, hrest⟩ := forall_mem_cons.mp hptrs
      refine ih hrest _ fun t r hr => ?_
      unfold visit at hr
      dsimp only at hr
      split at hr
      · rename_i hcase
        obtain ⟨hdesc, -, hseen⟩ := hcase
        dsimp only at hr
        by_cases ht : t = (c.read8 (ptr.toUInt64 + 3)).toNat
        · rw [ht, update_self, Option.some.injEq] at hr
          obtain ⟨-, b, hb, hnames, hbase⟩ := h.seen _ hseen
          have hlen := hcaps ptr hptr hdesc b hb hnames
          have hhigh := (h.placed b (mem_append_left _ hb)).high
          have hends : ends b.wide < 2 ^ 64 := by cases b.wide <;> omega
          have hpa : (b.base + c.offsetOf ptr).toNat = b.base.toNat + (c.offsetOf ptr).toNat := by
            rw [UInt64.toNat_add]
            exact Nat.mod_eq_of_lt (by omega)
          rw [← hr]
          refine ⟨b, hb, hnames, ?_, ?_⟩
          · rw [hbase, hpa]
            exact Nat.le_add_right _ _
          · rw [hbase, hpa]
            dsimp only
            omega
        · rw [update_of_ne ht] at hr
          exact hR t r hr
      · exact hR t r hr
  exact hfold _ (fun _ hptr => hptr) _ (fun _ _ hnone => by cases hnone) t r hr

theorem enumerate_inv (cs : List Config) (cursor : Bool → UInt64) (hpow : ∀ c ∈ cs, c.PowerSizes)
    (hfits : Fits ends cs cursor) (h : Inv ends older 0 (before cursor)) :
    ∃ fs, enumerate cs cursor = some fs ∧ (∀ f ∈ fs, ∀ b ∈ f.1, b.Placed ends) ∧
      (fs.flatMap Prod.fst ++ older).Pairwise Bar.Apart ∧
      ∀ f ∈ fs, ∀ t r, f.2.region t = some r → r.Inside f.1 := by
  induction cs generalizing cursor older with
  | nil => exact ⟨[], rfl, nofun, h.apart, nofun⟩
  | cons c cs ih =>
    obtain ⟨hslots, hrest⟩ := hfits
    obtain ⟨hc, hcs⟩ := forall_mem_cons.mp hpow
    obtain ⟨j, a, ha, hinv⟩ := assignFrom_inv h32 h64 6 h hc hslots
    obtain ⟨hcaps, hfits⟩ := hrest a ha
    have hnext : Inv ends (a.bars ++ older) 0 (before a.cursor) :=
      ⟨hinv.cursor, hinv.placed, hinv.below, hinv.apart, nofun⟩
    obtain ⟨fs, hfs, hplaced, hapart, hinside⟩ := ih a.cursor hcs hfits hnext
    refine ⟨(a.bars, findVirtioRegions c a) :: fs, ?_, ?_, ?_, ?_⟩
    · rw [enumerate, show assignBars c cursor = some a from ha, Option.bind_some, hfs]
      rfl
    · exact forall_mem_cons.mpr ⟨fun b hb => hinv.placed b (mem_append_left _ hb), hplaced⟩
    · have hperm : (fs.flatMap Prod.fst ++ (a.bars ++ older)).Perm
          (((a.bars, findVirtioRegions c a) :: fs).flatMap Prod.fst ++ older) := by
        rw [flatMap_cons, ← append_assoc]
        exact perm_append_comm.append_right older
      exact (hperm.pairwise_iff fun hab => hab.symm).mp hapart
    · exact forall_mem_cons.mpr ⟨findVirtioRegions_inside h64 hinv hcaps h32, hinside⟩

end

/-- **PCI windows are exclusive** over every sequence of functions of which none is trouble when its turn
    comes. -/
theorem enumerate_exclusive (ends : Bool → Nat) (h32 : ends false ≤ 2 ^ 32) (h64 : ends true < 2 ^ 64)
    (cs : List Config) (hpow : ∀ c ∈ cs, c.PowerSizes) (hfits : Fits ends cs window) :
    ∃ fs, enumerate cs window = some fs ∧ Exclusive ends fs := by
  have hstart : Inv ends [] 0 (before window) := ⟨fun _ => Nat.le_refl _, nofun, nofun, .nil, nofun⟩
  obtain ⟨fs, hfs, hplaced, hapart, hinside⟩ := enumerate_inv h32 h64 cs window hpow hfits hstart
  rw [append_nil] at hapart
  exact ⟨fs, hfs, hplaced, hapart, hinside⟩

/-- One 32-bit BAR of 4 KiB in slot 0, and no capabilities. -/
def plainDevice : Config :=
  ⟨fun _ => 0, fun i => if i = 0 then 0xFFFFF000 else 0, fun _ => 0, fun _ => 0, fun _ => 0⟩

/-- A 64-bit BAR of 16 KiB in the last slot. -/
def lastWide : Config :=
  ⟨fun _ => 0, fun i => if i = 5 then 0xFFFFC004 else 0, fun _ => 0xFFFFFFFF, fun _ => 0, fun _ => 0⟩

theorem slotsFit_none {ends : Bool → Nat} {c : Config} {i : Nat} {a : Assign} (n : Nat)
    (h : ∀ j, i ≤ j → c.kind j = none) : SlotsFit ends c n i a := by
  induction n generalizing i a with
  | zero => trivial
  | succ n ih =>
    refine fun _ => ⟨fun wide hkind => ?_, fun r hr => ?_⟩
    · rw [h i (Nat.le_refl i)] at hkind
      cases hkind
    · rw [assignStep, h i (Nat.le_refl i), Option.some.injEq] at hr
      rw [← hr]
      exact ih fun j hj => h j (Nat.le_of_succ_le hj)

theorem plainDevice_kind {j : Nat} (hj : j ≠ 0) : plainDevice.kind j = none := by
  simp [plainDevice, Config.kind, hj]

/-- The windows are exclusive for a plain device. -/
theorem enumerate_exclusive_plain :
    ∃ fs, enumerate [plainDevice] window = some fs ∧
      Exclusive (fun w => if w = true then 0x800000000 else 0x80000000) fs := by
  refine enumerate_exclusive _ (by decide) (by decide) [plainDevice] ?_ ⟨?_, ?_⟩
  · intro c hc i wide hkind
    rw [mem_singleton.mp hc] at hkind ⊢
    by_cases hi : i = 0
    · subst hi
      rw [show plainDevice.kind 0 = some false by decide, Option.some.injEq] at hkind
      exact ⟨12, by rw [← hkind]; decide⟩
    · rw [plainDevice_kind hi] at hkind
      cases hkind
  · refine fun _ => ⟨fun wide hkind => ?_, fun r hr => ?_⟩
    · rw [show plainDevice.kind 0 = some false by decide, Option.some.injEq] at hkind
      rw [← hkind]
      exact ⟨by decide, by decide⟩
    · rw [assignStep, show plainDevice.kind 0 = some false by decide] at hr
      cases hr
      exact slotsFit_none 5 fun j hj => plainDevice_kind (Nat.ne_of_gt hj)
  · exact fun a _ => ⟨nofun, trivial⟩

/-- A 64-bit BAR in the last slot: init fails on the index of a seventh one. -/
theorem last_slot_fails : lastWide.PowerSizes ∧ enumerate [lastWide] window = none := by
  refine ⟨fun i wide hkind => ?_, rfl⟩
  by_cases hi : i = 5
  · subst hi
    rw [show lastWide.kind 5 = some true by decide, Option.some.injEq] at hkind
    exact ⟨14, by rw [← hkind]; decide⟩
  · simp [lastWide, Config.kind, hi] at hkind

end Aegir.Pci
