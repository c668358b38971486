/-
  Runs of the frame allocator: who owns which frame.

  Below the bump pointer every frame is in exactly one of three places: `allocated`, on the free list, or
  `skipped`, that is, in an interval the bump pointer JUMPED OVER (`Accounts.cover`).

  `Deallocate_Frame` takes a SKIPPED page for an allocated one.  `Tame` is the condition under which that,
  and the wrap-around of the sums, cannot matter; under it no frame is given twice.
-/
import Mathlib.Data.List.Perm.Basic
import Mathlib.Tactic.IntervalCases
import Aegir.Lib.Run
import Aegir.Kernel.PmmLaws

namespace Aegir.Kernel

open Aegir.Lib List Function

/-- The page at `frame` is outside the range. -/
def ReservedRange.Outside (r : ReservedRange) (frame : Nat) : Prop :=
  r.last ≤ frame ∨ frame + pageSize ≤ r.base

instance (r : ReservedRange) (frame : Nat) : Decidable (r.Outside frame) :=
  inferInstanceAs (Decidable (_ ∨ _))

namespace Pmm

/-! ## Skipping reserved ranges -/

theorem skipReservedFrom_clear (ranges : List ReservedRange) (pages candidate fuel : Nat)
    (hfuel : (ranges.filter fun r => candidate < r.last).length < fuel) :
    firstOverlap (skipReservedFrom ranges pages candidate fuel)
      (add64 (skipReservedFrom ranges pages candidate fuel) (pages * pageSize)) ranges = none := by
  induction fuel generalizing candidate with
  | zero => omega
  | succ fuel ih =>
    unfold skipReservedFrom
    split
    · rename_i hnone
      exact hnone
    · rename_i r hr
      refine ih r.last ?_
      have hmem : r ∈ ranges := mem_of_find?_eq_some hr
      have hlt : candidate < r.last := by
        have := find?_some hr
        simp only [Bool.and_eq_true, decide_eq_true_eq] at this
        exact this.1
      -- `r` itself is ahead of the old candidate and not of the new one
      have hsub : (ranges.filter fun q => r.last < q.last) =
          (ranges.filter fun q => candidate < q.last).filter fun q => r.last < q.last := by
        rw [filter_filter]
        refine filter_congr fun q _ => ?_
        by_cases hq : r.last < q.last
        · simp [hq, show candidate < q.last by omega]
        · simp [hq]
      have hstrict : (ranges.filter fun q => r.last < q.last).length <
          (ranges.filter fun q => candidate < q.last).length := by
        rw [hsub]
        refine length_filter_lt_length_iff_exists.mpr ⟨r, ?_, by simp⟩
        exact mem_filter.mpr ⟨hmem, by simpa using hlt⟩
      omega

theorem firstOverlap_none {candidate runLast : Nat} {ranges : List ReservedRange} :
    firstOverlap candidate runLast ranges = none ↔ ∀ r ∈ ranges, r.last ≤ candidate ∨ runLast ≤ r.base := by
  unfold firstOverlap
  rw [find?_eq_none]
  refine forall₂_congr fun r _ => ?_
  simp only [Bool.and_eq_true, decide_eq_true_eq, not_and_or, Nat.not_lt]

/-- **`Skip_Reserved`**: the run from its result on meets no reserved range. -/
theorem skipReserved_clear (p : Pmm) (candidate pages : Nat) :
    ∀ r ∈ p.reserved, r.last ≤ p.skipReserved candidate pages ∨
      add64 (p.skipReserved candidate pages) (pages * pageSize) ≤ r.base := by
  refine firstOverlap_none.mp (skipReservedFrom_clear _ _ _ _ ?_)
  exact Nat.lt_succ_of_le (length_filter_le _ _)

/-! ## Requests to an allocator that is ready -/

theorem allocateFrame_pop {p : Pmm} {f : Nat} (hready : p.isReady = true) (hf : f ≠ 0)
    (hhead : p.freeListHead = f) :
    p.allocateFrame = (.ok f, { p with
      freeListHead := p.link f
      freeListCount := p.freeListCount - 1
      link := update p.link f 0 }) := by
  subst hhead
  simp [allocateFrame, hready, hf]

theorem allocateFrame_bump {p : Pmm} (hready : p.isReady = true) (hhead : p.freeListHead = 0) : p.allocateFrame =
      if add64 (p.skipReserved p.nextFrame 1) pageSize > p.limit then
        (.error .outOfMemory, { p with nextFrame := p.skipReserved p.nextFrame 1 })
      else (.ok (p.skipReserved p.nextFrame 1),
        { p with nextFrame := add64 (p.skipReserved p.nextFrame 1) pageSize }) := by
  simp [allocateFrame, hready, hhead]

theorem allocateContiguous_ready {p : Pmm} (hready : p.isReady = true) (pages : Nat) : p.allocateContiguous pages =
      if add64 (p.skipReserved p.nextFrame pages) (pages * pageSize) > p.limit then
        (.error .outOfMemory, { p with nextFrame := p.skipReserved p.nextFrame pages })
      else (.ok (p.skipReserved p.nextFrame pages),
        { p with nextFrame := add64 (p.skipReserved p.nextFrame pages) (pages * pageSize) }) := by
  simp [allocateContiguous, hready]

end Pmm

/-! ## Sessions -/

/-- The operations of the allocator. -/
inductive PmmOp where
  | reserve (base length : UInt64)
  | allocateFrame
  | allocateContiguous (pages : Fin (2 ^ 31))
  | deallocateFrame (frame : UInt64)

/-- The allocator with its history. -/
structure PmmSession where
  pmm : Pmm
  allocated : List Nat
  skipped : List (Nat × Nat)

/-- The pages of a contiguous run. -/
def runFrames (first pages : Nat) : List Nat := (range pages).map fun i => first + i * pageSize

namespace PmmSession

variable {s : PmmSession} {l : List Nat}

/-- The variables before `Initialize`. -/
def zeroPmm : Pmm := ⟨0, 0, 0, 0, 0, false, fun _ => 0, []⟩

/-- After `Initialize`. -/
def start (firstFree lastByte : UInt64) : PmmSession :=
  ⟨(zeroPmm.initializePmm firstFree.toNat lastByte.toNat).2, [], []⟩

/-- The interval that the bump pointer jumps over for a request. -/
def jump (s : PmmSession) (pages : Nat) : Nat × Nat :=
  (s.pmm.nextFrame, s.pmm.skipReserved s.pmm.nextFrame pages)

/-- One operation. -/
def perform (s : PmmSession) : PmmOp → PmmSession
  | .reserve base length => { s with pmm := (s.pmm.reserve base.toNat length.toNat).2 }
  | .allocateFrame =>
    let skipped := if s.pmm.isReady && s.pmm.freeListHead == 0 then s.jump 1 :: s.skipped
      else s.skipped
    match s.pmm.allocateFrame with
    | (.ok frame, p) => ⟨p, frame :: s.allocated, skipped⟩
    | (.error _, p) => ⟨p, s.allocated, skipped⟩
  | .allocateContiguous pages =>
    let skipped := if s.pmm.isReady then s.jump pages :: s.skipped else s.skipped
    match s.pmm.allocateContiguous pages with
    | (.ok first, p) => ⟨p, runFrames first pages ++ s.allocated, skipped⟩
    | (.error _, p) => ⟨p, s.allocated, skipped⟩
  | .deallocateFrame frame =>
    match s.pmm.deallocateFrame frame.toNat with
    | (.ok, p) => { s with pmm := p, allocated := s.allocated.erase frame.toNat }
    | (_, p) => { s with pmm := p }

/-- The step function of the allocator's runs. -/
def step (s : PmmSession) (op : PmmOp) : Option PmmSession := some (s.perform op)

/-- The bump pointer has jumped over this page. -/
def Skipped (s : PmmSession) (frame : Nat) : Prop :=
  frame % pageSize = 0 ∧ ∃ i ∈ s.skipped, i.1 ≤ frame ∧ frame < i.2

instance (s : PmmSession) (frame : Nat) : Decidable (s.Skipped frame) :=
  inferInstanceAs (Decidable (_ ∧ ∃ i ∈ s.skipped, _))

/-- The condition on a step: a range is reserved before the bump pointer has passed a page of it, no
    sum wraps, and no skipped page is freed. -/
def Tame (s : PmmSession) : PmmOp → Prop
  | .reserve base length => ∀ r ∈ (s.pmm.reserve base.toNat length.toNat).2.reserved,
      ∀ frame, s.pmm.validFrame frame = true → r ∈ s.pmm.reserved ∨ r.Outside frame
  | .allocateFrame => s.pmm.freeListHead = 0 →
      s.pmm.skipReserved s.pmm.nextFrame 1 + pageSize < 2 ^ 64
  | .allocateContiguous pages =>
      s.pmm.skipReserved s.pmm.nextFrame pages + pages * pageSize < 2 ^ 64
  | .deallocateFrame frame => ¬ s.Skipped frame.toNat

/-- The allocator may hand out the frame. -/
structure Usable (p : Pmm) (frame : Nat) : Prop where
  aligned : frame % pageSize = 0
  base_le : p.baseFrame ≤ frame
  le_limit : frame + pageSize ≤ p.limit
  outside : ∀ r ∈ p.reserved, r.Outside frame

/-- **The accounting law** of an allocator that is ready, with its free list. -/
structure Accounts (s : PmmSession) (l : List Nat) : Prop where
  base_pos : 0 < s.pmm.baseFrame
  base_le : s.pmm.baseFrame ≤ s.pmm.nextFrame
  base_aligned : s.pmm.baseFrame % pageSize = 0
  next_aligned : s.pmm.nextFrame % pageSize = 0
  next_lt : s.pmm.nextFrame < 2 ^ 64
  reserved : ∀ r ∈ s.pmm.reserved, r.base % pageSize = 0 ∧ r.last % pageSize = 0 ∧ r.last < 2 ^ 64
  chain : s.pmm.FreeList l
  count : s.pmm.freeListCount = l.length
  free : ∀ f ∈ l, Usable s.pmm f ∧ f < s.pmm.nextFrame ∧ f ∉ s.allocated ∧ ¬ s.Skipped f
  nodup : s.allocated.Nodup
  allocated : ∀ f ∈ s.allocated, Usable s.pmm f ∧ f < s.pmm.nextFrame ∧ ¬ s.Skipped f
  skipped : ∀ i ∈ s.skipped, i.1 % pageSize = 0 ∧ i.2 % pageSize = 0 ∧ (i.1 < i.2 →
    s.pmm.baseFrame ≤ i.1 ∧ i.2 ≤ s.pmm.nextFrame)
  cover : ∀ f, s.pmm.validFrame f = true → f ∈ s.allocated ∨ f ∈ l ∨ s.Skipped f

theorem mem_runFrames {first pages f : Nat} :
    f ∈ runFrames first pages ↔ ∃ i, i < pages ∧ f = first + i * pageSize := by
  unfold runFrames
  simp only [mem_map, mem_range]
  exact ⟨fun ⟨i, hi, he⟩ => ⟨i, hi, he.symm⟩, fun ⟨i, hi, he⟩ => ⟨i, hi, he.symm⟩⟩

theorem nodup_runFrames (first pages : Nat) : (runFrames first pages).Nodup := by
  refine nodup_range.map fun i j hij => ?_
  unfold pageSize at hij
  omega

/-- A jump and a run of new frames behind it.  All three successful or failed requests at the bump
    pointer are of this form, a failed one with no frame. -/
theorem Accounts.advance (h : s.Accounts l) {c n : Nat} (hc : s.pmm.nextFrame ≤ c)
    (hal : c % pageSize = 0) (hlt : c + n * pageSize < 2 ^ 64)
    (huse : ∀ i, i < n → Usable s.pmm (c + i * pageSize)) :
    Accounts ⟨{ s.pmm with nextFrame := c + n * pageSize }, runFrames c n ++ s.allocated,
      (s.pmm.nextFrame, c) :: s.skipped⟩ l := by
  have hnext := h.next_aligned
  have hps : pageSize = 4096 := rfl
  -- nothing below the old bump pointer was jumped over now
  have hskip : ∀ f, f < s.pmm.nextFrame →
      (Skipped ⟨{ s.pmm with nextFrame := c + n * pageSize }, runFrames c n ++ s.allocated,
        (s.pmm.nextFrame, c) :: s.skipped⟩ f ↔ s.Skipped f) := by
    intro f hf
    constructor
    · rintro ⟨ha, i, hi, h1, h2⟩
      rcases mem_cons.mp hi with rfl | hi
      · exact absurd hf (Nat.not_lt.mpr h1)
      · exact ⟨ha, i, hi, h1, h2⟩
    · rintro ⟨ha, i, hi, h12⟩
      exact ⟨ha, i, mem_cons_of_mem _ hi, h12⟩
  have hold : ∀ f, Usable s.pmm f → Usable { s.pmm with nextFrame := c + n * pageSize } f :=
    fun f hf => ⟨hf.aligned, hf.base_le, hf.le_limit, hf.outside⟩
  have hbelow : ∀ f, f < s.pmm.nextFrame → f ∉ runFrames c n := by
    intro f hf hm
    obtain ⟨i, -, rfl⟩ := mem_runFrames.mp hm
    omega
  refine ⟨h.base_pos, ?_, h.base_aligned, ?_, hlt, h.reserved, h.chain, h.count, ?_, ?_, ?_, ?_, ?_⟩
  · show s.pmm.baseFrame ≤ c + n * pageSize
    have := h.base_le
    omega
  · rw [Nat.add_mul_mod_self_right]
    exact hal
  · intro f hf
    obtain ⟨hu, hlt', hna, hns⟩ := h.free f hf
    refine ⟨hold f hu, ?_, ?_, fun hs => hns ((hskip f hlt').mp hs)⟩
    · show f < c + n * pageSize
      omega
    · intro hm
      rcases mem_append.mp hm with hm | hm
      · exact hbelow f hlt' hm
      · exact hna hm
  · refine nodup_append.mpr ⟨nodup_runFrames c n, h.nodup, ?_⟩
    intro f hf g hg hfg
    subst hfg
    exact hbelow f (h.allocated f hg).2.1 hf
  · intro f hf
    rcases mem_append.mp hf with hf | hf
    · obtain ⟨i, hi, rfl⟩ := mem_runFrames.mp hf
      refine ⟨hold _ (huse i hi), ?_, ?_⟩
      · show c + i * pageSize < c + n * pageSize
        rw [hps]
        omega
      · rintro ⟨-, j, hj, h1, h2⟩
        rcases mem_cons.mp hj with rfl | hj
        · omega
        · have := (h.skipped j hj).2.2 (by omega)
          omega
    · obtain ⟨hu, hlt', hns⟩ := h.allocated f hf
      refine ⟨hold f hu, ?_, fun hs => hns ((hskip f hlt').mp hs)⟩
      show f < c + n * pageSize
      omega
  · intro i hi
    rcases mem_cons.mp hi with rfl | hi
    · refine ⟨hnext, hal, fun _ => ⟨h.base_le, ?_⟩⟩
      show c ≤ c + n * pageSize
      omega
    · obtain ⟨h1, h2, h3⟩ := h.skipped i hi
      refine ⟨h1, h2, fun hlt' => ⟨(h3 hlt').1, ?_⟩⟩
      show i.2 ≤ c + n * pageSize
      omega
  · intro f hf
    obtain ⟨hb, hn, ha⟩ := Pmm.validFrame_iff.mp hf
    have hn : f < c + n * pageSize := hn
    by_cases hf1 : f < s.pmm.nextFrame
    · rcases h.cover f (Pmm.validFrame_iff.mpr ⟨hb, hf1, ha⟩) with hm | hm | hm
      · exact .inl (mem_append_right _ hm)
      · exact .inr (.inl hm)
      · exact .inr (.inr ((hskip f hf1).mpr hm))
    · by_cases hf2 : f < c
      · exact .inr (.inr ⟨ha, _, mem_cons_self, by omega, hf2⟩)
      · -- in the new run: `f` is a whole number of pages behind its start
        refine .inl (mem_append_left _ (mem_runFrames.mpr ⟨(f - c) / pageSize, ?_, ?_⟩))
        · rw [hps] at hn ⊢
          omega
        · rw [hps] at ha hal ⊢
          omega

theorem Accounts.pop {f : Nat} {rest : List Nat} (h : s.Accounts (f :: rest)) :
    s.pmm.freeListHead = f ∧ Accounts ⟨{ s.pmm with
      freeListHead := s.pmm.link f
      freeListCount := s.pmm.freeListCount - 1
      link := update s.pmm.link f 0 }, f :: s.allocated, s.skipped⟩ rest := by
  obtain ⟨hhead, hne, hrest⟩ := h.chain
  have hchain : IsChain 0 s.pmm.link s.pmm.freeListHead (f :: rest) := h.chain
  have hnot : f ∉ rest := (nodup_cons.mp hchain.nodup).1
  obtain ⟨hu, hlt, hna, hns⟩ := h.free f mem_cons_self
  refine ⟨hhead, h.base_pos, h.base_le, h.base_aligned, h.next_aligned, h.next_lt, h.reserved, ?_, ?_,
    ?_, nodup_cons.mpr ⟨hna, h.nodup⟩, ?_, h.skipped, ?_⟩
  · exact hchain.pop fun z hz => update_of_ne hz _ _
  · rw [h.count]
    rfl
  · intro g hg
    obtain ⟨hu', hlt', hna', hns'⟩ := h.free g (mem_cons_of_mem _ hg)
    refine ⟨⟨hu'.aligned, hu'.base_le, hu'.le_limit, hu'.outside⟩, hlt', ?_, hns'⟩
    intro hm
    rcases mem_cons.mp hm with rfl | hm
    · exact hnot hg
    · exact hna' hm
  · intro g hg
    rcases mem_cons.mp hg with rfl | hg
    · exact ⟨⟨hu.aligned, hu.base_le, hu.le_limit, hu.outside⟩, hlt, hns⟩
    · obtain ⟨hu', hlt', hns'⟩ := h.allocated g hg
      exact ⟨⟨hu'.aligned, hu'.base_le, hu'.le_limit, hu'.outside⟩, hlt', hns'⟩
  · intro g hg
    rcases h.cover g hg with hm | hm | hm
    · exact .inl (mem_cons_of_mem _ hm)
    · rcases mem_cons.mp hm with rfl | hm
      · exact .inl mem_cons_self
      · exact .inr (.inl hm)
    · exact .inr (.inr hm)

/-! ## Freeing -/

theorem Accounts.isInFreeList (h : s.Accounts l) (f : Nat) : s.pmm.isInFreeList f = true ↔ f ∈ l :=
  Pmm.isInFreeList_iff h.chain (fun g hg => Pmm.validFrame_iff.mpr
    ⟨(h.free g hg).1.base_le, (h.free g hg).2.1, (h.free g hg).1.aligned⟩) f

/-- **What `Deallocate_Frame` accepts**: the allocated frames, and the skipped pages. -/
theorem Accounts.deallocate_ok_iff (h : s.Accounts l) (hready : s.pmm.isReady = true) (f : Nat) :
    (s.pmm.deallocateFrame f).1 = .ok ↔ f ∈ s.allocated ∨ (s.pmm.validFrame f = true ∧ f ∉ l ∧ s.Skipped f) := by
  have hok : (s.pmm.deallocateFrame f).1 = .ok ↔ s.pmm.validFrame f = true ∧ f ∉ l := by
    rw [← h.isInFreeList f]
    unfold Pmm.deallocateFrame
    rw [hready]
    cases hv : s.pmm.validFrame f <;> cases hl : s.pmm.isInFreeList f
    · simp
    · simp
    · rw [if_neg (by simp), if_neg (by simp)]
      split
      · simp
      · simp
    · simp
  rw [hok]
  constructor
  · rintro ⟨hv, hl⟩
    rcases h.cover f hv with hm | hm | hm
    · exact .inl hm
    · exact absurd hm hl
    · exact .inr ⟨hv, hl, hm⟩
  · rintro (hm | ⟨hv, hl, -⟩)
    · obtain ⟨hu, hlt, -⟩ := h.allocated f hm
      exact ⟨Pmm.validFrame_iff.mpr ⟨hu.base_le, hlt, hu.aligned⟩, fun hf => (h.free f hf).2.2.1 hm⟩
    · exact ⟨hv, hl⟩

theorem Accounts.deallocate (h : s.Accounts l) (hready : s.pmm.isReady = true) {f : Nat} (hf : f ∈ s.allocated) :
    ∃ p l', s.pmm.deallocateFrame f = (.ok, p) ∧ p.isReady = true ∧
      Accounts { s with pmm := p, allocated := s.allocated.erase f } l' := by
  obtain ⟨hu, hlt, hns⟩ := h.allocated f hf
  have hv : s.pmm.validFrame f = true := Pmm.validFrame_iff.mpr ⟨hu.base_le, hlt, hu.aligned⟩
  have hnot : f ∉ l := fun hm => (h.free f hm).2.2.1 hf
  have hfree : s.pmm.isInFreeList f = false := by
    by_contra hm
    exact hnot ((h.isInFreeList f).mp (by simpa using hm))
  have hsum : add64 f pageSize = f + pageSize := by
    have h2 := h.next_aligned
    have h3 := h.next_lt
    refine Nat.mod_eq_of_lt ?_
    unfold pageSize at *
    omega
  have herase : ∀ g, g ∈ s.allocated.erase f ↔ g ≠ f ∧ g ∈ s.allocated := fun g => h.nodup.mem_erase_iff
  unfold Pmm.deallocateFrame
  rw [hready, hv, hfree, hsum]
  by_cases htop : f + pageSize = s.pmm.nextFrame
  · -- the topmost frame: everything else is below it
    rw [if_pos htop]
    have hbelow : ∀ g, g < s.pmm.nextFrame → g % pageSize = 0 → g ≠ f → g < f := by
      intro g hg ha hne
      have := Pmm.aligned_le hu.aligned ha (by omega)
      omega
    refine ⟨_, l, rfl, rfl, h.base_pos, hu.base_le, h.base_aligned, hu.aligned, ?_, h.reserved,
      h.chain, h.count, ?_, h.nodup.erase f, ?_, ?_, ?_⟩
    · show f < 2 ^ 64
      have := h.next_lt
      omega
    · intro g hg
      obtain ⟨hu', hlt', hna, hns'⟩ := h.free g hg
      refine ⟨⟨hu'.aligned, hu'.base_le, hu'.le_limit, hu'.outside⟩, ?_, fun hm => hna (mem_of_mem_erase hm), hns'⟩
      exact hbelow g hlt' hu'.aligned fun e => hnot (e ▸ hg)
    · intro g hg
      obtain ⟨hne, hg⟩ := (herase g).mp hg
      obtain ⟨hu', hlt', hns'⟩ := h.allocated g hg
      exact ⟨⟨hu'.aligned, hu'.base_le, hu'.le_limit, hu'.outside⟩, hbelow g hlt' hu'.aligned hne, hns'⟩
    · intro i hi
      obtain ⟨h1, h2, h3⟩ := h.skipped i hi
      refine ⟨h1, h2, fun hi' => ⟨(h3 hi').1, ?_⟩⟩
      -- an interval that reached the old bump pointer would contain the frame
      show i.2 ≤ f
      by_contra hgt
      refine hns ⟨hu.aligned, i, hi, ?_, by omega⟩
      unfold pageSize at *
      omega
    · intro g hg
      obtain ⟨hb, hn, ha⟩ := Pmm.validFrame_iff.mp hg
      have hn : g < f := hn
      rcases h.cover g (Pmm.validFrame_iff.mpr ⟨hb, by omega, ha⟩) with hm | hm
      · exact .inl ((herase g).mpr ⟨by omega, hm⟩)
      · exact .inr hm
  · -- pushed on the free list
    rw [if_neg htop]
    refine ⟨_, f :: l, rfl, rfl, h.base_pos, h.base_le, h.base_aligned, h.next_aligned, h.next_lt,
      h.reserved, ?_, ?_, ?_, h.nodup.erase f, ?_, h.skipped, ?_⟩
    · have hf0 : f ≠ 0 := by
        have hpos := h.base_pos
        have hbl := hu.base_le
        omega
      exact IsChain.push h.chain hf0 (update_self _ _ _)
        fun y hy => update_of_ne (fun e : y = f => hnot (e ▸ hy)) _ _
    · show s.pmm.freeListCount + 1 = l.length + 1
      rw [h.count]
    · intro g hg
      rcases mem_cons.mp hg with rfl | hg
      · exact ⟨⟨hu.aligned, hu.base_le, hu.le_limit, hu.outside⟩, hlt, fun hm => ((herase g).mp hm).1 rfl, hns⟩
      · obtain ⟨hu', hlt', hna, hns'⟩ := h.free g hg
        exact ⟨⟨hu'.aligned, hu'.base_le, hu'.le_limit, hu'.outside⟩, hlt',
          fun hm => hna (mem_of_mem_erase hm), hns'⟩
    · intro g hg
      obtain ⟨-, hg⟩ := (herase g).mp hg
      obtain ⟨hu', hlt', hns'⟩ := h.allocated g hg
      exact ⟨⟨hu'.aligned, hu'.base_le, hu'.le_limit, hu'.outside⟩, hlt', hns'⟩
    · intro g hg
      by_cases hgf : g = f
      · exact .inr (.inl (by rw [hgf]; exact mem_cons_self))
      · rcases h.cover g hg with hm | hm | hm
        · exact .inl ((herase g).mpr ⟨hgf, hm⟩)
        · exact .inr (.inl (mem_cons_of_mem _ hm))
        · exact .inr (.inr hm)

/-! ## The other steps -/

theorem alignUp_aligned (value : Nat) :
    Pmm.alignUp value pageSize % pageSize = 0 ∧ Pmm.alignUp value pageSize < 2 ^ 64 := by
  unfold Pmm.alignUp sub64 pageSize
  constructor
  · exact Nat.mul_mod_left _ _
  · omega

theorem Accounts.reserve (h : s.Accounts l) {base length : UInt64}
    (ht : s.Tame (.reserve base length)) : (s.perform (.reserve base length)).Accounts l := by
  have hres : ∀ r ∈ (s.pmm.reserve base.toNat length.toNat).2.reserved, r ∈ s.pmm.reserved ∨
      r.base % pageSize = 0 ∧ r.last % pageSize = 0 ∧ r.last < 2 ^ 64 := by
    intro r hr
    unfold Pmm.reserve at hr
    split at hr
    · exact .inl hr
    · split at hr
      · exact .inl hr
      · rcases mem_append.mp hr with hr | hr
        · exact .inl hr
        · obtain rfl := mem_singleton.mp hr
          refine .inr ⟨?_, alignUp_aligned _⟩
          show (base.toNat - base.toNat % pageSize) % pageSize = 0
          unfold pageSize
          omega
  have hsame : (s.pmm.reserve base.toNat length.toNat).2 =
      { s.pmm with reserved := (s.pmm.reserve base.toNat length.toNat).2.reserved } := by
    unfold Pmm.reserve
    split
    · rfl
    · split
      · rfl
      · rfl
  have hvalid : ∀ f, Usable s.pmm f → f < s.pmm.nextFrame →
      Usable (s.pmm.reserve base.toNat length.toNat).2 f := by
    intro f hu hlt
    have hv : s.pmm.validFrame f = true := Pmm.validFrame_iff.mpr ⟨hu.base_le, hlt, hu.aligned⟩
    rw [hsame]
    refine ⟨hu.aligned, hu.base_le, hu.le_limit, fun r hr => ?_⟩
    rcases ht r hr f hv with hold | hout
    · exact hu.outside r hold
    · exact hout
  show Accounts { s with pmm := (s.pmm.reserve base.toNat length.toNat).2 } l
  have hfree : ∀ f ∈ l, Usable (s.pmm.reserve base.toNat length.toNat).2 f :=
    fun f hf => hvalid f (h.free f hf).1 (h.free f hf).2.1
  have hall : ∀ f ∈ s.allocated, Usable (s.pmm.reserve base.toNat length.toNat).2 f :=
    fun f hf => hvalid f (h.allocated f hf).1 (h.allocated f hf).2.1
  rw [hsame] at hfree hall hres ⊢
  refine ⟨h.base_pos, h.base_le, h.base_aligned, h.next_aligned, h.next_lt, ?_, h.chain, h.count,
    fun f hf => ⟨hfree f hf, (h.free f hf).2⟩, h.nodup,
    fun f hf => ⟨hall f hf, (h.allocated f hf).2⟩, h.skipped, h.cover⟩
  intro r hr
  rcases hres r hr with hr | hr
  · exact h.reserved r hr
  · exact hr

theorem Accounts.skip (h : s.Accounts l) (pages : Nat) :
    s.pmm.nextFrame ≤ s.pmm.skipReserved s.pmm.nextFrame pages ∧
    s.pmm.skipReserved s.pmm.nextFrame pages % pageSize = 0 ∧
    s.pmm.skipReserved s.pmm.nextFrame pages < 2 ^ 64 := by
  obtain ⟨hle, hcase⟩ := Pmm.skipReservedFrom_spec s.pmm.reserved pages s.pmm.nextFrame (s.pmm.reserved.length + 1)
  refine ⟨hle, ?_⟩
  unfold Pmm.skipReserved
  rcases hcase with he | ⟨r, hr, he⟩
  · rw [he]
    exact ⟨h.next_aligned, h.next_lt⟩
  · rw [he]
    exact (h.reserved r hr).2

theorem Accounts.usable (h : s.Accounts l) {pages i : Nat}
    (hlt : s.pmm.skipReserved s.pmm.nextFrame pages + pages * pageSize < 2 ^ 64)
    (hlimit : s.pmm.skipReserved s.pmm.nextFrame pages + pages * pageSize ≤ s.pmm.limit)
    (hi : i < pages) :
    Usable s.pmm (s.pmm.skipReserved s.pmm.nextFrame pages + i * pageSize) := by
  obtain ⟨hle, hal, -⟩ := h.skip pages
  have hclear := s.pmm.skipReserved_clear s.pmm.nextFrame pages
  have hbase := h.base_le
  generalize s.pmm.skipReserved s.pmm.nextFrame pages = c at *
  have hps : pageSize = 4096 := rfl
  have hend : c + i * pageSize + pageSize ≤ c + pages * pageSize := by
    rw [hps]
    omega
  refine ⟨?_, by omega, by omega, fun r hr => ?_⟩
  · rw [Nat.add_mul_mod_self_right]
    exact hal
  · rcases hclear r hr with hlast | hfirst
    · exact .inl (by omega)
    · rw [show add64 c (pages * pageSize) = c + pages * pageSize from Nat.mod_eq_of_lt hlt] at hfirst
      exact .inr (by omega)

/-- The law of all states: nothing is allocated before the allocator is ready, and then the accounts
    are right. -/
structure Sound (s : PmmSession) : Prop where
  accounts : s.pmm.isReady = true → ∃ l, s.Accounts l
  idle : s.pmm.isReady = false → s.allocated = [] ∧ s.skipped = [] ∧ s.pmm.freeListHead = 0

theorem start_sound (firstFree lastByte : UInt64)
    (hbase : Pmm.alignUp firstFree.toNat pageSize ≠ 0) : (start firstFree lastByte).Sound := by
  obtain ⟨hal, hlt⟩ := alignUp_aligned firstFree.toNat
  unfold start Pmm.initializePmm
  dsimp only
  split
  · exact ⟨fun h => (by cases h), fun _ => ⟨rfl, rfl, rfl⟩⟩
  · refine ⟨fun _ => ⟨[], Nat.pos_of_ne_zero hbase, Nat.le_refl _, hal, hal, hlt, ?_, rfl, rfl, ?_,
      nodup_nil, ?_, ?_, fun f hf => ?_⟩, fun h => by cases h⟩
    · intro r hr
      cases hr
    · intro f hf
      cases hf
    · intro f hf
      cases hf
    · intro i hi
      cases hi
    · obtain ⟨h1, h2, -⟩ := Pmm.validFrame_iff.mp hf
      exact absurd h2 (Nat.not_lt.mpr h1)

theorem Sound.allocateFrame (hs : s.Sound) (ht : s.Tame .allocateFrame) :
    (s.perform .allocateFrame).Sound := by
  unfold perform
  cases hready : s.pmm.isReady with
  | false =>
    have hidle := hs.idle hready
    have hall : s.pmm.allocateFrame = (.error .notInitialized, s.pmm) := by
      unfold Pmm.allocateFrame
      rw [hready]
      rfl
    rw [hall]
    exact ⟨fun h => absurd (hready.symm.trans h) (by simp), fun _ => hidle⟩
  | true =>
    obtain ⟨l, h⟩ := hs.accounts hready
    cases l with
    | cons f rest =>
      obtain ⟨hhead, hpop⟩ := h.pop
      have hne : s.pmm.freeListHead ≠ 0 := by
        rw [hhead]
        exact h.chain.2.1
      have hf : f ≠ 0 := h.chain.2.1
      rw [Pmm.allocateFrame_pop hready hf hhead]
      simp only [beq_iff_eq, hne, Bool.true_and, if_false]
      exact ⟨fun _ => ⟨rest, hpop⟩, fun h => absurd (hready.symm.trans h) (by simp)⟩
    | nil =>
      have hhead : s.pmm.freeListHead = 0 := h.chain
      have hlt := ht hhead
      obtain ⟨hle, hal, hlt'⟩ := h.skip 1
      have hsum : add64 (s.pmm.skipReserved s.pmm.nextFrame 1) pageSize =
          s.pmm.skipReserved s.pmm.nextFrame 1 + 1 * pageSize := by
        exact Nat.mod_eq_of_lt hlt
      have hskip : (true && s.pmm.freeListHead == 0) = true := by rw [hhead]; rfl
      rw [Pmm.allocateFrame_bump hready hhead, hsum, if_pos hskip]
      by_cases hlimit : s.pmm.skipReserved s.pmm.nextFrame 1 + 1 * pageSize > s.pmm.limit
      · -- no room: the pointer stays behind the ranges it has skipped
        rw [if_pos hlimit]
        have hadv := h.advance (n := 0) hle hal (by omega) fun i hi => absurd hi (Nat.not_lt_zero i)
        exact ⟨fun _ => ⟨[], hadv⟩, fun h => absurd (hready.symm.trans h) (by simp)⟩
      · rw [if_neg hlimit]
        have hadv := h.advance (n := 1) hle hal (by omega) fun i hi =>
          h.usable (by omega) (by omega) hi
        exact ⟨fun _ => ⟨[], hadv⟩, fun h => absurd (hready.symm.trans h) (by simp)⟩

theorem Sound.allocateContiguous (hs : s.Sound) {pages : Fin (2 ^ 31)}
    (ht : s.Tame (.allocateContiguous pages)) : (s.perform (.allocateContiguous pages)).Sound := by
  unfold perform
  dsimp only
  cases hready : s.pmm.isReady with
  | false =>
    have hidle := hs.idle hready
    have hall : s.pmm.allocateContiguous pages = (.error .notInitialized, s.pmm) := by
      unfold Pmm.allocateContiguous
      rw [hready]
      rfl
    rw [hall]
    exact ⟨fun h => absurd (hready.symm.trans h) (by simp), fun _ => hidle⟩
  | true =>
    obtain ⟨l, h⟩ := hs.accounts hready
    have hlt : s.pmm.skipReserved s.pmm.nextFrame pages + (pages : Nat) * pageSize < 2 ^ 64 := ht
    obtain ⟨hle, hal, hlt'⟩ := h.skip pages
    have hsum : add64 (s.pmm.skipReserved s.pmm.nextFrame pages) ((pages : Nat) * pageSize) =
        s.pmm.skipReserved s.pmm.nextFrame pages + (pages : Nat) * pageSize := Nat.mod_eq_of_lt hlt
    rw [Pmm.allocateContiguous_ready hready, hsum, if_pos rfl]
    split_ifs with hlimit
    · have hadv := h.advance (n := 0) hle hal (by omega) fun i hi => absurd hi (Nat.not_lt_zero i)
      exact ⟨fun _ => ⟨l, hadv⟩, fun h => absurd (hready.symm.trans h) (by simp)⟩
    · have hadv := h.advance hle hal hlt fun i hi => h.usable hlt (by omega) hi
      exact ⟨fun _ => ⟨l, hadv⟩, fun h => absurd (hready.symm.trans h) (by simp)⟩

/-- **Every tame step keeps the accounts.** -/
theorem Sound.perform (hs : s.Sound) {op : PmmOp} (ht : s.Tame op) : (s.perform op).Sound := by
  cases op with
  | allocateFrame => exact hs.allocateFrame ht
  | allocateContiguous pages => exact hs.allocateContiguous ht
  | reserve base length =>
    have hsame : (s.pmm.reserve base.toNat length.toNat).2.isReady = s.pmm.isReady ∧
        (s.pmm.reserve base.toNat length.toNat).2.freeListHead = s.pmm.freeListHead := by
      unfold Pmm.reserve
      split
      · exact ⟨rfl, rfl⟩
      · split
        · exact ⟨rfl, rfl⟩
        · exact ⟨rfl, rfl⟩
    refine ⟨fun hr => ?_, fun hr => ?_⟩
    · obtain ⟨l, h⟩ := hs.accounts (hsame.1.symm.trans hr)
      exact ⟨l, h.reserve ht⟩
    · obtain ⟨h1, h2, h3⟩ := hs.idle (hsame.1.symm.trans hr)
      exact ⟨h1, h2, hsame.2.trans h3⟩
  | deallocateFrame frame =>
    unfold PmmSession.perform
    cases hready : s.pmm.isReady with
    | false =>
      have hidle := hs.idle hready
      have hde : s.pmm.deallocateFrame frame.toNat = (.notInitialized, s.pmm) := by
        unfold Pmm.deallocateFrame
        rw [hready]
        rfl
      simp only [hde]
      exact ⟨fun h => absurd (hready.symm.trans h) (by simp), fun _ => hidle⟩
    | true =>
      obtain ⟨l, h⟩ := hs.accounts hready
      by_cases hmem : frame.toNat ∈ s.allocated
      · obtain ⟨p, l', hde, hr, hacc⟩ := h.deallocate hready hmem
        simp only [hde]
        exact ⟨fun _ => ⟨l', hacc⟩, fun h => absurd (hr.symm.trans h) (by simp)⟩
      · -- refused: the frame is free or out of range
        have hno : (s.pmm.deallocateFrame frame.toNat).1 ≠ .ok := by
          intro hok
          rcases (h.deallocate_ok_iff hready _).mp hok with hm | ⟨-, -, hsk⟩
          · exact hmem hm
          · exact ht hsk
        have hsame : (s.pmm.deallocateFrame frame.toNat).2 = s.pmm := by
          unfold Pmm.deallocateFrame at hno ⊢
          split
          · rfl
          · split
            · rfl
            · rename_i h1 h2
              rw [if_neg h1, if_neg h2] at hno
              split at hno <;> exact absurd rfl hno
        cases hde : s.pmm.deallocateFrame frame.toNat with
        | mk status p =>
          rw [hde] at hno hsame
          have hp : p = s.pmm := hsame
          cases status with
          | ok => exact absurd rfl hno
          | _ =>
            simp only [hde]
            rw [hp]
            exact hs

/-- What the accounts promise to the users of frames. -/
structure Exclusive (s : PmmSession) : Prop where
  distinct : s.allocated.Nodup
  usable : ∀ f ∈ s.allocated, Usable s.pmm f
  free : ∃ l, s.pmm.FreeList l ∧ l.Nodup ∧ ∀ f ∈ l, f ∉ s.allocated

theorem Sound.exclusive (hs : s.Sound) : s.Exclusive := by
  cases hready : s.pmm.isReady with
  | false =>
    obtain ⟨h1, -, h3⟩ := hs.idle hready
    refine ⟨by rw [h1]; exact nodup_nil, fun f hf => ?_, [], h3, nodup_nil, fun f hf => ?_⟩
    · rw [h1] at hf
      cases hf
    · cases hf
  | true =>
    obtain ⟨l, h⟩ := hs.accounts hready
    exact ⟨h.nodup, fun f hf => (h.allocated f hf).1, l, h.chain, h.chain.nodup, fun f hf => (h.free f hf).2.2.1⟩

theorem Sound.deallocate_exact_iff (hs : s.Sound) (f : Nat) :
    ((s.pmm.deallocateFrame f).1 = .ok ↔ f ∈ s.allocated) ↔ ¬ s.Skipped f := by
  cases hready : s.pmm.isReady with
  | false =>
    obtain ⟨h1, h2, -⟩ := hs.idle hready
    have hde : (s.pmm.deallocateFrame f).1 = .notInitialized := by
      unfold Pmm.deallocateFrame
      rw [hready]
      rfl
    rw [hde, h1]
    refine ⟨fun _ => ?_, fun _ => by simp⟩
    rintro ⟨-, i, hi, -⟩
    rw [h2] at hi
    cases hi
  | true =>
    obtain ⟨l, h⟩ := hs.accounts hready
    rw [h.deallocate_ok_iff hready]
    constructor
    · intro hiff hsk
      -- a skipped page is below the bump pointer and not free, so it is accepted
      obtain ⟨ha, i, hi, h1, h2⟩ := hsk
      have hin := (h.skipped i hi).2.2 (by omega)
      have hv : s.pmm.validFrame f = true := Pmm.validFrame_iff.mpr ⟨by omega, by omega, ha⟩
      have hnot : f ∉ l := fun hm => (h.free f hm).2.2.2 ⟨ha, i, hi, h1, h2⟩
      have hm := hiff.mp (.inr ⟨hv, hnot, ha, i, hi, h1, h2⟩)
      exact (h.allocated f hm).2.2 ⟨ha, i, hi, h1, h2⟩
    · intro hns
      refine ⟨fun hc => ?_, fun hm => .inl hm⟩
      rcases hc with hm | ⟨-, -, hsk⟩
      · exact hm
      · exact absurd hsk hns

/-- **The allocator never gives a frame twice**, in every run of tame steps: the allocated frames are
    distinct, aligned, in range and outside the reserved ranges, the free list is acyclic and has none
    of them, and `Deallocate_Frame` accepts exactly the allocated frames, skipped pages apart. -/
theorem pmm_exclusive (firstFree lastByte : UInt64)
    (hbase : Pmm.alignUp firstFree.toNat pageSize ≠ 0) {n : Nat} (r : Run step n)
    (hstart : r.state 0 = start firstFree lastByte)
    (htame : ∀ i, i < n → (r.state i).Tame (r.action i)) (i : Nat) (hi : i ≤ n) :
    (r.state i).Exclusive ∧
    ∀ frame : UInt64, (((r.state i).pmm.deallocateFrame frame.toNat).1 = .ok ↔
      frame.toNat ∈ (r.state i).allocated) ↔ ¬ (r.state i).Skipped frame.toNat := by
  have hs : (r.state i).Sound := by
    refine r.invariant Sound (hstart ▸ start_sound firstFree lastByte hbase) (fun j hj h => ?_) i hi
    have hstep := r.step_eq j hj
    injection hstep with hstep
    rw [← hstep]
    exact h.perform (htame j hj)
  exact ⟨hs.exclusive, fun frame => hs.deallocate_exact_iff frame.toNat⟩

/-- The run of a list of operations. -/
def runOf (s : PmmSession) (ops : List PmmOp) : Run step ops.length where
  state := fun i => (ops.take i).foldl PmmSession.perform s
  action := fun i => ops.getD i .allocateFrame
  step_eq := by
    intro i hi
    have hget : ops.getD i .allocateFrame = ops.get ⟨i, hi⟩ := by
      simp [getD, getElem?_eq_getElem hi]
    rw [take_succ_eq_append_getElem hi, foldl_append, hget]
    rfl

/-- One reserved page, with an allocation on either side of it and the second one undone. -/
def gapOps : List PmmOp :=
  [.reserve 0x80001000 4096, .allocateFrame, .allocateFrame, .deallocateFrame 0x80002000]

/-- Sixteen pages from 0x8000_0000 on. -/
def sixteenPages : PmmSession := start 0x80000000 0x80010000

/-- The steps of the run are tame, and its last state has one frame out. -/
theorem pmm_exclusive_gap :
    ((runOf sixteenPages gapOps).state 4).Exclusive ∧
    ((runOf sixteenPages gapOps).state 4).allocated = [0x80000000] := by
  refine ⟨(pmm_exclusive 0x80000000 0x80010000 (by decide +kernel) (runOf sixteenPages gapOps) rfl
    (fun i hi => ?_) 4 (by decide)).1, by decide +kernel⟩
  have hi : i < 4 := hi
  interval_cases i
  · -- nothing is below the bump pointer yet
    intro r _ frame hv
    obtain ⟨h1, h2, -⟩ := Pmm.validFrame_iff.mp hv
    exact absurd h2 (Nat.not_lt.mpr h1)
  · intro _
    decide +kernel
  · intro _
    decide +kernel
  · show ¬ Skipped _ _
    decide +kernel

/-- The session in which the reserved page has been skipped. -/
def pastGap : PmmSession :=
  [PmmOp.reserve 0x80001000 4096, .allocateFrame, .allocateFrame].foldl perform sixteenPages

/-- **A reserved page is freed and then handed out.**  Nobody had it: the bump pointer skipped it. -/
theorem pmm_frees_reserved :
    (pastGap.pmm.deallocateFrame 0x80001000).1 = .ok ∧ 0x80001000 ∉ pastGap.allocated ∧
    0x80001000 ∈ ((pastGap.perform (.deallocateFrame 0x80001000)).perform .allocateFrame).allocated ∧
    ¬ ∀ r ∈ pastGap.pmm.reserved, r.Outside 0x80001000 := by
  refine ⟨?_, ?_, ?_, ?_⟩
  · decide +kernel
  · decide +kernel
  · decide +kernel
  · decide +kernel

end PmmSession

end Aegir.Kernel
