/-
  `Free_Frame_Count`, compared with what the allocator can really give.

  `AllocCount p n` says that `n` calls of `Allocate_Frame` in a row succeed and the next one fails.  The count
  agrees exactly when no reserved page lies between the bump pointer and the limit, since the bump pointer
  will SKIP it.  A contiguous request that fails loses frames too: the bump pointer stays where the search
  ended.
-/
import Mathlib.Order.Interval.Finset.Nat
import Aegir.Kernel.PmmRuns

namespace Aegir.Kernel

open Aegir.Lib List Function

namespace Pmm

/-- Exactly `n` calls of `Allocate_Frame` succeed. -/
def AllocCount : Pmm → Nat → Prop
  | p, 0 => ∃ e, p.allocateFrame.1 = .error e
  | p, n + 1 => ∃ f p', p.allocateFrame = (.ok f, p') ∧ AllocCount p' n

/-- The number can be tested by making the calls. -/
instance decidableAllocCount : (n : Nat) → (p : Pmm) → Decidable (AllocCount p n)
  | 0, p =>
    match h : p.allocateFrame.1 with
    | .error e => .isTrue ⟨e, h⟩
    | .ok _ => .isFalse fun ⟨_, he⟩ => by rw [h] at he; cases he
  | n + 1, p =>
    match h : p.allocateFrame with
    | (.error _, _) => .isFalse fun ⟨_, _, he, _⟩ => by rw [h] at he; cases he
    | (.ok f, p') =>
      match decidableAllocCount n p' with
      | .isTrue hn => .isTrue ⟨f, p', h, hn⟩
      | .isFalse hn => .isFalse fun ⟨_, _, he, hn'⟩ => by rw [h] at he; cases he; exact hn hn'

/-! ## Skipping one page at a time -/

variable {x y : Nat}

/-- Ranges of whole pages of the address space. -/
def Aligned (ranges : List ReservedRange) : Prop :=
  ∀ r ∈ ranges, r.base % pageSize = 0 ∧ r.last % pageSize = 0 ∧ r.last < 2 ^ 64

theorem skipReservedFrom_inside {ranges : List ReservedRange} (hr : Aligned ranges)
    (hx : x % pageSize = 0) (hlt : x < 2 ^ 64) (fuel : Nat)
    (h1 : x ≤ y) (h2 : y < skipReservedFrom ranges 1 x fuel) : ∃ r ∈ ranges, ¬ r.Outside y := by
  induction fuel generalizing x with
  | zero =>
    have h2 : y < x := h2
    omega
  | succ fuel ih =>
    unfold skipReservedFrom at h2
    split at h2
    · omega
    · rename_i r hfind
      have hmem : r ∈ ranges := mem_of_find?_eq_some hfind
      obtain ⟨hb, hl, hl64⟩ := hr r hmem
      have hover := find?_some hfind
      simp only [Bool.and_eq_true, decide_eq_true_eq] at hover
      by_cases hin : y < r.last
      · -- the range starts at or below the candidate: both are whole pages
        have hbase : r.base ≤ x := by
          have := hover.2
          unfold add64 pageSize at this
          unfold pageSize at hx hb
          omega
        refine ⟨r, hmem, fun hout => ?_⟩
        unfold ReservedRange.Outside pageSize at hout
        omega
      · exact ih hl hl64 (by omega) h2

section Skip

variable {p : Pmm}

/-- Where a request for one page at `x` looks: at the first page from `x` on that is outside all
    ranges (the topmost page of the address space counts as such). -/
theorem skip_one_spec (hr : Aligned p.reserved) (hx : x % pageSize = 0) (hlt : x < 2 ^ 64) :
    x ≤ p.skipReserved x 1 ∧ p.skipReserved x 1 % pageSize = 0 ∧ p.skipReserved x 1 < 2 ^ 64 ∧
    (∀ y, y % pageSize = 0 → x ≤ y → y < p.skipReserved x 1 → ∃ r ∈ p.reserved, ¬ r.Outside y) ∧
    (p.skipReserved x 1 + pageSize < 2 ^ 64 → ∀ r ∈ p.reserved, r.Outside (p.skipReserved x 1)) := by
  obtain ⟨hle, hcase⟩ := skipReservedFrom_spec p.reserved 1 x (p.reserved.length + 1)
  refine ⟨hle, ?_, ?_, fun y _ h1 h2 => skipReservedFrom_inside hr hx hlt _ h1 h2, ?_⟩
  · unfold skipReserved
    rcases hcase with he | ⟨r, hm, he⟩
    · rw [he]; exact hx
    · rw [he]; exact (hr r hm).2.1
  · unfold skipReserved
    rcases hcase with he | ⟨r, hm, he⟩
    · rw [he]; exact hlt
    · rw [he]; exact (hr r hm).2.2
  · intro hsum r hm
    rcases p.skipReserved_clear x 1 r hm with h | h
    · exact .inl h
    · refine .inr ?_
      rw [show add64 (p.skipReserved x 1) (1 * pageSize) = p.skipReserved x 1 + pageSize by
        rw [Nat.one_mul]; exact Nat.mod_eq_of_lt hsum] at h
      exact h

theorem skip_one_le (hr : Aligned p.reserved) (hx : x % pageSize = 0) (hlt : x < 2 ^ 64)
    (hy : y % pageSize = 0) (hxy : x ≤ y) (hout : ∀ r ∈ p.reserved, r.Outside y) :
    p.skipReserved x 1 ≤ y := by
  obtain ⟨-, -, -, hin, -⟩ := skip_one_spec (p := p) hr hx hlt
  by_contra hgt
  obtain ⟨r, hm, hno⟩ := hin y hy hxy (by omega)
  exact hno (hout r hm)

end Skip

/-! ## The bump pointer alone -/

section Bump

variable {p : Pmm} {n : Nat}

/-- The same allocator with an empty free list and the bump pointer at `x`. -/
def bumpAt (p : Pmm) (x : Nat) : Pmm := { p with freeListHead := 0, nextFrame := x }

theorem allocCount_bump_zero (hready : p.isReady = true) (x : Nat) :
    AllocCount (p.bumpAt x) 0 ↔ p.limit < add64 (p.skipReserved x 1) pageSize := by
  unfold AllocCount
  rw [allocateFrame_bump (p := p.bumpAt x) hready rfl]
  show (∃ e, (if add64 (p.skipReserved x 1) pageSize > p.limit then _ else _ : _ × Pmm).1 = _) ↔ _
  split_ifs with h
  · exact ⟨fun _ => h, fun _ => ⟨_, rfl⟩⟩
  · exact ⟨fun ⟨_, he⟩ => (by cases he), fun hlt => absurd hlt h⟩

theorem allocCount_bump_succ (hready : p.isReady = true) (x n : Nat) :
    AllocCount (p.bumpAt x) (n + 1) ↔ add64 (p.skipReserved x 1) pageSize ≤ p.limit ∧
      AllocCount (p.bumpAt (add64 (p.skipReserved x 1) pageSize)) n := by
  rw [AllocCount, allocateFrame_bump (p := p.bumpAt x) hready rfl]
  show (∃ f p', (if add64 (p.skipReserved x 1) pageSize > p.limit then _ else _ : _ × Pmm) = _ ∧ _) ↔ _
  split_ifs with h
  · constructor
    · rintro ⟨f, p', he, -⟩
      cases he
    · rintro ⟨hle, -⟩
      omega
  · constructor
    · rintro ⟨f, p', he, hn⟩
      cases he
      exact ⟨by omega, hn⟩
    · rintro ⟨-, hn⟩
      exact ⟨_, _, rfl, hn⟩

/-- The next page is at the top of the address space: the sum that tests it wraps to zero. -/
def Wraps (p : Pmm) (x : Nat) : Prop := 2 ^ 64 ≤ p.skipReserved x 1 + pageSize

theorem add64_of_wraps (hr : Aligned p.reserved) (hx : x % pageSize = 0) (hlt : x < 2 ^ 64)
    (hw : p.Wraps x) : add64 (p.skipReserved x 1) pageSize = 0 := by
  obtain ⟨-, hal, hlt', -⟩ := skip_one_spec (p := p) hr hx hlt
  unfold Wraps at hw
  unfold add64
  unfold pageSize at hal hw ⊢
  omega

theorem add64_of_not_wraps (hw : ¬ p.Wraps x) :
    add64 (p.skipReserved x 1) pageSize = p.skipReserved x 1 + pageSize :=
  Nat.mod_eq_of_lt (Nat.not_le.mp hw)

section

variable (hready : p.isReady = true)

include hready

theorem not_allocCount_of_wraps (hr : Aligned p.reserved)
    (hy : y % pageSize = 0) (hyl : y ≤ p.limit) (hlt : y < 2 ^ 64) (hw : p.Wraps y) (n : Nat) :
    ∀ z, z % pageSize = 0 → z ≤ y → ¬ AllocCount (p.bumpAt z) n := by
  obtain ⟨-, -, -, hin, -⟩ := skip_one_spec (p := p) hr hy hlt
  -- from `z ≤ y` the next page is below `y`, or it is the topmost one again
  have hnext : ∀ z, z % pageSize = 0 → z ≤ y → add64 (p.skipReserved z 1) pageSize ≤ y ∧
        add64 (p.skipReserved z 1) pageSize % pageSize = 0 := by
    intro z hz hzy
    obtain ⟨-, hal, -, -, hout⟩ := skip_one_spec (p := p) hr hz (by omega)
    by_cases hwz : p.Wraps z
    · rw [add64_of_wraps hr hz (by omega) hwz]
      exact ⟨Nat.zero_le _, rfl⟩
    · rw [add64_of_not_wraps hwz]
      refine ⟨?_, by rw [Nat.add_mod_right]; exact hal⟩
      by_contra hgt
      have hge : y ≤ p.skipReserved z 1 := Pmm.aligned_le hal hy (by omega)
      unfold Wraps at hw hwz
      obtain ⟨r, hm, hno⟩ := hin _ hal hge (by omega)
      exact hno (hout (by omega) r hm)
  induction n with
  | zero =>
    intro z hz hzy h0
    have := (hnext z hz hzy).1
    rw [allocCount_bump_zero hready] at h0
    omega
  | succ n ih =>
    intro z hz hzy hn
    rw [allocCount_bump_succ hready] at hn
    exact ih _ (hnext z hz hzy).2 (hnext z hz hzy).1 hn.2

theorem AllocCount.le (hr : Aligned p.reserved) (hl : p.limit < 2 ^ 64) (hx : x % pageSize = 0) (hxl : x ≤ p.limit) (h : AllocCount (p.bumpAt x) n) :
    n * pageSize ≤ p.limit - x := by
  induction n generalizing x with
  | zero => rw [Nat.zero_mul]; exact Nat.zero_le _
  | succ n ih =>
    obtain ⟨hle, hn⟩ := (allocCount_bump_succ hready x n).mp h
    obtain ⟨hge, hal, -⟩ := skip_one_spec (p := p) hr hx (by omega)
    by_cases hw : p.Wraps x
    · rw [add64_of_wraps hr hx (by omega) hw] at hn
      exact absurd hn (not_allocCount_of_wraps hready hr hx hxl (by omega) hw n 0 rfl (Nat.zero_le _))
    · rw [add64_of_not_wraps hw] at hle hn
      have := ih (by rw [Nat.add_mod_right]; exact hal) hle hn
      rw [Nat.succ_mul]
      omega

theorem AllocCount.ge (hr : Aligned p.reserved) (hl : p.limit < 2 ^ 64)
    (hlal : p.limit % pageSize = 0) (hx : x % pageSize = 0) (hy : y % pageSize = 0)
    (hxy : x ≤ y) (hyl : y ≤ p.limit)
    (hout : ∀ f, f % pageSize = 0 → y ≤ f → f < p.limit → ∀ r ∈ p.reserved, r.Outside f)
    (h : AllocCount (p.bumpAt x) n) : p.limit - y ≤ n * pageSize := by
  induction n generalizing x y with
  | zero =>
    rw [allocCount_bump_zero hready] at h
    by_contra hlt
    have hylt : y < p.limit := by omega
    have hstop := skip_one_le (p := p) hr hx (by omega) hy hxy (hout y hy (Nat.le_refl _) hylt)
    have hsum : add64 (p.skipReserved x 1) pageSize ≤ p.skipReserved x 1 + pageSize := Nat.mod_le _ _
    have := Pmm.aligned_le (f := y) (g := p.limit) hy hlal
    omega
  | succ n ih =>
    obtain ⟨hle, hn⟩ := (allocCount_bump_succ hready x n).mp h
    obtain ⟨-, hal, -⟩ := skip_one_spec (p := p) hr hx (by omega)
    by_cases hylt : y < p.limit
    · have hstop := skip_one_le (p := p) hr hx (by omega) hy hxy (hout y hy (Nat.le_refl _) hylt)
      have hroom : y + pageSize ≤ p.limit := by
        have := Pmm.aligned_le (f := y) (g := p.limit) hy hlal
        omega
      have hw : ¬ p.Wraps x := by
        unfold Wraps
        omega
      rw [add64_of_not_wraps hw] at hle hn
      have hal' : (p.skipReserved x 1 + pageSize) % pageSize = 0 := by
        rw [Nat.add_mod_right]
        exact hal
      have := ih (y := y + pageSize) hal' (by rw [Nat.add_mod_right]; exact hy) (by omega) hroom
        (fun f hf h1 h2 => hout f hf (by omega) h2) hn
      rw [Nat.succ_mul]
      omega
    · omega

/-- **The bump pointer can give every page up to the limit** exactly when all of them are outside the
    ranges, and the test of the first page behind them does not wrap. -/
theorem allocCount_bump_iff (hr : Aligned p.reserved)
    (hl : p.limit < 2 ^ 64) (hlal : p.limit % pageSize = 0) (hx : x % pageSize = 0)
    (hlt : x < 2 ^ 64) :
    AllocCount (p.bumpAt x) ((p.limit - x) / pageSize) ↔
      (∀ f, f % pageSize = 0 → x ≤ f → f < p.limit → ∀ r ∈ p.reserved, r.Outside f) ∧
      ¬ p.Wraps (max x p.limit) := by
  have hps : 0 < pageSize := by decide
  generalize hk : (p.limit - x) / pageSize = k
  induction k generalizing x with
  | zero =>
    -- nothing is left: the next request must fail, and does unless its sum wraps
    have hge : p.limit ≤ x := by
      rcases (Nat.div_eq_zero_iff).mp hk with h0 | h0
      · omega
      · by_contra hlt'
        have := Pmm.aligned_le (f := x) (g := p.limit) hx hlal (by omega)
        omega
    rw [allocCount_bump_zero hready, Nat.max_eq_left hge]
    obtain ⟨hle, -⟩ := skip_one_spec (p := p) hr hx hlt
    constructor
    · intro hfail
      refine ⟨fun f _ h1 h2 => by omega, fun hw => ?_⟩
      rw [add64_of_wraps hr hx hlt hw] at hfail
      omega
    · rintro ⟨-, hw⟩
      rw [add64_of_not_wraps hw]
      omega
  | succ k ih =>
    have hroom : x + pageSize ≤ p.limit := by
      have := Nat.div_mul_le_self (p.limit - x) pageSize
      rw [hk, Nat.succ_mul] at this
      omega
    have hx' : (x + pageSize) % pageSize = 0 := by rw [Nat.add_mod_right]; exact hx
    have hrest : (p.limit - (x + pageSize)) / pageSize = k := by
      unfold pageSize at hk ⊢
      omega
    have hmax : max (x + pageSize) p.limit = max x p.limit := by omega
    have hstep := ih hx' (by omega) hrest
    rw [hmax] at hstep
    obtain ⟨hge, hal, -, -, hout⟩ := skip_one_spec (p := p) hr hx hlt
    rw [allocCount_bump_succ hready]
    constructor
    · rintro ⟨hle, hn⟩
      by_cases hw : p.Wraps x
      · rw [add64_of_wraps hr hx hlt hw] at hn
        exact absurd hn (not_allocCount_of_wraps hready hr hx (by omega) hlt hw k 0 rfl (Nat.zero_le _))
      · rw [add64_of_not_wraps hw] at hle hn
        -- a page that is skipped now is missing in the end
        have hbound := AllocCount.le hready hr hl (by rw [Nat.add_mod_right]; exact hal) hle hn
        have htotal : (k + 1) * pageSize ≤ p.limit - x := hk ▸ Nat.div_mul_le_self _ _
        have hexact : p.limit - x < (k + 2) * pageSize := by
          rw [show k + 2 = (p.limit - x) / pageSize + 1 by omega, Nat.mul_comm]
          exact Nat.lt_mul_div_succ _ hps
        have heq : p.skipReserved x 1 = x := by
          rw [Nat.add_mul] at htotal hexact
          have := Pmm.aligned_le (f := x) (g := p.skipReserved x 1) hx hal (by omega)
          omega
        rw [heq] at hn
        obtain ⟨hrest', hw'⟩ := hstep.mp hn
        refine ⟨fun f hf h1 h2 => ?_, hw'⟩
        by_cases hfx : f = x
        · subst hfx
          have := hout (by omega)
          rwa [heq] at this
        · have := Pmm.aligned_le (f := f) (g := x + pageSize) hf hx' (by
            omega)
          exact hrest' f hf this h2
    · rintro ⟨hfree, hw⟩
      have heq : p.skipReserved x 1 = x := by
        have := skip_one_le (p := p) hr hx hlt hx (Nat.le_refl _) (hfree x hx (Nat.le_refl _) (by omega))
        omega
      have hnw : ¬ p.Wraps x := by
        unfold Wraps
        omega
      rw [add64_of_not_wraps hnw, heq]
      exact ⟨hroom, hstep.mpr ⟨fun f hf h1 h2 => hfree f hf (by omega) h2, hw⟩⟩

end

end Bump

/-! ## With the free list -/

variable {p : Pmm} {l : List Nat} {c : Nat}

theorem AllocCount.unique {p : Pmm} {n m : Nat} (hn : AllocCount p n) (hm : AllocCount p m) : n = m := by
  induction n generalizing p m with
  | zero =>
    obtain ⟨e, he⟩ := hn
    cases m with
    | zero => rfl
    | succ m =>
      obtain ⟨f, p', hok, -⟩ := hm
      rw [hok] at he
      cases he
  | succ n ih =>
    obtain ⟨f, p', hok, hn⟩ := hn
    cases m with
    | zero =>
      obtain ⟨e, he⟩ := hm
      rw [hok] at he
      cases he
    | succ m =>
      obtain ⟨f', p'', hok', hm⟩ := hm
      rw [hok] at hok'
      cases hok'
      rw [ih hn hm]

theorem allocCount_bump_congr {p q : Pmm} (hp : p.isReady = true) (hq : q.isReady = true)
    (hl : q.limit = p.limit) (hr : q.reserved = p.reserved) (n x : Nat) :
    AllocCount (q.bumpAt x) n ↔ AllocCount (p.bumpAt x) n := by
  have hskip : ∀ x, q.skipReserved x 1 = p.skipReserved x 1 := by
    intro x
    unfold skipReserved
    rw [hr]
  induction n generalizing x with
  | zero => rw [allocCount_bump_zero hq, allocCount_bump_zero hp, hskip, hl]
  | succ n ih =>
    rw [allocCount_bump_succ hq, allocCount_bump_succ hp, hskip, hl]
    exact and_congr_right fun _ => ih _

theorem allocCount_iff {p : Pmm} {l : List Nat} (hready : p.isReady = true) (hl : p.FreeList l) (n : Nat) :
    AllocCount p n ↔ ∃ m, n = l.length + m ∧ AllocCount (p.bumpAt p.nextFrame) m := by
  induction l generalizing p n with
  | nil =>
    have hhead : p.freeListHead = 0 := hl
    have hself : p.bumpAt p.nextFrame = p := by
      unfold bumpAt
      rw [← hhead]
    rw [hself]
    exact ⟨fun h => ⟨n, by simp, h⟩, fun ⟨m, he, h⟩ => by simpa [he] using h⟩
  | cons f rest ih =>
    obtain ⟨hhead, hne, hrest⟩ := hl
    have hchain : IsChain 0 p.link p.freeListHead (f :: rest) := ⟨hhead, hne, hrest⟩
    obtain ⟨p1, hpop, hl1, hready1, hlimit, hres, hnext⟩ : ∃ p1, p.allocateFrame = (.ok f, p1) ∧
        p1.FreeList rest ∧ p1.isReady = true ∧ p1.limit = p.limit ∧ p1.reserved = p.reserved ∧
        p1.nextFrame = p.nextFrame :=
      ⟨_, allocateFrame_pop hready hne hhead, hchain.pop fun z hz => update_of_ne hz _ _, hready, rfl, rfl, rfl⟩
    have hcongr := fun m => allocCount_bump_congr hready hready1 hlimit hres m p1.nextFrame
    cases n with
    | zero =>
      constructor
      · rintro ⟨e, he⟩
        rw [hpop] at he
        cases he
      · rintro ⟨m, he, -⟩
        rw [length_cons] at he
        omega
    | succ n =>
      constructor
      · rintro ⟨g, p', hok, hn⟩
        rw [hpop] at hok
        cases hok
        obtain ⟨m, he, hm⟩ := (ih hready1 hl1 n).mp hn
        refine ⟨m, by rw [length_cons]; omega, ?_⟩
        rw [hcongr, hnext] at hm
        exact hm
      · rintro ⟨m, he, hm⟩
        refine ⟨f, p1, hpop, (ih hready1 hl1 n).mpr ⟨m, ?_, ?_⟩⟩
        · rw [length_cons] at he
          omega
        · rw [hcongr, hnext]
          exact hm

/-- What all reachable states have: whole pages, and a free list of the length that is counted. -/
structure Linked (p : Pmm) (l : List Nat) : Prop where
  base_pos : 0 < p.baseFrame
  base_le : p.baseFrame ≤ p.nextFrame
  next_aligned : p.nextFrame % pageSize = 0
  next_lt : p.nextFrame < 2 ^ 64
  limit_aligned : p.limit % pageSize = 0
  limit_lt : p.limit < 2 ^ 64
  ranges : Aligned p.reserved
  chain : p.FreeList l
  count : p.freeListCount = l.length
  free : ∀ f ∈ l, p.validFrame f = true

theorem Linked.length_lt (h : p.Linked l) : l.length * pageSize < p.nextFrame := by
  have hinj : ∀ f ∈ l, ∀ g ∈ l, f / pageSize = g / pageSize → f = g := by
    intro f hf g hg hfg
    have h1 := (validFrame_iff.mp (h.free f hf)).2.2
    have h2 := (validFrame_iff.mp (h.free g hg)).2.2
    unfold pageSize at *
    omega
  have hmap : (l.map (· / pageSize)).Nodup := h.chain.nodup.map_on hinj
  have hsub : (l.map (· / pageSize)).toFinset ⊆ Finset.Ico 1 (p.nextFrame / pageSize) := by
    intro x hx
    simp only [mem_toFinset, mem_map] at hx
    obtain ⟨f, hf, rfl⟩ := hx
    obtain ⟨h1, h2, h3⟩ := validFrame_iff.mp (h.free f hf)
    have hb := h.base_pos
    have hn := h.next_aligned
    rw [Finset.mem_Ico]
    unfold pageSize at *
    omega
  have hcard := Finset.card_le_card hsub
  rw [toFinset_card_of_nodup hmap, length_map, Nat.card_Ico] at hcard
  have hb := h.base_pos
  have hle := h.base_le
  unfold pageSize at *
  omega

theorem Linked.freeFrameCount (h : p.Linked l) (hready : p.isReady = true) :
    p.freeFrameCount = l.length + (p.limit - p.nextFrame) / pageSize := by
  have hlen := h.length_lt
  have hn := h.next_lt
  have hl := h.limit_lt
  unfold Pmm.freeFrameCount freeBytes add64
  rw [hready, if_neg (by simp), if_neg (by simp), h.count]
  dsimp only
  split
  · unfold pageSize at *
    omega
  · unfold pageSize at *
    omega

/-- No reserved page is left for the bump pointer to skip. -/
def NoneAhead (p : Pmm) : Prop :=
  ∀ f, f % pageSize = 0 → p.nextFrame ≤ f → f < p.limit → ∀ r ∈ p.reserved, r.Outside f

theorem Linked.count_exact_iff (h : p.Linked l) (hready : p.isReady = true) :
    AllocCount p p.freeFrameCount ↔ p.NoneAhead ∧ ¬ p.Wraps (max p.nextFrame p.limit) := by
  have hbump := allocCount_bump_iff (p := p) hready h.ranges h.limit_lt h.limit_aligned h.next_aligned h.next_lt
  rw [allocCount_iff hready h.chain, h.freeFrameCount hready]
  constructor
  · rintro ⟨m, he, hm⟩
    obtain rfl : m = (p.limit - p.nextFrame) / pageSize := by omega
    exact hbump.mp hm
  · intro hc
    exact ⟨_, rfl, hbump.mpr hc⟩

/-- A failed search that ends at `c` costs nothing exactly when it did not move, or when nothing was
    left anyway and nothing new is in reach. -/
theorem Linked.moved_iff (h : p.Linked l) (hready : p.isReady = true) (hnone : p.NoneAhead)
    (hwrap : ¬ p.Wraps (max p.nextFrame p.limit)) (hc : p.nextFrame ≤ c)
    (hal : c % pageSize = 0) (hlt : c < 2 ^ 64) :
    (∀ n, AllocCount { p with nextFrame := c } n ↔ AllocCount p n) ↔
      c = p.nextFrame ∨ (p.limit ≤ p.nextFrame ∧ ¬ p.Wraps c) := by
  have hmoved : ∀ n, AllocCount { p with nextFrame := c } n ↔
      ∃ m, n = l.length + m ∧ AllocCount (p.bumpAt c) m := fun n =>
    allocCount_iff (p := { p with nextFrame := c }) hready h.chain n
  have hhere : AllocCount (p.bumpAt p.nextFrame) ((p.limit - p.nextFrame) / pageSize) :=
    (allocCount_bump_iff hready h.ranges h.limit_lt h.limit_aligned h.next_aligned h.next_lt).mpr ⟨hnone, hwrap⟩
  constructor
  · intro hsame
    have hp := (allocCount_iff hready h.chain _).mpr ⟨_, rfl, hhere⟩
    obtain ⟨m, he, hm⟩ := (hmoved _).mp ((hsame _).mpr hp)
    obtain rfl : m = (p.limit - p.nextFrame) / pageSize := by omega
    by_cases heq : c = p.nextFrame
    · exact .inl heq
    · right
      by_cases hroom : p.limit ≤ p.nextFrame
      · refine ⟨hroom, fun hw => ?_⟩
        rw [Nat.sub_eq_zero_of_le hroom, Nat.zero_div, allocCount_bump_zero hready,
          add64_of_wraps h.ranges hal hlt hw] at hm
        omega
      · exfalso
        have hnal := h.next_aligned
        have hlal := h.limit_aligned
        have hlmt := h.limit_lt
        by_cases hcl : c ≤ p.limit
        · have := AllocCount.le hready h.ranges hlmt hal hcl hm
          unfold pageSize at *
          omega
        · -- beyond the limit a request succeeds only by a wrap, and then there are too many
          obtain ⟨k, hk⟩ : ∃ k, (p.limit - p.nextFrame) / pageSize = k + 1 :=
            ⟨(p.limit - p.nextFrame) / pageSize - 1, by unfold pageSize at *; omega⟩
          rw [hk, allocCount_bump_succ hready] at hm
          obtain ⟨hge, -⟩ := skip_one_spec (p := p) h.ranges hal hlt
          by_cases hw : p.Wraps c
          · rw [add64_of_wraps h.ranges hal hlt hw] at hm
            have := AllocCount.ge hready h.ranges hlmt hlal rfl hnal (Nat.zero_le _) (by omega) hnone hm.2
            unfold pageSize at *
            omega
          · rw [add64_of_not_wraps hw] at hm
            omega
  · rintro (rfl | ⟨hroom, hw⟩)
    · exact fun n => Iff.rfl
    · intro n
      have hzero : AllocCount (p.bumpAt c) 0 := by
        have := (allocCount_bump_iff (p := p) hready h.ranges h.limit_lt h.limit_aligned hal hlt).mpr
          ⟨fun f _ h1 h2 => by omega, by rw [Nat.max_eq_left (by omega)]; exact hw⟩
        rwa [Nat.sub_eq_zero_of_le (by omega), Nat.zero_div] at this
      rw [Nat.sub_eq_zero_of_le hroom, Nat.zero_div] at hhere
      rw [hmoved, allocCount_iff hready h.chain]
      refine exists_congr fun m => and_congr_right fun _ => ?_
      exact ⟨fun hm => hm.unique hzero ▸ hhere, fun hm => hm.unique hhere ▸ hzero⟩

/-! ## The claim about a state -/

/-- The count is exact in `p`, and a request that is refused for lack of memory (of one page, or of
    `pages` in a row) leaves the number of frames to be had unchanged. -/
structure CountExact (p : Pmm) (pages : Nat) : Prop where
  count : AllocCount p p.freeFrameCount
  frame : ∀ p', p.allocateFrame = (.error .outOfMemory, p') →
    ∀ n, AllocCount p' n ↔ AllocCount p n
  contiguous : ∀ p', p.allocateContiguous pages = (.error .outOfMemory, p') →
    ∀ n, AllocCount p' n ↔ AllocCount p n

/-- The condition: no reserved page between the bump pointer and the limit, no wrap at the first page
    behind them, and, if the contiguous request will not fit, no jump in search of room. -/
def Countable (p : Pmm) (pages : Nat) : Prop :=
  p.isReady = true → p.NoneAhead ∧ ¬ p.Wraps (max p.nextFrame p.limit) ∧
    (p.limit < add64 (p.skipReserved p.nextFrame pages) (pages * pageSize) →
      p.skipReserved p.nextFrame pages = p.nextFrame ∨
      (p.limit ≤ p.nextFrame ∧ ¬ p.Wraps (p.skipReserved p.nextFrame pages)))

theorem Linked.refused_frame (h : p.Linked l) (hready : p.isReady = true) {p' : Pmm}
    (hfail : p.allocateFrame = (.error .outOfMemory, p')) (n : Nat) :
    AllocCount p' n ↔ AllocCount p n := by
  have hhead : p.freeListHead = 0 := by
    by_contra hne
    rw [allocateFrame_pop hready hne rfl] at hfail
    cases hfail
  rw [allocateFrame_bump hready hhead] at hfail
  split at hfail
  · rename_i hlimit
    injection hfail with _ hp'
    subst hp'
    obtain ⟨hle, hal, hlt, -, hout⟩ := skip_one_spec (p := p) h.ranges h.next_aligned h.next_lt
    have hnw : ¬ p.Wraps p.nextFrame := by
      intro hw
      rw [add64_of_wraps h.ranges h.next_aligned h.next_lt hw] at hlimit
      omega
    -- the page found is outside the ranges, so the search from it stays there
    have hstay : p.skipReserved (p.skipReserved p.nextFrame 1) 1 = p.skipReserved p.nextFrame 1 := by
      have h1 := skip_one_le (p := p) h.ranges hal hlt hal (Nat.le_refl _) (hout (Nat.not_le.mp hnw))
      have h2 := (skip_one_spec (p := p) h.ranges hal hlt).1
      omega
    have hself : ∀ x, { p with nextFrame := x } = p.bumpAt x := by
      intro x
      unfold bumpAt
      rw [← hhead]
    have hnil : p = p.bumpAt p.nextFrame := hself p.nextFrame
    have hzero : AllocCount p 0 := by
      rw [hnil, allocCount_bump_zero hready]
      exact hlimit
    have hzero' : AllocCount (p.bumpAt (p.skipReserved p.nextFrame 1)) 0 := by
      rw [allocCount_bump_zero hready, hstay]
      exact hlimit
    rw [hself]
    exact ⟨fun hn => hn.unique hzero' ▸ hzero, fun hn => hn.unique hzero ▸ hzero'⟩
  · cases hfail

theorem Linked.skip (h : p.Linked l) (pages : Nat) : p.nextFrame ≤ p.skipReserved p.nextFrame pages ∧
    p.skipReserved p.nextFrame pages % pageSize = 0 ∧
    p.skipReserved p.nextFrame pages < 2 ^ 64 := by
  obtain ⟨hle, hcase⟩ := skipReservedFrom_spec p.reserved pages p.nextFrame (p.reserved.length + 1)
  refine ⟨hle, ?_⟩
  unfold skipReserved
  rcases hcase with he | ⟨r, hr, he⟩
  · rw [he]
    exact ⟨h.next_aligned, h.next_lt⟩
  · rw [he]
    exact (h.ranges r hr).2

/-- **The count is exact exactly under the condition.** -/
theorem Linked.countExact_iff (h : p.isReady = true → p.Linked l) (pages : Nat) :
    p.CountExact pages ↔ p.Countable pages := by
  cases hready : p.isReady with
  | false =>
    -- nothing is ever given
    have hframe : p.allocateFrame = (.error .notInitialized, p) := by simp [allocateFrame, hready]
    have hrun : p.allocateContiguous pages = (.error .notInitialized, p) := by
      simp [allocateContiguous, hready]
    refine ⟨fun _ hr => absurd (hready.symm.trans hr) (by simp), fun _ => ⟨?_, ?_, ?_⟩⟩
    · rw [show p.freeFrameCount = 0 by simp [Pmm.freeFrameCount, hready]]
      exact ⟨_, by rw [hframe]⟩
    · intro p' hp'
      rw [hframe] at hp'
      cases hp'
    · intro p' hp'
      rw [hrun] at hp'
      cases hp'
  | true =>
    have h := h hready
    obtain ⟨hle, hal, hlt⟩ := h.skip pages
    have hcontig := allocateContiguous_ready hready pages
    constructor
    · rintro ⟨hcount, -, hrun⟩ -
      obtain ⟨hnone, hwrap⟩ := (h.count_exact_iff hready).mp hcount
      refine ⟨hnone, hwrap, fun hfull => ?_⟩
      rw [if_pos hfull] at hcontig
      exact (h.moved_iff hready hnone hwrap hle hal hlt).mp (hrun _ hcontig)
    · intro hc
      obtain ⟨hnone, hwrap, hmove⟩ := hc hready
      refine ⟨(h.count_exact_iff hready).mpr ⟨hnone, hwrap⟩, fun p' hp' => h.refused_frame hready hp',
        fun p' hp' => ?_⟩
      rw [hcontig] at hp'
      split at hp'
      · rename_i hfull
        injection hp' with _ hp'
        subst hp'
        exact (h.moved_iff hready hnone hwrap hle hal hlt).mpr (hmove hfull)
      · cases hp'

/-! ## Runs -/

/-- One operation on the allocator alone. -/
def applyOp (p : Pmm) : PmmOp → Pmm
  | .reserve base length => (p.reserve base.toNat length.toNat).2
  | .allocateFrame => p.allocateFrame.2
  | .allocateContiguous pages => (p.allocateContiguous pages).2
  | .deallocateFrame frame => (p.deallocateFrame frame.toNat).2

/-- The step function of the allocator's runs. -/
def opStep (p : Pmm) (op : PmmOp) : Option Pmm := some (p.applyOp op)

/-- No sum of a request wraps. -/
def NoWrap (p : Pmm) : PmmOp → Prop
  | .allocateFrame => p.freeListHead = 0 → p.skipReserved p.nextFrame 1 + pageSize < 2 ^ 64
  | .allocateContiguous pages => p.skipReserved p.nextFrame pages + pages * pageSize < 2 ^ 64
  | _ => True

section

variable (h : p.Linked l)

include h

theorem Linked.setNext (hle : p.nextFrame ≤ c) (hal : c % pageSize = 0)
    (hlt : c < 2 ^ 64) : Linked { p with nextFrame := c } l := by
  refine ⟨h.base_pos, h.base_le.trans hle, hal, hlt, h.limit_aligned, h.limit_lt, h.ranges, h.chain,
    h.count, fun f hf => ?_⟩
  obtain ⟨h1, h2, h3⟩ := validFrame_iff.mp (h.free f hf)
  exact validFrame_iff.mpr ⟨h1, h2.trans_le hle, h3⟩

theorem Linked.reserve (base length : Nat) : (p.reserve base length).2.Linked l := by
  unfold Pmm.reserve
  split
  · exact h
  · split
    · exact h
    · refine ⟨h.base_pos, h.base_le, h.next_aligned, h.next_lt, h.limit_aligned, h.limit_lt, ?_,
        h.chain, h.count, h.free⟩
      intro r hr
      rcases mem_append.mp hr with hr | hr
      · exact h.ranges r hr
      · obtain rfl := mem_singleton.mp hr
        refine ⟨?_, PmmSession.alignUp_aligned _⟩
        show (base - base % pageSize) % pageSize = 0
        unfold pageSize
        omega

theorem Linked.deallocate (hready : p.isReady = true) (f : Nat) :
    ∃ l', (p.deallocateFrame f).2.Linked l' := by
  unfold deallocateFrame
  rw [hready, if_neg (by simp)]
  split
  · exact ⟨l, h⟩
  · rename_i hok
    simp only [Bool.or_eq_true, Bool.not_eq_true', not_or, Bool.not_eq_false, Bool.not_eq_true] at hok
    obtain ⟨hfv, hfree⟩ := hok
    obtain ⟨h1, h2, h3⟩ := validFrame_iff.mp hfv
    have hnot : f ∉ l := fun hm => by
      rw [(isInFreeList_iff h.chain h.free f).mpr hm] at hfree
      cases hfree
    have hnal := h.next_aligned
    have hsum : add64 f pageSize = f + pageSize := by
      have hn := h.next_lt
      refine Nat.mod_eq_of_lt ?_
      unfold pageSize at *
      omega
    split
    · -- the topmost frame: no member of the list is above it
      refine ⟨l, h.base_pos, h1, h3, ?_, h.limit_aligned, h.limit_lt, h.ranges, h.chain, h.count, fun g hg => ?_⟩
      · show f < 2 ^ 64
        have := h.next_lt
        omega
      · obtain ⟨g1, g2, g3⟩ := validFrame_iff.mp (h.free g hg)
        refine validFrame_iff.mpr ⟨g1, ?_, g3⟩
        show g < f
        have hne : g ≠ f := fun e => hnot (e ▸ hg)
        have := Pmm.aligned_le h3 g3 (by omega)
        omega
    · have hf0 : f ≠ 0 := by
        have := h.base_pos
        omega
      refine ⟨f :: l, h.base_pos, h.base_le, h.next_aligned, h.next_lt, h.limit_aligned, h.limit_lt,
        h.ranges, ?_, ?_, fun g hg => ?_⟩
      · exact IsChain.push h.chain hf0 (update_self _ _ _)
          fun y hy => update_of_ne (fun e : y = f => hnot (e ▸ hy)) _ _
      · show p.freeListCount + 1 = l.length + 1
        rw [h.count]
      · rcases mem_cons.mp hg with rfl | hg
        · exact hfv
        · exact h.free g hg

theorem Linked.allocate (hready : p.isReady = true) (hw : p.NoWrap .allocateFrame) :
    ∃ l', p.allocateFrame.2.Linked l' := by
  cases l with
  | cons f rest =>
    obtain ⟨hhead, hne, hrest⟩ := h.chain
    have hchain : IsChain 0 p.link p.freeListHead (f :: rest) := h.chain
    rw [allocateFrame_pop hready hne hhead]
    refine ⟨rest, h.base_pos, h.base_le, h.next_aligned, h.next_lt, h.limit_aligned, h.limit_lt,
      h.ranges, hchain.pop fun z hz => update_of_ne hz _ _, ?_,
      fun g hg => h.free g (mem_cons_of_mem _ hg)⟩
    rw [h.count]
    rfl
  | nil =>
    have hhead : p.freeListHead = 0 := h.chain
    have hlt := hw hhead
    obtain ⟨hle, hal, hlt'⟩ := h.skip 1
    rw [allocateFrame_bump hready hhead]
    split
    · exact ⟨[], h.setNext hle hal hlt'⟩
    · rw [show add64 (p.skipReserved p.nextFrame 1) pageSize = p.skipReserved p.nextFrame 1 + pageSize
        from Nat.mod_eq_of_lt hlt]
      exact ⟨[], h.setNext (by omega) (by rw [Nat.add_mod_right]; exact hal) hlt⟩

theorem Linked.allocateRun (hready : p.isReady = true) {pages : Fin (2 ^ 31)}
    (hw : p.NoWrap (.allocateContiguous pages)) : (p.allocateContiguous pages).2.Linked l := by
  have hlt : p.skipReserved p.nextFrame pages + (pages : Nat) * pageSize < 2 ^ 64 := hw
  obtain ⟨hle, hal, hlt'⟩ := h.skip pages
  rw [allocateContiguous_ready hready]
  split
  · exact h.setNext hle hal hlt'
  · rw [show add64 (p.skipReserved p.nextFrame pages) ((pages : Nat) * pageSize) =
      p.skipReserved p.nextFrame pages + (pages : Nat) * pageSize from Nat.mod_eq_of_lt hlt]
    exact h.setNext (by omega) (by rw [Nat.add_mul_mod_self_right]; exact hal) hlt

end

theorem applyOp_isReady (p : Pmm) (op : PmmOp) : (p.applyOp op).isReady = p.isReady := by
  cases op with
  | reserve base length =>
    unfold applyOp Pmm.reserve
    dsimp only
    split
    · rfl
    · split
      · rfl
      · rfl
  | allocateFrame =>
    unfold applyOp allocateFrame
    dsimp only
    split
    · rfl
    · split
      · rfl
      · split
        · rfl
        · rfl
  | allocateContiguous pages =>
    unfold applyOp allocateContiguous
    dsimp only
    split
    · rfl
    · split
      · rfl
      · rfl
  | deallocateFrame frame =>
    unfold applyOp deallocateFrame
    dsimp only
    split
    · rfl
    · split
      · rfl
      · split
        · rfl
        · rfl

theorem Linked.applyOp (h : p.Linked l) (hready : p.isReady = true) {op : PmmOp} (hw : p.NoWrap op) :
    ∃ l', (p.applyOp op).Linked l' := by
  cases op with
  | reserve base length => exact ⟨l, h.reserve _ _⟩
  | allocateFrame => exact h.allocate hready hw
  | allocateContiguous pages => exact ⟨l, h.allocateRun hready hw⟩
  | deallocateFrame frame => exact h.deallocate hready _

theorem start_linked (firstFree lastByte : UInt64) (hbase : alignUp firstFree.toNat pageSize ≠ 0) :
    (PmmSession.start firstFree lastByte).pmm.Linked [] := by
  obtain ⟨hal, hlt⟩ := PmmSession.alignUp_aligned firstFree.toNat
  have hlast : lastByte.toNat < 2 ^ 64 := lastByte.toNat_lt
  have hfields : ∀ ready : Bool, Linked { PmmSession.zeroPmm with
      baseFrame := alignUp firstFree.toNat pageSize
      nextFrame := alignUp firstFree.toNat pageSize
      limit := lastByte.toNat - lastByte.toNat % pageSize
      freeListHead := 0
      freeListCount := 0
      isReady := ready } [] := by
    intro ready
    refine ⟨Nat.pos_of_ne_zero hbase, Nat.le_refl _, hal, hlt, ?_, ?_, ?_, rfl, rfl, ?_⟩
    · show (lastByte.toNat - lastByte.toNat % pageSize) % pageSize = 0
      unfold pageSize
      omega
    · show lastByte.toNat - lastByte.toNat % pageSize < 2 ^ 64
      omega
    · intro r hr
      cases hr
    · intro f hf
      cases hf
  unfold PmmSession.start initializePmm
  dsimp only
  split
  · exact hfields false
  · exact hfields true

/-- **When the free-frame count is exact.**  In every state of every run whose requests do not wrap,
    `Free_Frame_Count` is the number of frames that can be had, and refused requests leave that
    number alone, if and only if the state is `Countable` for the request. -/
theorem freeFrameCount_exact_iff (firstFree lastByte : UInt64)
    (hbase : alignUp firstFree.toNat pageSize ≠ 0) {n : Nat} (r : Run opStep n)
    (hstart : r.state 0 = (PmmSession.start firstFree lastByte).pmm)
    (hwrap : ∀ i, i < n → (r.state i).NoWrap (r.action i)) (i : Nat) (hi : i ≤ n)
    (pages : Fin (2 ^ 31)) : (r.state i).CountExact pages ↔ (r.state i).Countable pages := by
  have hinv : (r.state i).isReady = true → ∃ l, (r.state i).Linked l := by
    refine r.invariant (fun p => p.isReady = true → ∃ l, p.Linked l) (fun _ => ?_) (fun j hj h => ?_) i hi
    · rw [hstart]
      exact ⟨[], start_linked firstFree lastByte hbase⟩
    · have hstep := r.step_eq j hj
      injection hstep with hstep
      rw [← hstep, applyOp_isReady]
      intro hready
      obtain ⟨l, hl⟩ := h hready
      exact hl.applyOp hready (hwrap j hj)
  cases hready : (r.state i).isReady with
  | false => exact Linked.countExact_iff (l := []) (fun h => absurd (hready.symm.trans h) (by simp)) _
  | true =>
    obtain ⟨l, hl⟩ := hinv hready
    exact Linked.countExact_iff (fun _ => hl) _

/-- One page of the sixteen is reserved. -/
def oneReserved : Pmm := (PmmSession.sixteenPages.pmm.reserve 0x80001000 4096).2

/-- The run that reserves it. -/
def reserveRun : Run opStep 1 where
  state := fun i => if i = 0 then PmmSession.sixteenPages.pmm else oneReserved
  action := fun _ => .reserve 0x80001000 4096
  step_eq := by
    intro i hi
    obtain rfl : i = 0 := by omega
    rfl

/-- Before anything is reserved the count is exact. -/
theorem freeFrameCount_exact_fresh :
    (reserveRun.state 0).CountExact 3 ∧ (reserveRun.state 0).freeFrameCount = 16 := by
  have h := freeFrameCount_exact_iff 0x80000000 0x80010000 (by decide +kernel) reserveRun rfl
    (fun _ _ => trivial) 0 (Nat.zero_le _) 3
  refine ⟨h.mpr fun _ => ⟨?_, ?_, ?_⟩, by decide +kernel⟩
  · intro f _ _ _ r hr
    cases hr
  · unfold Wraps
    decide +kernel
  · intro _
    left
    decide +kernel

/-- **A reserved page is counted as free.**  Sixteen frames are promised, fifteen can be had. -/
theorem freeFrameCount_counts_reserved :
    oneReserved.freeFrameCount = 16 ∧ AllocCount oneReserved 15 ∧
    ¬ AllocCount oneReserved oneReserved.freeFrameCount := by
  have hcount : oneReserved.freeFrameCount = 16 := by decide +kernel
  have hfifteen : AllocCount oneReserved 15 := by decide +kernel
  refine ⟨hcount, hfifteen, fun h => ?_⟩
  exact absurd (h.unique hfifteen) (by decide)

end Pmm

end Aegir.Kernel
