/-
  What the block allocator finds.

  The first pass covers every position from the hint up, the second every position from the log up to the
  hint -- but a pass stops where the blocks wanted would go PAST its end.  So a free run that begins below the
  hint and ends above it is seen by neither.  All other free runs are seen, in order: `Alloc` takes the first
  one at or above the hint, or else the first one below it (`alloc_firstFit`).
-/
import Mathlib.Tactic.Common
import Aegir.Bfs.Journal

namespace Aegir.Bfs

open Aegir.Lib List

/-! ## The overlay after `Trans_Add` -/

/-- The transaction takes a snapshot of the block: it has one, or room for one more. -/
def Engine.TransRoom (e : Engine) (num : Nat) : Prop :=
  num ∈ e.trans.entries.map Prod.fst ∨ e.trans.entries.length < maxTransBlocks

theorem lookup_replaceEntry (num n : Nat) (b : Block) (ws : List (Nat × Block)) (h : num ∈ ws.map Prod.fst) :
    (replaceEntry num b ws).lookup n = if n = num then some b else ws.lookup n := by
  induction ws with
  | nil => exact absurd h not_mem_nil
  | cons w ws ih =>
    obtain ⟨m, x⟩ := w
    unfold replaceEntry
    by_cases hm : m = num
    · subst hm
      rw [if_pos rfl, lookup_cons, lookup_cons]
      split_ifs with hn
      · rw [beq_iff_eq.mpr hn]
      · rw [beq_eq_false_iff_ne.mpr hn]
    · rw [if_neg hm, lookup_cons, lookup_cons]
      have hrest : num ∈ ws.map Prod.fst := (mem_cons.mp h).resolve_left fun heq => hm heq.symm
      by_cases hn : n = m
      · have hne : n ≠ num := fun heq => hm (hn ▸ heq)
        rw [if_neg hne, beq_iff_eq.mpr hn]
      · rw [beq_eq_false_iff_ne.mpr hn]
        exact ih hrest

theorem lookup_append_single (num n : Nat) (b : Block) (ws : List (Nat × Block)) (h : num ∉ ws.map Prod.fst) :
    (ws ++ [(num, b)]).lookup n = if n = num then some b else ws.lookup n := by
  induction ws with
  | nil =>
    rw [nil_append, lookup_cons]
    split_ifs with hn
    · rw [beq_iff_eq.mpr hn]
    · rw [beq_eq_false_iff_ne.mpr hn]
  | cons w ws ih =>
    obtain ⟨m, x⟩ := w
    rw [map_cons, mem_cons, not_or] at h
    obtain ⟨hm, hrest⟩ := h
    rw [cons_append, lookup_cons, lookup_cons]
    by_cases hn : n = m
    · have hne : n ≠ num := fun heq => hm (heq.symm.trans hn)
      rw [if_neg hne, beq_iff_eq.mpr hn]
    · rw [beq_eq_false_iff_ne.mpr hn]
      exact ih hrest

namespace Engine

variable {e e' : Engine} {allocHint count stop b w n : Nat} {bitmap : Block}

/-- **`Trans_Add`** changes what one block reads as, if there is room. -/
theorem block_transAdd (h : e.TransRoom b) (x : Block) (num : Nat) :
    (e.transAdd b x).block num = if num = b then x else e.block num := by
  have hlook : (e.transAdd b x).trans.get? num = (if num = b then some x else e.trans.get? num) ∧
      (e.transAdd b x).dev = e.dev := by
    unfold transAdd
    by_cases hmem : b ∈ e.trans.entries.map Prod.fst
    · rw [dif_pos hmem]
      exact ⟨lookup_replaceEntry b num x _ hmem, rfl⟩
    · have hroom := h.resolve_left hmem
      rw [dif_neg hmem, dif_pos hroom]
      exact ⟨lookup_append_single b num x _ hmem, rfl⟩
  unfold block
  rw [hlook.1, hlook.2]
  split
  · rfl
  · rfl

theorem block_transAdd_full (h : ¬ e.TransRoom b) (x : Block) (num : Nat) :
    (e.transAdd b x).block num = e.block num := by
  unfold TransRoom at h
  rw [not_or] at h
  unfold transAdd
  rw [dif_neg h.1, dif_neg h.2]
  rfl

/-! ## Free runs -/

/-- The bitmap says that a block is free. -/
def IsFree (e : Engine) (b : Nat) : Prop :=
  bitTest (e.block (1 + b / e.vol.groupSize)) (b % e.vol.groupSize) = false

/-- `count` free blocks from `b` on, in one group. -/
structure FreeRun (e : Engine) (count b : Nat) : Prop where
  oneGroup : (b + count - 1) / e.vol.groupSize = b / e.vol.groupSize
  free : ∀ k, k < count → e.IsFree (b + k)

/-- A free run between the end of the log and the end of the volume. -/
structure FreeWindow (e : Engine) (count b : Nat) : Prop where
  above_log : e.logEnd ≤ b
  below_end : b + count ≤ e.vol.numBlocks
  run : e.FreeRun count b

/-- Exactly the bits of `count` blocks from `start` on are set. -/
def Takes (e e' : Engine) (start count : Nat) : Prop :=
  ∀ num i, bitTest (e'.block num) i =
    (decide (num = 1 + start / e.vol.groupSize ∧ start % e.vol.groupSize ≤ i ∧ i < start % e.vol.groupSize + count) ||
      bitTest (e.block num) i)

theorem groupSize_pos (e : Engine) : 0 < e.vol.groupSize := Nat.two_pow_pos _

theorem in_group {g b k : Nat} (hg : 0 < g) (h : b + k < (b / g + 1) * g) :
    (b + k) / g = b / g ∧ (b + k) % g = b - b / g * g + k := by
  have hdiv : (b + k) / g = b / g := by
    refine le_antisymm (Nat.lt_succ_iff.mp ((Nat.div_lt_iff_lt_mul hg).mpr h)) ?_
    exact Nat.div_le_div_right (Nat.le_add_right b k)
  refine ⟨hdiv, ?_⟩
  have h1 := Nat.div_add_mod' (b + k) g
  have h2 := Nat.div_mul_le_self b g
  rw [hdiv] at h1
  omega

theorem FreeRun.count_le (h : e.FreeRun count b) : count ≤ e.vol.groupSize := by
  have hg := e.groupSize_pos
  have h1 := Nat.div_add_mod' b e.vol.groupSize
  have h2 := Nat.div_add_mod' (b + count - 1) e.vol.groupSize
  have h3 := Nat.mod_lt (b + count - 1) hg
  rw [h.oneGroup] at h2
  omega

theorem FreeRun.at (h : e.FreeRun count w) (hle : w ≤ b) (hlt : b < w + count) :
    b / e.vol.groupSize = w / e.vol.groupSize ∧ e.IsFree b := by
  constructor
  · refine le_antisymm ?_ (Nat.div_le_div_right hle)
    rw [← h.oneGroup]
    exact Nat.div_le_div_right (by omega)
  · have hfree := h.free (b - w) (by omega)
    rwa [Nat.add_sub_cancel' hle] at hfree

/-! ## The inner loop -/

/-- **The inner loop** stops after `count` free blocks, at the end of the group or at a block in use. -/
theorem freeRun_spec (bitmap : Block) (off b count grpEnd n run : Nat) :
    (∀ k, run ≤ k → k < freeRun bitmap off b count grpEnd n run → b + k < grpEnd ∧ bitTest bitmap (off + k) = false) ∧
    (run ≤ count → freeRun bitmap off b count grpEnd n run ≤ count) ∧
    (count ≤ run + n → freeRun bitmap off b count grpEnd n run < count →
      grpEnd ≤ b + freeRun bitmap off b count grpEnd n run ∨
        bitTest bitmap (off + freeRun bitmap off b count grpEnd n run) = true) := by
  induction n generalizing run with
  | zero => exact ⟨fun k h1 h2 => absurd (h1.trans_lt h2) (lt_irrefl _), id, fun h1 h2 => by
      unfold freeRun at h2
      omega⟩
  | succ n ih =>
    unfold freeRun
    split_ifs with hgo
    · obtain ⟨hall, hle, hstop⟩ := ih (run + 1)
      refine ⟨fun k h1 h2 => ?_, fun _ => hle hgo.1, fun h1 h2 => hstop (by omega) h2⟩
      rcases Nat.eq_or_lt_of_le h1 with rfl | h1
      · exact hgo.2
      · exact hall k h1 h2
    · refine ⟨fun k h1 h2 => absurd (h1.trans_lt h2) (lt_irrefl _), id, fun h1 h2 => ?_⟩
      by_cases hend : grpEnd ≤ b + run
      · exact .inl hend
      · refine .inr ?_
        by_contra hfree
        exact hgo ⟨h2, by omega, by simpa using hfree⟩

/-! ## One pass -/

theorem getBlock_some {num : Nat} (h : e.getBlock num = some bitmap) : bitmap = e.block num := by
  unfold getBlock at h
  split at h
  · cases h
  · exact (Option.some.inj h).symm

theorem isFree_iff {k : Nat} (h : b + k < (b / e.vol.groupSize + 1) * e.vol.groupSize) : e.IsFree (b + k) ↔
      bitTest (e.block (1 + b / e.vol.groupSize)) (b - b / e.vol.groupSize * e.vol.groupSize + k) = false := by
  obtain ⟨hdiv, hmod⟩ := in_group e.groupSize_pos h
  unfold IsFree
  rw [hdiv, hmod]

/-- **What a pass finds** is a free run below its end. -/
theorem allocPass_found (hcount : 0 < count) (h : e.allocPass count stop n b = some (.found w bitmap)) :
    bitmap = e.block (1 + w / e.vol.groupSize) ∧ e.FreeRun count w ∧ w + count ≤ stop := by
  induction n generalizing b with
  | zero => cases h
  | succ n ih =>
    unfold allocPass at h
    split at h
    · dsimp only at h
      split at h
      · cases h
      · rename_i bm hget
        split at h
        · split at h
          · -- found here
            rename_i hrun
            injection h with h
            injection h with hw hbm
            subst hw hbm
            have hbitmap := getBlock_some hget
            obtain ⟨hall, -, -⟩ := freeRun_spec bm (b - b / e.vol.groupSize * e.vol.groupSize) b count
              (min ((b / e.vol.groupSize + 1) * e.vol.groupSize % 2 ^ 64) stop) count 0
            rw [hrun] at hall
            have hin : ∀ k, k < count → b + k < (b / e.vol.groupSize + 1) * e.vol.groupSize ∧ b + k < stop := by
              intro k hk
              obtain ⟨hend, -⟩ := hall k (Nat.zero_le k) hk
              have hmod := Nat.mod_le ((b / e.vol.groupSize + 1) * e.vol.groupSize) (2 ^ 64)
              exact ⟨(hend.trans_le (min_le_left _ _)).trans_le hmod, hend.trans_le (min_le_right _ _)⟩
            have hlast := hin (count - 1) (by omega)
            have hsum : b + (count - 1) = b + count - 1 := by omega
            refine ⟨hbitmap, ⟨?_, fun k hk => ?_⟩, by omega⟩
            · rw [← hsum]
              exact (in_group e.groupSize_pos hlast.1).1
            · rw [isFree_iff (hin k hk).1, ← hbitmap]
              exact (hall k (Nat.zero_le k) hk).2
          · exact ih h
        · exact ih h
    · cases h

/-- The volumes for which the engine's arithmetic is sound: a group's bitmap is one block, and the 32-bit group
    number of a block run reaches every block. -/
structure Addressable (v : Volume) : Prop where
  shift_le : v.agShift ≤ 15
  numBlocks_le : v.numBlocks ≤ 2 ^ 32 * v.groupSize

theorem Addressable.groupSize_le {v : Volume} (h : Addressable v) : v.groupSize ≤ 2 ^ 15 :=
  Nat.pow_le_pow_right (by decide) h.shift_le

theorem lt_groupEnd (e : Engine) (b : Nat) : b < (b / e.vol.groupSize + 1) * e.vol.groupSize :=
  (Nat.div_lt_iff_lt_mul e.groupSize_pos).mp (Nat.lt_succ_self _)

theorem no_run_before {run : Nat} (hshort : run < count) (hin : b + run ≤ (b / e.vol.groupSize + 1) * e.vol.groupSize)
    (hblocked : (b / e.vol.groupSize + 1) * e.vol.groupSize ≤ b + run ∨ stop ≤ b + run ∨ ¬ e.IsFree (b + run))
    (hle : b ≤ w) (hlt : w < b + max run 1) (hstop : w + count ≤ stop) : ¬ e.FreeRun count w := by
  intro hfree
  obtain ⟨hgroup, hbit⟩ := hfree.at (b := b + run) (by omega) (by omega)
  rcases hblocked with hend | hend | hused
  · -- the group ends before the run does
    have hb := e.lt_groupEnd b
    have hw : w < (b / e.vol.groupSize + 1) * e.vol.groupSize := by omega
    have hlow : w / e.vol.groupSize < b / e.vol.groupSize + 1 := (Nat.div_lt_iff_lt_mul e.groupSize_pos).mpr hw
    have hhigh : b / e.vol.groupSize + 1 ≤ (b + run) / e.vol.groupSize :=
      (Nat.le_div_iff_mul_le e.groupSize_pos).mpr hend
    omega
  · omega
  · exact hused hbit

theorem getBlock_wrapped (hvol : Addressable e.vol) (hpos : 0 < e.vol.numBlocks) (hcount : count ≤ e.vol.groupSize)
    (hwrap : 2 ^ 64 ≤ b + count) : e.getBlock (1 + b / e.vol.groupSize) = none := by
  have hg := hvol.groupSize_le
  have hn := hvol.numBlocks_le
  have hdiv : b / 2 ^ 15 ≤ b / e.vol.groupSize := Nat.div_le_div_left hg e.groupSize_pos
  exact if_pos ⟨hpos, by omega⟩

/-- What a pass has seen when it ends: no free run below the position it found, or none at all. -/
def Seen (e : Engine) (count stop b : Nat) (r : PassEnd) : Prop :=
  ∀ w, b ≤ w → w + count ≤ stop → (∀ start bitmap, r = .found start bitmap → w < start) → ¬ e.FreeRun count w

/-- **A pass looks everywhere**: what it leaves out holds no free run. -/
theorem allocPass_seen {r : PassEnd} (hvol : Addressable e.vol) (hpos : 0 < e.vol.numBlocks)
    (hstop : stop ≤ e.vol.numBlocks) (hcount : 0 < count) (hfits : count ≤ e.vol.groupSize)
    (h : e.allocPass count stop n b = some r) (hread : r ≠ .readFailed) :
    (∀ start bitmap, r = .found start bitmap → b ≤ start) ∧ e.Seen count stop b r := by
  have hg := hvol.groupSize_le
  have hsize : stop ≤ 2 ^ 47 := by
    have hn := hvol.numBlocks_le
    omega
  induction n generalizing b with
  | zero => cases h
  | succ n ih =>
    -- a pass that goes on has seen what it skips
    have hnext : ∀ step, 0 < step → b + step ≤ 2 ^ 48 →
        (∀ w, b ≤ w → w < b + step → w + count ≤ stop → ¬ e.FreeRun count w) →
        e.allocPass count stop n ((b + step) % 2 ^ 64) = some r →
        (∀ start bitmap, r = .found start bitmap → b ≤ start) ∧ e.Seen count stop b r := by
      intro step hstep hsmall hskip hrest
      obtain ⟨hlow, hseen⟩ := ih hrest
      refine ⟨fun start bm hr => by have := hlow start bm hr; omega, fun w hle hend hbefore => ?_⟩
      by_cases hw : w < b + step
      · exact hskip w hle hw hend
      · exact hseen w (by omega) hend hbefore
    unfold allocPass at h
    split_ifs at h with hin
    · dsimp only at h
      have hnowrap : b + count < 2 ^ 64 := by
        by_contra hwrap
        have hmissing := getBlock_wrapped hvol hpos hfits (Nat.not_lt.mp hwrap)
        rw [hmissing] at h
        exact hread (Option.some.inj h).symm
      cases hget : e.getBlock (1 + b / e.vol.groupSize) with
      | none =>
        rw [hget] at h
        exact absurd (Option.some.inj h).symm hread
      | some bm =>
        rw [hget] at h
        have hbitmap := getBlock_some hget
        have hbend := e.lt_groupEnd b
        have hgend : (b / e.vol.groupSize + 1) * e.vol.groupSize < 2 ^ 64 := by
          have := Nat.div_mul_le_self b e.vol.groupSize
          rw [Nat.add_mul, Nat.one_mul]
          omega
        dsimp only at h
        by_cases hbit : bitTest bm (b - b / e.vol.groupSize * e.vol.groupSize) = false
        · rw [if_pos hbit, Nat.mod_eq_of_lt hgend] at h
          obtain ⟨hall, hmost, hended⟩ := freeRun_spec bm (b - b / e.vol.groupSize * e.vol.groupSize) b count
            (min ((b / e.vol.groupSize + 1) * e.vol.groupSize) stop) count 0
          generalize freeRun bm (b - b / e.vol.groupSize * e.vol.groupSize) b count
            (min ((b / e.vol.groupSize + 1) * e.vol.groupSize) stop) count 0 = run at h hall hmost hended
          have hreach : b + run ≤ (b / e.vol.groupSize + 1) * e.vol.groupSize ∧ b + run ≤ stop := by
            by_cases hzero : run = 0
            · omega
            · obtain ⟨hlast, -⟩ := hall (run - 1) (Nat.zero_le _) (by omega)
              omega
          split_ifs at h with hrun
          · -- found here
            have hr := (Option.some.inj h).symm
            refine ⟨fun start bm' heq => ?_, fun w hle hend hbefore => ?_⟩
            · rw [hr] at heq
              injection heq with heq
              exact heq.le
            · exact absurd (hbefore b bm hr) (by omega)
          · -- too few
            have hshort : run < count := lt_of_le_of_ne (hmost (Nat.zero_le count)) hrun
            have hblocked : (b / e.vol.groupSize + 1) * e.vol.groupSize ≤ b + run ∨ stop ≤ b + run ∨
                ¬ e.IsFree (b + run) := by
              by_cases hgroup : b + run < (b / e.vol.groupSize + 1) * e.vol.groupSize
              · rcases hended (by omega) hshort with hend | hused
                · exact .inr (.inl (by omega))
                · refine .inr (.inr ?_)
                  rw [isFree_iff hgroup, ← hbitmap, hused]
                  exact Bool.true_eq_false.mp
              · exact .inl (Nat.not_lt.mp hgroup)
            refine hnext (max run 1) (by omega) (by omega) (fun w hle hlt hend => ?_) h
            exact no_run_before hshort hreach.1 hblocked hle hlt hend
        · -- a block in use
          rw [if_neg hbit] at h
          have hused : ¬ e.IsFree (b + 0) := by
            rw [isFree_iff hbend, ← hbitmap]
            exact hbit
          refine hnext 1 (by omega) (by omega) (fun w hle hlt hend => ?_) h
          exact no_run_before (by omega) hbend.le (.inr (.inr hused)) hle hlt hend
    · have hr := (Option.some.inj h).symm
      refine ⟨fun start bm heq => ?_, fun w hle hend hbefore => ?_⟩
      · rw [hr] at heq
        cases heq
      · have hpast : stop < b + count := by
          by_cases hnowrap : b + count < 2 ^ 64
          · rw [Nat.mod_eq_of_lt hnowrap] at hin
            omega
          · omega
        omega

/-- **A pass ends**, given a round for every position. -/
theorem allocPass_ends (hvol : Addressable e.vol) (hpos : 0 < e.vol.numBlocks)
    (hstop : stop ≤ e.vol.numBlocks) (hcount : 0 < count) (hfits : count ≤ e.vol.groupSize) (hb : b < 2 ^ 64)
    (hn : stop < b + n ∧ 0 < n) : e.allocPass count stop n b ≠ none := by
  induction n generalizing b with
  | zero => omega
  | succ n ih =>
    unfold allocPass
    split_ifs with hin
    · dsimp only
      cases hget : e.getBlock (1 + b / e.vol.groupSize) with
      | none => exact Option.some_ne_none _
      | some bm =>
        have hnowrap : b + count < 2 ^ 64 := by
          by_contra hwrap
          have hmissing := getBlock_wrapped hvol hpos hfits (Nat.not_lt.mp hwrap)
          rw [hmissing] at hget
          cases hget
        have hnext : ∀ step, 0 < step → step ≤ count → e.allocPass count stop n ((b + step) % 2 ^ 64) ≠ none := by
          intro step hstep hle
          exact ih (by omega) (by omega)
        dsimp only
        split
        · split
          · exact Option.some_ne_none _
          · obtain ⟨-, hmost, -⟩ := freeRun_spec bm (b - b / e.vol.groupSize * e.vol.groupSize) b count
              (min ((b / e.vol.groupSize + 1) * e.vol.groupSize % 2 ^ 64) stop) count 0
            exact hnext _ (by omega) (by omega)
        · exact hnext 1 (by omega) (by omega)
    · exact Option.some_ne_none _

/-! ## Both passes -/

/-- A run that does not begin below the hint and end above it. -/
def Reached (allocHint count b : Nat) : Prop := allocHint ≤ b ∨ b + count ≤ allocHint

/-- The order of the positions: from the hint up, then from the start. -/
def Precedes (allocHint b' b : Nat) : Prop :=
  (allocHint ≤ b' ∧ b < allocHint) ∨ (b' < b ∧ (allocHint ≤ b' ↔ allocHint ≤ b))

/-- The first free run that is reached. -/
structure FirstFit (e : Engine) (allocHint count b : Nat) : Prop where
  window : e.FreeWindow count b
  reached : Reached allocHint count b
  first : ∀ b', e.FreeWindow count b' → Reached allocHint count b' → ¬ Precedes allocHint b' b

theorem FirstFit.unique {b' : Nat} (h : e.FirstFit allocHint count b) (h' : e.FirstFit allocHint count b') : b = b' := by
  have h1 := h.first b' h'.window h'.reached
  have h2 := h'.first b h.window h.reached
  unfold Precedes at h1 h2
  omega

/-- **`Alloc` is first fit**: it takes the first free run that is reached, or says that there is none. -/
theorem alloc_firstFit {r : AllocOutcome} (hvol : Addressable e.vol) (hpos : 0 < e.vol.numBlocks) (hcount : 0 < count)
    (hfits : count ≤ e.vol.groupSize) (h : e.alloc allocHint count = some r) (hread : r ≠ .readFailed) :
    (∃ start, r = .found start ((start + count) % 2 ^ 64)
        (e.allocTake start count (e.block (1 + start / e.vol.groupSize))) ∧ e.FirstFit allocHint count start) ∨
      (r = .noRoom ∧ ∀ b, e.FreeWindow count b → ¬ Reached allocHint count b) := by
  unfold alloc at h
  cases hup : e.allocPass count e.vol.numBlocks (2 ^ 64) (max allocHint e.logEnd) with
  | none =>
    rw [hup] at h
    cases h
  | some up =>
    rw [hup] at h
    cases up with
    | readFailed => exact absurd (Option.some.inj h).symm hread
    | found start bitmap =>
      -- found at or above the hint
      obtain ⟨hbitmap, hrun, hend⟩ := allocPass_found hcount hup
      obtain ⟨hlow, hseen⟩ := allocPass_seen hvol hpos le_rfl hcount hfits hup (fun heq => by cases heq)
      have hstart := hlow start bitmap rfl
      refine .inl ⟨start, ?_, ⟨by omega, hend, hrun⟩, .inl (by omega), fun b' hb' _ hprec => ?_⟩
      · rw [← hbitmap]
        exact (Option.some.inj h).symm
      · have habove := hb'.above_log
        unfold Precedes at hprec
        refine hseen b' (by omega) hb'.below_end (fun start' bitmap' heq => ?_) hb'.run
        injection heq with heq
        omega
    | ended =>
      obtain ⟨-, hseenUp⟩ := allocPass_seen hvol hpos le_rfl hcount hfits hup (fun heq => by cases heq)
      have hnone : ∀ b', e.FreeWindow count b' → ¬ allocHint ≤ b' := by
        intro b' hb' hle
        have habove := hb'.above_log
        exact hseenUp b' (by omega) hb'.below_end (fun start bitmap heq => by cases heq) hb'.run
      cases hdown : e.allocPass count (min allocHint e.vol.numBlocks) (2 ^ 64) e.logEnd with
      | none =>
        rw [hdown] at h
        cases h
      | some down =>
        rw [hdown] at h
        cases down with
        | readFailed => exact absurd (Option.some.inj h).symm hread
        | found start bitmap =>
          -- found below the hint
          obtain ⟨hbitmap, hrun, hend⟩ := allocPass_found hcount hdown
          obtain ⟨hlow, hseen⟩ := allocPass_seen hvol hpos (min_le_right _ _) hcount hfits hdown
            (fun heq => by cases heq)
          have hstart := hlow start bitmap rfl
          refine .inl ⟨start, ?_, ⟨hstart, by omega, hrun⟩, .inr (by omega), fun b' hb' hreached hprec => ?_⟩
          · rw [← hbitmap]
            exact (Option.some.inj h).symm
          · have hbelow := hnone b' hb'
            unfold Precedes at hprec
            refine hseen b' hb'.above_log (by omega) (fun start' bitmap' heq => ?_) hb'.run
            injection heq with heq
            omega
        | ended =>
          obtain ⟨-, hseen⟩ := allocPass_seen hvol hpos (min_le_right _ _) hcount hfits hdown
            (fun heq => by cases heq)
          refine .inr ⟨(Option.some.inj h).symm, fun b' hb' hreached => ?_⟩
          have hbelow := hnone b' hb'
          have hend' := hb'.below_end
          unfold Reached at hreached
          exact hseen b' hb'.above_log (by omega) (fun start bitmap heq => by cases heq) hb'.run

theorem alloc_returns (hvol : Addressable e.vol) (hpos : 0 < e.vol.numBlocks) (hcount : 0 < count)
    (hfits : count ≤ e.vol.groupSize) (hhint : allocHint < 2 ^ 64) : ∃ r, e.alloc allocHint count = some r := by
  have hlog : e.logEnd < 2 ^ 64 := Nat.mod_lt _ (by decide)
  have hsize : e.vol.numBlocks < 2 ^ 64 := by
    have hg := hvol.groupSize_le
    have hn := hvol.numBlocks_le
    omega
  unfold alloc
  cases hup : e.allocPass count e.vol.numBlocks (2 ^ 64) (max allocHint e.logEnd) with
  | none => exact absurd hup (allocPass_ends hvol hpos le_rfl hcount hfits (by omega) ⟨by omega, by decide⟩)
  | some up =>
    cases up with
    | readFailed => exact ⟨_, rfl⟩
    | found start bitmap => exact ⟨_, rfl⟩
    | ended =>
      cases hdown : e.allocPass count (min allocHint e.vol.numBlocks) (2 ^ 64) e.logEnd with
      | none =>
        exact absurd hdown (allocPass_ends hvol hpos (min_le_right _ _) hcount hfits hlog ⟨by omega, by decide⟩)
      | some down =>
        cases down with
        | readFailed => exact ⟨_, rfl⟩
        | found start bitmap => exact ⟨_, rfl⟩
        | ended => exact ⟨_, rfl⟩

/-- **The blocks are taken**, exactly if the bitmap block has a place in the transaction. -/
theorem allocTake_takes (hrun : e.FreeRun count b) (hcount : 0 < count) :
    e.Takes (e.allocTake b count (e.block (1 + b / e.vol.groupSize))) b count ↔
      e.TransRoom (1 + b / e.vol.groupSize) := by
  have hmod : b - b / e.vol.groupSize * e.vol.groupSize = b % e.vol.groupSize := by
    have := Nat.div_add_mod' b e.vol.groupSize
    omega
  have hview : ∀ num, (e.allocTake b count (e.block (1 + b / e.vol.groupSize))).block num =
      (e.transAdd (1 + b / e.vol.groupSize)
        (setBits (e.block (1 + b / e.vol.groupSize)) (b % e.vol.groupSize) count)).block num := by
    intro num
    rw [← hmod]
    rfl
  constructor
  · intro htakes
    by_contra hfull
    have hbit := htakes (1 + b / e.vol.groupSize) (b % e.vol.groupSize)
    rw [hview, block_transAdd_full hfull, decide_eq_true ⟨rfl, le_rfl, by omega⟩, Bool.true_or] at hbit
    have hfree := hrun.free 0 hcount
    exact Bool.false_ne_true (hfree.symm.trans hbit)
  · intro hroom num i
    rw [hview, block_transAdd hroom]
    by_cases hnum : num = 1 + b / e.vol.groupSize
    · subst hnum
      rw [if_pos rfl, bitTest_setBits]
      simp only [true_and]
    · rw [if_neg hnum, decide_eq_false (fun hn => hnum hn.1), Bool.false_or]

/-- **`Alloc` is sound and complete.** -/
structure AllocExact (e : Engine) (allocHint count : Nat) : Prop where
  sound : ∀ start allocHint' e', e.alloc allocHint count = some (.found start allocHint' e') →
    e.FreeWindow count start ∧ e.Takes e' start count
  complete : e.alloc allocHint count = some .noRoom → ∀ b, ¬ e.FreeWindow count b

/-- **Exactly when `Alloc` is sound and complete**: some free run is reached if there is one, and the bitmap
    block of the first one has a place in the transaction. -/
theorem alloc_exact_iff (hvol : Addressable e.vol) (hcount : 0 < count) (hhint : allocHint < 2 ^ 64)
    (hreads : e.alloc allocHint count ≠ some .readFailed) :
    e.AllocExact allocHint count ↔
      (∀ b, e.FreeWindow count b → ∃ b', e.FreeWindow count b' ∧ Reached allocHint count b') ∧
      ∀ b, e.FirstFit allocHint count b → e.TransRoom (1 + b / e.vol.groupSize) := by
  constructor
  · intro hexact
    have hcase : ∀ b, e.FreeWindow count b → ∃ start, e.FirstFit allocHint count start ∧
        e.TransRoom (1 + start / e.vol.groupSize) := by
      intro b hb
      have hpos : 0 < e.vol.numBlocks := by
        have := hb.below_end
        omega
      have hfits := hb.run.count_le
      obtain ⟨r, hr⟩ := alloc_returns hvol hpos hcount hfits hhint
      rcases alloc_firstFit hvol hpos hcount hfits hr (fun heq => hreads (heq ▸ hr)) with
        ⟨start, rfl, hfirst⟩ | ⟨rfl, hnone⟩
      · obtain ⟨-, htakes⟩ := hexact.sound _ _ _ hr
        exact ⟨start, hfirst, (allocTake_takes hfirst.window.run hcount).mp htakes⟩
      · exact absurd hb (hexact.complete hr b)
    refine ⟨fun b hb => ?_, fun b hb => ?_⟩
    · obtain ⟨start, hfirst, -⟩ := hcase b hb
      exact ⟨start, hfirst.window, hfirst.reached⟩
    · obtain ⟨start, hfirst, hroom⟩ := hcase b hb.window
      rwa [hb.unique hfirst]
  · rintro ⟨hreached, hroom⟩
    refine ⟨fun start allocHint' e' hr => ?_, fun hr b hb => ?_⟩
    · have hfound : 0 < e.vol.numBlocks ∧ count ≤ e.vol.groupSize := by
        unfold alloc at hr
        cases hup : e.allocPass count e.vol.numBlocks (2 ^ 64) (max allocHint e.logEnd) with
        | none =>
          rw [hup] at hr
          cases hr
        | some up =>
          rw [hup] at hr
          cases up with
          | readFailed => cases hr
          | found w bitmap =>
            obtain ⟨-, hrun, hend⟩ := allocPass_found hcount hup
            exact ⟨by omega, hrun.count_le⟩
          | ended =>
            cases hdown : e.allocPass count (min allocHint e.vol.numBlocks) (2 ^ 64) e.logEnd with
            | none =>
              rw [hdown] at hr
              cases hr
            | some down =>
              rw [hdown] at hr
              cases down with
              | readFailed => cases hr
              | ended => cases hr
              | found w bitmap =>
                obtain ⟨-, hrun, hend⟩ := allocPass_found hcount hdown
                exact ⟨by omega, hrun.count_le⟩
      rcases alloc_firstFit hvol hfound.1 hcount hfound.2 hr (fun heq => by cases heq) with
        ⟨start', heq, hfirst⟩ | ⟨heq, -⟩
      · injection heq with h1 h2 h3
        subst h1 h3
        exact ⟨hfirst.window, (allocTake_takes hfirst.window.run hcount).mpr (hroom _ hfirst)⟩
      · cases heq
    · have hpos : 0 < e.vol.numBlocks := by
        have := hb.below_end
        omega
      rcases alloc_firstFit hvol hpos hcount hb.run.count_le hr (fun heq => by cases heq) with
        ⟨start, heq, -⟩ | ⟨-, hnone⟩
      · cases heq
      · obtain ⟨b', hb', hreach⟩ := hreached b hb
        exact hnone b' hb' hreach

/-! ## Two free blocks -/

/-- A small volume in which blocks 7 and 8 are free, and no others. -/
def twoFree : Engine :=
  ⟨⟨13, 16, 0, 2, 2, 0, 0, 5, 0⟩, 0, .empty, false,
    ⟨fun num i => if num = 1 then (if i = 0 then 0x7F else if i = 1 then 0xFE else 0xFF) else 0, []⟩⟩

theorem twoFree_addressable : Addressable twoFree.vol := ⟨by decide, by decide⟩

/-- With the hint at the log's end they are found. -/
theorem alloc_exact_iff_twoFree : twoFree.AllocExact 4 2 := by
  have hreads : twoFree.alloc 4 2 ≠ some .readFailed := by
    have hfound : (twoFree.alloc 4 2).map AllocOutcome.ctorIdx ≠ some 2 := by decide +kernel
    intro h
    exact hfound (congrArg (Option.map AllocOutcome.ctorIdx) h)
  refine (alloc_exact_iff twoFree_addressable (by decide) (by decide) hreads).mpr ⟨fun b hb => ?_, fun b _ => ?_⟩
  · exact ⟨b, hb, .inl hb.above_log⟩
  · exact .inr (by decide)

/-- **With the hint between them they are missed.** -/
theorem alloc_misses : ¬ ∀ (e : Engine) (allocHint count : Nat), Addressable e.vol → 0 < count → allocHint < 2 ^ 64 →
    e.alloc allocHint count ≠ some .readFailed → e.AllocExact allocHint count := by
  intro hall
  have hresult : (twoFree.alloc 8 2).map AllocOutcome.ctorIdx = some 1 := by decide +kernel
  have hnone : twoFree.alloc 8 2 = some .noRoom := by
    obtain ⟨r, hr, hidx⟩ := Option.map_eq_some_iff.mp hresult
    cases r with
    | noRoom => exact hr
    | _ => cases hidx
  have hexact := hall twoFree 8 2 twoFree_addressable (by decide) (by decide) (by rw [hnone]; exact fun h => by cases h)
  refine hexact.complete hnone 7 ⟨by decide, by decide, by decide, fun k hk => ?_⟩
  revert k
  unfold IsFree
  decide +kernel

end Engine

end Aegir.Bfs
