/-
  Descriptors are conserved, and completions arrive once each.

  Initialize builds the free list `0, 1, ..`; that the counters of both rings run modulo 2^16 and are reduced
  modulo `Num` does no harm, because `Num` divides 2^16 and neither side is ever more than `Num` entries
  behind: the entries under way are heads of different chains.
-/
import Aegir.Lib.Circular
import Aegir.Virtio.DescriptorLaws

namespace Aegir.Virtio

open Aegir.Lib Queue List Function

/-! ## Initialize -/

section Initialize

variable {n : UInt16} {σ : Type}

theorem forRange_spec {f : UInt16 → σ → Option σ} {P : Nat → σ → Prop} {m : Nat} {s : σ}
    (hstart : P 0 s) (hturn : ∀ k s, k < m → P k s → ∃ s', f (UInt16.ofNat k) s = some s' ∧ P (k + 1) s') :
    ∃ s', forRange f m s = some s' ∧ P m s' := by
  induction m with
  | zero => exact ⟨s, rfl, hstart⟩
  | succ m ih =>
    obtain ⟨s', hs', hP⟩ := ih fun k s hk => hturn k s (by omega)
    obtain ⟨s'', hs'', hP'⟩ := hturn m s' (Nat.lt_succ_self m) hP
    exact ⟨s'', by rw [forRange, hs', Option.bind_some, hs''], hP'⟩

theorem forRange_fails {f : UInt16 → σ → Option σ} {k m : Nat} (hk : k < m)
    (hfail : ∀ s, f (UInt16.ofNat k) s = none) (s : σ) : forRange f m s = none := by
  induction m with
  | zero => omega
  | succ m ih =>
    rw [forRange]
    rcases Nat.lt_or_ge k m with hlt | hge
    · rw [ih hlt, Option.bind_none]
    · have heq : k = m := by omega
      subst heq
      cases forRange f k s with
      | none => rfl
      | some s' => rw [Option.bind_some, hfail]

/-- `I + 1`, or none after the last. -/
def follower (n i : UInt16) : UInt16 := if i = n - 1 then noDesc else i + 1

theorem initDesc_spec {i : UInt16} (hi : i.toNat < 256) (m : Nat → UInt32) :
    ∃ m', initDesc n i m = some m' ∧ word m' = update (word m) i (linkWord (follower n i)) := by
  let m0 := update m (i.toNat * 4 + 0) 0
  let m1 := update m0 (i.toNat * 4 + 1) 0
  let m2 := update m1 (i.toNat * 4 + 2) 0
  refine ⟨update m2 (i.toNat * 4 + 3) (linkWord (follower n i)), ?_, ?_⟩
  · have hzero : i * 4 = i * 4 + 0 := (UInt16.add_zero _).symm
    rw [initDesc, hzero, setWord_index _ hi 0 (by decide), ← hzero]
    simp only [Option.bind_eq_bind, Option.bind_some]
    rw [setWord_index _ hi 1 (by decide), Option.bind_some, setWord_index _ hi 2 (by decide), Option.bind_some,
      setWord_index _ hi 3 (by decide)]
    rfl
  · rw [word_update, word_update_other _ _ 2 (by decide), word_update_other _ _ 1 (by decide),
      word_update_other _ _ 0 (by decide)]

theorem toNat_ofNat_lt {k : Nat} (hk : k < 65536) : (UInt16.ofNat k).toNat = k :=
  UInt16.toNat_ofNat_of_lt' (show k < 2 ^ 16 from hk)

/-- The descriptors from `k` on, in order. -/
def upFrom (n : UInt16) (k : Nat) : List UInt16 := (range' k (n.toNat - k)).map UInt16.ofNat

theorem upFrom_isChain (hn : n.toNat ≤ 256) {m : Nat → UInt32}
    (hlinks : ∀ i, i < n.toNat → word m (UInt16.ofNat i) = linkWord (follower n (UInt16.ofNat i))) (k : Nat)
    (hk : k < n.toNat) : IsChain noDesc (half m) (UInt16.ofNat k) (upFrom n k) := by
  obtain ⟨j, hj⟩ : ∃ j, n.toNat = k + 1 + j := ⟨n.toNat - k - 1, by omega⟩
  have hlast : (n - 1).toNat = n.toNat - 1 :=
    UInt16.toNat_sub_of_le _ _ (UInt16.le_iff_toNat_le.mpr (show 1 ≤ _ by omega))
  have hkn := toNat_ofNat_lt (k := k) (by omega)
  induction j generalizing k with
  | zero =>
    have hone : n.toNat - k = 1 := by omega
    rw [upFrom, hone]
    refine ⟨rfl, Descriptors.ne_noDesc (by omega), ?_⟩
    rw [half, hlinks k hk, nextHalf_linkWord, follower, if_pos]
    · exact rfl
    · rw [← UInt16.toNat_inj, hlast, hkn]
      omega
  | succ j ih =>
    have hsplit : upFrom n k = UInt16.ofNat k :: upFrom n (k + 1) := by
      have hlen : n.toNat - k = n.toNat - (k + 1) + 1 := by omega
      rw [upFrom, hlen, range'_succ, map_cons]
      rfl
    have hnext : half m (UInt16.ofNat k) = UInt16.ofNat (k + 1) := by
      have hone : (1 : UInt16).toNat = 1 := rfl
      rw [half, hlinks k hk, nextHalf_linkWord, follower, if_neg]
      · rw [← UInt16.toNat_inj, UInt16.toNat_add, hkn, hone, toNat_ofNat_lt (by omega)]
        omega
      · rw [← UInt16.toNat_inj, hlast, hkn]
        omega
    rw [hsplit]
    refine ⟨rfl, Descriptors.ne_noDesc (by omega), ?_⟩
    rw [hnext]
    exact ih (k + 1) (by omega) (by omega) (toNat_ofNat_lt (by omega))

/-- **Initialize** succeeds up to 256 descriptors, with all of them free and both rings empty. -/
theorem initializeQueue_spec (hpos : 0 < n.toNat) (hn : n.toNat ≤ 256) (desc : Nat → UInt32)
    (avail : Nat → UInt16) (used : Nat → UInt32) :
    ∃ q, initializeQueue desc avail used n = some q ∧ Descriptors n q (upFrom n 0) [] ∧ q.availIdx = 0 ∧
      q.usedIdx = 0 ∧ q.avail 1 = 0 ∧ q.used 0 = 0 := by
  have hone : (1 : UInt16).toNat = 1 := rfl
  have htwo : (2 : UInt16).toNat = 2 := rfl
  have hlast : (n - 1).toNat + 1 = n.toNat := by
    rw [UInt16.toNat_sub_of_le _ _ (UInt16.le_iff_toNat_le.mpr (show 1 ≤ _ by omega)), hone]
    omega
  obtain ⟨desc', hdesc, hlinks⟩ := forRange_spec (f := initDesc n) (s := desc) (m := n.toNat)
    (P := fun k m => ∀ i, i < k → word m (UInt16.ofNat i) = linkWord (follower n (UInt16.ofNat i)))
    (by intro i hi; omega) (by
      intro k m hk hP
      have hkn := toNat_ofNat_lt (k := k) (by omega)
      obtain ⟨m', hm', hword⟩ := initDesc_spec (n := n) (i := UInt16.ofNat k) (by omega) m
      refine ⟨m', hm', fun i hi => ?_⟩
      rw [hword]
      by_cases hik : i = k
      · rw [hik, update_self]
      · have hin := toNat_ofNat_lt (k := i) (by omega)
        rw [update_of_ne, hP i (by omega)]
        exact fun heq => hik (by rw [← hin, ← hkn, heq]))
  obtain ⟨used', hused, hused0⟩ := forRange_spec (f := fun i m => setWord m i 0) (s := used)
    (m := (2 * n + 1).toNat + 1) (P := fun k m => 0 < k → m 0 = 0) nofun (by
      intro k m hk hP
      have hbound : (2 * n + 1).toNat ≤ 513 := by
        rw [UInt16.toNat_add, UInt16.toNat_mul, hone, htwo]
        omega
      have hkn := toNat_ofNat_lt (k := k) (by omega)
      refine ⟨_, if_pos (UInt16.le_iff_toNat_le.mpr (show _ ≤ 1023 by omega)), fun _ => ?_⟩
      rw [hkn]
      by_cases hk0 : k = 0
      · rw [hk0, update_self]
      · rw [update_of_ne (Ne.symm hk0), hP (by omega)])
  obtain ⟨avail', havail, havail1⟩ := forRange_spec (f := fun i m => setHalf m i 0) (s := avail)
    (m := (n + 1).toNat + 1) (P := fun k m => 1 < k → m 1 = 0) nofun (by
      intro k m hk hP
      have hbound : (n + 1).toNat ≤ 257 := by
        rw [UInt16.toNat_add, hone]
        omega
      have hkn := toNat_ofNat_lt (k := k) (by omega)
      refine ⟨_, if_pos (UInt16.le_iff_toNat_le.mpr (show _ ≤ 2047 by omega)), fun _ => ?_⟩
      rw [hkn]
      by_cases hk1 : k = 1
      · rw [hk1, update_self]
      · rw [update_of_ne (Ne.symm hk1), hP (by omega)])
  have hne : n ≠ 0 := by
    rintro rfl
    exact absurd hpos (by decide)
  refine ⟨⟨desc', avail', used', n, 0, n, 0, 0⟩, ?_, ⟨rfl, ?_, ?_⟩, rfl, rfl, ?_, hused0 (by omega)⟩
  · rw [initializeQueue, hlast, hdesc]
    simp only [Option.bind_eq_bind, Option.bind_some]
    rw [hused, Option.bind_some, havail, Option.bind_some, if_neg hne]
  · constructor
    · exact upFrom_isChain hn hlinks 0 hpos
    · exact nofun
    · rw [flatten_nil, append_nil]
      exact (upFrom_isChain hn hlinks 0 hpos).nodup
    · intro d
      rw [flatten_nil, append_nil, upFrom, mem_map]
      constructor
      · rintro ⟨k, hk, rfl⟩
        have hk' : k < n.toNat := by
          have := mem_range'_1.mp hk
          omega
        rwa [toNat_ofNat_lt (by omega)]
      · intro hd
        exact ⟨d.toNat, mem_range'_1.mpr (by omega), UInt16.ofNat_toNat⟩
  · rw [upFrom, length_map, length_range', Nat.sub_zero]
  · refine havail1 ?_
    rw [UInt16.toNat_add, hone]
    omega

end Initialize

/-! ## What holds between steps -/

/-- `free` is the free list now; both rings hold what is under way, and the chains lent to the device are those
    whose heads are under way. -/
structure Sound (n : UInt16) (w : World) (free : List UInt16) : Prop where
  descriptors : Descriptors n w.q free (w.held ++ w.lent)
  avail : RingLog n.toNat (fun k => w.q.avail (2 + k)) w.submitted w.taken.length
  taken : w.taken = w.submitted.take w.taken.length
  availIdx : w.q.availIdx.toNat = w.submitted.length % 65536
  availWord : w.q.avail 1 = w.q.availIdx
  seen : w.dev.seen.toNat = w.taken.length % 65536
  used : RingLog n.toNat (fun k => (w.q.used (1 + k * 2), w.q.used (2 + k * 2)))
    (w.returned.map fun e => (e.1.toUInt32, e.2)) w.popped.length
  popped : w.popped = w.returned.take w.popped.length
  usedIdx : w.q.usedIdx.toNat = w.popped.length % 65536
  devUsed : w.dev.usedIdx.toNat = w.returned.length % 65536
  usedWord : nextHalf (w.q.used 0) = w.dev.usedIdx
  flight : (w.returned.map Prod.fst ++ w.dev.inFlight).Perm w.taken
  heads : (w.lent.filterMap head?).Perm
    (w.submitted.drop w.taken.length ++ w.dev.inFlight ++ (w.returned.drop w.popped.length).map Prod.fst)

/-- The queue's size is one that its overlays and its counters allow. -/
structure Fit (n : UInt16) : Prop where
  pos : 0 < n.toNat
  le : n.toNat ≤ 256
  dvd : n.toNat ∣ 65536

theorem heads_sublist (chains : List (List UInt16)) : (chains.filterMap head?).Sublist chains.flatten := by
  induction chains with
  | nil => exact .slnil
  | cons c cs ih =>
    cases c with
    | nil => exact ih
    | cons h t =>
      exact (ih.trans (sublist_append_right _ _)).cons_cons h

section Counters

variable {n i : UInt16} {k : Nat}

theorem slot_eq (hfit : Fit n) (hi : i.toNat = k % 65536) : (i % n).toNat = k % n.toNat := by
  rw [UInt16.toNat_mod, hi, Nat.mod_mod_of_dvd _ hfit.dvd]

theorem count_succ (hi : i.toNat = k % 65536) : (i + 1).toNat = (k + 1) % 65536 := by
  have hone : (1 : UInt16).toNat = 1 := rfl
  rw [UInt16.toNat_add, hi, hone]
  omega

end Counters

namespace Sound

variable {n : UInt16} {w : World} {free : List UInt16} {q : Queue}

theorem under_way (h : Sound n w free) :
    (w.held.filterMap head?).length + (w.submitted.length - w.taken.length) + w.dev.inFlight.length +
      (w.returned.length - w.popped.length) ≤ n.toNat := by
  have hlen := h.descriptors.length_eq
  have hsub := (heads_sublist (w.held ++ w.lent)).length_le
  have hheads := h.heads.length_eq
  rw [filterMap_append, length_append] at hsub
  simp only [length_append, length_drop, length_map] at hheads
  omega

theorem start (hq : Descriptors n q free []) (havail : q.availIdx = 0) (hused : q.usedIdx = 0)
    (havail1 : q.avail 1 = 0) (hused0 : q.used 0 = 0) : Sound n (.start q) free := by
  constructor
  · exact hq
  · exact .empty _ _
  · exact rfl
  · show q.availIdx.toNat = 0
    rw [havail]
    rfl
  · show q.avail 1 = q.availIdx
    rw [havail, havail1]
  · exact rfl
  · exact .empty _ _
  · exact rfl
  · show q.usedIdx.toNat = 0
    rw [hused]
    rfl
  · exact rfl
  · show nextHalf (q.used 0) = 0
    rw [hused0]
    decide
  · exact .nil
  · exact .nil

theorem of_descriptors {free' : List UInt16} {held : List (List UInt16)} (h : Sound n w free)
    (hd : Descriptors n q free' (held ++ w.lent)) (hsame : SameRings w.q q) :
    Sound n { w with q := q, held := held } free' := by
  obtain ⟨havail, hused, havailIdx, husedIdx⟩ := hsame
  constructor
  · exact hd
  · show RingLog _ (fun k => q.avail (2 + k)) _ _
    rw [havail]
    exact h.avail
  · exact h.taken
  · exact (congrArg UInt16.toNat havailIdx).trans h.availIdx
  · show q.avail 1 = q.availIdx
    rw [havail, havailIdx]
    exact h.availWord
  · exact h.seen
  · show RingLog _ (fun k => (q.used (1 + k * 2), q.used (2 + k * 2))) _ _
    rw [hused]
    exact h.used
  · exact h.popped
  · exact (congrArg UInt16.toNat husedIdx).trans h.usedIdx
  · exact h.devUsed
  · show nextHalf (q.used 0) = _
    rw [hused]
    exact h.usedWord
  · exact h.flight
  · exact h.heads

end Sound

/-! ## The rings -/

section Rings

variable {n : UInt16} {w : World} {free : List UInt16}

theorem submit_eq (h : Sound n w free) (hfit : Fit n) (head : UInt16) :
    w.q.submit head = some { w.q with
      avail := update (update w.q.avail (2 + w.submitted.length % n.toNat) head) 1 (w.q.availIdx + 1)
      availIdx := w.q.availIdx + 1 } := by
  have hnum := h.descriptors.num
  have hslot := slot_eq hfit h.availIdx
  have hlt : w.submitted.length % n.toNat < n.toNat := Nat.mod_lt _ hfit.pos
  have hle := hfit.le
  have htwo : (2 : UInt16).toNat = 2 := rfl
  have hindex : (2 + w.q.availIdx % n).toNat = 2 + w.submitted.length % n.toNat := by
    rw [UInt16.toNat_add, hslot, htwo]
    omega
  have hne : n ≠ 0 := by
    rintro rfl
    exact absurd hfit.pos (by decide)
  have hfirst : setHalf w.q.avail (2 + w.q.availIdx % n) head =
      some (update w.q.avail (2 + w.submitted.length % n.toNat) head) := by
    rw [setHalf, if_pos, hindex]
    rw [UInt16.le_iff_toNat_le, hindex]
    show _ ≤ 2047
    omega
  rw [Queue.submit, hnum, if_neg hne, hfirst, ← hnum]
  rfl

theorem pop_eq (h : Sound n w free) (hfit : Fit n) {e : UInt16 × UInt32}
    (he : w.returned[w.popped.length]? = some e) :
    w.q.pop = some (e, { w.q with usedIdx := w.q.usedIdx + 1 }) := by
  have hnum := h.descriptors.num
  have hslot := slot_eq hfit h.usedIdx
  have hlt : w.popped.length % n.toNat < n.toNat := Nat.mod_lt _ hfit.pos
  have hle := hfit.le
  have hone : (1 : UInt16).toNat = 1 := rfl
  have htwo : (2 : UInt16).toNat = 2 := rfl
  have hmore : w.popped.length < w.returned.length := (List.getElem?_eq_some_iff.mp he).1
  obtain ⟨hcell, -⟩ := h.used.take (by rwa [length_map])
  rw [getElem?_map, he, Option.map_some, Option.some.injEq, Prod.mk.injEq] at hcell
  have hne : n ≠ 0 := by
    rintro rfl
    exact absurd hfit.pos (by decide)
  have hindex1 : (1 + w.q.usedIdx % n * 2).toNat = 1 + w.popped.length % n.toNat * 2 := by
    rw [UInt16.toNat_add, UInt16.toNat_mul, hslot, hone, htwo]
    omega
  have hindex2 : (2 + w.q.usedIdx % n * 2).toNat = 2 + w.popped.length % n.toNat * 2 := by
    rw [UInt16.toNat_add, UInt16.toNat_mul, hslot, htwo]
    omega
  have hid : wordAt w.q.used (1 + w.q.usedIdx % n * 2) = some e.1.toUInt32 := by
    rw [wordAt, if_pos, hindex1, ← hcell.1]
    rw [UInt16.le_iff_toNat_le, hindex1]
    show _ ≤ 1023
    omega
  have hlength : wordAt w.q.used (2 + w.q.usedIdx % n * 2) = some e.2 := by
    rw [wordAt, if_pos, hindex2, ← hcell.2]
    rw [UInt16.le_iff_toNat_le, hindex2]
    show _ ≤ 1023
    omega
  have hhead : toU16 e.1.toUInt32 = some e.1 := by
    have hbound := e.1.toNat_lt
    rw [toU16, if_pos, UInt16.toUInt16_toUInt32]
    rw [UInt32.le_iff_toNat_le, UInt16.toNat_toUInt32]
    show _ ≤ 65535
    omega
  rw [Queue.pop, hnum, if_neg hne, hid, Option.bind_eq_bind, Option.bind_some, hhead, Option.bind_eq_bind,
    Option.bind_some, hlength, ← hnum]
  rfl

theorem hasCompleted_iff (h : Sound n w free) (hfit : Fit n) :
    w.q.hasCompleted = true ↔ w.popped.length < w.returned.length := by
  have hle : w.popped.length ≤ w.returned.length := by
    have := h.used.le
    rwa [length_map] at this
  have hcount := h.used.count_eq_iff (m := 65536) (Nat.lt_of_le_of_lt hfit.le (by decide))
  rw [length_map] at hcount
  rw [Queue.hasCompleted, decide_eq_true_iff, ne_eq, h.usedWord, ← UInt16.toNat_inj, h.devUsed, h.usedIdx, hcount]
  omega

end Rings

/-! ## Steps -/

section Steps

variable {n d : UInt16} {w w' : World} {free t : List UInt16}

section

variable (h : Sound n w free)

include h

theorem sound_submit (hfit : Fit n)
    {rest : List (List UInt16)} {q : Queue} (hheld : w.held.Perm ((d :: t) :: rest))
    (hcall : w.q.submit d = some q) :
    Sound n { w with q := q, held := rest, lent := (d :: t) :: w.lent, submitted := w.submitted ++ [d] } free := by
  have hq := (submit_eq h hfit d).symm.trans hcall
  rw [Option.some.injEq] at hq
  subst hq
  have hroom : w.submitted.length < w.taken.length + n.toNat := by
    have hway := h.under_way
    have hone : 1 ≤ (w.held.filterMap head?).length := by
      rw [(hheld.filterMap _).length_eq]
      exact Nat.succ_le_succ (Nat.zero_le _)
    omega
  have hlen : (w.submitted ++ [d]).length = w.submitted.length + 1 := by simp
  constructor
  · have hperm : (w.held ++ w.lent).Perm (rest ++ (d :: t) :: w.lent) :=
      (hheld.append_right _).trans perm_middle.symm
    exact ⟨h.descriptors.num, h.descriptors.pool.perm hperm, h.descriptors.count⟩
  · apply h.avail.push hroom
    · show update (update w.q.avail _ d) 1 _ _ = d
      rw [update_of_ne (by omega), update_self]
    · intro i _ hne
      show update (update w.q.avail _ d) 1 _ (2 + i) = _
      rw [update_of_ne (by omega), update_of_ne (by omega)]
  · show w.taken = (w.submitted ++ [d]).take w.taken.length
    rw [take_append_of_le_length h.avail.le]
    exact h.taken
  · show (w.q.availIdx + 1).toNat = (w.submitted ++ [d]).length % 65536
    rw [hlen]
    exact count_succ h.availIdx
  · show update (update w.q.avail (2 + w.submitted.length % n.toNat) d) 1 (w.q.availIdx + 1) 1 = w.q.availIdx + 1
    rw [update_self]
  · exact h.seen
  · exact h.used
  · exact h.popped
  · exact h.usedIdx
  · exact h.devUsed
  · exact h.usedWord
  · exact h.flight
  · show (d :: w.lent.filterMap head?).Perm ((w.submitted ++ [d]).drop w.taken.length ++ w.dev.inFlight ++ _)
    rw [drop_append_of_le_length h.avail.le, append_assoc, append_assoc, singleton_append]
    refine List.Perm.trans (h.heads.cons d) ?_
    rw [append_assoc]
    exact perm_middle.symm

theorem sound_devTake (hfit : Fit n) (hmore : w.q.avail 1 ≠ w.dev.seen) : Sound n
      { w with
        dev := { w.dev with seen := w.dev.seen + 1, inFlight := w.nextHead :: w.dev.inFlight }
        taken := w.taken ++ [w.nextHead] } free := by
  have hlt : w.taken.length < w.submitted.length := by
    rw [ne_eq, h.availWord, ← UInt16.toNat_inj, h.availIdx, h.seen,
      h.avail.count_eq_iff (Nat.lt_of_le_of_lt hfit.le (by decide))] at hmore
    have hle := h.avail.le
    omega
  obtain ⟨hcell, hrest⟩ := h.avail.take hlt
  have hnext : w.submitted[w.taken.length]? = some w.nextHead := by
    rw [hcell, World.nextHead, h.descriptors.num, slot_eq hfit h.seen]
  have hlen : (w.taken ++ [w.nextHead]).length = w.taken.length + 1 := by simp
  have hdrop : w.submitted.drop w.taken.length = w.nextHead :: w.submitted.drop (w.taken.length + 1) := by
    obtain ⟨hbound, hval⟩ := List.getElem?_eq_some_iff.mp hnext
    rw [drop_eq_getElem_cons hbound, hval]
  constructor
  · exact h.descriptors
  · show RingLog _ _ _ (w.taken ++ [w.nextHead]).length
    rw [hlen]
    exact hrest
  · show w.taken ++ [w.nextHead] = w.submitted.take (w.taken ++ [w.nextHead]).length
    rw [hlen, take_succ_eq hnext, ← h.taken]
  · exact h.availIdx
  · exact h.availWord
  · show (w.dev.seen + 1).toNat = (w.taken ++ [w.nextHead]).length % 65536
    rw [hlen]
    exact count_succ h.seen
  · exact h.used
  · exact h.popped
  · exact h.usedIdx
  · exact h.devUsed
  · exact h.usedWord
  · show (w.returned.map Prod.fst ++ w.nextHead :: w.dev.inFlight).Perm (w.taken ++ [w.nextHead])
    refine perm_middle.trans ?_
    exact (h.flight.cons _).trans (perm_append_singleton _ _).symm
  · show (w.lent.filterMap head?).Perm
      (w.submitted.drop (w.taken ++ [w.nextHead]).length ++ w.nextHead :: w.dev.inFlight ++ _)
    refine h.heads.trans ?_
    rw [hlen, hdrop]
    exact List.Perm.append_right _ perm_middle.symm

theorem sound_devReturn (hfit : Fit n) (flags : UInt16) (length : UInt32)
    {rest : List UInt16} (hflight : w.dev.inFlight.Perm (d :: rest)) :
    Sound n
      { w with
        q := { w.q with used := w.usedAfter d flags length }
        dev := { w.dev with usedIdx := w.dev.usedIdx + 1, inFlight := rest }
        returned := w.returned ++ [(d, length)] } free := by
  have hslot : (w.dev.usedIdx % w.q.num).toNat = w.returned.length % n.toNat := by
    rw [h.descriptors.num, slot_eq hfit h.devUsed]
  have hle : w.popped.length ≤ w.returned.length := by
    have := h.used.le
    rwa [length_map] at this
  have hroom : w.returned.length < w.popped.length + n.toNat := by
    have hway := h.under_way
    have hone := hflight.length_eq
    rw [length_cons] at hone
    omega
  have hlen : (w.returned ++ [(d, length)]).length = w.returned.length + 1 := by simp
  constructor
  · exact ⟨h.descriptors.num, h.descriptors.pool, h.descriptors.count⟩
  · exact h.avail
  · exact h.taken
  · exact h.availIdx
  · exact h.availWord
  · exact h.seen
  · show RingLog _ (fun k => (w.usedAfter d flags length (1 + k * 2), w.usedAfter d flags length (2 + k * 2)))
      ((w.returned ++ [(d, length)]).map _) _
    rw [map_append, map_singleton]
    apply h.used.push
    · rwa [length_map]
    · rw [length_map]
      simp only [World.usedAfter, hslot, Prod.mk.injEq]
      constructor
      · rw [update_of_ne (by omega), update_of_ne (by omega), update_self]
      · rw [update_of_ne (by omega), update_self]
    · intro i _ hne
      rw [length_map] at hne
      simp only [World.usedAfter, hslot, Prod.mk.injEq]
      constructor
      · rw [update_of_ne (by omega), update_of_ne (by omega), update_of_ne (by omega)]
      · rw [update_of_ne (by omega), update_of_ne (by omega), update_of_ne (by omega)]
  · show w.popped = (w.returned ++ [(d, length)]).take w.popped.length
    rw [take_append_of_le_length hle]
    exact h.popped
  · exact h.usedIdx
  · show (w.dev.usedIdx + 1).toNat = (w.returned ++ [(d, length)]).length % 65536
    rw [hlen]
    exact count_succ h.devUsed
  · show nextHalf (w.usedAfter d flags length 0) = w.dev.usedIdx + 1
    rw [World.usedAfter, update_self, nextHalf_or_linkWord]
  · show ((w.returned ++ [(d, length)]).map Prod.fst ++ rest).Perm w.taken
    rw [map_append, map_singleton, append_assoc, singleton_append]
    exact (hflight.symm.append_left _).trans h.flight
  · show (w.lent.filterMap head?).Perm
      (w.submitted.drop w.taken.length ++ rest ++ ((w.returned ++ [(d, length)]).drop w.popped.length).map Prod.fst)
    refine h.heads.trans ?_
    rw [drop_append_of_le_length hle, map_append, map_singleton]
    have hmove : (w.submitted.drop w.taken.length ++ w.dev.inFlight).Perm
        (d :: (w.submitted.drop w.taken.length ++ rest)) :=
      (hflight.append_left _).trans perm_middle
    refine (hmove.append_right _).trans ?_
    rw [cons_append, ← append_assoc]
    exact (perm_append_singleton _ _).symm

theorem lent_of_next {e : UInt16 × UInt32} (he : w.returned[w.popped.length]? = some e) :
    ∃ t rest, w.lent.Perm ((e.1 :: t) :: rest) := by
  have hmem : e.1 ∈ w.lent.filterMap head? := by
    rw [h.heads.mem_iff]
    refine mem_append_right _ (mem_map_of_mem ?_)
    rw [mem_iff_getElem?]
    exact ⟨0, by rw [getElem?_drop, Nat.add_zero, he]⟩
  obtain ⟨c, hc, hhead⟩ := mem_filterMap.mp hmem
  obtain ⟨before, after, hlent⟩ := append_of_mem hc
  obtain ⟨t, rfl⟩ : ∃ t, c = e.1 :: t := by
    cases c with
    | nil => cases hhead
    | cons y ys => exact ⟨ys, by rw [Option.some.inj hhead]⟩
  exact ⟨t, before ++ after, by rw [hlent]; exact perm_middle⟩

theorem sound_pop (hfit : Fit n) {length : UInt32}
    {rest : List (List UInt16)} {q : Queue} (hready : w.q.hasCompleted = true)
    (hcall : w.q.pop = some ((d, length), q)) (hlent : w.lent.Perm ((d :: t) :: rest)) :
    Sound n { w with q := q, held := (d :: t) :: w.held, lent := rest, popped := w.popped ++ [(d, length)] } free := by
  have hlt := (hasCompleted_iff h hfit).mp hready
  have hnext : w.returned[w.popped.length]? = some w.returned[w.popped.length] := getElem?_eq_getElem hlt
  have hpop := (pop_eq h hfit hnext).symm.trans hcall
  rw [Option.some.injEq, Prod.mk.injEq] at hpop
  obtain ⟨he, rfl⟩ := hpop
  rw [he] at hnext
  have hlen : (w.popped ++ [(d, length)]).length = w.popped.length + 1 := by simp
  have hdrop : w.returned.drop w.popped.length = (d, length) :: w.returned.drop (w.popped.length + 1) := by
    rw [drop_eq_getElem_cons hlt, he]
  constructor
  · have hperm : (w.held ++ w.lent).Perm ((d :: t) :: w.held ++ rest) :=
      (hlent.append_left _).trans perm_middle
    exact ⟨h.descriptors.num, h.descriptors.pool.perm hperm, h.descriptors.count⟩
  · exact h.avail
  · exact h.taken
  · exact h.availIdx
  · exact h.availWord
  · exact h.seen
  · show RingLog _ _ _ (w.popped ++ [(d, length)]).length
    rw [hlen]
    exact (h.used.take (by rwa [length_map])).2
  · show w.popped ++ [(d, length)] = w.returned.take (w.popped ++ [(d, length)]).length
    rw [hlen, take_succ_eq hnext, ← h.popped]
  · show (w.q.usedIdx + 1).toNat = (w.popped ++ [(d, length)]).length % 65536
    rw [hlen]
    exact count_succ h.usedIdx
  · exact h.devUsed
  · exact h.usedWord
  · exact h.flight
  · show (rest.filterMap head?).Perm (w.submitted.drop w.taken.length ++ w.dev.inFlight ++
        (w.returned.drop (w.popped ++ [(d, length)]).length).map Prod.fst)
    have hheads := (hlent.filterMap head?).symm.trans h.heads
    rw [hdrop, map_cons] at hheads
    rw [hlen]
    exact (perm_cons d).mp (hheads.trans perm_middle)

/-- **Every step keeps the descriptors and the rings.** -/
theorem sound_step (hfit : Fit n) (hstep : Step w w') : ∃ free', Sound n w' free' := by
  cases hstep with
  | @alloc d q hcall hsome =>
    cases free with
    | nil =>
      rw [h.descriptors.alloc_empty] at hcall
      cases hcall
      exact absurd rfl hsome
    | cons f free =>
      obtain ⟨q', hq', hd, hsame⟩ := h.descriptors.alloc_spec hfit.le
      rw [hcall] at hq'
      cases hq'
      exact ⟨free, h.of_descriptors hd hsame⟩
  | @exhausted q hcall =>
    cases free with
    | nil =>
      rw [h.descriptors.alloc_empty] at hcall
      cases hcall
      exact ⟨[], h⟩
    | cons f free =>
      obtain ⟨q', hq', hd, hsame⟩ := h.descriptors.alloc_spec hfit.le
      rw [hcall] at hq'
      cases hq'
      exact absurd rfl h.descriptors.pool.freeList.2.1
  | @setBuffer pa length deviceWrites p s i rest q hheld hcall =>
    obtain ⟨q', hq', hd, hsame⟩ :=
      (h.descriptors.perm (hheld.append_right _)).setBuffer_spec hfit.le pa length deviceWrites
    rw [hcall] at hq'
    cases hq'
    refine ⟨free, h.of_descriptors ?_ hsame⟩
    rw [cons_append, append_assoc]
    exact hd
  | @chainNext p r s i x old rest q hheld hnext hcall =>
    have hperm : (orNone s ++ (old ++ w.lent)).Perm ((x :: r) :: (rest ++ w.lent)) := by
      rw [← append_assoc]
      exact hnext.append_right _
    obtain ⟨q', hq', hd, hsame⟩ :=
      (h.descriptors.perm (hheld.append_right _)).chainNext_spec hfit.le hperm
    rw [hcall] at hq'
    cases hq'
    exact ⟨free, h.of_descriptors hd hsame⟩
  | @submit d t rest q hheld hcall => exact ⟨free, sound_submit h hfit hheld hcall⟩
  | @pop d t length rest q hready hcall hlent => exact ⟨free, sound_pop h hfit hready hcall hlent⟩
  | @free d t rest q hheld hcall =>
    obtain ⟨q', free', hq', hd, hsame⟩ := (h.descriptors.perm (hheld.append_right _)).free_spec hfit.le
    rw [hcall] at hq'
    cases hq'
    exact ⟨free', h.of_descriptors hd hsame⟩
  | devTake hmore => exact ⟨free, sound_devTake h hfit hmore⟩
  | devReturn flags length hflight => exact ⟨free, sound_devReturn h hfit flags length hflight⟩

end

/-- **And so does every run.** -/
theorem sound_run (hfit : Fit n) (hrun : Run w w') (h : ∃ free, Sound n w free) : ∃ free, Sound n w' free := by
  induction hrun with
  | refl => exact h
  | step _ hstep ih =>
    obtain ⟨free, hw⟩ := ih
    exact sound_step hw hfit hstep

end Steps

/-! ## Conservation -/

/-- Where the descriptors are, and what has come back. -/
structure Conserved (n : UInt16) (w : World) : Prop where
  /-- The free list and the chains outstanding hold every descriptor below `n` once, and `Free_Count` is the
      length of the free list. -/
  descriptors : ∃ free, IsChain noDesc (half w.q.desc) w.q.freeHead free ∧
    (∀ c ∈ w.held ++ w.lent, Strung noDesc (link w.q.desc) c) ∧
    (free ++ (w.held ++ w.lent).flatten).Nodup ∧
    (∀ d, d ∈ free ++ (w.held ++ w.lent).flatten ↔ d < n) ∧ w.q.freeCount.toNat = free.length
  /-- What has been popped is what was returned, once each and in order, up to here. -/
  popped : w.popped <+: w.returned
  /-- `Has_Completed` says whether there is more. -/
  completed : w.q.hasCompleted = true ↔ w.popped.length < w.returned.length
  /-- The device has read what was submitted, and returned or kept what it has read. -/
  taken : w.taken <+: w.submitted
  returned : (w.returned.map Prod.fst ++ w.dev.inFlight).Perm w.taken

/-- No call fails a check, whatever the driver does next with its chains; `Pop` gives the completion that is
    due, whose chain it is. -/
structure Serves (w : World) : Prop where
  alloc : ∃ d q, w.q.alloc = some (d, q) ∧ (d = noDesc ↔ w.q.freeCount = 0)
  setBuffer : ∀ i ∈ w.held.flatten, ∀ pa length deviceWrites,
    ∃ q, w.q.setBuffer i pa length deviceWrites = some q
  chainNext : ∀ i ∈ w.held.flatten, ∀ x, ∃ q, w.q.chainNext i x = some q
  submit : ∀ d, ∃ q, w.q.submit d = some q
  free : ∀ d t, d :: t ∈ w.held → ∃ q, w.q.free d = some q
  pop : w.q.hasCompleted = true → ∃ e q t rest, w.q.pop = some (e, q) ∧
    w.returned[w.popped.length]? = some e ∧ w.lent.Perm ((e.1 :: t) :: rest)

section Conservation

variable {n : UInt16} {w : World} {free : List UInt16}

theorem conserved_of_sound (h : Sound n w free) (hfit : Fit n) : Conserved n w := by
  constructor
  · refine ⟨free, h.descriptors.pool.freeList, h.descriptors.pool.strung, h.descriptors.pool.nodup, fun d => ?_,
      h.descriptors.count⟩
    exact h.descriptors.pool.all d
  · rw [h.popped]
    exact take_prefix _ _
  · exact hasCompleted_iff h hfit
  · rw [h.taken]
    exact take_prefix _ _
  · exact h.flight

theorem exists_chain {chains : List (List UInt16)} {i : UInt16} (hi : i ∈ chains.flatten) :
    ∃ p s rest, chains.Perm ((p ++ i :: s) :: rest) := by
  obtain ⟨c, hc, hic⟩ := mem_flatten.mp hi
  obtain ⟨before, after, rfl⟩ := append_of_mem hc
  obtain ⟨p, s, rfl⟩ := append_of_mem hic
  exact ⟨p, s, before ++ after, perm_middle⟩

theorem serves_of_sound (h : Sound n w free) (hfit : Fit n) : Serves w := by
  constructor
  · have hcount := h.descriptors.count
    cases free with
    | nil =>
      exact ⟨noDesc, w.q, h.descriptors.alloc_empty, fun _ => UInt16.toNat_inj.mp hcount, fun _ => rfl⟩
    | cons f free =>
      obtain ⟨q', hq', -, -⟩ := h.descriptors.alloc_spec hfit.le
      refine ⟨f, q', hq', fun heq => absurd heq h.descriptors.pool.freeList.2.1, fun hzero => ?_⟩
      rw [hzero] at hcount
      cases hcount
  · intro i hi pa length deviceWrites
    obtain ⟨p, s, rest, hperm⟩ := exists_chain hi
    obtain ⟨q, hq, -, -⟩ :=
      (h.descriptors.perm (hperm.append_right _)).setBuffer_spec hfit.le pa length deviceWrites
    exact ⟨q, hq⟩
  · intro i hi x
    have hi' : i.toNat < 256 := h.descriptors.lt_of_mem hfit.le (by
      rw [flatten_append]
      exact mem_append_right _ (mem_append_left _ hi))
    refine ⟨{ w.q with
      desc := update w.q.desc (i.toNat * 4 + 3)
        ((word w.q.desc i &&& 0xFFFF) ||| descFNext.toUInt32 ||| linkWord x) }, ?_⟩
    rw [Queue.chainNext, wordAt_fourth _ hi', Option.bind_eq_bind, Option.bind_some,
      setWord_index _ hi' 3 (by decide)]
    rfl
  · exact fun d => ⟨_, submit_eq h hfit d⟩
  · intro d t hmem
    obtain ⟨before, after, heq⟩ := append_of_mem hmem
    have hperm : w.held.Perm ((d :: t) :: (before ++ after)) := heq ▸ perm_middle
    obtain ⟨q, -, hq, -, -⟩ := (h.descriptors.perm (hperm.append_right _)).free_spec hfit.le
    exact ⟨q, hq⟩
  · intro hready
    have hlt := (hasCompleted_iff h hfit).mp hready
    have hnext : w.returned[w.popped.length]? = some w.returned[w.popped.length] := getElem?_eq_getElem hlt
    obtain ⟨t, rest, hlent⟩ := lent_of_next h hnext
    exact ⟨_, _, t, rest, pop_eq h hfit hnext, hnext, hlent⟩

theorem fit_of_pow {k : Nat} (hpow : n.toNat = 2 ^ k) (hmax : n.toNat ≤ 256) : Fit n := by
  have hk : k ≤ 16 := by
    by_contra hlt
    have hbig := Nat.pow_le_pow_right (show 0 < 2 by decide) (show 17 ≤ k by omega)
    omega
  refine ⟨by rw [hpow]; exact Nat.two_pow_pos k, hmax, ?_⟩
  rw [hpow]
  exact Nat.pow_dvd_pow 2 hk

end Conservation

/-- **Descriptors are conserved, and each completion is popped once.**  For every size that is a power of two
    and that the overlays have room for, whatever the areas held before, in every run of the driver and the
    device. -/
theorem descriptors_conserved (n : UInt16) (k : Nat) (hpow : n.toNat = 2 ^ k) (hmax : n.toNat ≤ 256)
    (desc : Nat → UInt32) (avail : Nat → UInt16) (used : Nat → UInt32) :
    ∃ q, initializeQueue desc avail used n = some q ∧ ∀ w, Run (.start q) w → Conserved n w ∧ Serves w := by
  have hfit := fit_of_pow hpow hmax
  obtain ⟨q, hq, hd, havail, hused, havail1, hused0⟩ := initializeQueue_spec hfit.pos hfit.le desc avail used
  refine ⟨q, hq, fun w hrun => ?_⟩
  obtain ⟨free, hw⟩ := sound_run hfit hrun ⟨_, .start hd havail hused havail1 hused0⟩
  exact ⟨conserved_of_sound hw hfit, serves_of_sound hw hfit⟩

/-- The drivers' largest queue, over areas of zeros. -/
theorem descriptors_conserved_sixteen :
    ∃ q, initializeQueue (fun _ => 0) (fun _ => 0) (fun _ => 0) 16 = some q ∧
      ∀ w, Run (.start q) w → Conserved 16 w ∧ Serves w :=
  descriptors_conserved 16 4 (by decide) (by decide) _ _ _

/-- `Initialize` fails for every larger size: the words of descriptor 256 are outside the overlay. -/
theorem initializeQueue_fails {n : UInt16} (hn : 256 < n.toNat) (desc : Nat → UInt32) (avail : Nat → UInt16)
    (used : Nat → UInt32) : initializeQueue desc avail used n = none := by
  have hone : (1 : UInt16).toNat = 1 := rfl
  have hlast : (n - 1).toNat + 1 = n.toNat := by
    rw [UInt16.toNat_sub_of_le _ _ (UInt16.le_iff_toNat_le.mpr (show 1 ≤ _ by omega)), hone]
    omega
  rw [initializeQueue, hlast, forRange_fails hn (fun _ => rfl)]
  rfl

/-- Not for every power of two: a queue of 512 descriptors cannot be initialized. -/
theorem not_every_power_of_two :
    ¬ ∀ (n : UInt16) (k : Nat), n.toNat = 2 ^ k → ∀ desc avail used,
      ∃ q, initializeQueue desc avail used n = some q ∧ ∀ w, Run (.start q) w → Conserved n w := by
  intro h
  obtain ⟨q, hq, -⟩ := h 512 9 (by decide) (fun _ => 0) (fun _ => 0) (fun _ => 0)
  rw [initializeQueue_fails (by decide)] at hq
  cases hq

end Aegir.Virtio
