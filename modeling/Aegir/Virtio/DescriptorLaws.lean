/-
  What each operation on descriptors does to the free list and the chains.

  The two lists are read from the fourth words: `half` is the half-word whatever the flags, `link` the same
  half-word only under `Desc_F_Next`.  Every operation stores ONE fourth word, so each is one of the stores of
  a pool.
-/
import Aegir.Virtio.Queues

namespace Aegir.Virtio

open Aegir.Lib List Option Function

/-! ## Words -/

theorem toNat_linkWord (n : UInt16) : (linkWord n).toNat = n.toNat * 65536 := by
  have hn := n.toNat_lt
  have hword : (0x10000 : UInt32).toNat = 65536 := rfl
  rw [linkWord, UInt32.toNat_mul, UInt16.toNat_toUInt32, hword]
  exact Nat.mod_eq_of_lt (by omega)

theorem toNat_nextHalf (w : UInt32) : (nextHalf w).toNat = w.toNat / 65536 := by
  have hw := w.toNat_lt
  have hword : (0x10000 : UInt32).toNat = 65536 := rfl
  rw [nextHalf, UInt32.toNat_toUInt16, UInt32.toNat_div, hword]
  exact Nat.mod_eq_of_lt (by omega)

theorem hasNext_iff (w : UInt32) : hasNext w = true ↔ w.toNat % 2 = 1 := by
  have hand : (w &&& descFNext.toUInt32).toNat = w.toNat % 2 := by
    exact Nat.and_one_is_mod _
  rw [hasNext, decide_eq_true_iff, ne_eq, ← UInt32.toNat_inj, hand]
  show ¬ w.toNat % 2 = 0 ↔ _
  omega

@[simp] theorem nextHalf_linkWord (n : UInt16) : nextHalf (linkWord n) = n := by
  rw [← UInt16.toNat_inj, toNat_nextHalf, toNat_linkWord]
  exact Nat.mul_div_cancel _ (by decide)

@[simp] theorem hasNext_linkWord (n : UInt16) : hasNext (linkWord n) = false := by
  rw [Bool.eq_false_iff, ne_eq, hasNext_iff, toNat_linkWord]
  omega

@[simp] theorem hasNext_flags (b : Bool) : hasNext (if b then descFWrite.toUInt32 else 0) = false := by
  cases b <;> decide

theorem chainWord_spec (w : UInt32) (n : UInt16) :
    hasNext ((w &&& 0xFFFF) ||| descFNext.toUInt32 ||| linkWord n) = true ∧
      nextHalf ((w &&& 0xFFFF) ||| descFNext.toUInt32 ||| linkWord n) = n := by
  have hlow : (w.toNat &&& 65535) ||| 1 < 2 ^ 16 :=
    Nat.or_lt_two_pow (Nat.and_lt_two_pow _ (by decide)) (by decide)
  have hodd : ((w.toNat &&& 65535) ||| 1) % 2 = 1 := by
    rw [Nat.or_mod_two_eq_one]
    exact Or.inr rfl
  have hword : ((w &&& 0xFFFF) ||| descFNext.toUInt32 ||| linkWord n).toNat =
      n.toNat * 65536 + ((w.toNat &&& 65535) ||| 1) := by
    rw [UInt32.toNat_or, UInt32.toNat_or, UInt32.toNat_and, toNat_linkWord, Nat.or_comm]
    have hshift := Nat.shiftLeft_add_eq_or_of_lt hlow n.toNat
    rw [Nat.shiftLeft_eq] at hshift
    exact hshift.symm
  constructor
  · rw [hasNext_iff, hword]
    omega
  · rw [← UInt16.toNat_inj, toNat_nextHalf, hword]
    omega

theorem nextHalf_or_linkWord (low n : UInt16) : nextHalf (low.toUInt32 ||| linkWord n) = n := by
  have hlow := low.toNat_lt
  have hword : (low.toUInt32 ||| linkWord n).toNat = n.toNat * 65536 + low.toNat := by
    rw [UInt32.toNat_or, toNat_linkWord, UInt16.toNat_toUInt32, Nat.or_comm]
    have hshift := Nat.shiftLeft_add_eq_or_of_lt hlow n.toNat
    rw [Nat.shiftLeft_eq] at hshift
    exact hshift.symm
  rw [← UInt16.toNat_inj, toNat_nextHalf, hword]
  omega

/-! ## Fourth words -/

namespace Queue

/-- The fourth word of a descriptor. -/
def word (m : Nat → UInt32) (d : UInt16) : UInt32 := m (d.toNat * 4 + 3)

/-- The half-word that links the free list. -/
def half (m : Nat → UInt32) (d : UInt16) : UInt16 := nextHalf (word m d)

/-- The next descriptor of a chain, or none. -/
def link (m : Nat → UInt32) (d : UInt16) : UInt16 := if hasNext (word m d) then nextHalf (word m d) else noDesc

end Queue

open Queue

section Words

variable {m m' : Nat → UInt32} {d e : UInt16}

theorem toNat_index (hd : d.toNat < 256) (j : UInt16) (hj : j.toNat < 4) :
    (d * 4 + j).toNat = d.toNat * 4 + j.toNat := by
  have hfour : (4 : UInt16).toNat = 4 := rfl
  rw [UInt16.toNat_add, UInt16.toNat_mul, hfour]
  omega

section

variable (m : Nat → UInt32)

theorem setWord_index (hd : d.toNat < 256) (j : UInt16) (hj : j.toNat < 4) (w : UInt32) :
    setWord m (d * 4 + j) w = some (update m (d.toNat * 4 + j.toNat) w) := by
  have hindex := toNat_index hd j hj
  rw [setWord, if_pos, hindex]
  rw [UInt16.le_iff_toNat_le, hindex]
  show _ ≤ 1023
  omega

theorem wordAt_fourth (hd : d.toNat < 256) : wordAt m (d * 4 + 3) = some (word m d) := by
  have hindex := toNat_index hd 3 (by decide)
  have hthree : (3 : UInt16).toNat = 3 := rfl
  rw [wordAt, if_pos, hindex, hthree, word]
  rw [UInt16.le_iff_toNat_le, hindex, hthree]
  show _ ≤ 1023
  omega

theorem word_update (d : UInt16) (w : UInt32) :
    word (update m (d.toNat * 4 + 3) w) = update (word m) d w := by
  funext e
  by_cases he : e = d
  · rw [he, update_self, word, update_self]
  · have hne : e.toNat * 4 + 3 ≠ d.toNat * 4 + 3 := fun heq => he (UInt16.toNat_inj.mp (by omega))
    rw [update_of_ne he, word, update_of_ne hne, word]

theorem word_update_other (i j : Nat) (hj : j < 3) (w : UInt32) :
    word (update m (i * 4 + j) w) = word m := by
  funext e
  have hne : e.toNat * 4 + 3 ≠ i * 4 + j := by omega
  rw [word, update_of_ne hne, word]

end

theorem half_of_ne {w : UInt32} (h : word m' = update (word m) d w) (hne : e ≠ d) : half m' e = half m e := by
  rw [half, half, h, update_of_ne hne]

theorem link_of_ne {w : UInt32} (h : word m' = update (word m) d w) (hne : e ≠ d) : link m' e = link m e := by
  rw [link, link, h, update_of_ne hne]

theorem half_self {w : UInt32} (h : word m' = update (word m) d w) : half m' d = nextHalf w := by
  rw [half, h, update_self]

theorem link_self {w : UInt32} (h : word m' = update (word m) d w) :
    link m' d = if hasNext w then nextHalf w else noDesc := by
  rw [link, h, update_self]

end Words

/-! ## The pool of a queue -/

/-- `free` is the free list of `q` and `chains` are its chains: together, the descriptors below `n`. -/
structure Descriptors (n : UInt16) (q : Queue) (free : List UInt16) (chains : List (List UInt16)) : Prop where
  num : q.num = n
  pool : Pool noDesc (half q.desc) (link q.desc) (fun d => d.toNat < n.toNat) q.freeHead free chains
  count : q.freeCount.toNat = free.length

/-- Only descriptors and the free list differ. -/
structure SameRings (q q' : Queue) : Prop where
  avail : q'.avail = q.avail
  used : q'.used = q.used
  availIdx : q'.availIdx = q.availIdx
  usedIdx : q'.usedIdx = q.usedIdx

theorem SameRings.refl (q : Queue) : SameRings q q := ⟨rfl, rfl, rfl, rfl⟩

theorem SameRings.trans {q q' q'' : Queue} (h : SameRings q q') (h' : SameRings q' q'') : SameRings q q'' :=
  ⟨h'.avail.trans h.avail, h'.used.trans h.used, h'.availIdx.trans h.availIdx, h'.usedIdx.trans h.usedIdx⟩

namespace Descriptors

variable {n d i x : UInt16} {q : Queue} {free p r s : List UInt16} {chains chains' : List (List UInt16)}

section

variable (h : Descriptors n q free chains)

include h

theorem perm (hperm : chains.Perm chains') : Descriptors n q free chains' :=
  ⟨h.num, h.pool.perm hperm, h.count⟩

theorem length_eq : free.length + chains.flatten.length = n.toNat := by
  have hperm : ((free ++ chains.flatten).map UInt16.toNat).Perm (range n.toNat) := by
    rw [perm_ext_iff_of_nodup]
    · intro k
      rw [List.mem_map, mem_range]
      constructor
      · rintro ⟨d, hd, rfl⟩
        exact (h.pool.all d).mp hd
      · intro hk
        have hlt := n.toNat_lt
        have hback : (UInt16.ofNat k).toNat = k := UInt16.toNat_ofNat_of_lt' (show k < 2 ^ 16 by omega)
        exact ⟨UInt16.ofNat k, (h.pool.all _).mpr (by rwa [hback]), hback⟩
    · exact h.pool.nodup.map fun a b => UInt16.toNat_inj.mp
    · exact nodup_range
  rw [← length_append, ← length_map, hperm.length_eq, length_range]

theorem lt_of_mem (hn : n.toNat ≤ 256) (hd : d ∈ free ++ chains.flatten) :
    d.toNat < 256 :=
  Nat.lt_of_lt_of_le ((h.pool.all d).mp hd) hn

end

theorem ne_noDesc (h : d.toNat < 256) : d ≠ noDesc := by
  rintro rfl
  exact absurd h (by decide)

/-! ## Alloc -/

theorem alloc_spec (h : Descriptors n q (d :: free) chains) (hn : n.toNat ≤ 256) :
    ∃ q', q.alloc = some (d, q') ∧ Descriptors n q' free ([d] :: chains) ∧ SameRings q q' := by
  obtain ⟨hhead, hne, -⟩ := h.pool.freeList
  have hd : d.toNat < 256 := h.lt_of_mem hn mem_cons_self
  have hcount := h.count
  rw [length_cons] at hcount
  let m := update q.desc (d.toNat * 4 + 3) (linkWord noDesc)
  have hword : word m = update (word q.desc) d (linkWord noDesc) := word_update _ _ _
  refine ⟨{ q with desc := m, freeHead := half q.desc d, freeCount := q.freeCount - 1 }, ?_, ?_, rfl, rfl, rfl, rfl⟩
  · rw [Queue.alloc, hhead, if_neg hne, wordAt_fourth _ hd, bind_eq_bind, bind_some,
      setWord_index _ hd 3 (by decide)]
    rfl
  · refine ⟨h.num, ?_, ?_⟩
    · apply h.pool.take
      · exact fun y hy => half_of_ne hword hy
      · exact fun y hy => link_of_ne hword hy
      · rw [link_self hword, hasNext_linkWord]
        rfl
    · have hone : (1 : UInt16).toNat = 1 := rfl
      rw [UInt16.toNat_sub_of_le _ _ (by rw [UInt16.le_iff_toNat_le]; omega)]
      omega

theorem alloc_empty (h : Descriptors n q [] chains) : q.alloc = some (noDesc, q) := by
  have hhead : q.freeHead = noDesc := h.pool.freeList
  rw [Queue.alloc, if_pos hhead]

/-! ## Chains -/

theorem setBuffer_spec (h : Descriptors n q free ((p ++ i :: s) :: chains)) (hn : n.toNat ≤ 256) (pa : UInt64)
    (length : UInt32) (deviceWrites : Bool) :
    ∃ q', q.setBuffer i pa length deviceWrites = some q' ∧
      Descriptors n q' free ((p ++ [i]) :: (orNone s ++ chains)) ∧ SameRings q q' := by
  have hi : i.toNat < 256 := h.lt_of_mem hn (by simp)
  let w := if deviceWrites then descFWrite.toUInt32 else 0
  let m0 := update q.desc (i.toNat * 4 + 0) pa.toUInt32
  let m1 := update m0 (i.toNat * 4 + 1) (pa >>> 32).toUInt32
  let m2 := update m1 (i.toNat * 4 + 2) length
  let m3 := update m2 (i.toNat * 4 + 3) w
  have hword : word m3 = update (word q.desc) i w := by
    rw [word_update, word_update_other _ _ 2 (by decide), word_update_other _ _ 1 (by decide),
      word_update_other _ _ 0 (by decide)]
  have hzero : i * 4 = i * 4 + 0 := (UInt16.add_zero _).symm
  refine ⟨{ q with desc := m3 }, ?_, ⟨h.num, ?_, h.count⟩, rfl, rfl, rfl, rfl⟩
  · rw [Queue.setBuffer, hzero, setWord_index _ hi 0 (by decide), ← hzero]
    simp only [bind_eq_bind, bind_some]
    rw [setWord_index _ hi 1 (by decide), bind_some, setWord_index _ hi 2 (by decide), bind_some,
      setWord_index _ hi 3 (by decide)]
    rfl
  · apply h.pool.cut
    · exact fun y hy => half_of_ne hword hy
    · exact fun y hy => link_of_ne hword hy
    · rw [link_self hword, hasNext_flags]
      rfl

theorem chainNext_spec {old : List (List UInt16)} (h : Descriptors n q free ((p ++ i :: s) :: old))
    (hn : n.toNat ≤ 256) (hnext : (orNone s ++ old).Perm ((x :: r) :: chains)) :
    ∃ q', q.chainNext i x = some q' ∧ Descriptors n q' free ((p ++ i :: x :: r) :: chains) ∧ SameRings q q' := by
  have hi : i.toNat < 256 := h.lt_of_mem hn (by simp)
  let w := (word q.desc i &&& 0xFFFF) ||| descFNext.toUInt32 ||| linkWord x
  let m := update q.desc (i.toNat * 4 + 3) w
  have hword : word m = update (word q.desc) i w := word_update _ _ _
  refine ⟨{ q with desc := m }, ?_, ⟨h.num, ?_, h.count⟩, rfl, rfl, rfl, rfl⟩
  · rw [Queue.chainNext, wordAt_fourth _ hi, bind_eq_bind, bind_some, setWord_index _ hi 3 (by decide)]
    rfl
  · obtain ⟨hflag, hhalf⟩ := chainWord_spec (word q.desc i) x
    -- the chain is cut first, on paper: the store then joins two chains of the pool
    have hcut : Pool noDesc (half q.desc) (update (link q.desc) i noDesc) (fun d => d.toNat < n.toNat)
        q.freeHead free ((p ++ [i]) :: (x :: r) :: chains) := by
      refine (h.pool.cut (fun _ _ => rfl) (fun y hy => update_of_ne hy _ _) (update_self _ _ _)).perm ?_
      exact hnext.cons _
    apply hcut.join
    · exact fun y hy => half_of_ne hword hy
    · intro y hy
      rw [update_of_ne hy]
      exact link_of_ne hword hy
    · rw [link_self hword]
      rw [if_pos hflag, hhalf]

/-! ## Free -/

theorem freeLoop_step (h : Descriptors n q free ((d :: r) :: chains)) (hn : n.toNat ≤ 256) (fuel : Nat) :
    ∃ q', Queue.freeLoop (fuel + 1) q d = Queue.freeLoop fuel q' (r.headD noDesc) ∧
      Descriptors n q' (d :: free) (orNone r ++ chains) ∧ SameRings q q' := by
  have hd : d.toNat < 256 := h.lt_of_mem hn (by simp)
  have hlen := h.length_eq
  have hcount := h.count
  let m := update q.desc (d.toNat * 4 + 3) (linkWord q.freeHead)
  have hword : word m = update (word q.desc) d (linkWord q.freeHead) := word_update _ _ _
  have hnext : link q.desc d = r.headD noDesc := by
    obtain ⟨-, -, hr⟩ := h.pool.strung _ mem_cons_self
    cases r with
    | nil => exact hr
    | cons y ys => exact hr.1
  refine ⟨{ q with desc := m, freeHead := d, freeCount := q.freeCount + 1 }, ?_, ⟨h.num, ?_, ?_⟩, rfl, rfl, rfl, rfl⟩
  · rw [Queue.freeLoop, if_neg (ne_noDesc hd), wordAt_fourth _ hd, bind_eq_bind, bind_some,
      setWord_index _ hd 3 (by decide), ← hnext]
    rfl
  · apply h.pool.release
    · exact fun y hy => half_of_ne hword hy
    · exact fun y hy => link_of_ne hword hy
    · rw [half_self hword, nextHalf_linkWord]
  · have hone : (1 : UInt16).toNat = 1 := rfl
    show (q.freeCount + 1).toNat = free.length + 1
    rw [UInt16.toNat_add, hone, hcount]
    omega

/-- **`Free` gives back every descriptor of the chain.** -/
theorem freeLoop_spec (h : Descriptors n q free (orNone r ++ chains)) (hn : n.toNat ≤ 256) (fuel : Nat)
    (hfuel : r.length < fuel) :
    ∃ q' free', Queue.freeLoop fuel q (r.headD noDesc) = some q' ∧ Descriptors n q' free' chains ∧
      SameRings q q' := by
  induction r generalizing q free fuel with
  | nil =>
    obtain ⟨fuel, rfl⟩ : ∃ k, fuel = k + 1 := ⟨fuel - 1, by omega⟩
    exact ⟨q, free, by rw [Queue.freeLoop]; exact if_pos rfl, h, .refl q⟩
  | cons d r ih =>
    rw [length_cons] at hfuel
    obtain ⟨fuel, rfl⟩ : ∃ k, fuel = k + 1 := ⟨fuel - 1, by omega⟩
    obtain ⟨q', hstep, hq', hsame⟩ := freeLoop_step h hn fuel
    obtain ⟨q'', free'', hrest, hq'', hsame'⟩ := ih hq' fuel (by omega)
    exact ⟨q'', free'', hstep.trans hrest, hq'', hsame.trans hsame'⟩

theorem free_spec (h : Descriptors n q free ((d :: r) :: chains)) (hn : n.toNat ≤ 256) :
    ∃ q' free', q.free d = some q' ∧ Descriptors n q' free' chains ∧ SameRings q q' := by
  have hlen := h.length_eq
  rw [flatten_cons, length_append] at hlen
  exact freeLoop_spec (r := d :: r) h hn (2 ^ 16) (by omega)

end Descriptors

end Aegir.Virtio
