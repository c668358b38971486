/-
  The reference-count law on ledgers.

  `L.refs P o` is the number of valid entries, over all handles of all processes, that refer to the
  object `o` of the pool `P`.  `L.Counted fresh` is the law: every slot of every slab holds exactly
  that number in its count, and is on the free list exactly if the number is zero.  `fresh` names
  the ONE object that may be off the list without any entry, between its creation and the insert of
  its first cap.

  Every change of a table goes through `Counted.insert` or `Counted.remove`.
-/
import Mathlib.Data.Finset.Prod
import Mathlib.Data.Finset.Range
import Aegir.Kernel.Boot
import Aegir.Kernel.CapTableLaws
import Aegir.Kernel.LedgerOps

namespace Aegir.Kernel

open Aegir.Arch List Function

/-- The entry refers to the object `o` of the pool `P`. -/
def CapEntry.RefersTo (P : Pool) (o : Nat) (e : CapEntry) : Prop :=
  e.valid = true ∧ e.kind.pool = some P ∧ e.object = o

instance (P : Pool) (o : Nat) : DecidablePred (CapEntry.RefersTo P o) := fun e =>
  inferInstanceAs (Decidable (e.valid = true ∧ e.kind.pool = some P ∧ e.object = o))

theorem CapEntry.not_refersTo_of_invalid {e : CapEntry} (h : e.valid = false) (P : Pool) (o : Nat) :
    ¬ e.RefersTo P o := by
  rintro ⟨hv, -⟩
  rw [h] at hv
  cases hv

namespace Ledger

/-- The handles below `n` of the processes below `m`; irreducible, or Lean would enumerate them. -/
@[irreducible] def box (m n : Nat) : Finset (Nat × Nat) := Finset.range m ×ˢ Finset.range n

theorem mem_box {m n p h : Nat} (hp : p < m) (hh : h < n) : (p, h) ∈ box m n := by
  simp [box, hp, hh]

theorem card_box (m n : Nat) : (box m n).card = m * n := by
  simp [box]

/-- All places that can hold an entry: the handles of the processes of the table and of init. -/
@[irreducible] def places : Finset (Nat × Nat) := box (initProcess + 1) (handleLast + 1)

/-- The number of entries that refer to an object. -/
def refs (L : Ledger) (P : Pool) (o : Nat) : Nat :=
  Lib.refs places (fun i => L.entry i.1 i.2) (CapEntry.RefersTo P o)

/-- **The reference-count law.** -/
structure Counted (L : Ledger) (fresh : Option (Pool × Nat)) : Prop where
  pmm : L.pmm.Wf
  table : ∀ p, (L.caps p).Wf
  place : ∀ p h, (L.entry p h).valid = true → p ≤ initProcess
  slot : ∀ p h P, (L.entry p h).valid = true → (L.entry p h).kind.pool = some P →
    1 ≤ (L.entry p h).object ∧ (L.entry p h).object ≤ (L.slab P).carved
  free_nodup : ∀ P, (L.slab P).free.Nodup
  free_range : ∀ P, ∀ o ∈ (L.slab P).free, 1 ≤ o ∧ o ≤ (L.slab P).carved
  count : ∀ P o, 1 ≤ o → o ≤ (L.slab P).carved → L.count P o = L.refs P o
  free : ∀ P o, 1 ≤ o → o ≤ (L.slab P).carved →
    (o ∈ (L.slab P).free ↔ L.refs P o = 0 ∧ fresh ≠ some (P, o))
  fresh_unref : ∀ P o, fresh = some (P, o) →
    1 ≤ o ∧ o ≤ (L.slab P).carved ∧ L.refs P o = 0
  uncarved : ∀ P o, (L.slab P).carved < o → L.count P o = 0

theorem mem_places {p h : Nat} (hp : p ≤ initProcess) (hh : h ≤ handleLast) : (p, h) ∈ places := by
  unfold places
  exact mem_box (Nat.lt_add_one_of_le hp) (Nat.lt_add_one_of_le hh)

theorem card_places : places.card = 2129920 := by
  unfold places
  rw [card_box]
  decide

theorem refs_lt_pinned (L : Ledger) (P : Pool) (o : Nat) : L.refs P o < pinnedRefcount := by
  have h : L.refs P o ≤ places.card := Lib.refs_le_card
  rw [card_places] at h
  unfold pinnedRefcount
  omega

namespace Counted

variable {L : Ledger} {fresh : Option (Pool × Nat)} {p h : Nat} {P : Pool}

section

variable (hL : L.Counted fresh)

include hL

theorem mem_places (hv : (L.entry p h).valid = true) : (p, h) ∈ places :=
  Ledger.mem_places (hL.place p h hv) ((hL.table p).handle h hv).2

theorem refs_pos (hv : (L.entry p h).valid = true)
    (hP : (L.entry p h).kind.pool = some P) : 0 < L.refs P (L.entry p h).object :=
  Lib.refs_pos (hL.mem_places hv) ⟨hv, hP, rfl⟩

theorem slotted (hv : (L.entry p h).valid = true) :
    L.Slotted (L.entry p h) := by
  intro P hP
  obtain ⟨h1, h2⟩ := hL.slot p h P hv hP
  refine ⟨h1, h2, ?_⟩
  rw [hL.count P _ h1 h2]
  exact L.refs_lt_pinned P _

theorem count_ne_zero (hv : (L.entry p h).valid = true)
    (hP : (L.entry p h).kind.pool = some P) : L.count P (L.entry p h).object ≠ 0 := by
  obtain ⟨h1, h2⟩ := hL.slot p h P hv hP
  rw [hL.count P _ h1 h2]
  exact Nat.ne_of_gt (hL.refs_pos hv hP)

theorem congr {L' : Ledger} (hcaps : L'.caps = L.caps)
    (hcount : L'.count = L.count) (hslab : L'.slab = L.slab) (hpmm : L'.pmm.Wf) :
    L'.Counted fresh := by
  have hentry : L'.entry = L.entry := by
    funext p h
    unfold entry
    rw [hcaps]
  have hrefs : L'.refs = L.refs := by
    funext P o
    unfold refs
    rw [hentry]
  refine ⟨hpmm, ?_, ?_, ?_, ?_, ?_, ?_, ?_, ?_, ?_⟩
  · rw [hcaps]; exact hL.table
  · rw [hentry]; exact hL.place
  · rw [hentry, hslab]; exact hL.slot
  · rw [hslab]; exact hL.free_nodup
  · rw [hslab]; exact hL.free_range
  · rw [hslab, hcount, hrefs]; exact hL.count
  · rw [hslab, hrefs]; exact hL.free
  · rw [hslab, hrefs]; exact hL.fresh_unref
  · rw [hslab, hcount]; exact hL.uncarved

end

end Counted

/-! ## One place changes -/

variable {t : CapTable}

section

variable (L : Ledger)

theorem entry_setCaps {p h : Nat} {e : CapEntry} (pmm : Pmm)
    (hget : t.get = update (L.caps p).get h e) (q i : Nat) :
    (L.setCaps p t pmm).entry q i = if q = p ∧ i = h then e else L.entry q i := by
  unfold entry setCaps
  by_cases hq : q = p
  · subst hq
    by_cases hi : i = h
    · simp [hget, hi]
    · simp [hget, hi]
  · simp [hq]

theorem entry_setCaps_self {p h : Nat} {e : CapEntry} (pmm : Pmm)
    (hget : t.get = update (L.caps p).get h e) : (L.setCaps p t pmm).entry p h = e := by
  rw [entry_setCaps L pmm hget, if_pos ⟨rfl, rfl⟩]

theorem entry_setCaps_ne {p h : Nat} {e : CapEntry} (pmm : Pmm)
    (hget : t.get = update (L.caps p).get h e) {i : Nat × Nat} (hi : i ≠ (p, h)) :
    (L.setCaps p t pmm).entry i.1 i.2 = L.entry i.1 i.2 := by
  rw [entry_setCaps L pmm hget, if_neg fun hh => hi (Prod.ext hh.1 hh.2)]

theorem refs_setCaps_add {p h : Nat} {e : CapEntry} (pmm : Pmm)
    (hget : t.get = update (L.caps p).get h e) (hi : (p, h) ∈ places)
    (hnull : (L.entry p h).valid = false) (P : Pool) (o : Nat) :
    (L.setCaps p t pmm).refs P o = L.refs P o + (if e.RefersTo P o then 1 else 0) := by
  have hne := fun (j : Nat × Nat) (hj : j ≠ (p, h)) => entry_setCaps_ne L pmm hget hj
  have hself := entry_setCaps_self L pmm hget
  split
  · rename_i hr
    exact Lib.refs_gain hi (CapEntry.not_refersTo_of_invalid hnull P o) (by rw [hself]; exact hr) hne
  · rename_i hr
    refine Lib.refs_keep (i := (p, h)) ?_ hne
    rw [hself]
    exact iff_of_false hr (CapEntry.not_refersTo_of_invalid hnull P o)

theorem refs_setCaps_null {p h : Nat} (pmm : Pmm)
    (hget : t.get = update (L.caps p).get h nullCap) (hi : (p, h) ∈ places)
    (P : Pool) (o : Nat) :
    L.refs P o = (L.setCaps p t pmm).refs P o + (if (L.entry p h).RefersTo P o then 1 else 0) := by
  have hne := fun (j : Nat × Nat) (hj : j ≠ (p, h)) => entry_setCaps_ne L pmm hget hj
  have hself := entry_setCaps_self L pmm hget
  have hnull : ¬ ((L.setCaps p t pmm).entry p h).RefersTo P o := by
    rw [hself]
    exact CapEntry.not_refersTo_of_invalid rfl P o
  split
  · rename_i hr
    exact Lib.refs_lose hi hr hnull hne
  · rename_i hr
    exact (Lib.refs_keep (i := (p, h)) (iff_of_false hnull hr) hne).symm

theorem count_setCount (P : Pool) (o n : Nat) (Q : Pool) (u : Nat) :
    (L.setCount P o n).count Q u = if Q = P ∧ u = o then n else L.count Q u := by
  unfold setCount
  by_cases hQ : Q = P
  · subst hQ
    by_cases hu : u = o
    · simp [hu]
    · simp [hu]
  · simp [hQ]

theorem count_retain (e : CapEntry) (he : e.valid = true) (P : Pool) (o : Nat) :
    (L.retain e).count P o = L.count P o + (if e.RefersTo P o then 1 else 0) := by
  unfold retain
  cases hk : e.kind.pool with
  | none => rw [if_neg (fun h => Option.some_ne_none P (h.2.1.symm.trans hk))]; rfl
  | some Q =>
    rw [count_setCount]
    by_cases h : P = Q ∧ o = e.object
    · rw [if_pos h, if_pos ⟨he, by rw [hk, h.1], h.2.symm⟩, h.1, h.2]
    · rw [if_neg h, if_neg]
      · rfl
      · rintro ⟨-, h1, h2⟩
        rw [hk] at h1
        exact h ⟨(Option.some.inj h1).symm, h2.symm⟩

theorem retain_eq (e : CapEntry) : L.retain e = { L with count := (L.retain e).count } := by
  unfold retain
  cases e.kind.pool <;> rfl

@[simp] theorem retain_caps (e : CapEntry) : (L.retain e).caps = L.caps := by
  rw [retain_eq]

@[simp] theorem retain_slab (e : CapEntry) : (L.retain e).slab = L.slab := by
  rw [retain_eq]

@[simp] theorem retain_pmm (e : CapEntry) : (L.retain e).pmm = L.pmm := by
  rw [retain_eq]

@[simp] theorem retain_entry (e : CapEntry) : (L.retain e).entry = L.entry := by
  rw [retain_eq]
  rfl

@[simp] theorem retain_refs (e : CapEntry) : (L.retain e).refs = L.refs := by
  rw [retain_eq]
  rfl

end

/-! ## Insert -/

variable {pmm : Pmm}

/-- The fresh object is not fresh any more once an entry refers to it. -/
def clear (fresh : Option (Pool × Nat)) (e : CapEntry) : Option (Pool × Nat) :=
  if fresh = e.kind.pool.map fun P => (P, e.object) then none else fresh

theorem clear_eq_some {fresh : Option (Pool × Nat)} {e : CapEntry} {P : Pool} {o : Nat} (he : e.valid = true) :
    clear fresh e = some (P, o) ↔ fresh = some (P, o) ∧ ¬ e.RefersTo P o := by
  have hiff : e.RefersTo P o ↔ e.kind.pool.map (fun P => (P, e.object)) = some (P, o) := by
    unfold CapEntry.RefersTo
    cases e.kind.pool with
    | none => simp
    | some Q => simp [he]
  rw [hiff]
  unfold clear
  split
  · rename_i h
    rw [← h]
    exact ⟨fun hn => (by cases hn), fun hn => absurd hn.1 hn.2⟩
  · rename_i h
    exact ⟨fun hf => ⟨hf, fun hm => h (hf.trans hm.symm)⟩, fun hf => hf.1⟩

/-- **Insert and retain keep the law.**  The object of the new entry must be referred to already, or
    be the fresh one. -/
theorem Counted.insert {L : Ledger} {fresh : Option (Pool × Nat)} {p h : Nat} {e : CapEntry} (hL : L.Counted fresh) (hp : p ≤ initProcess) (hh : h ≤ handleLast)
    (hnull : (L.entry p h).valid = false) (ht : t.Wf)
    (hget : t.get = update (L.caps p).get h e) (hpmm : pmm.Wf) (he : e.valid = true)
    (hobj : ∀ P, e.kind.pool = some P → 1 ≤ e.object ∧ e.object ≤ (L.slab P).carved ∧
      (0 < L.refs P e.object ∨ fresh = some (P, e.object))) :
    ((L.setCaps p t pmm).retain e).Counted (clear fresh e) := by
  have hrefs := refs_setCaps_add L pmm hget (Ledger.mem_places hp hh) hnull
  have hslab : (L.setCaps p t pmm).slab = L.slab := rfl
  refine ⟨by simpa [setCaps] using hpmm, fun q => ?_, fun q i hv => ?_, fun q i P hv hP => ?_,
    ?_, ?_, fun P o h1 h2 => ?_, fun P o h1 h2 => ?_, fun P o hf => ?_, fun P o ho => ?_⟩
  · rw [retain_caps]
    by_cases hq : q = p
    · subst hq; simpa [setCaps] using ht
    · simpa [setCaps, hq] using hL.table q
  · rw [retain_entry, entry_setCaps L pmm hget] at hv
    split at hv
    · rename_i hqi
      exact hqi.1 ▸ hp
    · exact hL.place q i hv
  · rw [retain_entry, entry_setCaps L pmm hget] at hv hP ⊢
    rw [retain_slab, hslab]
    split at hv
    · rename_i hqi
      rw [if_pos hqi] at hP ⊢
      exact ⟨(hobj P hP).1, (hobj P hP).2.1⟩
    · rename_i hqi
      rw [if_neg hqi] at hP ⊢
      exact hL.slot q i P hv hP
  · rw [retain_slab]; exact hL.free_nodup
  · rw [retain_slab]; exact hL.free_range
  · rw [count_retain _ _ he, retain_refs, hrefs]
    rw [retain_slab] at h2
    exact congrArg (· + _) (hL.count P o h1 h2)
  · rw [retain_slab] at h2 ⊢
    rw [retain_refs, hrefs, ne_eq, clear_eq_some he]
    refine (hL.free P o h1 h2).trans ?_
    by_cases hr : e.RefersTo P o
    · -- the object is referred to now, and was not on the list before either
      rw [if_pos hr]
      refine iff_of_false (fun hh => ?_) (fun hh => by omega)
      rcases (hobj P hr.2.1).2.2 with hpos | hf
      · rw [hr.2.2] at hpos
        omega
      · rw [hr.2.2] at hf
        exact hh.2 hf
    · rw [if_neg hr]
      simp [hr]
  · obtain ⟨hf, hr⟩ := (clear_eq_some he).mp hf
    obtain ⟨h1, h2, h3⟩ := hL.fresh_unref P o hf
    rw [retain_slab, retain_refs, hrefs, if_neg hr]
    exact ⟨h1, h2, h3⟩
  · rw [retain_slab] at ho
    have hno : ¬ e.RefersTo P o := by
      rintro ⟨-, hP, rfl⟩
      exact absurd ho (Nat.not_lt.mpr (hobj P hP).2.1)
    rw [count_retain _ _ he, if_neg hno]
    exact hL.uncarved P o ho

/-! ## Remove -/

theorem freeFramesFrom_wf (frames : Nat → Nat) (n index : Nat) {p : Pmm} (hp : p.Wf) :
    (State.freeFramesFrom frames index n p).Wf := by
  induction n generalizing index p with
  | zero => exact hp
  | succ n ih => exact ih (index + 1) (hp.deallocateFrame _)

theorem finalize_caps (L : Ledger) (P : Pool) (o : Nat) : (L.finalize P o).caps = L.caps := by
  cases P <;> rfl

theorem finalize_count (L : Ledger) (P : Pool) (o : Nat) : (L.finalize P o).count = L.count := by
  cases P <;> rfl

theorem finalize_slab (L : Ledger) (P : Pool) (o : Nat) :
    (L.finalize P o).slab = update L.slab P ((L.slab P).put o) := by
  cases P <;> rfl

theorem finalize_pmm {L : Ledger} (h : L.pmm.Wf) (P : Pool) (o : Nat) : (L.finalize P o).pmm.Wf := by
  cases P with
  | memory => exact freeFramesFrom_wf _ _ _ h
  | _ => exact h

@[simp] theorem release_caps (L : Ledger) (e : CapEntry) : (L.release e).caps = L.caps := by
  unfold release
  cases e.kind.pool with
  | none => rfl
  | some P =>
    show (L.dropRef P e.object).caps = L.caps
    unfold dropRef
    split
    · exact finalize_caps _ _ _
    · rfl

@[simp] theorem release_entry (L : Ledger) (e : CapEntry) : (L.release e).entry = L.entry := by
  funext p h
  unfold entry
  rw [release_caps]

theorem release_pmm {L : Ledger} (h : L.pmm.Wf) (e : CapEntry) : (L.release e).pmm.Wf := by
  unfold release
  cases e.kind.pool with
  | none => exact h
  | some P =>
    show (L.dropRef P e.object).pmm.Wf
    unfold dropRef
    split
    · exact finalize_pmm (L := L.setCount P e.object (L.count P e.object - 1)) h _ _
    · exact h

theorem count_release (L : Ledger) (e : CapEntry) (he : e.valid = true) (P : Pool) (o : Nat) :
    (L.release e).count P o = L.count P o - (if e.RefersTo P o then 1 else 0) := by
  unfold release
  cases hk : e.kind.pool with
  | none =>
    rw [if_neg (fun h => Option.some_ne_none P (h.2.1.symm.trans hk))]
    rfl
  | some Q =>
    have hset : (L.dropRef Q e.object).count P o = (L.setCount Q e.object (L.count Q e.object - 1)).count P o := by
      unfold dropRef
      split
      · rw [finalize_count]
      · rfl
    rw [hset, count_setCount]
    by_cases h : P = Q ∧ o = e.object
    · rw [if_pos h, if_pos ⟨he, by rw [hk, h.1], h.2.symm⟩, h.1, h.2]
    · rw [if_neg h, if_neg]
      · rfl
      · rintro ⟨-, h1, h2⟩
        rw [hk] at h1
        exact h ⟨(Option.some.inj h1).symm, h2.symm⟩

theorem slab_release (L : Ledger) (e : CapEntry) (P : Pool) : (L.release e).slab P =
      if e.kind.pool = some P ∧ L.count P e.object - 1 = 0 then (L.slab P).put e.object
      else L.slab P := by
  unfold release
  cases hk : e.kind.pool with
  | none => rw [if_neg (fun h => by cases h.1)]
  | some Q =>
    show (L.dropRef Q e.object).slab P = _
    unfold dropRef
    by_cases hP : P = Q
    · subst hP
      by_cases h0 : L.count P e.object - 1 = 0
      · rw [if_pos h0, if_pos ⟨rfl, h0⟩, finalize_slab, update_self]
        rfl
      · rw [if_neg h0, if_neg (fun h => h0 h.2)]
        rfl
    · have hno : ¬ (some Q = some P ∧ L.count P e.object - 1 = 0) :=
        fun h => hP (Option.some.inj h.1).symm
      rw [if_neg hno]
      split_ifs with h0
      · rw [finalize_slab, update_of_ne hP]
        rfl
      · rfl

/-- **Release and close keep the law.** -/
theorem Counted.remove {L : Ledger} {fresh : Option (Pool × Nat)} {p h : Nat} (hL : L.Counted fresh) (hv : (L.entry p h).valid = true) (ht : t.Wf)
    (hget : t.get = update (L.caps p).get h nullCap) (hpmm : pmm.Wf) :
    ((L.release (L.entry p h)).setCaps p t pmm).Counted fresh := by
  generalize he : L.entry p h = e at hv
  have hvp : (L.entry p h).valid = true := by rw [he]; exact hv
  have hget' : t.get = update ((L.release e).caps p).get h nullCap := by
    rw [release_caps]; exact hget
  have hrefs : ∀ P o, L.refs P o =
      ((L.release e).setCaps p t pmm).refs P o + (if e.RefersTo P o then 1 else 0) := by
    intro P o
    have hsame : ((L.release e).setCaps p t pmm).refs P o = (L.setCaps p t pmm).refs P o := by
      refine Lib.refs_congr fun i _ => ?_
      rw [entry_setCaps _ pmm hget', entry_setCaps L pmm hget, release_entry]
    have := refs_setCaps_null L pmm hget (hL.mem_places hvp) P o
    rw [he] at this
    rw [hsame]
    exact this
  have hslab : ((L.release e).setCaps p t pmm).slab = (L.release e).slab := rfl
  have hcarved : ∀ P, ((L.release e).slab P).carved = (L.slab P).carved := by
    intro P
    rw [slab_release]
    split <;> rfl
  -- the released object: its count is the number of its entries, so it reaches zero with them
  have hobj : ∀ P, e.kind.pool = some P → 1 ≤ e.object ∧ e.object ≤ (L.slab P).carved ∧
      L.count P e.object = L.refs P e.object := by
    intro P hP
    obtain ⟨h1, h2⟩ := hL.slot p h P hvp (he ▸ hP)
    rw [he] at h1 h2
    exact ⟨h1, h2, hL.count P _ h1 h2⟩
  refine ⟨hpmm, fun q => ?_, fun q i hvq => ?_, fun q i P hvq hP => ?_, fun P => ?_,
    fun P o ho => ?_, fun P o h1 h2 => ?_, fun P o h1 h2 => ?_, fun P o hf => ?_, fun P o ho => ?_⟩
  · by_cases hq : q = p
    · subst hq; simpa [setCaps] using ht
    · simpa [setCaps, hq] using hL.table q
  · rw [entry_setCaps _ pmm hget', release_entry] at hvq
    split at hvq
    · cases hvq
    · exact hL.place q i hvq
  · rw [entry_setCaps _ pmm hget', release_entry] at hvq hP ⊢
    rw [hslab, hcarved]
    split at hvq
    · cases hvq
    · rename_i hqi
      rw [if_neg hqi] at hP ⊢
      exact hL.slot q i P hvq hP
  · rw [hslab, slab_release]
    split
    · rename_i hz
      obtain ⟨h1, h2, hc⟩ := hobj P hz.1
      refine nodup_cons.mpr ⟨fun hm => ?_, hL.free_nodup P⟩
      have h0 := ((hL.free P _ h1 h2).mp hm).1
      have := hrefs P e.object
      rw [if_pos ⟨hv, hz.1, rfl⟩] at this
      omega
    · exact hL.free_nodup P
  · rw [hslab, hcarved]
    rw [hslab, slab_release] at ho
    split at ho
    · rename_i hz
      rcases mem_cons.mp ho with rfl | ho
      · exact ⟨(hobj P hz.1).1, (hobj P hz.1).2.1⟩
      · exact hL.free_range P o ho
    · exact hL.free_range P o ho
  · rw [hslab, hcarved] at h2
    show (L.release e).count P o = _
    rw [count_release L e hv, hL.count P o h1 h2, hrefs P o]
    omega
  · rw [hslab, hcarved] at h2
    rw [hslab, slab_release]
    have hr := hrefs P o
    split_ifs with hz
    · obtain ⟨-, -, hc⟩ := hobj P hz.1
      by_cases ho : o = e.object
      · -- the freed object itself
        subst ho
        rw [if_pos ⟨hv, hz.1, rfl⟩] at hr
        refine iff_of_true mem_cons_self ⟨by omega, fun hf => ?_⟩
        have := (hL.fresh_unref P _ hf).2.2
        omega
      · rw [if_neg (fun h => ho h.2.2.symm)] at hr
        have hmem : o ∈ ((L.slab P).put e.object).free ↔ o ∈ (L.slab P).free := by
          show o ∈ e.object :: (L.slab P).free ↔ _
          rw [mem_cons]
          exact ⟨fun h => h.resolve_left ho, .inr⟩
        rw [hmem, hL.free P o h1 h2, hr]
        rfl
    · refine (hL.free P o h1 h2).trans ?_
      split_ifs at hr with hre
      · -- other entries still refer to the object
        obtain ⟨-, -, hc⟩ := hobj P hre.2.1
        have hne : L.count P e.object - 1 ≠ 0 := fun h0 => hz ⟨hre.2.1, h0⟩
        rw [hre.2.2] at hc hne
        exact iff_of_false (fun h => by omega) (fun h => by omega)
      · rw [hr]
        rfl
  · obtain ⟨h1, h2, h3⟩ := hL.fresh_unref P o hf
    rw [hslab, hcarved]
    have := hrefs P o
    exact ⟨h1, h2, by omega⟩
  · rw [hslab, hcarved] at ho
    show (L.release e).count P o = 0
    rw [count_release L e hv, hL.uncarved P o ho]
    omega

end Ledger

end Aegir.Kernel
