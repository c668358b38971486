/-
  A message transfer that FAILS.

  When a cap cannot be handed over, the caps inserted so far are closed again: tables, counts and buffers are
  as before.  The reply cap of a call is minted AFTER the transfer, and a failure there is not undone.
  `Undelivered` says that nothing reached the receiver, `SparesReceiver` is the exact condition for it.
-/
import Aegir.Kernel.Room
import Aegir.Laws.Marks

namespace Aegir.Kernel

open Aegir.Arch Aegir.Lib Ledger Roster List

namespace Ledger

variable {L L' : Ledger} {fresh : Option (Pool × Nat)} {actor : Nat} {target : Nat → Prop}

theorem CapSteps.carved (h : L.CapSteps actor target L') (P : Pool) : (L'.slab P).carved = (L.slab P).carved := by
  induction h with
  | refl => rfl
  | frame _ same ih => rw [same.slab, ih]
  | insert _ _ _ inserted ih =>
    obtain ⟨t, pmm, rfl, -⟩ := inserted
    rw [retain_slab]
    exact ih
  | remove _ removed ih =>
    obtain ⟨t, pmm, rfl, -⟩ := removed
    show ((release _ _).slab P).carved = _
    rw [slab_release]
    split
    · exact ih
    · exact ih

theorem Counted.count_eq (hL : L.Counted fresh) (hL' : L'.Counted fresh)
    (hcarved : ∀ P, (L'.slab P).carved = (L.slab P).carved)
    (hentry : ∀ p i, L'.entry p i = L.entry p i) (P : Pool) {o : Nat} (ho : o ≠ 0) :
    L'.count P o = L.count P o := by
  have hrefs : L'.refs P o = L.refs P o := by
    exact Lib.refs_congr fun i _ => by rw [hentry i.1 i.2]
  by_cases hle : o ≤ (L.slab P).carved
  · rw [hL.count P o (by omega) hle, hL'.count P o (by omega) (by rw [hcarved]; exact hle), hrefs]
  · rw [hL.uncarved P o (by omega), hL'.uncarved P o (by rw [hcarved]; omega)]

end Ledger

namespace State

variable {k k' : State} {fresh : Option (Pool × Nat)} {sender receiver : Nat}

/-! ## Memory -/

@[simp] theorem memory_closeCap (k : State) (t cap : Nat) (dying : Bool) :
    (k.closeCap t cap dying).2.memory = k.memory :=
  congrArg Marks.memory (marks_closeCap k t cap dying)

@[simp] theorem memory_retainCap (k : State) (e : CapEntry) : (k.retainCap e).memory = k.memory := by
  unfold retainCap
  split
  · rfl
  · split <;>
      simp [retainEndpoint, retainMemory, retainNotification, retainDevice, modEndpoint,
        modMemoryObject, modNotification, modDevice, apply_ite State.memory]

@[simp] theorem memory_insertCap (k : State) (t : Nat) (kind : ObjectKind) (o : Nat) (rights : Rights)
    (badge : U64) : (k.insertCap t kind o rights badge).2.memory = k.memory := by
  unfold insertCap
  split
  · rfl
  · unfold insertProcessCap
    split
    · exact memory_retainCap _ _
    · rfl

theorem memory_rollback (hs : List Nat) (k : State) : (k.rollback receiver hs).memory = k.memory := by
  induction hs generalizing k with
  | nil => rfl
  | cons h hs ih =>
    unfold rollback
    rw [ih]
    split
    · exact memory_closeCap _ _ _ _
    · rfl

theorem memory_transferCaps (sender receiver : Nat) (raws : List U64) (handed : List Nat) (k : State) :
    (k.transferCaps sender receiver raws handed).2.memory = k.memory := by
  induction raws generalizing k handed with
  | nil => rfl
  | cons raw raws ih =>
    unfold transferCaps
    split
    · exact ih _ _
    · split
      · exact memory_rollback _ _
      · split
        · exact memory_rollback _ _
        · rename_i e _
          split
          · exact memory_rollback _ _
          · have hins := memory_insertCap k receiver e.kind e.object e.rights e.badge
            split
            · rename_i heq
              rw [heq] at hins
              rw [memory_rollback, hins]
            · rename_i heq
              rw [heq] at hins
              rw [ih, hins]

/-! ## A transfer that fails -/

variable {t : Nat}

theorem closeCap_entry (ht : t ≠ 0) (hP : (k.tcb t).process ≠ 0)
    (hL : k.ledger.Counted fresh) (cap : Nat) (dying : Bool) (p i : Nat) :
    (k.closeCap t cap dying).2.ledger.entry p i =
      if p = (k.tcb t).process ∧ i = cap then nullCap else k.ledger.entry p i := by
  rcases closeCap_cases cap hL ht dying with ⟨-, hsame, hinv⟩ | ⟨-, hrem⟩
  · rw [hsame]
    split
    · rename_i hc
      rw [hc.1, hc.2]
      exact (hL.table _).null cap (hinv hP)
    · rfl
  · exact hrem.entry p i

theorem rollback_entry (hr : receiver ≠ 0) (hs : List Nat) (k : State)
    (hP : (k.tcb receiver).process ≠ 0) (hL : k.ledger.Counted fresh) (p i : Nat) :
    (k.rollback receiver hs).ledger.entry p i =
      if p = (k.tcb receiver).process ∧ i ∈ hs ∧ i ≠ 0 then nullCap else k.ledger.entry p i := by
  induction hs generalizing k with
  | nil => simp [rollback]
  | cons h hs ih =>
    unfold rollback
    have hsteps : k.ledger.CapSteps 0 (fun _ => False)
        (if h ≠ 0 then (k.closeCap receiver h false).2 else k).ledger := by
      split
      · exact closeCap_steps _ _ _ hL hr false
      · exact .refl _
    have hentry : (if h ≠ 0 then (k.closeCap receiver h false).2 else k).ledger.entry p i =
        if p = (k.tcb receiver).process ∧ i = h ∧ i ≠ 0 then nullCap else k.ledger.entry p i := by
      by_cases h0 : h = 0
      · rw [if_neg (by simp [h0]), if_neg (by rintro ⟨-, rfl, hne⟩; exact hne h0)]
      · rw [if_pos h0, closeCap_entry hr hP hL]
        by_cases hc : p = (k.tcb receiver).process ∧ i = h
        · rw [if_pos hc, if_pos ⟨hc.1, hc.2, by rw [hc.2]; exact h0⟩]
        · rw [if_neg hc, if_neg fun hh => hc ⟨hh.1, hh.2.1⟩]
    generalize (if h ≠ 0 then (k.closeCap receiver h false).2 else k) = k₁ at hsteps hentry ⊢
    have hproc := process_of_steps hsteps receiver
    rw [ih k₁ (by rw [hproc]; exact hP) (hsteps.counted (fun _ hf => hf.elim) hL), hproc, hentry]
    by_cases hp : p = (k.tcb receiver).process
    · by_cases h0 : i = 0
      · simp [h0]
      · by_cases hm : i ∈ hs
        · simp [hp, h0, hm]
        · by_cases he : i = h
          · subst he
            simp [hp, h0]
          · simp [hp, h0, hm, he]
    · simp [hp]

/-- **A failed transfer undoes its inserts.**  The loop comes back without a result only after the
    rollback; the handles it was given are null then, and everything else is as it was. -/
theorem transferCaps_none (hr : receiver ≠ 0) (raws : List U64) (handed : List Nat) (k : State)
    (hP : (k.tcb receiver).process ≠ 0) (hple : (k.tcb receiver).process ≤ initProcess)
    (hL : k.ledger.Counted fresh)
    (h : k.transferCaps sender receiver raws handed = (none, k')) (p i : Nat) :
    k'.ledger.entry p i = if p = (k.tcb receiver).process ∧ i ∈ handed ∧ i ≠ 0 then nullCap
      else k.ledger.entry p i := by
  induction raws generalizing k handed with
  | nil => cases h
  | cons raw raws ih =>
    unfold transferCaps at h
    split at h
    · rw [ih (handed ++ [0]) k hP hple hL h]
      refine if_congr ?_ rfl rfl
      simp only [mem_append, mem_singleton]
      constructor
      · rintro ⟨hp, hm, h0⟩
        exact ⟨hp, hm.resolve_right h0, h0⟩
      · rintro ⟨hp, hm, h0⟩
        exact ⟨hp, .inl hm, h0⟩
    · split at h
      · cases h
        exact rollback_entry hr handed k hP hL p i
      · split at h
        · cases h
          exact rollback_entry hr handed k hP hL p i
        · rename_i e hlook
          split at h
          · cases h
            exact rollback_entry hr handed k hP hL p i
          · rename_i hok
            rw [not_or] at hok
            have horig := lookupCap_copied e.badge hlook hok.2 (hasRights_refl _)
            split at h
            · rename_i s k₁ hins
              cases h
              have hsame := insertCap_error hL hins
              have hproc : (k₁.tcb receiver).process = (k.tcb receiver).process :=
                congrFun (congrArg Life.process hsame.life) receiver
              rw [rollback_entry hr handed k₁ (by rw [hproc]; exact hP) (hsame.counted hL), hproc]
              exact if_congr Iff.rfl rfl (hsame.entry p i)
            · rename_i c k₁ hins
              have hput := insertCap_ok hL (fun P hPool => by
                obtain ⟨h1, h2, -⟩ := horig.referenced hL P hPool
                exact ⟨h1, h2⟩) hins
              have hL1 : k₁.ledger.Counted fresh := hput.counted hL hple horig
              have hproc : (k₁.tcb receiver).process = (k.tcb receiver).process :=
                congrFun (congrArg Life.process hput.life) receiver
              -- the handle is not null, and it was free before
              have hc : (k₁.ledger.entry (k.tcb receiver).process c).valid = true := by
                rw [hput.entry, if_pos ⟨rfl, rfl⟩]
              have hc0 : c ≠ 0 := by
                have := ((hL1.table (k.tcb receiver).process).handle c hc).1
                omega
              have hnull : k.ledger.entry (k.tcb receiver).process c = nullCap := by
                obtain ⟨-, -, -, -, -, -, -, hfree, -⟩ := hput
                exact (hL.table (k.tcb receiver).process).null c hfree
              rw [ih (handed ++ [c]) k₁ (by rw [hproc]; exact hP) (by rw [hproc]; exact hple) hL1 h, hproc,
                hput.entry]
              by_cases hp : p = (k.tcb receiver).process
              · subst hp
                by_cases hi : i = c
                · subst hi
                  simp [hc0, hnull]
                · simp [hi]
              · simp [hp]

/-! ## Room for the caps of a message -/

variable {k₁ : State} {kind : ObjectKind} {o cap : Nat} {rights : Rights} {badge : U64}

/-- The table of the thread's process takes `n` more entries. -/
def RoomFor (k : State) (t n : Nat) : Prop := (k.capsOf t).HasRoom k.pmm n

/-- An entry that a message may carry. -/
def Carried (e : CapEntry) : Prop :=
  e.rights.transfer = true ∧ e.kind ≠ .replyObject ∧ e.kind ≠ .nullObject ∧ e.object ≠ 0

/-- A cap slot of a message names a cap of the sender that may be carried; or, between threads of one process,
    one of the handles `made` at which earlier slots of the message end up. -/
def Sendable (k : State) (sender receiver : Nat) (made : List Nat) (raw : U64) : Prop :=
  raw.toNat ≤ handleLast ∧ ((∃ e, k.lookupCap sender raw.toNat = some e ∧ Carried e) ∨
    (k.tcb sender).process = (k.tcb receiver).process ∧ raw.toNat ∈ made)

/-- **All caps of a message can be handed over**: there is room, and the `i`-th ends up at the `i`-th free
    handle. -/
def TakesCaps (k : State) (sender receiver : Nat) (caps : List U64) : Prop :=
  (∀ i raw, caps[i]? = some raw → k.Sendable sender receiver ((k.capsOf receiver).freeHandles.take i) raw) ∧
    k.RoomFor receiver caps.length

theorem tcb_retainCap (k : State) (e : CapEntry) : (k.retainCap e).tcb = k.tcb := by
  unfold retainCap
  split
  · rfl
  · split <;>
      simp [retainEndpoint, retainMemory, retainNotification, retainDevice, modEndpoint,
        modMemoryObject, modNotification, modDevice, apply_ite State.tcb]

theorem tables_retainCap (k : State) (e : CapEntry) : (k.retainCap e).pcb = k.pcb ∧ (k.retainCap e).pmm = k.pmm := by
  unfold retainCap
  split
  · exact ⟨rfl, rfl⟩
  · split <;>
      simp [retainEndpoint, retainMemory, retainNotification, retainDevice, modEndpoint,
        modMemoryObject, modNotification, modDevice, apply_ite State.pcb, apply_ite State.pmm]

/-- An insert that succeeds is one into the table of the process. -/
theorem insertCap_table (h : k.insertCap receiver kind o rights badge = (.ok cap, k')) :
    (k.tcb receiver).process ≠ 0 ∧
    ∃ c, (k.capsOf receiver).insert kind o rights badge k.pmm = (.ok cap, c, k'.pmm) ∧ k'.tcb = k.tcb ∧
      ∀ t, k'.capsOf t = if (k.tcb t).process = (k.tcb receiver).process then c else k.capsOf t := by
  unfold insertCap at h
  split at h
  · cases h
  · rename_i hP
    unfold insertProcessCap at h
    split at h
    · rename_i c' c p hins
      injection h with hc hk
      injection hc with hc
      subst hc hk
      obtain ⟨hpcb, hpmm⟩ := tables_retainCap (k.setCaps (k.tcb receiver).process c p) ⟨true, kind, o, rights, badge⟩
      have htcb := tcb_retainCap (k.setCaps (k.tcb receiver).process c p) ⟨true, kind, o, rights, badge⟩
      refine ⟨hP, c, ?_, htcb, fun t => ?_⟩
      · rw [hpmm]
        exact hins
      · unfold capsOf
        rw [htcb, hpcb]
        show (Function.update k.pcb _ _ (k.tcb t).process).caps = _
        by_cases ht : (k.tcb t).process = (k.tcb receiver).process
        · rw [ht, Function.update_self, if_pos rfl]
        · rw [Function.update_of_ne ht, if_neg ht]
    · cases h

theorem insertCap_room (hL : k.ledger.Counted fresh) (h : k.insertCap receiver kind o rights badge = (.ok cap, k')) :
    (k.capsOf receiver).freeHandles = cap :: (k'.capsOf receiver).freeHandles ∧
      ∀ n, k'.RoomFor receiver n ↔ k.RoomFor receiver (n + 1) := by
  obtain ⟨-, c, hins, -, hcaps⟩ := insertCap_table h
  have htable : (k.capsOf receiver).Wf := hL.table _
  have hc := hcaps receiver
  rw [if_pos rfl] at hc
  unfold RoomFor
  rw [hc]
  exact ⟨CapTable.insert_freeHandles htable hL.pmm hins, CapTable.insert_room htable hL.pmm hins⟩

theorem insertCap_refused (hP : (k.tcb receiver).process ≠ 0) (hL : k.ledger.Counted fresh)
    (hkind : kind ≠ .nullObject) (ho : o ≠ 0) {s : CapStatus}
    (h : k.insertCap receiver kind o rights badge = (.error s, k')) (n : Nat) : ¬ k.RoomFor receiver (n + 1) := by
  unfold insertCap at h
  rw [if_neg hP] at h
  unfold insertProcessCap at h
  split at h
  · cases h
  · rename_i hins
    exact CapTable.not_hasRoom (t := k.capsOf receiver) hL.pmm hkind ho hins n

/-- After an insert the sender has one more cap, if the table is its own. -/
theorem sendable_insertCap (sender : Nat) (hL : k.ledger.Counted fresh) {e : CapEntry} (he : Carried e)
    (h : k.insertCap receiver e.kind e.object e.rights e.badge = (.ok cap, k')) (made : List Nat) (raw : U64) :
    k'.Sendable sender receiver made raw ↔ k.Sendable sender receiver (cap :: made) raw := by
  obtain ⟨hP, c, hins, htcb, hcaps⟩ := insertCap_table h
  obtain ⟨-, h1, -, -, hget, -, -⟩ := CapTable.insert_ok (t := k.capsOf receiver) (hL.table _) hL.pmm hins
  unfold Sendable lookupCap
  rw [htcb, hcaps sender]
  refine and_congr_right fun _ => ?_
  by_cases hsame : (k.tcb sender).process = (k.tcb receiver).process
  · have hown : k.capsOf sender = k.capsOf receiver := by
      unfold capsOf
      rw [hsame]
    rw [if_pos hsame, hown, if_neg (hsame ▸ hP), if_neg (hsame ▸ hP), mem_cons]
    unfold CapTable.lookup
    rw [hget]
    by_cases hraw : raw.toNat = cap
    · rw [hraw, Function.update_self]
      refine iff_of_true (.inl ⟨_, if_neg (by simp; omega), he⟩) (.inr ⟨hsame, .inl rfl⟩)
    · rw [Function.update_of_ne hraw]
      simp [hraw]
  · simp [hsame]

/-- **The cap loop succeeds exactly on a message whose caps can all be handed over**, and uses up room for
    them. -/
theorem transferCaps_iff (hP : (k.tcb receiver).process ≠ 0) (hple : (k.tcb receiver).process ≤ initProcess)
    (hL : k.ledger.Counted fresh) (raws : List U64) (handed : List Nat) :
    ((k.transferCaps sender receiver raws handed).1.isSome = true ↔
      k.TakesCaps sender receiver (raws.filter fun raw => raw ≠ 0)) ∧
    ∀ hs k₁, k.transferCaps sender receiver raws handed = (some hs, k₁) → ∀ n, k₁.RoomFor receiver n ↔
      k.RoomFor receiver (n + (raws.filter fun raw => raw ≠ 0).length) := by
  induction raws generalizing k handed with
  | nil =>
    refine ⟨iff_of_true rfl ⟨fun i raw hi => (by cases hi), Nat.zero_le _, Pmm.hasFrames_zero _⟩, fun hs k₁ h n => ?_⟩
    cases h
    exact Iff.rfl
  | cons raw raws ih =>
    unfold State.transferCaps
    by_cases h0 : raw = 0
    · rw [if_pos h0, filter_cons_of_neg (by simpa using h0)]
      exact ih hP hple hL (handed ++ [0])
    · rw [if_neg h0, filter_cons_of_pos (by simpa using h0)]
      -- the first cap is looked at before anything is handed over
      have hfirst : k.TakesCaps sender receiver (raw :: raws.filter fun raw => raw ≠ 0) →
          raw.toNat ≤ handleLast ∧ ∃ e, k.lookupCap sender raw.toNat = some e ∧ Carried e := by
        rintro ⟨hall, -⟩
        obtain ⟨hle, h | h⟩ := hall 0 raw rfl
        · exact ⟨hle, h⟩
        · exact absurd h.2 not_mem_nil
      split
      · rename_i hgt
        exact ⟨iff_of_false (by simp) fun ht => by have := (hfirst ht).1; omega, fun _ _ h => by cases h⟩
      · split
        · rename_i hnone
          refine ⟨iff_of_false (by simp) fun ht => ?_, fun _ _ h => by cases h⟩
          obtain ⟨-, e, he, -⟩ := hfirst ht
          rw [hnone] at he
          cases he
        · rename_i hle e hlook
          split
          · rename_i hno
            refine ⟨iff_of_false (by simp) fun ht => ?_, fun _ _ h => by cases h⟩
            obtain ⟨-, e', he', hc⟩ := hfirst ht
            rw [hlook] at he'
            cases he'
            rcases hno with hno | hno
            · rw [hc.1] at hno
              cases hno
            · exact hc.2.1 hno
          · rename_i hok
            rw [not_or] at hok
            have horig := lookupCap_copied e.badge hlook hok.2 (hasRights_refl _)
            split
            · rename_i s j hins
              refine ⟨iff_of_false (by simp) fun ht => ?_, fun _ _ h => by cases h⟩
              obtain ⟨-, e', he', hc⟩ := hfirst ht
              rw [hlook] at he'
              cases he'
              exact insertCap_refused hP hL hc.2.2.1 hc.2.2.2 hins _ ht.2
            · rename_i cap j hins
              have hput := insertCap_ok hL (fun P hPool => by
                obtain ⟨h1, h2, -⟩ := horig.referenced hL P hPool
                exact ⟨h1, h2⟩) hins
              have hproc : (j.tcb receiver).process = (k.tcb receiver).process :=
                congrFun (congrArg Life.process hput.life) receiver
              have hcarried : Carried e := by
                obtain ⟨-, c, htable, -, -⟩ := insertCap_table hins
                obtain ⟨ho, -⟩ := CapTable.insert_ok (hL.table _) hL.pmm htable
                refine ⟨by simpa using hok.1, hok.2, fun hnull => ?_, ho⟩
                unfold CapTable.insert at htable
                rw [if_pos (.inl hnull)] at htable
                cases htable
              obtain ⟨hfree, hroom⟩ := insertCap_room hL hins
              obtain ⟨hsome, hrest⟩ := ih (by rw [hproc]; exact hP) (by rw [hproc]; exact hple)
                (hput.counted hL hple horig) (handed ++ [cap])
              refine ⟨hsome.trans ?_, fun hs k₁ h n => ?_⟩
              · unfold TakesCaps
                rw [hroom, length_cons, hfree]
                refine and_congr_left fun _ => ?_
                have hnext := sendable_insertCap sender hL hcarried hins
                constructor
                · intro hall i raw' hi
                  cases i with
                  | zero =>
                    cases hi
                    exact ⟨by omega, .inl ⟨e, hlook, hcarried⟩⟩
                  | succ i => exact (hnext _ raw').mp (hall i raw' hi)
                · exact fun hall i raw' hi => (hnext _ raw').mpr (hall (i + 1) raw' hi)
              · rw [hrest hs k₁ h n, hroom, length_cons]
                exact Iff.rfl

theorem tcb_insertCap (k : State) (t : Nat) (kind : ObjectKind) (o : Nat) (rights : Rights)
    (badge : U64) : (k.insertCap t kind o rights badge).2.tcb = k.tcb := by
  unfold State.insertCap State.insertProcessCap
  split
  · rfl
  · split
    · exact tcb_retainCap _ _
    · rfl

theorem tcb_transferCaps (raws : List U64) (handed hs : List Nat) (k : State)
    (h : k.transferCaps sender receiver raws handed = (some hs, k₁)) : k₁.tcb = k.tcb := by
  induction raws generalizing k handed with
  | nil =>
    cases h
    rfl
  | cons raw raws ih =>
    unfold State.transferCaps at h
    split at h
    · exact ih _ k h
    · split at h
      · cases h
      · split at h
        · cases h
        · rename_i e _
          split at h
          · cases h
          · have hins := tcb_insertCap k receiver e.kind e.object e.rights e.badge
            split at h
            · cases h
            · rename_i heq
              rw [heq] at hins
              rw [ih _ _ h]
              exact hins

/-- A loop that succeeds keeps every entry, wakes nobody, and fills a handle if the message names a
    cap; without caps it does nothing. -/
theorem transferCaps_some (raws : List U64) (handed hs : List Nat) (k : State)
    (hple : (k.tcb receiver).process ≤ initProcess) (hL : k.ledger.Counted fresh)
    (h : k.transferCaps sender receiver raws handed = (some hs, k₁)) :
    k₁.roster = k.roster ∧
    (∀ p i, (k.ledger.entry p i).valid = true → k₁.ledger.entry p i = k.ledger.entry p i) ∧
    ((∃ raw ∈ raws, raw ≠ 0) → ∃ i, (k.ledger.entry (k.tcb receiver).process i).valid = false ∧
      (k₁.ledger.entry (k.tcb receiver).process i).valid = true) ∧
    ((∀ raw ∈ raws, raw = 0) → k₁ = k ∧ hs = handed ++ raws.map fun _ => 0) := by
  induction raws generalizing k handed with
  | nil =>
    cases h
    refine ⟨rfl, fun _ _ _ => rfl, ?_, fun _ => by simp⟩
    rintro ⟨_, hm, -⟩
    exact absurd hm not_mem_nil
  | cons raw raws ih =>
    unfold State.transferCaps at h
    split at h
    · rename_i h0
      obtain ⟨hroster, hkeep, hnew, hnone⟩ := ih _ k hple hL h
      refine ⟨hroster, hkeep, ?_, fun hall => ?_⟩
      · rintro ⟨r, hm, hr⟩
        refine hnew ⟨r, ?_, hr⟩
        rcases mem_cons.mp hm with rfl | hm
        · exact absurd h0 hr
        · exact hm
      · obtain ⟨rfl, rfl⟩ := hnone fun r hm => hall r (mem_cons_of_mem _ hm)
        exact ⟨rfl, by simp⟩
    · rename_i h0
      split at h
      · cases h
      · split at h
        · cases h
        · rename_i e hlook
          split at h
          · cases h
          · rename_i hok
            rw [not_or] at hok
            have horig := lookupCap_copied e.badge hlook hok.2 (hasRights_refl _)
            split at h
            · cases h
            · rename_i c j hins
              have hput := insertCap_ok hL (fun P hPool => by
                obtain ⟨h1, h2, -⟩ := horig.referenced hL P hPool
                exact ⟨h1, h2⟩) hins
              have hproc : (j.tcb receiver).process = (k.tcb receiver).process :=
                congrFun (congrArg Life.process hput.life) receiver
              have hjr := roster_insertCap k receiver e.kind e.object e.rights e.badge
              rw [hins] at hjr
              obtain ⟨hroster, hkeep, -, -⟩ := ih _ j (by rw [hproc]; exact hple) (hput.counted hL hple horig) h
              have hfree : (k.ledger.entry (k.tcb receiver).process c).valid = false := by
                obtain ⟨-, -, -, -, -, -, -, hfree, -⟩ := hput
                exact hfree
              refine ⟨hroster.trans hjr, fun p i hvi => ?_, fun _ => ⟨c, hfree, ?_⟩, fun hall => ?_⟩
              · have hj : j.ledger.entry p i = k.ledger.entry p i := by
                  rw [hput.entry, if_neg]
                  rintro ⟨rfl, rfl⟩
                  rw [hfree] at hvi
                  cases hvi
                rw [hkeep p i (by rw [hj]; exact hvi), hj]
              · have hj : j.ledger.entry (k.tcb receiver).process c =
                    ⟨true, e.kind, e.object, e.rights, e.badge⟩ := by
                  rw [hput.entry, if_pos ⟨rfl, rfl⟩]
                rw [hkeep _ _ (by rw [hj]), hj]
              · exact absurd (hall raw mem_cons_self) h0

/-! ## What reaches the receiver -/

variable {badge : U64} {s : IpcStatus}

/-- The cap slots of the message in a buffer. -/
def capSlots (k : State) (frame : Nat) : List U64 := (range 4).map (k.memory frame).cap

/-- Tables, counts and frames are as before. -/
structure Restored (k k' : State) : Prop where
  entry : ∀ p i, k'.ledger.entry p i = k.ledger.entry p i
  count : ∀ P o, o ≠ 0 → k'.ledger.count P o = k.ledger.count P o
  memory : k'.memory = k.memory

theorem Restored.of_ledger (hl : k'.ledger = k.ledger) (hm : k'.memory = k.memory) : Restored k k' :=
  ⟨fun _ _ => by rw [hl], fun _ _ _ => by rw [hl], hm⟩

theorem Restored.trans {k'' : State} (h : Restored k k') (h' : Restored k' k'') : Restored k k'' :=
  ⟨fun p i => (h'.entry p i).trans (h.entry p i),
    fun P o ho => (h'.count P o ho).trans (h.count P o ho), h'.memory.trans h.memory⟩

/-- **Nothing of a message reached the thread `r`**: the table of its process holds the caps it held,
    no object is counted differently, and the IPC buffer has its old contents. -/
structure Undelivered (r : Nat) (k k' : State) : Prop where
  caps : ∀ h, (k'.pcb (k.tcb r).process).caps.lookup h = (k.pcb (k.tcb r).process).caps.lookup h
  counts : ∀ P o, o ≠ 0 → k'.poolCount P o = k.poolCount P o
  buffer : k'.memory (k.tcb r).ipcBuffer = k.memory (k.tcb r).ipcBuffer

theorem lookup_of_entry {p i : Nat} (h : k'.ledger.entry p i = k.ledger.entry p i) :
    (k'.pcb p).caps.lookup i = (k.pcb p).caps.lookup i := by
  have h : (k'.pcb p).caps.get i = (k.pcb p).caps.get i := h
  unfold CapTable.lookup
  rw [h]

theorem Restored.undelivered (h : Restored k k') (r : Nat) : Undelivered r k k' :=
  ⟨fun i => lookup_of_entry (h.entry _ i), h.count, by rw [h.memory]⟩

theorem Undelivered.congr {j j' : State} {r : Nat} (h : Restored k j) (h' : Restored j' k')
    (hp : (j.tcb r).process = (k.tcb r).process) (hb : (j.tcb r).ipcBuffer = (k.tcb r).ipcBuffer) :
    Undelivered r k k' ↔ Undelivered r j j' := by
  constructor
  · rintro ⟨hc, hn, hm⟩
    rw [← hp] at hc
    rw [← hb, h'.memory, ← h.memory] at hm
    refine ⟨fun i => ?_, fun P o ho => ?_, hm⟩
    · rw [← lookup_of_entry (h'.entry _ i), hc i, lookup_of_entry (h.entry _ i)]
    · exact ((h'.count P o ho).symm.trans (hn P o ho)).trans (h.count P o ho).symm
  · rintro ⟨hc, hn, hm⟩
    rw [hp] at hc
    rw [hb, h.memory, ← h'.memory] at hm
    refine ⟨fun i => ?_, fun P o ho => ?_, hm⟩
    · rw [lookup_of_entry (h'.entry _ i), hc i, lookup_of_entry (h.entry _ i)]
    · exact ((h'.count P o ho).trans (hn P o ho)).trans (h.count P o ho)

theorem bufferOf_eq_some {frame : Nat} (h : k.bufferOf t = some frame) : frame = (k.tcb t).ipcBuffer := by
  unfold bufferOf at h
  split at h
  · cases h
  · exact (Option.some.inj h).symm

theorem transferMessage_ok {k₃ : State} (h : k.transferMessage sender receiver badge = (.ok, k₃)) :
    (k.bufferOf sender).isSome = true ∧ (k.bufferOf receiver).isSome = true ∧
    ∃ handles k₁, k.transferCaps sender receiver (k.capSlots (k.tcb sender).ipcBuffer) [] = (some handles, k₁) ∧
      k₃ = k₁.writeMessage (k.tcb receiver).ipcBuffer (k.memory (k.tcb sender).ipcBuffer).label
        (k.memory (k.tcb sender).ipcBuffer).word
        (fun i => UInt64.ofNat (handles.getD i 0)) badge := by
  unfold transferMessage at h
  split at h
  · rename_i sf rf hsf hrf
    refine ⟨by rw [hsf]; rfl, by rw [hrf]; rfl, ?_⟩
    rw [← bufferOf_eq_some hsf, ← bufferOf_eq_some hrf]
    have hmem := memory_transferCaps sender receiver (k.capSlots sf) [] k
    dsimp only at h
    split at h
    · cases h
    · rename_i handles k₁ hcaps
      have hcaps : k.transferCaps sender receiver (k.capSlots sf) [] = (some handles, k₁) := hcaps
      rw [hcaps] at hmem
      cases h
      refine ⟨handles, k₁, hcaps, ?_⟩
      rw [hmem]
  · cases h

theorem transferMessage_of_caps {handles : List Nat}
    (hs : (k.bufferOf sender).isSome = true) (hr : (k.bufferOf receiver).isSome = true)
    (hcaps : k.transferCaps sender receiver (k.capSlots (k.tcb sender).ipcBuffer) [] =
      (some handles, k₁)) : (k.transferMessage sender receiver badge).1 = .ok := by
  obtain ⟨sf, hsf⟩ := Option.isSome_iff_exists.mp hs
  obtain ⟨rf, hrf⟩ := Option.isSome_iff_exists.mp hr
  rw [← bufferOf_eq_some hsf] at hcaps
  have hcaps : k.transferCaps sender receiver ((range 4).map (k.memory sf).cap) [] = (some handles, k₁) := hcaps
  unfold transferMessage
  rw [hsf, hrf]
  dsimp only
  rw [hcaps]

/-- **A transfer that fails restores everything.** -/
theorem transferMessage_restored (hr : receiver ≠ 0)
    (hP : (k.tcb receiver).process ≠ 0) (hple : (k.tcb receiver).process ≤ initProcess)
    (hL : k.ledger.Counted fresh) (h : k.transferMessage sender receiver badge = (s, k'))
    (hs : s ≠ .ok) : Restored k k' := by
  have hsteps := transferMessage_steps (fun p => p = (k.tcb receiver).process) sender hr
    (by rintro p rfl; exact hple) k badge hL rfl
  rw [h] at hsteps
  have hL' : k'.ledger.Counted fresh := hsteps.counted (by rintro p rfl; exact hple) hL
  unfold transferMessage at h
  split at h
  · rename_i sf rf _ _
    have hmem := memory_transferCaps sender receiver ((range 4).map (k.memory sf).cap) [] k
    dsimp only at h
    split at h
    · rename_i k₁ hcaps
      rw [hcaps] at hmem
      cases h
      have hentry : ∀ p i, k'.ledger.entry p i = k.ledger.entry p i := by
        intro p i
        rw [transferCaps_none hr _ _ k hP hple hL hcaps, if_neg (by simp)]
      exact ⟨hentry, fun P o ho => hL.count_eq hL' hsteps.carved hentry P ho, hmem⟩
    · cases h
      exact absurd rfl hs
  · cases h
    exact .of_ledger rfl rfl

/-! ## Messages, and what spoils them -/

/-- A transfer of a message: who sends it to whom and with which badge, whether a reply cap is minted
    after it, and whether it consumes a reply cap of the sender. -/
structure Transfer where
  sender : Nat
  receiver : Nat
  badge : U64
  mints : Bool
  consumes : Bool

/-- The transfer that a system call sets out to make. -/
def transferOf (k : State) (call : Syscall) (cur : Nat) (f : TrapFrame) : Option Transfer :=
  match decodeHandle f.a0 with
  | none => none
  | some cap =>
    match call with
    | .ipcCall =>
      match k.resolveEndpoint cur cap sendRight with
      | .ok (o, badge) => some ⟨cur, (k.endpoint o).waitingReceiver, badge, true, false⟩
      | .error _ => none
    | .ipcSend =>
      match k.resolveEndpoint cur cap sendRight with
      | .ok (o, badge) => some ⟨cur, (k.endpoint o).waitingReceiver, badge, false, false⟩
      | .error _ => none
    | .ipcRecv =>
      match k.resolveEndpoint cur cap receiveRight with
      | .ok (o, _) =>
        let caller := (k.endpoint o).queueHead
        some ⟨caller, cur, (k.tcb caller).callBadge, (k.tcb caller).replyWanted, false⟩
      | .error _ => none
    | .ipcReply =>
      match k.lookupCap cur cap with
      | some e => some ⟨cur, e.object, 0, false, true⟩
      | none => none
    | _ => none

/-- The caps of the message. -/
def messageCaps (k : State) (m : Transfer) : List U64 :=
  (k.capSlots (k.tcb m.sender).ipcBuffer).filter fun raw => raw ≠ 0

/-- The caps of the message can be handed over, and then there is no room for the reply cap: no free handle, or no
    frame for its page. -/
def RefusesReplyCap (k : State) (m : Transfer) : Prop :=
  (k.bufferOf m.sender).isSome = true ∧ (k.bufferOf m.receiver).isSome = true ∧
  k.TakesCaps m.sender m.receiver (k.messageCaps m) ∧ ¬ k.RoomFor m.receiver ((k.messageCaps m).length + 1)

/-- The message carries no caps, and the receiver's buffer holds it already. -/
def Redundant (k : State) (m : Transfer) : Prop :=
  (∀ raw ∈ k.capSlots (k.tcb m.sender).ipcBuffer, raw = 0) ∧
  (k.memory (k.tcb m.receiver).ipcBuffer).putMessage (k.memory (k.tcb m.sender).ipcBuffer).label
      (k.memory (k.tcb m.sender).ipcBuffer).word (fun _ => 0) m.badge =
    k.memory (k.tcb m.receiver).ipcBuffer

/-- **The exact condition**: it is not the mint of the reply cap that fails (or there was nothing to
    deliver), and no reply cap of the receiver's own table is consumed. -/
def SparesReceiver (k : State) (m : Transfer) : Prop :=
  (m.mints = true → k.RefusesReplyCap m → k.Redundant m) ∧
  (m.consumes = true → (k.tcb m.sender).process ≠ (k.tcb m.receiver).process)

/-! ## The two ways to fail -/

variable {j j' j₃ j₄ : State} {m : Transfer}

/-- States that agree on everything a transfer reads. -/
structure Alike (k j : State) : Prop where
  pcb : j.pcb = k.pcb
  pmm : j.pmm = k.pmm
  process : ∀ t, (j.tcb t).process = (k.tcb t).process
  ledger : j.ledger = k.ledger
  memory : j.memory = k.memory
  buffer : ∀ t, (j.tcb t).ipcBuffer = (k.tcb t).ipcBuffer

theorem Alike.restored (h : Alike k j) : Restored k j := .of_ledger h.ledger h.memory

theorem Alike.capsOf (h : Alike k j) (t : Nat) : j.capsOf t = k.capsOf t := by
  unfold State.capsOf
  rw [h.process, h.pcb]

theorem Alike.capSlots (h : Alike k j) (t : Nat) :
    j.capSlots (j.tcb t).ipcBuffer = k.capSlots (k.tcb t).ipcBuffer := by
  unfold State.capSlots
  rw [h.buffer, h.memory]

theorem Alike.redundant (h : Alike k j) : j.Redundant m ↔ k.Redundant m := by
  unfold Redundant
  rw [h.capSlots, h.buffer, h.buffer, h.memory]

theorem Alike.refusesReplyCap (h : Alike k j) : j.RefusesReplyCap m ↔ k.RefusesReplyCap m := by
  have hcaps : j.messageCaps m = k.messageCaps m := by
    unfold messageCaps
    rw [h.capSlots]
  unfold RefusesReplyCap TakesCaps Sendable RoomFor lookupCap bufferOf
  simp only [hcaps, h.capsOf, h.buffer, h.process, h.pmm]

theorem RefusesReplyCap.transferMessage_ok (hP : (k.tcb m.receiver).process ≠ 0)
    (hple : (k.tcb m.receiver).process ≤ initProcess) (hL : k.ledger.Counted fresh) (hr : k.RefusesReplyCap m)
    (badge : U64) : (k.transferMessage m.sender m.receiver badge).1 = .ok := by
  obtain ⟨hsb, hrb, htakes, -⟩ := hr
  have hsome := (transferCaps_iff hP hple hL (k.capSlots (k.tcb m.sender).ipcBuffer) []).1.mpr htakes
  obtain ⟨handles, hh⟩ := Option.isSome_iff_exists.mp hsome
  exact transferMessage_of_caps hsb hrb (Prod.ext hh rfl)

/-- **The caps were refused**: nothing reached the receiver, and the condition holds. -/
theorem undelivered_of_refused (h : Alike k j) (hr : m.receiver ≠ 0)
    (hP : (k.tcb m.receiver).process ≠ 0) (hple : (k.tcb m.receiver).process ≤ initProcess)
    (hL : k.ledger.Counted fresh) (hm : m.consumes = false)
    (ht : j.transferMessage m.sender m.receiver m.badge = (s, j'))
    (hs : s = .transferFailed ∨ s = .invalidTask) (h' : Restored j' k') :
    Undelivered m.receiver k k' ↔ k.SparesReceiver m := by
  have hPj : (j.tcb m.receiver).process ≠ 0 := by rw [h.process]; exact hP
  have hplej : (j.tcb m.receiver).process ≤ initProcess := by rw [h.process]; exact hple
  have hLj : j.ledger.Counted fresh := by rw [h.ledger]; exact hL
  have hne : s ≠ .ok := by
    rcases hs with rfl | rfl <;> simp
  refine iff_of_true ?_ ⟨fun _ hrefuse => ?_, fun hc => absurd hc (by rw [hm]; simp)⟩
  · have hres := transferMessage_restored hr hPj hplej hLj ht hne
    exact ((h.restored.trans hres).trans h').undelivered _
  · have hok := (h.refusesReplyCap.mpr hrefuse).transferMessage_ok hPj hplej hLj m.badge
    rw [ht] at hok
    exact absurd hok hne

theorem mintReplyCap_refused {caller : Nat} (h : k.mintReplyCap receiver caller = (.error s, k')) :
    ∃ t, k.insertCap receiver .replyObject caller noRights (k.tcb caller).replyGeneration = (.error t, k') := by
  unfold mintReplyCap at h
  split at h
  · rename_i t k'' hins
    cases h
    exact ⟨t, hins⟩
  · cases h

/-- What a delivered message leaves in the receiver's table and buffer: it is as before only if there
    was nothing to deliver. -/
theorem undelivered_iff_redundant (hple : (j.tcb m.receiver).process ≤ initProcess)
    (hL : j.ledger.Counted fresh) (hL3 : j₃.ledger.Counted fresh)
    (ht : j.transferMessage m.sender m.receiver m.badge = (.ok, j₃)) (hsame : j₃.ledger.SameCaps j₄.ledger) (hmem : j₄.memory = j₃.memory) :
    Undelivered m.receiver j j₄ ↔ j.Redundant m := by
  obtain ⟨-, -, handles, j1, hcaps, hj3⟩ := transferMessage_ok ht
  obtain ⟨-, -, hnew, hnone⟩ := transferCaps_some _ _ _ j hple hL hcaps
  have hmem1 : j1.memory = j.memory := by
    have := memory_transferCaps m.sender m.receiver (j.capSlots (j.tcb m.sender).ipcBuffer) [] j
    rw [hcaps] at this
    exact this
  have hled : j₃.ledger = j1.ledger := by
    rw [hj3]
    rfl
  have hL1 : j1.ledger.Counted fresh := hled ▸ hL3
  -- the buffer of the receiver after the copy
  have hbuf : j₄.memory (j.tcb m.receiver).ipcBuffer =
      (j.memory (j.tcb m.receiver).ipcBuffer).putMessage (j.memory (j.tcb m.sender).ipcBuffer).label
        (j.memory (j.tcb m.sender).ipcBuffer).word (fun i => UInt64.ofNat (handles.getD i 0))
        m.badge := by
    rw [hmem, hj3]
    unfold writeMessage
    dsimp only
    rw [Function.update_self, hmem1]
  have hzero : (∀ raw ∈ j.capSlots (j.tcb m.sender).ipcBuffer, raw = 0) →
      (fun i => UInt64.ofNat (handles.getD i 0)) = fun _ => (0 : U64) := by
    intro hall
    rw [(hnone hall).2]
    funext i
    have : ([] ++ (j.capSlots (j.tcb m.sender).ipcBuffer).map fun _ => 0).getD i 0 = 0 := by
      rw [nil_append, getD_eq_getElem?_getD, getElem?_map]
      cases (j.capSlots (j.tcb m.sender).ipcBuffer)[i]? <;> rfl
    rw [this]
    rfl
  constructor
  · rintro ⟨hc, -, hb⟩
    have hall : ∀ raw ∈ j.capSlots (j.tcb m.sender).ipcBuffer, raw = 0 := by
      by_contra hex
      push Not at hex
      obtain ⟨i, hfree, hput⟩ := hnew hex
      -- the cap that was put there would be seen
      have h4 : (j₄.ledger.entry (j.tcb m.receiver).process i).valid = true := by
        rw [hsame.entry, hled]
        exact hput
      have hc := hc i
      unfold CapTable.lookup at hc
      have h4 : ((j₄.pcb (j.tcb m.receiver).process).caps.get i).valid = true := h4
      have hi : i ≠ 0 := fun h0 => by
        have := ((hL1.table (j.tcb m.receiver).process).handle i hput).1
        omega
      rw [if_neg (by simp [hi, h4]), if_pos (.inr hfree)] at hc
      cases hc
    refine ⟨hall, ?_⟩
    rw [← hzero hall, ← hbuf]
    exact hb
  · rintro ⟨hall, hput⟩
    obtain ⟨rfl, -⟩ := hnone hall
    refine ⟨fun i => lookup_of_entry ?_, fun P o _ => ?_, ?_⟩
    · rw [hsame.entry, hled]
    · have := congrFun (congrFun hsame.count P) o
      rw [hled] at this
      exact this
    · rw [hbuf, hzero hall, hput]

/-- **The reply cap was refused**: the message was delivered, unless there was nothing to deliver. -/
theorem undelivered_of_unminted (h : Alike k j) (hP : (k.tcb m.receiver).process ≠ 0)
    (hple : (k.tcb m.receiver).process ≤ initProcess) (hL : k.ledger.Counted fresh)
    (hL3 : j₃.ledger.Counted fresh) (hmint : m.mints = true) (hm : m.consumes = false)
    (ht : j.transferMessage m.sender m.receiver m.badge = (.ok, j₃))
    (hf : j₃.mintReplyCap m.receiver m.sender = (.error .transferFailed, j₄))
    (h' : Restored j₄ k') : Undelivered m.receiver k k' ↔ k.SparesReceiver m := by
  have hP' : (j.tcb m.receiver).process ≠ 0 := by rw [h.process]; exact hP
  have hple' : (j.tcb m.receiver).process ≤ initProcess := by rw [h.process]; exact hple
  have hLj : j.ledger.Counted fresh := by rw [h.ledger]; exact hL
  obtain ⟨t, hins⟩ := mintReplyCap_refused hf
  have hmem : j₄.memory = j₃.memory := by
    have := memory_insertCap j₃ m.receiver .replyObject m.sender noRights (j₃.tcb m.sender).replyGeneration
    rw [hins] at this
    exact this
  -- the refusal, seen from the state before the call
  have hrefuse : j.RefusesReplyCap m := by
    obtain ⟨hsb, hrb, handles, j1, hcaps, hj3⟩ := transferMessage_ok ht
    obtain ⟨htakes, hroom⟩ := transferCaps_iff hP' hple' hLj (j.capSlots (j.tcb m.sender).ipcBuffer) []
    refine ⟨hsb, hrb, htakes.mp (by rw [hcaps]; rfl), fun hmore => ?_⟩
    have hP₃ : (j₃.tcb m.receiver).process ≠ 0 := by
      rw [hj3]
      show (j1.tcb m.receiver).process ≠ 0
      rw [tcb_transferCaps _ _ _ j hcaps]
      exact hP'
    have hsender : m.sender ≠ 0 := fun h0 => by simp [State.bufferOf, h0] at hsb
    have hnone := insertCap_refused hP₃ hL3 (by simp) hsender hins 0
    rw [hj3] at hnone
    refine hnone ((hroom _ _ hcaps 1).mpr ?_)
    rwa [Nat.add_comm 1]
  have hiff := undelivered_iff_redundant hple' hLj hL3 ht (insertCap_error hL3 hins) hmem
  rw [Undelivered.congr h.restored h' (h.process _) (h.buffer _), hiff, h.redundant]
  constructor
  · intro hred
    exact ⟨fun _ _ => hred, fun hc => absurd hc (by rw [hm]; simp)⟩
  · rintro ⟨hsp, -⟩
    exact hsp hmint (h.refusesReplyCap.mp hrefuse)

/-- **A reply whose transfer failed**: the reply cap is gone from the replier's table, which is the
    receiver's as well if both are threads of one process. -/
theorem undelivered_of_reply {cap : Nat} {e : CapEntry}
    (found : k.lookupCap m.sender cap = some e) (kind : e.kind = .replyObject)
    (hr : m.receiver ≠ 0) (hP : (k.tcb m.receiver).process ≠ 0)
    (hple : (k.tcb m.receiver).process ≤ initProcess) (hL : k.ledger.Counted fresh)
    (hm : m.mints = false) (hc : m.consumes = true)
    (ht : (k.forgetCap m.sender cap).transferMessage m.sender m.receiver m.badge = (s, j'))
    (hs : s = .transferFailed ∨ s = .invalidTask) (h' : Restored j' k') :
    Undelivered m.receiver k k' ↔ k.SparesReceiver m := by
  obtain ⟨hent, hv⟩ := lookupCap_eq_some found
  have hne : s ≠ .ok := by
    rcases hs with rfl | rfl <;> simp
  have htcb : (k.forgetCap m.sender cap).tcb = k.tcb := by
    unfold forgetCap
    split <;> rfl
  have hmem : (k.forgetCap m.sender cap).memory = k.memory := by
    unfold forgetCap
    split <;> rfl
  have hsteps : k.ledger.CapSteps 0 (fun _ => False) (k.forgetCap m.sender cap).ledger :=
    forgetCap_steps hL (by rw [hent, kind]; rfl)
  have hL1 := hsteps.counted (fun _ hf => hf.elim) hL
  have hres := (transferMessage_restored hr (by rw [htcb]; exact hP) (by rw [htcb]; exact hple) hL1 ht
    hne).trans h'
  have hP0 : (k.tcb m.sender).process ≠ 0 := by
    intro h0
    unfold lookupCap at found
    rw [if_pos h0] at found
    cases found
  have hrem := forgetCap_removed hL hP0 (by rw [hent]; exact hv) (by rw [hent, kind]; rfl)
  have hentry : ∀ p i, k'.ledger.entry p i =
      if p = (k.tcb m.sender).process ∧ i = cap then nullCap else k.ledger.entry p i :=
    fun p i => (hres.entry p i).trans (hrem.entry p i)
  constructor
  · rintro ⟨hcaps, -, -⟩
    refine ⟨fun h => absurd h (by rw [hm]; simp), fun _ hsame => ?_⟩
    -- the reply cap was found in the receiver's table and is not there any more
    have hafter : ((k'.pcb (k.tcb m.receiver).process).caps.get cap).valid = false := by
      have h : (k'.pcb (k.tcb m.receiver).process).caps.get cap =
          if (k.tcb m.receiver).process = (k.tcb m.sender).process ∧ cap = cap then nullCap
            else k.ledger.entry (k.tcb m.receiver).process cap := hentry _ _
      rw [h, if_pos ⟨hsame.symm, rfl⟩]
      rfl
    have hlost := hcaps cap
    unfold lookupCap at found
    rw [if_neg hP0] at found
    rw [← hsame, show (k.pcb (k.tcb m.sender).process).caps.lookup cap = some e from found] at hlost
    rw [← hsame] at hafter
    obtain ⟨-, hget, hv'⟩ := CapTable.lookup_eq_some hlost
    rw [hget, hv'] at hafter
    cases hafter
  · rintro ⟨-, hdiff⟩
    have hdiff := hdiff hc
    refine ⟨fun i => lookup_of_entry ?_, fun P o ho => ?_, by rw [hres.memory, hmem]⟩
    · rw [hentry, if_neg fun h => hdiff h.1.symm]
    · refine (hres.count P o ho).trans ?_
      unfold forgetCap
      split <;> rfl

end State

end Aegir.Kernel
