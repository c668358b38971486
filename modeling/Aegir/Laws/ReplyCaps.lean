/-
  REPLY CAPS ARE ONE-SHOT, in every run from boot.

  Every live thread that awaits a reply has exactly one reply cap with its generation, in one table;
  the cap was minted when this very call was taken, and is used up with the end of the wait.  A reply
  cap that outlives its call (the thread exited, its slot was given to another) has an older
  generation and wakes nobody.

  Generations are counted modulo 2^23, so a run must not fill the control block of one slot more often
  than that.
-/
import Mathlib.Data.Nat.Count
import Aegir.Laws.ReplySeats

namespace Aegir.Kernel

open Aegir.Arch Aegir.Lib Ledger Roster Function

namespace State

variable {k k' : State} {n : Nat}

/-! ## Boot -/

variable {cap : Nat}

/-- Nobody waits, there is no reply cap, no slot was used, and only init is there. -/
structure Unanswered (k : State) : Prop where
  idle : ∀ t, ¬ k.book.waiting t
  none : ∀ q t g, ¬ k.book.holds q t g
  init : ∀ t, k.book.live t → t = initThread ∧ k.book.stamp t = 0
  generation : ∀ slot, k.threadSlotGeneration slot = 0

theorem Unanswered.rests (h : k.Unanswered) (hr : Rests k k') : k'.Unanswered := by
  refine ⟨fun t ht => h.idle t ((hr.book.waiting t).mp ht),
    fun q t g hq => h.none q t g ((hr.book.holds q t g).mp hq), fun t ht => ?_, fun slot => ?_⟩
  · obtain ⟨hinit, hstamp⟩ := h.init t ((hr.book.live t).mp ht)
    exact ⟨hinit, (hr.book.stamp t).trans hstamp⟩
  · rw [hr.generation]
    exact h.generation slot

theorem setupInit_unanswered (c : BootConfig) : ((bare c).setupInit c).Unanswered := by
  obtain ⟨htcb, hself⟩ := setupInit_tcb c
  refine ⟨fun t ht => ?_, fun q t g hq => ?_, fun t ht => ?_, fun slot => rfl⟩
  · have ht : (((bare c).setupInit c).tcb t).awaitingReply = true := ht
    by_cases hi : t = initThread
    · rw [hi, hself] at ht
      cases ht
    · rw [htcb t hi] at ht
      cases ht
  · have hq : ((((bare c).setupInit c).pcb q.1).caps.get q.2).IsReply t g := hq
    rw [setupInit_caps] at hq
    exact nullCap_not_reply t g hq
  · have ht : (((bare c).setupInit c).tcb t).state ≠ .dead := ht
    by_cases hi : t = initThread
    · refine ⟨hi, ?_⟩
      show (((bare c).setupInit c).tcb t).replyGeneration = 0
      rw [hi, hself]
      rfl
    · rw [htcb t hi] at ht
      exact absurd rfl ht

theorem insertInit_rests {o : Nat} {kind : ObjectKind} {rights : Rights} {badge : U64}
    {status : CapStatus} (h : k.Inv) (hcap : cap ≤ handleLast) (hpool : kind.pool = none)
    (hkind : kind ≠ .replyObject)
    (hins : k.insertProcessCapAt initProcess cap kind o rights badge = (status, k')) : Rests k k' := by
  have hr : k'.roster = k.roster := by
    have := roster_insertProcessCapAt k initProcess cap kind o rights badge
    rwa [hins] at this
  by_cases hok : status = .ok
  · subst hok
    have hput := insertProcessCapAt_ok h.counted hcap (fun P hP => by rw [hpool] at hP; cases hP) hins
    exact .of_life (hput.sameReplies hkind) (.of_eq hr) hput.life
  · have hsame := insertProcessCapAt_error h.counted hok hins
    exact .of_life hsame.sameReplies (.of_eq hr) hsame.life

theorem boot_unanswered (c : BootConfig) : (boot c).Unanswered := by
  have hkinds : ∀ kind ∈ bootKinds, kind.pool = none ∧ kind ≠ .replyObject := by decide
  have hrests : (boot c).Inv ∧ Rests ((bare c).setupInit c) (boot c) := by
    apply boot_ind (R := fun k => k.Inv ∧ Rests ((bare c).setupInit c) k) _ c ⟨setupInit_inv c, .refl _⟩
    rintro k cap o kind rights badge hkind hcap ⟨h, hr⟩
    obtain ⟨hpool, hreply⟩ := hkinds kind hkind
    exact ⟨h.insertInit hcap hpool rfl, hr.trans (insertInit_rests h hcap hpool hreply rfl)⟩
  exact (setupInit_unanswered c).rests hrests.2

/-! ## Counting the clients of a slot -/

variable {slot i t : Nat} {M : Nat → Prop}

/-- How often the control block of a thread slot was filled in the first `i` steps: whenever it is,
    and only then, the generation counter of the slot moves. -/
def seatings (r : Run step n) (slot i : Nat) : Nat :=
  Nat.count (fun j => (r.state (j + 1)).threadSlotGeneration slot ≠
    (r.state j).threadSlotGeneration slot) i

/-- The stamps given out for a thread. -/
def stamps (r : Run step n) (i t : Nat) : Nat :=
  if t = initThread then 1 else if t = 0 then 0 else seatings r (t - 1) i

theorem stamps_slot (r : Run step n) (i : Nat) (lt : slot < maxThreadSlots) :
    stamps r i (slot + 1) = seatings r slot i := by
  have hne : slot + 1 ≠ initThread := by
    unfold initThread
    omega
  unfold stamps
  rw [if_neg hne, if_neg (by omega), Nat.add_sub_cancel]

theorem seatings_of_eq {r : Run step n}
    (h : (r.state (i + 1)).threadSlotGeneration slot = (r.state i).threadSlotGeneration slot) :
    seatings r slot (i + 1) = seatings r slot i := by
  unfold seatings
  rw [Nat.count_succ, if_neg (not_not.mpr h), Nat.add_zero]

theorem stamps_of_eq {r : Run step n}
    (h : (r.state (i + 1)).threadSlotGeneration = (r.state i).threadSlotGeneration) (t : Nat) :
    stamps r (i + 1) t = stamps r i t := by
  unfold stamps
  rw [seatings_of_eq (congrFun h _)]

/-- The counters show how often the slots were filled. -/
def Counters (r : Run step n) (i : Nat) : Prop :=
  ∀ slot, (r.state i).threadSlotGeneration slot = seatings r slot i % generationWrap

theorem Counters.of_eq {r : Run step n} (h : Counters r i)
    (he : (r.state (i + 1)).threadSlotGeneration = (r.state i).threadSlotGeneration) :
    Counters r (i + 1) := by
  intro slot
  rw [seatings_of_eq (congrFun he slot), congrFun he slot]
  exact h slot

theorem Seats.seatings {r : Run step n} (h : Seats slot (r.state i) (r.state (i + 1)))
    (hc : Counters r i) (j : Nat) :
    State.seatings r j (i + 1) = State.seatings r j i + if j = slot then 1 else 0 := by
  by_cases hj : j = slot
  · subst hj
    have hmoved : (r.state (i + 1)).threadSlotGeneration j ≠ (r.state i).threadSlotGeneration j := by
      rw [h.generation, update_self, hc j]
      unfold generationWrap
      omega
    unfold State.seatings
    rw [Nat.count_succ, if_pos hmoved, if_pos rfl]
  · rw [if_neg hj]
    refine seatings_of_eq ?_
    rw [h.generation, update_of_ne hj]

theorem Seats.counters {r : Run step n} (h : Seats slot (r.state i) (r.state (i + 1)))
    (hc : Counters r i) : Counters r (i + 1) := by
  intro j
  have hcount := h.seatings hc j
  by_cases hj : j = slot
  · subst hj
    rw [if_pos rfl] at hcount
    rw [hcount, h.generation, update_self, hc j, Nat.mod_add_mod]
  · rw [if_neg hj] at hcount
    rw [hcount, h.generation, update_of_ne hj]
    exact hc j

/-- **Every step is a turn**, as long as the counter of the slot it fills has not wrapped. -/
theorem Turns.turn {r : Run step n} (h : Turns M (r.state i) (r.state (i + 1)))
    (hreuse : ∀ slot, slot < maxThreadSlots → seatings r slot (i + 1) ≤ generationWrap)
    (hc : Counters r i) :
    Tickets.Turn UInt64.toNat (r.state i).book (r.state (i + 1)).book (stamps r i) (stamps r (i + 1)) ∧
      Counters r (i + 1) := by
  cases h with
  | rests h => exact ⟨.same h.book (stamps_of_eq h.generation), hc.of_eq h.generation⟩
  | wanes h generation => exact ⟨.wanes h (stamps_of_eq generation), hc.of_eq generation⟩
  | issues q t caller h generation =>
    exact ⟨.issues q t h (stamps_of_eq generation), hc.of_eq generation⟩
  | seats slot lt h =>
    refine ⟨?_, h.counters hc⟩
    have hself := h.seatings hc slot
    rw [if_pos rfl] at hself
    have hsmall := hreuse slot lt
    refine .renews (slot + 1) h.book ?_ ?_ fun t ht => ?_
    · -- the counter has not wrapped, so it is the number of the stamp
      have hlt : State.seatings r slot i < generationWrap := by omega
      rw [h.stamp, stamps_slot r i lt, hc slot, Nat.mod_eq_of_lt hlt]
      refine UInt64.toNat_ofNat_of_lt' ?_
      unfold generationWrap at hlt
      unfold UInt64.size
      omega
    · rw [stamps_slot r _ lt, stamps_slot r _ lt]
      exact hself
    · unfold stamps
      split
      · rfl
      · split
        · rfl
        · rw [h.seatings hc (t - 1), if_neg (by omega), Nat.add_zero]

theorem Turns.mints (h : Turns M k k') (hidle : ¬ k.book.Awaits t) (hwait : k'.book.Awaits t) : M t := by
  cases h with
  | rests h => exact absurd ((h.book.awaits t).mp hwait) hidle
  | wanes h generation => exact absurd ⟨h.live t hwait.1, h.waiting t hwait⟩ hidle
  | issues q u caller h generation =>
    rcases (h.waiting t).mp hwait.2 with hw | rfl
    · exact absurd ⟨(h.live t).mp hwait.1, hw⟩ hidle
    · exact caller
  | seats slot lt h =>
    by_cases ht : t = slot + 1
    · subst ht
      exact absurd hwait.2 h.book.calm
    · exact absurd ⟨(h.book.live t ht).mp hwait.1, (h.book.waiting t ht).mp hwait.2⟩ hidle

/-! ## Every run -/

section Runs

variable {c : BootConfig} {r : Run step n}

theorem run_exact (hboot : r.state 0 = boot c)
    (hreuse : ∀ slot, slot < maxThreadSlots → seatings r slot n ≤ generationWrap) (i : Nat) (hi : i ≤ n) :
    (r.state i).book.Exact ∧ Counters r i := by
  have h0 : (r.state 0).Unanswered := hboot ▸ boot_unanswered c
  have hexact : (r.state 0).book.Exact :=
    ⟨fun t ht => absurd ht.2 (h0.idle t), fun t q _ hq => absurd hq (h0.none q t _)⟩
  have hnumbered : Tickets.Numbered UInt64.toNat (stamps r 0) (r.state 0).book := by
    refine ⟨fun q t g hq => absurd hq (h0.none q t g), fun t ht => ?_⟩
    obtain ⟨rfl, hstamp⟩ := h0.init t ht
    rw [hstamp]
    unfold stamps
    rw [if_pos rfl]
    decide
  have hcounters : Counters r 0 := fun slot => h0.generation slot
  have hturn : ∀ j, j < n → (r.state j).book.Exact → Counters r j →
      Tickets.Turn UInt64.toNat (r.state j).book (r.state (j + 1)).book (stamps r j) (stamps r (j + 1)) ∧
        Counters r (j + 1) := by
    intro j hj hB hc
    refine (step_turns (run_inv c r hboot j (by omega)) hB (r.step_eq j hj)).turn (fun slot lt => ?_) hc
    exact (Nat.count_monotone _ hj).trans (hreuse slot lt)
  obtain ⟨hB, -, hc⟩ := Tickets.exact_throughout (B := fun j => (r.state j).book) hexact hnumbered
    hcounters hturn i hi
  exact ⟨hB, hc⟩

theorem run_since (hboot : r.state 0 = boot c)
    (hreuse : ∀ slot, slot < maxThreadSlots → seatings r slot n ≤ generationWrap) (hi : i ≤ n)
    {q : Nat × Nat} (hwait : (r.state i).book.Awaits t)
    (hq : (r.state i).book.holds q t ((r.state i).book.stamp t)) :
    ∃ m, Tickets.Since (fun j => (r.state j).book) m i q t ((r.state i).book.stamp t) ∧
      (r.action m).Mints t := by
  have h0 : (r.state 0).Unanswered := hboot ▸ boot_unanswered c
  have hturns : ∀ j, j < n → Turns (r.action j).Mints (r.state j) (r.state (j + 1)) := fun j hj =>
    step_turns (run_inv c r hboot j (by omega)) (run_exact hboot hreuse j (by omega)).1 (r.step_eq j hj)
  have hturn : ∀ j, j < n → Tickets.Turn UInt64.toNat (r.state j).book (r.state (j + 1)).book
      (stamps r j) (stamps r (j + 1)) := by
    intro j hj
    have hc := (run_exact hboot hreuse j (by omega)).2
    exact ((hturns j hj).turn (fun slot lt => (Nat.count_monotone _ hj).trans (hreuse slot lt)) hc).1
  obtain ⟨m, hm⟩ := Tickets.exists_since (B := fun j => (r.state j).book) (fun t ht => h0.idle t ht.2)
    (fun j hj => (run_exact hboot hreuse j hj).1) hturn i hi q t hwait hq
  have hlt := hm.before
  exact ⟨m, hm, (hturns m (by omega)).mints hm.idle (hm.throughout (m + 1) (by omega) (by omega)).1⟩

/-- A `cap_delete` of a reply cap, or a reply with it by a thread that has a buffer, uses it up. -/
theorem step_redeems {cur : Nat} {f : TrapFrame} {a : Action} {e : CapEntry} (h : k.Inv)
    (hs : k.step a = some k') (ha : a = .syscall .capDelete cur f ∨
      a = .syscall .ipcReply cur f ∧ k.bufferOf cur ≠ none) (hcap : decodeHandle f.a0 = some cap)
    (hlook : k.lookupCap cur cap = some e) (hkind : e.kind = .replyObject) :
    k.Redeems k' ((k.tcb cur).process, cap) e := by
  rcases ha with rfl | ⟨rfl, hbuf⟩
  · cases step_cases hs with
    | syscall hcur hrun =>
      have hredeem := closeCap_redeems h.counted h.waits hcur hlook hkind false
      obtain ⟨v, heq⟩ := handleCapDelete_cases k cur f
      rw [hcap] at heq
      show k.Redeems (k.handleCapDelete cur f) _ _
      rw [heq]
      refine ⟨?_, fun hstale => (roster_setA0 ..).trans (hredeem.stale hstale)⟩
      rw [book_setA0]
      exact hredeem.drops
  · cases step_cases hs with
    | syscall =>
      have hredeem := reply_redeems h hbuf hlook hkind
      show k.Redeems (k.handleIpcReply cur f) _ _
      unfold handleIpcReply
      rw [hcap]
      refine ⟨?_, fun hstale => (roster_setIpcResult ..).trans (hredeem.stale hstale)⟩
      rw [book_setIpcResult]
      exact hredeem.drops

/-- **Reply caps are one-shot and never cross-deliver.**  In every run from boot in which no thread
    slot is filled more than 2^23 times:

    * a live thread that awaits a reply is named by exactly one valid reply cap of all tables with its
      generation;
    * every reply cap with the generation of its live thread was minted by the step that began the wait
      the thread is in, a call of this thread or the receive that took the call, and both have been
      there ever since;
    * if the thread is still there after a step, it goes on waiting with the cap, or it was made ready
      and the cap is gone;
    * a close of a reply cap, and a reply with it, takes this cap and no other away and ends the wait of
      the thread that awaits it, which becomes ready; every other wait stays, and when nobody awaits it
      (a call answered otherwise, a thread that died, a new thread in its slot) no thread moves. -/
theorem reply_caps_one_shot (c : BootConfig) {n : Nat} (r : Run step n) (hboot : r.state 0 = boot c)
    (hreuse : ∀ slot, slot < maxThreadSlots → seatings r slot n ≤ generationWrap) :
    (∀ i t, i ≤ n → ((r.state i).tcb t).state ≠ .dead → ((r.state i).tcb t).awaitingReply = true →
      ∃! q : Nat × Nat,
        ((r.state i).ledger.entry q.1 q.2).IsReply t ((r.state i).tcb t).replyGeneration) ∧
    (∀ i t (q : Nat × Nat), i ≤ n → ((r.state i).tcb t).state ≠ .dead →
      ((r.state i).ledger.entry q.1 q.2).IsReply t ((r.state i).tcb t).replyGeneration →
      ∃ m, Tickets.Since (fun j => (r.state j).book) m i q t ((r.state i).tcb t).replyGeneration ∧
        (r.action m).Mints t) ∧
    (∀ i t (q : Nat × Nat), i < n → ((r.state i).tcb t).state ≠ .dead →
      ((r.state (i + 1)).tcb t).state ≠ .dead →
      ((r.state i).ledger.entry q.1 q.2).IsReply t ((r.state i).tcb t).replyGeneration →
      (((r.state (i + 1)).tcb t).awaitingReply = true ∧
        ((r.state (i + 1)).tcb t).replyGeneration = ((r.state i).tcb t).replyGeneration ∧
        ((r.state (i + 1)).ledger.entry q.1 q.2).IsReply t ((r.state i).tcb t).replyGeneration) ∨
      (((r.state (i + 1)).tcb t).awaitingReply ≠ true ∧
        ¬ ((r.state (i + 1)).ledger.entry q.1 q.2).IsReply t ((r.state i).tcb t).replyGeneration ∧
        ((r.state (i + 1)).tcb t).state = .ready)) ∧
    (∀ i cur cap f e, i < n →
      (r.action i = .syscall .capDelete cur f ∨
        r.action i = .syscall .ipcReply cur f ∧ (r.state i).bufferOf cur ≠ none) →
      decodeHandle f.a0 = some cap → (r.state i).lookupCap cur cap = some e → e.kind = .replyObject →
      (r.state i).Redeems (r.state (i + 1)) (((r.state i).tcb cur).process, cap) e) := by
  have hexact : ∀ i, i ≤ n → (r.state i).book.Exact := fun i hi => (run_exact hboot hreuse i hi).1
  refine ⟨fun i t hi hlive hwait => ?_, fun i t q hi hlive hq => ?_, fun i t q hi hlive hlive' hq => ?_,
    fun i cur cap f e hi ha hcap hlook hkind => ?_⟩
  · obtain ⟨q, hq, hone⟩ := (hexact i hi).one t ⟨hlive, hwait⟩
    exact ⟨q, hq, hone⟩
  · have hwait := (hexact i hi).only t q hlive hq
    exact run_since hboot hreuse hi ⟨hlive, hwait⟩ hq
  · have hwait := (hexact i (by omega)).only t q hlive hq
    have hturn := (step_turns (run_inv c r hboot i (by omega)) (hexact i (by omega))
      (r.step_eq i hi)).turn (fun slot lt => (Nat.count_monotone _ hi).trans (hreuse slot lt))
      (run_exact hboot hreuse i (by omega)).2
    exact hturn.1.ends ⟨hlive, hwait⟩ hq hlive'
  · exact step_redeems (run_inv c r hboot i (by omega)) (r.step_eq i hi) ha hcap hlook hkind

/-- Init's call to a process that waits on its endpoint: the callee holds the one reply cap. -/
theorem reply_caps_one_shot_call :
    callRun.state 0 = boot imageMachine ∧
    (∀ slot, slot < maxThreadSlots → seatings callRun slot 6 ≤ generationWrap) ∧
    ((callRun.state 6).tcb initThread).awaitingReply = true ∧
    ∃! q : Nat × Nat, ((callRun.state 6).ledger.entry q.1 q.2).IsReply initThread
      ((callRun.state 6).tcb initThread).replyGeneration := by
  have hboot : callRun.state 0 = boot imageMachine := rfl
  have hreuse : ∀ slot, slot < maxThreadSlots → seatings callRun slot 6 ≤ generationWrap := by
    intro slot _
    have hwrap : 6 ≤ generationWrap := by decide
    exact (Nat.count_le _).trans hwrap
  have hwait : ((callRun.state 6).tcb initThread).awaitingReply = true := by decide +kernel
  have hlive : ((callRun.state 6).tcb initThread).state ≠ .dead := by decide +kernel
  exact ⟨hboot, hreuse, hwait,
    (reply_caps_one_shot imageMachine callRun hboot hreuse).1 6 initThread (Nat.le_refl _) hlive hwait⟩

end Runs

end State

end Aegir.Kernel
