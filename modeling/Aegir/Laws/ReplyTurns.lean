/-
  What every SYSTEM CALL does to the reply caps.

  A call moves nothing (`Rests`), closes caps and lets threads die (`Wanes`), mints one reply cap
  (`Issues`), or fills the control block of a thread slot (`Renews`).  `Turns` is the choice among the
  four, with the generation counters of the thread slots: only a spawn and a thread creation count.
-/
import Aegir.Laws.ReplyBook
import Aegir.Laws.Lineage

namespace Aegir.Kernel

open Aegir.Arch Aegir.Lib Ledger Roster

namespace State

variable {k k' k'' : State} {fresh : Option (Pool × Nat)} {P : Pool} {cur t : Nat}

/-! ## Calls that move nothing -/

/-- No wait, no reply cap and no generation counter moves. -/
structure Rests (k k' : State) : Prop where
  book : k.book.Same k'.book
  generation : k'.threadSlotGeneration = k.threadSlotGeneration

namespace Rests

theorem refl (k : State) : Rests k k := ⟨.refl _, rfl⟩

theorem trans (h : Rests k k') (h' : Rests k' k'') : Rests k k'' :=
  ⟨h.book.trans h'.book, h'.generation.trans h.generation⟩

theorem of_life (hl : k.ledger.SameReplies k'.ledger) (hr : k.roster.SameWaits k'.roster)
    (hg : k'.ledger.life = k.ledger.life) : Rests k k' :=
  ⟨book_same hl hr, congrArg Life.threadSlotGeneration hg⟩

theorem of_eq (hl : k'.ledger = k.ledger) (hr : k'.roster = k.roster) : Rests k k' :=
  of_life (.of_eq hl) (.of_eq hr) (by rw [hl])

theorem of_tcb (hc : k'.ledger.caps = k.ledger.caps) (ht : k'.tcb = k.tcb)
    (hg : k'.threadSlotGeneration = k.threadSlotGeneration) : Rests k k' := by
  refine ⟨book_same (.of_caps hc) (.of_thread ?_), hg⟩
  funext t
  show (k'.tcb t).ipc = (k.tcb t).ipc
  rw [ht]

theorem setA0 (h : Rests k k') (v : U64) : Rests k (k'.setA0 t v) :=
  h.trans (.of_eq (ledger_setA0 ..) (roster_setA0 ..))

theorem setA1 (h : Rests k k') (v : U64) : Rests k (k'.setA1 t v) :=
  h.trans (.of_eq (ledger_setA1 ..) (roster_setA1 ..))

theorem setIpcResult (h : Rests k k') (s : IpcStatus) : Rests k (k'.setIpcResult t s) :=
  h.trans (.of_eq (ledger_setIpcResult ..) (roster_setIpcResult ..))

end Rests

/-- The control block of a free thread slot is filled, with the generation that the counter shows. -/
structure Seats (slot : Nat) (k k' : State) : Prop where
  book : k.book.Renews k'.book (slot + 1)
  stamp : k'.book.stamp (slot + 1) = UInt64.ofNat (k.threadSlotGeneration slot)
  generation : k'.threadSlotGeneration = Function.update k.threadSlotGeneration slot
    ((k.threadSlotGeneration slot + 1) % generationWrap)

theorem Seats.rests {slot : Nat} (h : Seats slot k k') (h' : Rests k' k'') : Seats slot k k'' :=
  ⟨h.book.before (.of_same h'.book h.book.calm), (h'.book.stamp _).trans h.stamp, h'.generation.trans h.generation⟩

/-- **What a step does to the reply caps**; `mints` tells whose waits it may begin. -/
inductive Turns (mints : Nat → Prop) (k k' : State) : Prop
  | rests (h : Rests k k')
  | wanes (h : k.book.Wanes k'.book) (generation : k'.threadSlotGeneration = k.threadSlotGeneration)
  | issues (q : Nat × Nat) (t : Nat) (caller : mints t) (h : k.book.Issues k'.book q t)
      (generation : k'.threadSlotGeneration = k.threadSlotGeneration)
  | seats (slot : Nat) (lt : slot < maxThreadSlots) (h : Seats slot k k')

variable {badge : U64} {o : Nat} {rights : Rights} {kind : ObjectKind}

theorem insertCap_rests (hL : k.ledger.Counted fresh) (hk : kind ≠ .replyObject)
    (hs : ∀ P, kind.pool = some P → 1 ≤ o ∧ o ≤ (k.ledger.slab P).carved) :
    Rests k (k.insertCap t kind o rights badge).2 := by
  have hr := SameWaits.of_eq (roster_insertCap k t kind o rights badge)
  generalize hins : k.insertCap t kind o rights badge = r at hr ⊢
  obtain ⟨result, k'⟩ := r
  cases result with
  | error s =>
    have hsame := insertCap_error hL hins
    exact .of_life hsame.sameReplies hr hsame.life
  | ok cap =>
    have hput := insertCap_ok hL hs hins
    exact .of_life (hput.sameReplies hk) hr hput.life

theorem grantFresh_rests {discard : State → Nat → State} {created : Nat × State} (hP : kind.pool = some P)
    (hsome : created.1 ≠ 0 → Prepared k created.2 (some (P, created.1)))
    (hcreated : Rests k created.2) (hdiscard : ∀ j o, Rests j (discard j o)) :
    Rests k (grantFresh cur kind rights discard created) := by
  unfold grantFresh
  split
  · exact hcreated.setA0 _
  · rename_i h0
    have hk := hsome h0
    have hrange := hk.counted.fresh_unref P created.1 rfl
    have hreply : kind ≠ .replyObject := by
      rintro rfl
      cases hP
    have hput : Rests created.2 (created.2.insertCap cur kind created.1 rights 0).2 :=
      insertCap_rests hk.counted hreply fun Q hQ => by
        rw [hP] at hQ
        cases hQ
        exact ⟨hrange.1, hrange.2.1⟩
    have hins := hcreated.trans hput
    split
    · rename_i k' heq
      rw [heq] at hins
      exact (hins.trans (hdiscard k' created.1)).setA0 _
    · rename_i cap k' heq
      rw [heq] at hins
      exact hins.setA0 _

theorem releaseDevice_rests (k : State) (o : Nat) : Rests k (k.releaseDevice o) := by
  have hfin : ∀ j : State, (j.finalizeDevice o).threadSlotGeneration = j.threadSlotGeneration := by
    intro j
    unfold finalizeDevice
    split
    · exact congrArg Ledger.threadSlotGeneration (ledger_unregisterLine j o)
    · rfl
  refine ⟨book_same (.of_caps (ledger_caps_releaseDevice k o)) (.of_eq (roster_releaseDevice k o)), ?_⟩
  unfold releaseDevice
  split
  · exact hfin k
  · dsimp only
    split
    · exact hfin _
    · rfl

theorem freeFrames_rests (k : State) (o : Nat) : Rests k (k.freeFrames o) := by
  unfold freeFrames
  dsimp only
  split
  · exact .of_tcb rfl rfl rfl
  · exact .of_tcb rfl rfl rfl

theorem allocateFrames_rests (n o index : Nat) (k : State) :
    Rests k (k.allocateFrames o index n).2 := by
  induction n generalizing k index with
  | zero => exact .refl k
  | succ n ih =>
    unfold allocateFrames
    split
    · exact .of_tcb rfl rfl rfl
    · dsimp only
      refine Rests.trans ?_ (ih _ _)
      exact .of_tcb rfl rfl rfl

theorem createMemory_rests (k : State) (pages : U64) : Rests k (k.createMemory pages).2 := by
  unfold createMemory
  split
  · exact .refl k
  · split
    · exact .of_tcb rfl rfl rfl
    · rename_i s p _
      have hfree : ∀ (j : State) (o : Nat), Rests j (j.freeMemorySlot o) :=
        fun j o => .of_tcb rfl rfl rfl
      dsimp only
      have htake : Rests k (({ k with memorySlab := s.take.2, pmm := p } : State).modMemoryObject
          s.take.1 fun _ => ⟨0, pages.toNat, fun _ => 0⟩) := .of_tcb rfl rfl rfl
      have hall := htake.trans (allocateFrames_rests pages.toNat s.take.1 0 _)
      split
      · rename_i heq
        rw [heq] at hall
        exact hall
      · rename_i heq
        rw [heq] at hall
        exact (hall.trans (freeFrames_rests _ _)).trans (hfree _ _)

theorem allocateDevice_rests (k : State) : Rests k k.allocateDevice.2 := by
  unfold allocateDevice
  split
  · exact .of_tcb rfl rfl rfl
  · exact .of_tcb rfl rfl rfl

theorem createIrq_rests (k : State) (source : U64) : Rests k (k.createIrq source).2 := by
  unfold createIrq
  dsimp only
  split
  · exact allocateDevice_rests k
  · exact (allocateDevice_rests k).trans (.of_tcb rfl rfl rfl)

theorem registerLine_rests (k : State) (o : Nat) : Rests k (k.registerLine o).2 := by
  unfold registerLine
  dsimp only
  split
  · exact .refl k
  · split
    · exact .refl k
    · exact .of_tcb rfl rfl rfl

theorem grantLine_rests (h : k.Inv) (source : U64) : Rests k (k.grantLine cur source) := by
  obtain ⟨-, hsome⟩ := createIrq_prepared h source
  have hcreate := createIrq_rests k source
  unfold grantLine
  dsimp only
  split
  · exact hcreate.setA0 _
  · rename_i h0
    have hk := registerLine_prepared (hsome h0) (k.createIrq source).1
    have hreg := hcreate.trans (registerLine_rests _ (k.createIrq source).1)
    split
    · rename_i heq
      rw [heq] at hreg
      exact (hreg.trans (releaseDevice_rests _ _)).setA0 _
    · rename_i heq
      rw [heq] at hk hreg
      exact grantFresh_rests rfl (fun _ => hk) hreg releaseDevice_rests

/-! ## Control blocks -/

theorem modTcb_rests (k : State) (t : Nat) (f : Tcb → Tcb)
    (hd : (f (k.tcb t)).state = .dead ↔ (k.tcb t).state = .dead)
    (ha : (f (k.tcb t)).awaitingReply = (k.tcb t).awaitingReply)
    (hg : (f (k.tcb t)).replyGeneration = (k.tcb t).replyGeneration) : Rests k (k.modTcb t f) := by
  refine ⟨book_same (.of_caps rfl) ?_, rfl⟩
  rw [roster_modTcb]
  exact .setThread hd ha hg

theorem block_rests {s : ThreadState} (hs : s ≠ .dead) (hlive : (k.tcb t).state ≠ .dead) :
    Rests k (k.block t s) := by
  refine ⟨book_same (.of_eq (ledger_block k t hs hlive)) ?_, rfl⟩
  rw [roster_block]
  exact .setThread (iff_of_false hs hlive) rfl rfl

theorem wakeWithResult_rests (v : U64) (h0 : t ≠ 0) (hb : isBlocked (k.tcb t).state = true)
    (ha : (k.tcb t).awaitingReply = false) : Rests k (k.wakeWithResult t v) := by
  have hlive : (k.tcb t).state ≠ .dead := by
    intro hd
    rw [hd] at hb
    cases hb
  refine .of_life (.of_eq (ledger_wakeWithResult k t v)) ?_ (by rw [ledger_wakeWithResult])
  rw [roster_wakeWithResult k v h0 hb]
  exact .setThread (iff_of_false (by simp [ThreadIpc.woken]) hlive) ha.symm rfl

theorem Calms.rests (h : Calms (fun _ => False) k k') (hw : k.Waits)
    (hl : k.ledger.SameReplies k'.ledger) (hg : k'.ledger.life = k.ledger.life) : Rests k k' :=
  ⟨h.book_same hw hl, congrArg Life.threadSlotGeneration hg⟩

/-! ## Sending -/

theorem transferMessage_rests {sender receiver : Nat} {s : IpcStatus} (hr : receiver ≠ 0)
    (hL : k.ledger.Counted fresh) (hw : k.Waits) (hd : k.roster.Detached receiver)
    (hp : (k.tcb receiver).process ≤ initProcess)
    (htrans : k.transferMessage sender receiver badge = (s, k')) : Rests k k' := by
  have hc := transferMessage_calms sender hr badge hL hw hd hp
  have hs := transferMessage_steps (· ≤ initProcess) sender hr (fun _ h => h) k badge hL hp
  rw [htrans] at hc hs
  exact hc.rests hw (transferMessage_sameReplies hr hL hp htrans) hs.life

theorem wanting_rests (k : State) (t : Nat) (b : Bool) : Rests k (k.wanting t b) :=
  .of_eq (ledger_wanting ..) (roster_wanting ..)

theorem handOver_rests {wanted : Bool} {s : IpcStatus} {k₃ : State}
    (h : k.Inv) (ho : o ≠ 0) (hready : (k.wanting cur wanted).receiverReady o = true)
    (htrans : ((k.wanting cur wanted).taking o).transferMessage cur
      (k.endpoint o).waitingReceiver badge = (s, k₃)) : Rests k k₃ := by
  have hr := receiverReady_ne_zero hready
  have hw := h.waits.wanting cur wanted
  have htake := taking_calms hw o
  have hled : ((k.wanting cur wanted).taking o).ledger = k.ledger := by simp
  have hd : ((k.wanting cur wanted).taking o).roster.Detached (k.endpoint o).waitingReceiver := by
    rw [roster_taking, roster_wanting]
    exact h.waits.sound.detached_unregister ho hr
  have htaken : Rests (k.wanting cur wanted) ((k.wanting cur wanted).taking o) :=
    htake.rests hw (.of_eq (ledger_taking ..)) (by rw [ledger_taking])
  refine ((wanting_rests k cur wanted).trans htaken).trans ?_
  exact transferMessage_rests hr (hled ▸ h.counted) (htake.waits hw) hd
    (by rw [process_of_ledger_eq hled]; exact h.process_le _) htrans

theorem wakeReceiver_rests (v : U64) (hw : k.Waits) (h0 : t ≠ 0)
    (hs : (k.tcb t).state = .blockedReceive) : Rests k (k.wakeWithResult t v) := by
  refine wakeWithResult_rests v h0 (by rw [hs]; rfl) ?_
  exact hw.sound.awaiting_eq_false (t := t) (by simp [Tcb.ipc, hs]) (by simp [Tcb.ipc, hs])

end State

namespace Roster

theorem SameWaits.enqueue {R : Roster} {o t : Nat} {x : ThreadIpc}
    (hd : x.state = .dead ↔ (R.thread t).state = .dead) (ha : x.awaiting = (R.thread t).awaiting)
    (hg : x.generation = (R.thread t).generation) : SameWaits R (R.enqueue o t x) := by
  -- besides the newcomer, only a link of the old tail changes
  have hset : SameWaits R (R.setThread t x) := .setThread hd ha hg
  refine hset.trans ?_
  unfold Roster.enqueue
  dsimp only
  split
  · exact .of_thread rfl
  · have hlink : SameWaits (R.setThread t x) ((R.setThread t x).setThread (R.ep o).tail
        { (R.setThread t x).thread (R.ep o).tail with next := t }) := .setThread Iff.rfl rfl rfl
    exact hlink.trans (.of_thread rfl)

end Roster

namespace State

variable {k k' k₁ k₂ : State} {fresh : Option (Pool × Nat)} {cur t : Nat} {M : Nat → Prop}

theorem blockQueued_rests {o : Nat} (h : k.Inv) (hcur : cur ≠ 0)
    (hrun : (k.tcb cur).state = .running) (h2 : k.ledger.SameCaps k₂.ledger)
    (hr : k₂.roster = k.roster) (hs : k₂.endpointSlab = k.endpointSlab) (ho : o ≠ 0)
    (hfree : ¬ k.EpFree o) (alive : (k.endpoint o).failed = false) (badge : U64) :
    Rests k ((k₂.blockCaller o cur badge).2.block cur .blockedSend) := by
  have hq := (h.waits.block_queued hr hs ho hfree hcur hrun alive badge).2
  have hlive : ((k₂.blockCaller o cur badge).2.tcb cur).state ≠ .dead := by
    have hdead := congrFun (congrArg Life.dead (congrArg Ledger.life (ledger_blockCaller k₂ o cur badge))) cur
    rw [h2.life, show k.ledger.life.dead cur = false from decide_eq_false (by rw [hrun]; simp)] at hdead
    exact of_decide_eq_false hdead
  have hl : ((k₂.blockCaller o cur badge).2.block cur .blockedSend).ledger = k₂.ledger := by
    rw [ledger_block _ _ (by simp) hlive, ledger_blockCaller]
  refine .of_life (hl ▸ h2.sameReplies) ?_ (by rw [hl]; exact h2.life)
  rw [hq]
  exact .enqueue (iff_of_false (by simp) (by simp [Tcb.ipc, hrun])) rfl rfl

/-! ## Minting -/

variable {caller : Nat}

theorem mintReplyCap_rests {receiver : Nat} {s : IpcStatus} (hL : k.ledger.Counted fresh)
    (h : k.mintReplyCap receiver caller = (.error s, k')) : Rests k k' := by
  have hsame : k.ledger.SameCaps k'.ledger := by
    unfold mintReplyCap at h
    split at h
    · rename_i hins
      cases h
      exact insertCap_error hL hins
    · cases h
  exact .of_life hsame.sameReplies (.of_eq (mintReplyCap_error h).1) hsame.life

/-- **A mint issues a ticket**: the caller, who awaited nothing, awaits its reply from now on. -/
theorem mint_issues {receiver i : Nat} {R : Roster} {x : ThreadIpc}
    (hL : k.ledger.Counted fresh) (hlive : (k.tcb caller).state ≠ .dead)
    (hidle : (k.tcb caller).awaitingReply = false)
    (hmint : k.mintReplyCap receiver caller = (.ok i, k₁)) (hl : k'.ledger = k₁.ledger)
    (hR : k.roster.SameWaits R) (hr : k'.roster = R.setThread caller x) (hx : x.state ≠ .dead)
    (haw : x.awaiting = true) (hg : x.generation = (k.tcb caller).replyGeneration) :
    k.book.Issues k'.book ((k.tcb receiver).process, i) caller := by
  have hins := mintReplyCap_inserted hL hmint
  rw [← hl] at hins
  have hvacant : (k.ledger.entry (k.tcb receiver).process i).valid = false := by
    obtain ⟨-, -, -, -, -, -, -, hnull, -⟩ := id hins
    exact hnull
  have hat : ∀ u, k'.roster.thread u = if u = caller then x else R.thread u := by
    intro u
    rw [hr]
    by_cases hu : u = caller
    · subst hu
      simp
    · simp [hu]
  refine ⟨hlive, by simp [book, hidle], fun u g hh => ?_, fun u => ?_, fun u => ?_, fun u => ?_, fun q u g => ?_⟩
  · rw [hh.1] at hvacant
    cases hvacant
  · show (k'.roster.thread u).state ≠ .dead ↔ (k.roster.thread u).state ≠ .dead
    rw [hat]
    split
    · rename_i hu
      subst hu
      exact iff_of_true hx hlive
    · exact not_congr (hR.dead u)
  · show (k'.roster.thread u).awaiting = true ↔ (k.roster.thread u).awaiting = true ∨ u = caller
    rw [hat]
    split
    · rename_i hu
      exact iff_of_true haw (.inr hu)
    · rename_i hu
      rw [hR.awaiting]
      exact (or_iff_left hu).symm
  · show (k'.roster.thread u).generation = (k.roster.thread u).generation
    rw [hat]
    split
    · rename_i hu
      subst hu
      exact hg
    · exact hR.generation u
  · show (k'.ledger.entry q.1 q.2).IsReply u g ↔ (k.ledger.entry q.1 q.2).IsReply u g ∨
      (q = ((k.tcb receiver).process, i) ∧ u = caller ∧ g = (k.tcb caller).replyGeneration)
    rw [hins.entry]
    by_cases hq : q = ((k.tcb receiver).process, i)
    · subst hq
      rw [if_pos ⟨rfl, rfl⟩]
      constructor
      · rintro ⟨-, -, rfl, rfl⟩
        exact .inr ⟨rfl, rfl, rfl⟩
      · rintro (hh | ⟨-, rfl, rfl⟩)
        · rw [hh.1] at hvacant
          cases hvacant
        · exact ⟨rfl, rfl, rfl, rfl⟩
    · rw [if_neg fun hn => hq (Prod.ext hn.1 hn.2)]
      exact (or_iff_left fun hn => hq hn.1).symm

theorem conclude_turns {mints : Nat → Prop} {cap : Nat} {wanted : Bool} {r : IpcStatus × State}
    (hout : MessageOutcome k cur cap wanted r) (hmints : wanted = true → mints cur) (h : k.Inv)
    (hcur : cur ≠ 0) (hrun : (k.tcb cur).state = .running) : Turns mints k (conclude cur r) := by
  have hlife := (conclude_steps hout h hrun).life
  cases hout with
  | rejected s refusal =>
    rw [conclude_answer refusal.2.1]
    exact .rests ((Rests.refl k).setIpcResult _)
  | gone o badge resolved failed => exact .rests ((wanting_rests k cur wanted).setIpcResult _)
  | handed o badge s k₃ r resolved alive ready transfer rest =>
    obtain ⟨ho, -⟩ := resolveEndpoint_not_free h.counted resolved
    obtain ⟨hr, hc, -, hs⟩ := handOver_calms h.counted h.waits h.process_le ho ready transfer
    obtain ⟨hstep, -⟩ := handOver_steps h.counted h.waits h.process_le ho ready transfer
    have hcounted := hstep.counted (open_le h.process_le) h.counted
    have hgiven := handOver_rests h ho ready transfer
    have hw3 := hc.waits h.waits
    cases rest with
    | refused s failure =>
      have hrest := hgiven.trans (wakeReceiver_rests resultTransferFailed hw3 hr hs)
      rcases failure with rfl | rfl
      · exact .rests (hrest.setIpcResult _)
      · exact .rests (hrest.setIpcResult _)
    | unminted k₄ mint =>
      obtain ⟨hr4, hs4⟩ := mintReplyCap_error mint
      have hst : (k₄.tcb (k.endpoint o).waitingReceiver).state = .blockedReceive :=
        (congrArg (fun R => (R.thread (k.endpoint o).waitingReceiver).state) hr4).trans hs
      exact .rests (((hgiven.trans (mintReplyCap_rests hcounted mint)).trans
        (wakeReceiver_rests resultTransferFailed (hw3.of_eq hr4 hs4) hr hst)).setIpcResult _)
    | called i k₄ mint =>
      have hrun3 := hc.running h.waits id hrun
      have hne : (k.endpoint o).waitingReceiver ≠ cur := by
        intro e
        rw [e, hrun3] at hs
        cases hs
      have hidle : (k₃.tcb cur).awaitingReply = false :=
        hw3.sound.awaiting_eq_false (t := cur) (by simp [Tcb.ipc, hrun3]) (by simp [Tcb.ipc, hrun3])
      have haw : (k₃.tcb (k.endpoint o).waitingReceiver).awaitingReply = false :=
        hw3.sound.awaiting_eq_false (t := (k.endpoint o).waitingReceiver) (by simp [Tcb.ipc, hs])
          (by simp [Tcb.ipc, hs])
      have hwoken : k₃.roster.SameWaits (k₃.roster.setThread (k.endpoint o).waitingReceiver
          (k₃.roster.thread (k.endpoint o).waitingReceiver).woken) :=
        .setThread (iff_of_false (by simp [ThreadIpc.woken]) (by simp [Tcb.ipc, hs])) haw.symm rfl
      have hlive4 : (((k₄.modTcb cur fun c => { c with callBadge := badge }).setA1
          (k.endpoint o).waitingReceiver (UInt64.ofNat i)).wakeWithResult
          (k.endpoint o).waitingReceiver resultOk).ledger = k₄.ledger := by
        rw [ledger_wakeWithResult, ledger_setA1, ledger_modTcb _ _ _ rfl Iff.rfl rfl]
      have hdead := congrFun (congrArg Life.dead ((congrArg Ledger.life hlive4).trans
        ((mintReplyCap_inserted hcounted mint).life.trans hstep.life))) cur
      rw [show k.ledger.life.dead cur = false from decide_eq_false (by rw [hrun]; simp)] at hdead
      refine .issues _ cur (hmints rfl) (Tickets.Issues.after hgiven.book
        (mint_issues hcounted (by rw [hrun3]; simp) hidle mint ?_ hwoken
          (handedOver_roster badge mint hr hne hs) ?_ rfl rfl)) (congrArg Life.threadSlotGeneration hlife)
      · rw [ledger_block _ _ (by simp) (of_decide_eq_false hdead), hlive4]
      · simp
    | sent =>
      have hrest := (hgiven.setA1 (t := (k.endpoint o).waitingReceiver) 0).trans
        (wakeReceiver_rests resultOk (hw3.setA1 _ 0) hr (by simp [State.setA1, modTcb, hs]))
      exact .rests (hrest.setIpcResult _)
  | queued o badge r resolved alive unready rest =>
    obtain ⟨ho, hfree⟩ := resolveEndpoint_not_free h.counted resolved
    obtain ⟨hr2, hs2⟩ := dropStale_same h.waits ho unready
    have hstale : ((k.wanting cur wanted).dropStaleReceiver o).ledger = k.ledger := by
      rw [ledger_dropStaleReceiver, ledger_wanting]
    have hcopy := queueSendCopy_steps (k := (k.wanting cur wanted).dropStaleReceiver o) cur
      badge (by rw [hstale]; exact h.counted)
    rw [hstale] at hcopy
    cases rest with
    | blocked =>
      exact .rests (blockQueued_rests h hcur hrun (by rw [hstale]; exact .refl h.counted) hr2 hs2 ho
        hfree alive badge)
    | unpooled =>
      exact .rests (blockQueued_rests h hcur hrun hcopy ((roster_queueSendCopy _ _ _).trans hr2)
        ((endpointSlab_queueSendCopy _ _ _).trans hs2) ho hfree alive badge)
    | copied =>
      refine .rests (Rests.setIpcResult (.of_life ?_ (.of_eq ?_) ?_) _)
      · rw [ledger_appendSend]
        exact hcopy.sameReplies
      · rw [roster_appendSend, roster_queueSendCopy, hr2]
      · rw [ledger_appendSend]
        exact hcopy.life

theorem handleIpcCall_turns (h : k.Inv) (hcur : cur ≠ 0) (hrun : (k.tcb cur).state = .running)
    (f : TrapFrame) : Turns (fun t => t = cur) k (k.handleIpcCall cur f) := by
  obtain ⟨-, he⟩ | ⟨cap, r, -, hout, he⟩ := handleIpcCall_cases k cur f
  · exact he ▸ .rests ((Rests.refl k).setA0 _)
  · exact he ▸ conclude_turns hout (fun _ => rfl) h hcur hrun

theorem handleIpcSend_turns {mints : Nat → Prop} (h : k.Inv) (hcur : cur ≠ 0)
    (hrun : (k.tcb cur).state = .running) (f : TrapFrame) : Turns mints k (k.handleIpcSend cur f) := by
  obtain ⟨-, he⟩ | ⟨cap, r, -, hout, he⟩ := handleIpcSend_cases k cur f
  · exact he ▸ .rests ((Rests.refl k).setA0 _)
  · exact he ▸ conclude_turns hout nofun h hcur hrun

/-! ## Receiving -/

theorem takeOver_rests {o c : Nat} {cs : List Nat} {badge : U64} {s : IpcStatus}
    (h : k.Inv) (hcur : cur ≠ 0) (hrun : (k.tcb cur).state = .running) (ho : o ≠ 0)
    (hq : k.roster.Queue o (c :: cs))
    (htrans : (k.popCaller o).transferMessage c cur badge = (s, k₂)) : Rests k k₂ := by
  obtain ⟨hw₁, -, -, -, hdet⟩ := popCaller_waits h.waits ho hq
  have hled := ledger_popCaller k o
  have hrun1 : ((k.popCaller o).tcb cur).state = .running :=
    hdet.state_eq (u := cur) hrun (by simp)
  have hpop : Rests k (k.popCaller o) :=
    .of_life (.of_eq hled) hdet.sameWaits (by rw [hled])
  exact hpop.trans (transferMessage_rests hcur (hled ▸ h.counted) hw₁ (detached_of_running hw₁ hrun1)
    (by rw [process_of_ledger_eq hled]; exact h.process_le cur) htrans)

theorem receiveEndpoint_turns (h : k.Inv) (hcur : cur ≠ 0) (hrun : (k.tcb cur).state = .running)
    (f : TrapFrame) : Turns (fun _ => True) k (k.receiveEndpoint cur f) := by
  unfold receiveEndpoint
  split
  · exact .rests ((Rests.refl k).setA0 _)
  · rename_i cap hcap
    have hout := receive_outcome k cur cap
    generalize k.receive cur cap = r at hout ⊢
    cases hout with
    | rejected s refusal =>
      split
      · rename_i k' he
        cases he
        exact absurd rfl refusal.2.1
      · rename_i he
        cases he
        exact .rests (((Rests.refl k).setA1 _).setIpcResult _)
    | gone o badge resolved failed => exact .rests (((Rests.refl k).setA1 _).setIpcResult _)
    | idle o badge k₁ r resolved alive dequeued rest =>
      obtain ⟨ho, -⟩ := resolveEndpoint_not_free h.counted resolved
      obtain ⟨rfl, -⟩ := dequeueCaller_none h.waits ho dequeued
      cases rest with
      | copied frame =>
        have hrest : Rests k₁ (k₁.deliverSend o frame) :=
          .of_eq (ledger_deliverSend ..) (roster_deliverSend ..)
        exact .rests ((hrest.setA1 _).setIpcResult _)
      | occupied => exact .rests (((Rests.refl k₁).setA1 _).setIpcResult _)
      | registered =>
        have hep : Rests k₁ (k₁.modEndpoint o fun e => { e with waitingReceiver := cur }) :=
          .of_tcb rfl rfl rfl
        have hreg := hep.trans (modTcb_rests (k₁.modEndpoint o fun e => { e with waitingReceiver := cur })
          cur (fun c => { c with recvEp := o }) Iff.rfl rfl rfl)
        have hlive : (((k₁.modEndpoint o fun e => { e with waitingReceiver := cur }).modTcb cur
            fun c => { c with recvEp := o }).tcb cur).state ≠ .dead := by
          simp [modTcb, modEndpoint, hrun]
        exact .rests ((hreg.trans (block_rests (s := .blockedReceive) (by simp) hlive)).setA1 _)
    | taken o badge caller s k₁ k₂ r resolved alive dequeued someone transfer rest =>
      obtain ⟨ho, -⟩ := resolveEndpoint_not_free h.counted resolved
      obtain ⟨rfl, cs, hq⟩ := dequeueCaller_some h.waits ho dequeued someone
      obtain ⟨-, -, -, hs, ha⟩ := takeOver_calms h.counted h.waits h.process_le hcur hrun ho hq transfer
      obtain ⟨hstep, -⟩ := takeOver_steps h.counted h.waits h.process_le hcur hrun (ledger_popCaller k o) transfer
      have hcounted := hstep.counted (open_le h.process_le) h.counted
      have htaken := takeOver_rests h hcur hrun ho hq transfer
      have hwoken := fun v => htaken.trans (wakeWithResult_rests v someone (by rw [hs]; rfl) ha)
      cases rest with
      | refused s failure =>
        rcases failure with rfl | rfl
        · exact .rests (((hwoken _).setA1 _).setIpcResult _)
        · exact .rests (((hwoken _).setA1 _).setIpcResult _)
      | sent => exact .rests (((hwoken _).setA1 _).setIpcResult _)
      | unminted k₃ wanted mint =>
        have hr3 := (mintReplyCap_error mint).1
        have hst : (k₃.tcb caller).state = .blockedSend :=
          (congrArg (fun R => (R.thread caller).state) hr3).trans hs
        have haw : (k₃.tcb caller).awaitingReply = false :=
          (congrArg (fun R => (R.thread caller).awaiting) hr3).trans ha
        have hrest := (htaken.trans (mintReplyCap_rests hcounted mint)).trans
          (wakeWithResult_rests resultTransferFailed someone (by rw [hst]; rfl) haw)
        exact .rests ((hrest.setA1 _).setIpcResult _)
      | called i k₃ wanted mint =>
        have hl : ((k₃.setA1 cur (UInt64.ofNat i)).setIpcResult cur .ok).ledger = k₃.ledger := by
          rw [ledger_setIpcResult, ledger_setA1]
        have hr : ((k₃.setA1 cur (UInt64.ofNat i)).setIpcResult cur .ok).roster =
            k₂.roster.setThread caller { k₂.roster.thread caller with awaiting := true } := by
          rw [roster_setIpcResult, roster_setA1, mintReplyCap_roster mint]
        have hlife := (congrArg Ledger.life hl).trans ((mintReplyCap_inserted hcounted mint).life.trans hstep.life)
        exact .issues _ caller trivial (Tickets.Issues.after htaken.book
          (mint_issues hcounted (by rw [hs]; simp) ha mint hl (.refl _) hr (by simp [Tcb.ipc, hs]) rfl rfl))
          (congrArg Life.threadSlotGeneration hlife)

/-! ## Replying and closing -/

theorem book_of_eq (hl : k'.ledger = k.ledger) (hr : k'.roster = k.roster) : k'.book = k.book := by
  have h : ∀ j : State, j.book =
      { live := fun t => (j.roster.thread t).state ≠ .dead
        waiting := fun t => (j.roster.thread t).awaiting = true
        ready := fun t => (j.roster.thread t).state = .ready
        stamp := fun t => (j.roster.thread t).generation
        holds := fun q t g => (j.ledger.entry q.1 q.2).IsReply t g } := fun _ => rfl
  rw [h, h, hl, hr]

@[simp] theorem book_setA0 (k : State) (t : Nat) (v : U64) : (k.setA0 t v).book = k.book :=
  book_of_eq (ledger_setA0 ..) (roster_setA0 ..)

@[simp] theorem book_setA1 (k : State) (t : Nat) (v : U64) : (k.setA1 t v).book = k.book :=
  book_of_eq (ledger_setA1 ..) (roster_setA1 ..)

@[simp] theorem book_setIpcResult (k : State) (t : Nat) (s : IpcStatus) : (k.setIpcResult t s).book = k.book :=
  book_of_eq (ledger_setIpcResult ..) (roster_setIpcResult ..)

/-- **A reply** uses its ticket up, whatever becomes of the message. -/
theorem reply_redeems (h : k.Inv) {cap : Nat} {e : CapEntry} (hbuf : k.bufferOf cur ≠ none)
    (hlook : k.lookupCap cur cap = some e) (hkind : e.kind = .replyObject) :
    k.Redeems (k.reply cur cap).2 ((k.tcb cur).process, cap) e := by
  obtain ⟨hent, hv⟩ := lookupCap_eq_some hlook
  have hrem : k.ledger.Removed (k.forgetCap cur cap).ledger (k.tcb cur).process cap :=
    forgetCap_removed h.counted (lookupCap_process_ne_zero hlook) (by rw [hent]; exact hv)
      (by rw [hent, hkind]; rfl)
  have hforget : k.ledger.CapSteps 0 (fun _ => False) (k.forgetCap cur cap).ledger :=
    forgetReply_steps _ _ h.counted hlook hkind
  have hcounted := hforget.counted (fun _ hf => hf.elim) h.counted
  have hsame : k.roster.SameWaits (k.forgetCap cur cap).roster := .of_eq (roster_forgetCap ..)
  unfold reply
  rw [if_neg hbuf, hlook]
  dsimp only
  rw [if_neg (not_not.mpr hkind)]
  split
  · -- stale: nobody awaits this reply any more
    rename_i hmiss
    refine ⟨drops_of_stale h.waits hrem hent (fun hm => ?_) (roster_forgetCap ..), fun _ => roster_forgetCap ..⟩
    rcases hmiss with hd | ha | hb
    · rw [hm.1] at hd
      cases hd
    · rw [hm.2.1] at ha
      cases ha
    · exact hb hm.2.2
  · rename_i hmatch
    simp only [not_or, Bool.not_eq_true, Bool.not_eq_false, ne_eq, not_not] at hmatch
    obtain ⟨hlive, haw, hbadge⟩ := hmatch
    refine ⟨?_, fun hm => absurd ⟨hlive, haw, hbadge⟩ hm⟩
    have hobj : e.object ≠ 0 ∧ (k.tcb e.object).state ≠ .dead := by simpa [isDead] using hlive
    split
    · -- the caller has no buffer: it is woken with an error
      have hs : (k.tcb e.object).state = .blockedSend :=
        (h.waits.sound.awaiting e.object haw).resolve_right hobj.2
      have hs1 : ((k.forgetCap cur cap).tcb e.object).state = .blockedSend :=
        (congrArg (fun R => (R.thread e.object).state) (roster_forgetCap k cur cap)).trans hs
      refine drops_of_woken hrem hent hkind hobj.2 hbadge (.of_eq (ledger_wakeWithResult ..)) hsame
        (fun u hu => ?_) (roster_wakeWithResult _ _ hobj.1 (by rw [hs1]; rfl))
      rw [roster_forgetCap]
      exact hu
    · -- the message is moved, and the caller woken with what came of it
      generalize htrans : (k.forgetCap cur cap).transferMessage cur e.object 0 = r
      obtain ⟨s, k₁⟩ := r
      obtain ⟨-, hc, -, hs, -⟩ := answer_calms h.waits h.process_le hcounted hlive haw htrans
      have hproc : ((k.forgetCap cur cap).tcb e.object).process ≤ initProcess := by
        rw [process_of_steps hforget]
        exact h.process_le _
      have hl := transferMessage_sameReplies hobj.1 hcounted hproc htrans
      have hready : ∀ u, (k.roster.thread u).state = .ready → (k₁.roster.thread u).state = .ready :=
        fun u hu => hc.ready u hu
      have hwaits := hc.calm.sameWaits h.waits.sound
      split
      · rename_i k₂ he
        cases he
        refine drops_of_woken hrem hent hkind hobj.2 hbadge ?_ hwaits hready (roster_wake_replied _ hobj.1 hs)
        rw [ledger_wake, ledger_modTcb _ _ _ rfl Iff.rfl rfl]
        exact hl
      · rename_i s' k₂ _ he
        cases he
        refine drops_of_woken hrem hent hkind hobj.2 hbadge ?_ hwaits hready
          (roster_wakeWithResult _ _ hobj.1 (by rw [hs]; rfl))
        rw [ledger_wakeWithResult]
        exact hl

theorem handleIpcReply_turns (h : k.Inv) (hB : k.book.Exact) (f : TrapFrame) :
    Turns M k (k.handleIpcReply cur f) := by
  have hlife := (handleIpcReply_steps cur h f).life
  refine .wanes ?_ (congrArg Life.threadSlotGeneration hlife)
  unfold handleIpcReply
  split
  · rw [book_setA0]
    exact .refl _
  · rename_i cap _
    rw [book_setIpcResult]
    by_cases hbuf : k.bufferOf cur = none
    · unfold reply
      rw [if_pos hbuf]
      exact .refl _
    · cases hlook : k.lookupCap cur cap with
      | none =>
        unfold reply
        rw [if_neg hbuf, hlook]
        exact .refl _
      | some e =>
        by_cases hkind : e.kind = .replyObject
        · exact (reply_redeems h hbuf hlook hkind).drops.wanes hB
        · unfold reply
          rw [if_neg hbuf, hlook]
          dsimp only
          rw [if_pos hkind]
          exact .refl _

theorem handleCapDelete_turns (h : k.Inv) (hcur : cur ≠ 0) (hrun : (k.tcb cur).state = .running)
    (hB : k.book.Exact) (f : TrapFrame) : Turns M k (k.handleCapDelete cur f) := by
  have hlife := (handleCapDelete_steps 0 (fun _ => False) h hcur f).life
  refine .wanes ?_ (congrArg Life.threadSlotGeneration hlife)
  obtain ⟨v, heq⟩ := handleCapDelete_cases k cur f
  rw [heq]
  split <;> rw [book_setA0]
  · exact .refl _
  · exact closeCap_wanes h.counted h.waits hcur (detached_of_running h.waits hrun) hB _ false

end State

end Aegir.Kernel
