/-
  The IPC operations keep the law of who waits where.

  `k.Waits` collects the queueing law and the two facts about endpoints on which nobody waits: the
  failed ones and the ones whose slot is free.  The rendezvous operations move the acting thread and
  one partner; everything else they do is calm.
-/
import Aegir.Laws.CapOps
import Aegir.Laws.Teardown
import Aegir.Laws.IpcCases
import Aegir.Traps.Syscalls

namespace Aegir.Kernel

open Aegir.Lib Roster Ledger List

namespace State

variable {k k' k'' : State} {A : Nat → Prop} {fresh : Option (Pool × Nat)} {o t : Nat}

/-- The endpoint slot is on the free list or was never carved. -/
def EpFree (k : State) (o : Nat) : Prop := o ∈ k.endpointSlab.free ∨ k.endpointSlab.carved < o

/-- **The law of who waits where.** -/
structure Waits (k : State) : Prop where
  sound : k.roster.Sound
  failed : k.roster.FailedIdle
  free : ∀ o, o ≠ 0 → k.EpFree o → k.roster.Idle o

/-- A calm change in which only idle endpoints are freed. -/
structure Calms (A : Nat → Prop) (k k' : State) : Prop where
  calm : Calm A k.roster k'.roster
  free : ∀ o, o ≠ 0 → k'.EpFree o → k.EpFree o ∨ k'.roster.Idle o

namespace Calms

theorem of_eq (hw : k.Waits) (hr : k'.roster = k.roster) (hs : k'.endpointSlab = k.endpointSlab) :
    Calms A k k' := by
  refine ⟨by rw [hr]; exact .refl hw.sound, fun o _ hf => .inl ?_⟩
  unfold EpFree at hf ⊢
  rwa [hs] at hf

theorem refl (hw : k.Waits) : Calms A k k := .of_eq hw rfl rfl

theorem trans (h : Calms A k k') (h' : Calms A k' k'') : Calms A k k'' := by
  refine ⟨h.calm.trans h'.calm, fun o ho hf => ?_⟩
  rcases h'.free o ho hf with hf' | hi
  · exact (h.free o ho hf').imp_right fun hi => h'.calm.idle_mono ho hi h.calm.sound
  · exact .inr hi

theorem waits (h : Calms A k k') (hw : k.Waits) : k'.Waits := by
  refine ⟨h.calm.sound, hw.failed.calm hw.sound h.calm, fun o ho hf => ?_⟩
  rcases h.free o ho hf with hf' | hi
  · exact h.calm.idle_mono ho (hw.free o ho hf') hw.sound
  · exact hi

end Calms

theorem endpointSlab_of_ledger (h : k'.ledger.slab = k.ledger.slab) :
    k'.endpointSlab = k.endpointSlab := congrFun h Pool.endpoint

/-! Inserts leave the slabs alone. -/

@[simp] theorem endpointSlab_retainCap (k : State) (e : CapEntry) :
    (k.retainCap e).endpointSlab = k.endpointSlab := by
  unfold retainCap
  split
  · rfl
  · split <;>
      simp [retainEndpoint, retainMemory, retainNotification, retainDevice, modEndpoint,
        modMemoryObject, modNotification, modDevice, apply_ite endpointSlab]

@[simp] theorem endpointSlab_insertProcessCapAt (k : State) (p cap : Nat) (kind : ObjectKind) (o : Nat)
    (r : Rights) (b : U64) :
    (k.insertProcessCapAt p cap kind o r b).2.endpointSlab = k.endpointSlab := by
  unfold insertProcessCapAt
  split <;> simp [setCaps, modPcb]

@[simp] theorem endpointSlab_insertCap (k : State) (t : Nat) (kind : ObjectKind) (o : Nat)
    (r : Rights) (b : U64) : (k.insertCap t kind o r b).2.endpointSlab = k.endpointSlab :=
  insertCap_ind (R := fun j => j.endpointSlab = k.endpointSlab) rfl fun _ => endpointSlab_insertProcessCapAt ..

theorem Waits.of_setThread {x : ThreadIpc} (hw : k.Waits) (hr : k'.roster = k.roster.setThread t x)
    (hs : k'.endpointSlab = k.endpointSlab) (hsound : (k.roster.setThread t x).Sound) : k'.Waits := by
  have hep : k'.roster.ep = k.roster.ep := by rw [hr]; rfl
  refine ⟨hr ▸ hsound, fun o ho hf => ?_, fun o ho hf => ?_⟩
  · rw [hep] at hf
    unfold Idle
    rw [hep]
    exact hw.failed o ho hf
  · unfold Idle
    rw [hep]
    refine hw.free o ho ?_
    unfold EpFree at hf ⊢
    rwa [hs] at hf

theorem Waits.of_eq (hw : k.Waits) (hr : k'.roster = k.roster)
    (hs : k'.endpointSlab = k.endpointSlab) : k'.Waits := (Calms.of_eq (A := fun _ => False) hw hr hs).waits hw

@[simp] theorem endpointSlab_wakeWithResult (k : State) (t : Nat) (v : U64) :
    (k.wakeWithResult t v).endpointSlab = k.endpointSlab :=
  endpointSlab_of_ledger (by rw [ledger_wakeWithResult])

theorem Waits.wakeWithResult (hw : k.Waits) (hd : k.roster.Detached t)
    (hs : (k.tcb t).state ≠ .blockedThreadWait) (v : U64) : (k.wakeWithResult t v).Waits := by
  by_cases h : t = 0 ∨ isBlocked (k.tcb t).state = false
  · exact hw.of_eq (roster_wakeWithResult_awake k v h) (by simp)
  · rw [not_or, Bool.not_eq_false] at h
    exact hw.of_setThread (roster_wakeWithResult k v h.1 h.2) (by simp) (hw.sound.wake hd hs)

/-! ## Closing caps -/

theorem cleanupThreadCapObject_idle (hw : k.Waits) (ht : t ≠ 0) (hd : k.roster.Detached t)
    {e : CapEntry} (hv : e.valid = true) (hk : e.kind = .endpointObject) (ho : e.object ≠ 0)
    (hc : (k.endpoint e.object).count = 1) (dying : Bool) :
    (k.cleanupThreadCapObject t e dying).roster.Idle e.object := by
  unfold cleanupThreadCapObject
  rw [if_neg (by simp [ht, hv]), hk]
  have h1 : Calm (fun _ => False) k.roster
      (if dying = true ∧ e.rights.receive = true then k.failEndpoint e.object else k).roster ∧
      (if dying = true ∧ e.rights.receive = true then k.failEndpoint e.object else k).ledger =
        k.ledger := by
    split
    · exact ⟨(failEndpoint_calm hw.sound ho).1, ledger_failEndpoint _ _⟩
    · exact ⟨.refl hw.sound, rfl⟩
  generalize (if dying = true ∧ e.rights.receive = true then k.failEndpoint e.object else k) = k₁ at h1 ⊢
  obtain ⟨h1, hl⟩ := h1
  have h2 := cleanupEndpointWaiter_calm (o := e.object) (A := fun _ => False) h1.sound (h1.detached hd)
  refine releaseEndpoint_idle h2.sound ((hw.failed.calm hw.sound h1).calm h1.sound h2) ho ?_
  have hcount : (k₁.cleanupEndpointWaiter t e.object).ledger.count = k.ledger.count := by
    rw [ledger_cleanupEndpointWaiter, hl]
  have := congrFun (congrFun hcount .endpoint) e.object
  exact Eq.trans this hc

theorem closeCap_calms (hL : k.ledger.Counted fresh) (hw : k.Waits) (ht : t ≠ 0)
    (hd : k.roster.Detached t) (cap : Nat) (dying : Bool) :
    Calms (fun u => ∃ e, k.lookupCap t cap = some e ∧ e.kind = .replyObject ∧ u = e.object) k
      (k.closeCap t cap dying).2 := by
  refine ⟨closeCap_calm hw.sound hd cap dying, fun o ho hf => ?_⟩
  rcases closeCap_cases _ hL ht dying with ⟨-, h, -⟩ | ⟨-, hrem⟩
  · rw [h] at hf
    exact .inl hf
  · have hnull := hrem.entry (k.tcb t).process cap
    obtain ⟨tab, pmm, hled, -, -, -, hv⟩ := hrem
    have hslab : (k.closeCap t cap dying).2.endpointSlab =
        (k.ledger.release (k.ledger.entry (k.tcb t).process cap)).slab .endpoint :=
      congrFun (congrArg Ledger.slab hled) .endpoint
    rw [slab_release] at hslab
    unfold EpFree at hf ⊢
    rw [hslab] at hf
    split at hf
    · rename_i hlast
      rcases hf with hf | hf
      · rcases mem_cons.mp hf with rfl | hf
        · -- the endpoint that was just freed
          refine .inr ?_
          have hcount := hL.count_ne_zero hv hlast.1
          rcases roster_closeCap k t cap dying with hr | ⟨e, he, hr⟩
          · -- the entry is valid, so the close found it
            rw [hr, if_pos ⟨rfl, rfl⟩] at hnull
            rw [hnull] at hv
            cases hv
          · obtain ⟨hent, hve⟩ := lookupCap_eq_some he
            rw [hent] at hlast hcount ho ⊢
            have hkind : e.kind = .endpointObject := by
              have := hlast.1
              cases hk : e.kind <;> rw [hk] at this <;> first | rfl | cases this
            have hc : k.ledger.count .endpoint e.object = 1 := by omega
            rw [hr]
            exact cleanupThreadCapObject_idle hw ht hd hve hkind ho hc dying
        · exact .inl (.inl hf)
      · exact .inl (.inr hf)
    · exact .inl hf

/-- None of the handles is a reply cap. -/
def NoReply (k : State) (p : Nat) (handles : List Nat) : Prop :=
  ∀ h ∈ handles, (k.ledger.entry p h).valid = true → (k.ledger.entry p h).kind ≠ .replyObject

theorem closeCap_calms_noReply (hL : k.ledger.Counted fresh) (hw : k.Waits) (ht : t ≠ 0)
    (hd : k.roster.Detached t) {h : Nat} (hn : k.NoReply (k.tcb t).process [h]) (dying : Bool) :
    Calms (fun _ => False) k (k.closeCap t h dying).2 := by
  have hc := closeCap_calms hL hw ht hd h dying
  refine ⟨hc.calm.mono fun u ⟨e, he, hk, _⟩ => ?_, hc.free⟩
  obtain ⟨hent, hv⟩ := lookupCap_eq_some he
  exact hn h (by simp) (by rw [hent]; exact hv) (by rw [hent]; exact hk)

theorem rollback_calms (ht : t ≠ 0) (handles : List Nat) (k : State)
    (hL : k.ledger.Counted fresh) (hw : k.Waits) (hd : k.roster.Detached t)
    (hn : k.NoReply (k.tcb t).process handles) :
    Calms (fun _ => False) k (k.rollback t handles) := by
  induction handles generalizing k with
  | nil => exact .refl hw
  | cons h hs ih =>
    unfold rollback
    by_cases h0 : h = 0
    · rw [if_neg (by simp [h0])]
      exact ih k hL hw hd fun i hi => hn i (mem_cons_of_mem _ hi)
    · rw [if_pos h0]
      have hstep := closeCap_calms_noReply hL hw ht hd (h := h) (fun i hi => hn i (by simp_all)) false
      have hsteps : k.ledger.CapSteps 0 (fun _ => False) (k.closeCap t h false).2.ledger :=
        closeCap_steps _ _ _ hL ht false
      generalize (k.closeCap t h false).2 = k₁ at hstep hsteps ⊢
      refine hstep.trans (ih k₁ (hsteps.counted (fun _ hf => hf.elim) hL) (hstep.waits hw)
        (hstep.calm.detached hd) fun i hi hv => ?_)
      have hproc := process_of_steps hsteps t
      -- an entry that is still there was there before
      have hsame := hsteps.entry_untouched (p := (k₁.tcb t).process) (fun hf => hf) i hv
      rw [hsame] at hv ⊢
      rw [hproc] at hv ⊢
      exact hn i (mem_cons_of_mem _ hi) hv

@[simp] theorem endpointSlab_setCaps (k : State) (p : Nat) (tab : CapTable) (pmm : Pmm) :
    (k.setCaps p tab pmm).endpointSlab = k.endpointSlab := rfl

theorem endpointSlab_of_inserted {p h : Nat} {e : CapEntry}
    (hi : k.ledger.Inserted k'.ledger p h e) : k'.endpointSlab = k.endpointSlab := by
  obtain ⟨tab, pmm, hled, -⟩ := hi
  refine endpointSlab_of_ledger ?_
  rw [hled, retain_slab]
  rfl

/-- **The cap loop meets no reply cap**: it keeps what every copy keeps, and every rollback of handles without
    one. -/
theorem transferCaps_noReply {P : State → Prop} (sender : Nat) {receiver p : Nat} (hple : p ≤ initProcess)
    (hback : ∀ j done, P j → j.ledger.Counted fresh → (j.tcb receiver).process = p → j.NoReply p done →
      P (j.rollback receiver done))
    (hcopy : ∀ j h j' e, P j → j.ledger.Inserted j'.ledger p h e → e.kind ≠ .replyObject →
      j'.roster = j.roster → P j')
    (hsame : ∀ j j', P j → j.ledger.SameCaps j'.ledger → j'.roster = j.roster → P j') (raws : List U64)
    (done : List Nat) (k : State) (hk : P k) (hL : k.ledger.Counted fresh) (hp : (k.tcb receiver).process = p)
    (hn : k.NoReply p done) : P (k.transferCaps sender receiver raws done).2 := by
  induction raws generalizing k done with
  | nil => exact hk
  | cons raw raws ih =>
    unfold transferCaps
    split
    · refine ih _ k hk hL hp fun h hh hv => ?_
      rcases mem_append.mp hh with hh | hh
      · exact hn h hh hv
      · -- handle 0 is never valid
        have h0 : h = 0 := by simpa using hh
        have := ((hL.table p).handle h hv).1
        omega
    · split
      · exact hback k done hk hL hp hn
      · split
        · exact hback k done hk hL hp hn
        · rename_i e hlook
          split
          · exact hback k done hk hL hp hn
          · rename_i hok
            rw [not_or] at hok
            have horig := lookupCap_copied e.badge hlook hok.2 (hasRights_refl _)
            have hroster := roster_insertCap k receiver e.kind e.object e.rights e.badge
            split
            · rename_i s k₁ hins
              rw [hins] at hroster
              have hkept := insertCap_error hL hins
              refine hback k₁ done (hsame k k₁ hk hkept hroster) (hkept.counted hL)
                ((congrFun (congrArg Life.process hkept.life) receiver).trans hp) fun h hh hvh => ?_
              rw [hkept.entry] at hvh ⊢
              exact hn h hh hvh
            · rename_i h₁ k₁ hins
              rw [hins] at hroster
              have hput := insertCap_ok hL (fun P hP => by
                obtain ⟨h1, h2, -⟩ := horig.referenced hL P hP
                exact ⟨h1, h2⟩) hins
              rw [hp] at hput
              refine ih (done ++ [h₁]) k₁ (hcopy k h₁ k₁ _ hk hput hok.2 hroster) (hput.counted hL hple horig)
                ((congrFun (congrArg Life.process hput.life) receiver).trans hp) fun h hh hvh => ?_
              rw [hput.entry] at hvh ⊢
              split at hvh
              · rename_i hpos
                rw [if_pos hpos]
                exact hok.2
              · rename_i hneg
                rw [if_neg hneg]
                rcases mem_append.mp hh with hh | hh
                · exact hn h hh hvh
                · exact absurd ⟨rfl, by simpa using hh⟩ hneg

theorem transferCaps_calms (sender : Nat) {receiver : Nat} (hr : receiver ≠ 0) (raws : List U64)
    (done : List Nat) (k : State) (hL : k.ledger.Counted fresh) (hw : k.Waits)
    (hd : k.roster.Detached receiver) (hp : (k.tcb receiver).process ≤ initProcess)
    (hn : k.NoReply (k.tcb receiver).process done) :
    Calms (fun _ => False) k (k.transferCaps sender receiver raws done).2 := by
  refine transferCaps_noReply (P := Calms (fun _ => False) k) sender hp ?_ ?_ ?_ raws done k (.refl hw) hL rfl hn
  · intro j done hj hjL hjp hjn
    exact hj.trans (rollback_calms hr done j hjL (hj.waits hw) (hj.calm.detached hd) (hjp ▸ hjn))
  · intro j h j' e hj hput _ hroster
    exact hj.trans (.of_eq (hj.waits hw) hroster (endpointSlab_of_inserted hput))
  · intro j j' hj hkept hroster
    exact hj.trans (.of_eq (hj.waits hw) hroster (endpointSlab_of_ledger hkept.slab))

theorem transferMessage_calms (sender : Nat) {receiver : Nat} (hr : receiver ≠ 0) (badge : U64)
    (hL : k.ledger.Counted fresh) (hw : k.Waits) (hd : k.roster.Detached receiver)
    (hp : (k.tcb receiver).process ≤ initProcess) :
    Calms (fun _ => False) k (k.transferMessage sender receiver badge).2 := by
  unfold transferMessage
  split
  · rename_i sf rf _ _
    have hc := transferCaps_calms sender hr ((range 4).map (k.memory sf).cap) [] k hL
      hw hd hp fun h hh => absurd hh not_mem_nil
    dsimp only
    split
    · rename_i k₁ hcaps
      rw [hcaps] at hc
      exact hc
    · rename_i handles k₁ hcaps
      rw [hcaps] at hc
      exact hc.trans (.of_eq (hc.waits hw) rfl rfl)
  · exact .refl hw

/-! ## Taking the head of a queue -/

theorem roster_popCaller {c : Nat} {cs : List Nat} (h : k.roster.Queue o (c :: cs)) :
    (k.popCaller o).roster = k.roster.unlinkAt o c 0 := by
  have hhead : (k.endpoint o).queueHead = c := h.chain.1
  -- the tail is the head exactly if nothing follows it
  have htail : (k.tcb c).queueNext = 0 ↔ (k.endpoint o).queueTail = c := by
    have hnext : (k.tcb c).queueNext = 0 ↔ cs = [] := h.chain.2.2.eq_nil_iff.symm
    have ht : (k.endpoint o).queueTail = (c :: cs).getLastD 0 := h.tail
    rw [hnext, ht]
    rcases eq_nil_or_concat cs with rfl | ⟨zs, b, rfl⟩
    · simp
    · have hb : b ≠ c := by
        rintro rfl
        exact (nodup_cons.mp h.chain.nodup).1 (by simp)
      have hlast : (c :: zs.concat b).getLastD 0 = b := by
        rw [concat_eq_append, ← cons_append]
        exact getLastD_concat
      rw [hlast]
      exact iff_of_false (by simp) hb
  unfold popCaller Roster.unlinkAt
  dsimp only
  rw [hhead, if_pos rfl, roster_modTcb, roster_modEndpoint]
  by_cases h0 : (k.tcb c).queueNext = 0
  · have h1 := htail.mp h0
    rw [if_pos h0, if_pos (by simpa [Endpoint.ipc] using h1)]
    simp [Endpoint.ipc, Tcb.ipc, modEndpoint]
  · have h1 := fun e => h0 (htail.mpr e)
    rw [if_neg h0, if_neg (by simpa [Endpoint.ipc] using h1)]
    simp [Endpoint.ipc, Tcb.ipc, modEndpoint]

/-- **`Dequeue_Caller`** pops the head: no queued thread is dead. -/
theorem dequeueCaller_cases (hR : k.roster.Sound) (ho : o ≠ 0) :
    (k.roster.Queue o [] ∧ k.dequeueCaller o threadBound = (0, k)) ∨
    ∃ c cs, k.roster.Queue o (c :: cs) ∧ c ≠ 0 ∧ k.dequeueCaller o threadBound = (c, k.popCaller o) := by
  obtain ⟨l, hl⟩ := hR.queue o ho
  have hbound : threadBound = 1023 + 1 := rfl
  cases l with
  | nil =>
    refine .inl ⟨hl, ?_⟩
    have h0 : (k.endpoint o).queueHead = 0 := hl.chain
    rw [hbound]
    unfold dequeueCaller
    simp [h0]
  | cons c cs =>
    refine .inr ⟨c, cs, hl, hl.chain.2.1, ?_⟩
    have hhead : (k.endpoint o).queueHead = c := hl.chain.1
    have hc0 : c ≠ 0 := hl.chain.2.1
    have hs : (k.roster.thread c).state = .blockedSend :=
      (hR.caller c (by rw [(hl.mem c).mp (by simp)]; exact ho)).1
    have hlive : (k.popCaller o).isDead c = false := by
      have hr := congrFun (congrArg Roster.thread (roster_popCaller hl)) c
      rw [(unlinked_unlinkAt k.roster o c 0 (Ne.symm hc0)).thread c] at hr
      have hst : ((k.popCaller o).tcb c).state = .blockedSend :=
        (congrArg ThreadIpc.state hr).trans hs
      unfold isDead
      rw [hst]
      simp [hc0]
    rw [hbound]
    unfold dequeueCaller
    simp [hhead, hc0, hlive]

theorem roster_block (k : State) (t : Nat) (s : ThreadState) :
    (k.block t s).roster = k.roster.setThread t { k.roster.thread t with state := s } := by
  unfold block
  rw [roster_modTcb, roster_setA0]
  have : (k.setA0 t resultOk).tcb t = { k.tcb t with savedA0 := resultOk } := by
    simp [setA0, modTcb]
  rw [this]
  rfl

@[simp] theorem endpointSlab_block (k : State) (t : Nat) (s : ThreadState) :
    (k.block t s).endpointSlab = k.endpointSlab := rfl

/-! ## Joining a queue -/

theorem roster_enqueueCaller (hR : k.roster.Sound) (ho : o ≠ 0) (ht : t ≠ 0) (hq : (k.tcb t).queuedOnEp = 0) :
    (k.enqueueCaller o t).roster = k.roster.enqueue o t { k.roster.thread t with next := 0, queuedOn := o } := by
  obtain ⟨l, hl⟩ := hR.queue o ho
  have htl : t ∉ l := fun hm => ho (((hl.mem t).mp hm).symm.trans hq)
  have htail := hl.tail_ne ht htl
  unfold enqueueCaller
  dsimp only
  have hr1 : (k.modTcb t fun c => { c with queueNext := 0, queuedOnEp := o }).roster =
      k.roster.setThread t { k.roster.thread t with next := 0, queuedOn := o } := roster_modTcb _ _ _
  have hother : ∀ u, u ≠ t → (k.modTcb t fun c => { c with queueNext := 0, queuedOnEp := o }).tcb u =
      k.tcb u := fun u hu => Function.update_of_ne hu _ _
  have hep : (k.modTcb t fun c => { c with queueNext := 0, queuedOnEp := o }).endpoint = k.endpoint := rfl
  generalize (k.modTcb t fun c => { c with queueNext := 0, queuedOnEp := o }) = k₁ at hr1 hother hep ⊢
  have htail' : (k.endpoint o).queueTail ≠ t := htail
  have hsus : k₁.suspiciousTail o = false := by
    unfold suspiciousTail
    dsimp only
    rw [hep]
    by_cases h0 : (k.endpoint o).queueTail = 0
    · have : (k.endpoint o).queueHead = 0 := hl.eq_nil_iff.mp (hl.tail_eq_zero_iff.mp h0)
      simp [h0, this]
    · rcases eq_nil_or_concat l with rfl | ⟨zs, b, rfl⟩
      · exact absurd (hl.tail_eq_zero_iff.mpr rfl) h0
      · have hb : (k.endpoint o).queueTail = b := by
          have := hl.tail
          simpa [Endpoint.ipc] using this
        have hq : (k.tcb b).queuedOnEp = o := (hl.mem b).mp (by simp)
        have hn : (k.tcb b).queueNext = 0 := by
          have hch : IsChain 0 (fun u => (k.roster.thread u).next) (k.roster.ep o).head
              (zs ++ [b]) := by simpa using hl.chain
          exact hch.next_getLast
        rw [hb] at h0 htail' ⊢
        rw [hother b htail', hq, hn]
        simp [h0]
  rw [hsus, hep]
  simp only [Bool.false_eq_true, false_and, if_false]
  unfold Roster.enqueue
  dsimp only
  rw [← hr1]
  by_cases h0 : (k.endpoint o).queueTail = 0
  · rw [if_pos h0, if_pos (show (k.roster.ep o).tail = 0 from h0), roster_modEndpoint, roster_modEndpoint]
    simp [modEndpoint, Endpoint.ipc]
  · rw [if_neg h0, if_neg (show ¬ (k.roster.ep o).tail = 0 from h0), roster_modEndpoint, roster_modTcb]
    rfl

theorem enqueue_setThread {R : Roster} {x y : ThreadIpc} (h : (R.ep o).tail ≠ t) :
    (R.enqueue o t x).setThread t y = R.enqueue o t y := by
  refine Roster.ext ?_ ?_ ?_ ?_ ?_
  · funext u
    by_cases hu : u = t
    · subst hu
      rw [enqueue_thread_self R o u y h]
      simp
    · rw [enqueue_thread R o t y hu]
      simp [hu, enqueue_thread R o t x hu]
  all_goals
    unfold Roster.enqueue
    dsimp only
    split <;> rfl

theorem Waits.block_enqueued (hw : k.Waits) (ho : o ≠ 0) (ht : t ≠ 0)
    (hrun : (k.tcb t).state = .running) (hsched : k.roster.Scheduled t)
    (hf : (k.endpoint o).failed = false) (hfree : ¬ k.EpFree o) (badge : U64) :
    ((k.blockCaller o t badge).2.block t .blockedSend).Waits ∧
    ((k.blockCaller o t badge).2.block t .blockedSend).roster = k.roster.enqueue o t
      { k.roster.thread t with next := 0, queuedOn := o, state := .blockedSend } := by
  have hd : k.roster.Detached t :=
    hw.sound.detached_of_state (by simp [Tcb.ipc, hrun]) (by simp [Tcb.ipc, hrun])
  have hb : (k.modTcb t fun c => { c with callBadge := badge }).roster = k.roster :=
    roster_modTcb_same _ _ _ rfl
  have hslab : ((k.blockCaller o t badge).2.block t .blockedSend).endpointSlab = k.endpointSlab := by
    have h := ledger_blockCaller k o t badge
    exact (endpointSlab_of_ledger (by rw [h]) : (k.blockCaller o t badge).2.endpointSlab = k.endpointSlab)
  have hr : ((k.blockCaller o t badge).2.block t .blockedSend).roster = k.roster.enqueue o t
      { k.roster.thread t with next := 0, queuedOn := o, state := .blockedSend } := by
    obtain ⟨l, hl⟩ := hw.sound.queue o ho
    have htail := hl.tail_ne ht fun hm => ho (((hl.mem t).mp hm).symm.trans hd.queuedOn)
    have hq : ((k.modTcb t fun c => { c with callBadge := badge }).tcb t).queuedOnEp = 0 :=
      (congrArg (fun R => (R.thread t).queuedOn) hb).trans hd.queuedOn
    have he := roster_enqueueCaller (hb ▸ hw.sound) ho ht hq
    rw [hb] at he
    rw [roster_block]
    unfold blockCaller
    rw [he, enqueue_thread_self _ _ _ _ htail, enqueue_setThread htail]
  refine ⟨⟨?_, fun p hp hfp => ?_, fun p hp hfp => ?_⟩, hr⟩
  · rw [hr]
    exact hw.sound.enqueue ho ht hd.queuedOn (fun p hp e => hd.receiver p hp (e ▸ ht) e) hsched rfl rfl
      rfl (hw.sound.awaiting_eq_false (by simp [Tcb.ipc, hrun]) (by simp [Tcb.ipc, hrun]))
      (by simp [Tcb.ipc, hrun]) rfl (hw.sound.bound t)
  · have hpo : p ≠ o := by
      rintro rfl
      rw [hr, enqueue_ep] at hfp
      have hfp : (k.endpoint p).failed = true := hfp
      rw [hf] at hfp
      cases hfp
    unfold Idle
    rw [hr, enqueue_ep_ne _ _ _ _ hpo] at hfp ⊢
    exact hw.failed p hp hfp
  · unfold EpFree at hfp
    rw [hslab] at hfp
    have hpo : p ≠ o := by
      rintro rfl
      exact hfree hfp
    unfold Idle
    rw [hr, enqueue_ep_ne _ _ _ _ hpo]
    exact hw.free p hp hfp

end State

end Aegir.Kernel
