/-
  Where caps on PROCESSES and THREADS come from, in any state whatever.

  A step puts such a cap into a table only if some table held one on the same slot before, or the step
  is a spawn or a thread creation that takes the slot.  Nothing is assumed of the state: the argument
  goes through the tables as they are.
-/
import Aegir.Laws.Authority

namespace Aegir.Kernel

open Aegir.Arch Aegir.Lib Ledger

/-- Caps that name a slot of the process or thread table. -/
def ObjectKind.isTask : ObjectKind → Bool
  | .processObject => true
  | .threadObject => true
  | _ => false

/-! ## Descent -/

namespace Ledger

variable {L L' L'' : Ledger} {M : ObjectKind → Nat → Prop}

/-- Some table holds a cap of the kind on the object. -/
def Names (L : Ledger) (kind : ObjectKind) (object : Nat) : Prop :=
  ∃ p h, (L.entry p h).valid = true ∧ (L.entry p h).kind = kind ∧ (L.entry p h).object = object

/-- Every cap on a process or a thread names one that was named before, or one in `M`. -/
def Descends (M : ObjectKind → Nat → Prop) (L L' : Ledger) : Prop :=
  ∀ p h, (L'.entry p h).valid = true → (L'.entry p h).kind.isTask = true →
    L.Names (L'.entry p h).kind (L'.entry p h).object ∨ M (L'.entry p h).kind (L'.entry p h).object

theorem Loses.descends (h : Loses L L') : Descends M L L' := by
  intro p i hv _
  have hsame := h p i hv
  rw [hsame] at hv ⊢
  exact .inl ⟨p, i, hv, rfl, rfl⟩

theorem Descends.trans (h : Descends M L L') (h' : Descends M L' L'') : Descends M L L'' := by
  intro p i hv ht
  rcases h' p i hv ht with ⟨q, j, hv', hkind, hobj⟩ | hm
  · have := h q j hv' (hkind ▸ ht)
    rwa [hkind, hobj] at this
  · exact .inr hm

theorem Descends.refl (L : Ledger) : Descends M L L := fun p i hv _ => .inl ⟨p, i, hv, rfl, rfl⟩

theorem Descends.keep (h : Descends M L L') (hc : L''.caps = L'.caps) : Descends M L L'' :=
  h.trans (Loses.of_caps hc).descends

theorem Descends.of_caps (hc : L'.caps = L.caps) : Descends M L L' := (Loses.of_caps hc).descends

theorem Descends.mono {M' : ObjectKind → Nat → Prop} (h : Descends M L L')
    (hm : ∀ kind o, M kind o → M' kind o) : Descends M' L L' :=
  fun p i hv ht => (h p i hv ht).imp_right (hm _ _)

end Ledger

namespace State

variable {k k' : State} {M : ObjectKind → Nat → Prop}

/-! ## Single caps -/

theorem setCaps_descends (k : State) (p : Nat) {t : CapTable} (pmm : Pmm) {e : CapEntry}
    (ht : CapTable.Gains (k.pcb p).caps t e)
    (hsrc : e.kind.isTask = true → k.ledger.Names e.kind e.object ∨ M e.kind e.object) :
    Descends M k.ledger (k.setCaps p t pmm).ledger := by
  intro q i hv hk
  rw [ledger_setCaps] at hv hk ⊢
  unfold entry Ledger.setCaps at hv hk ⊢
  dsimp only at hv hk ⊢
  by_cases hq : q = p
  · subst hq
    rw [Function.update_self] at hv hk ⊢
    rcases ht i hv with h | h
    · rw [h] at hv ⊢
      exact .inl ⟨q, i, hv, rfl, rfl⟩
    · rw [h] at hk ⊢
      exact hsrc hk
  · rw [Function.update_of_ne hq] at hv ⊢
    exact .inl ⟨q, i, hv, rfl, rfl⟩

theorem insertProcessCapAt_descends (k : State) (p cap : Nat) (kind : ObjectKind) (object : Nat)
    (rights : Rights) (badge : U64)
    (hsrc : kind.isTask = true → k.ledger.Names kind object ∨ M kind object) :
    Descends M k.ledger (k.insertProcessCapAt p cap kind object rights badge).2.ledger := by
  have h := CapTable.insertAt_gains (k.pcb p).caps cap kind object rights badge k.pmm
  unfold insertProcessCapAt
  split
  · rename_i heq
    rw [heq] at h
    exact (setCaps_descends k p _ h hsrc).trans (Loses.of_caps (ledger_caps_retainCap _ _)).descends
  · rename_i heq
    rw [heq] at h
    exact setCaps_descends k p _ h hsrc

theorem insertCap_descends (k : State) (t : Nat) (kind : ObjectKind) (object : Nat) (rights : Rights)
    (badge : U64) (hsrc : kind.isTask = true → k.ledger.Names kind object ∨ M kind object) :
    Descends M k.ledger (k.insertCap t kind object rights badge).2.ledger :=
  insertCap_ind (R := fun j => Descends M k.ledger j.ledger) (.refl _) fun cap =>
    insertProcessCapAt_descends k _ cap kind object rights badge hsrc

theorem lookupCap_names {t cap : Nat} {e : CapEntry} (h : k.lookupCap t cap = some e) :
    k.ledger.Names e.kind e.object := by
  unfold lookupCap at h
  split at h
  · cases h
  · obtain ⟨-, he, hv⟩ := CapTable.lookup_eq_some h
    exact ⟨(k.tcb t).process, cap, (congrArg CapEntry.valid he).trans hv, congrArg CapEntry.kind he,
      congrArg CapEntry.object he⟩

/-! ## Messages -/

theorem transferCaps_descends (raws : List U64) (sender receiver : Nat) (done : List Nat) (k : State) :
    Descends M k.ledger (k.transferCaps sender receiver raws done).2.ledger := by
  induction raws generalizing k done with
  | nil => exact .refl _
  | cons raw raws ih =>
    unfold transferCaps
    split
    · exact ih _ _
    · split
      · exact (rollback_loses _ _ _).descends
      · split
        · exact (rollback_loses _ _ _).descends
        · rename_i e hlook
          split
          · exact (rollback_loses _ _ _).descends
          · have h : Descends M k.ledger (k.insertCap receiver e.kind e.object e.rights e.badge).2.ledger :=
              insertCap_descends k receiver _ _ _ _ fun _ => .inl (lookupCap_names hlook)
            split
            · rename_i heq
              rw [heq] at h
              exact h.trans (rollback_loses _ _ _).descends
            · rename_i heq
              rw [heq] at h
              exact h.trans (ih _ _)

theorem transferMessage_descends {sender receiver : Nat} {badge : U64} {s : IpcStatus}
    (h : k.transferMessage sender receiver badge = (s, k')) : Descends M k.ledger k'.ledger := by
  unfold transferMessage at h
  split at h
  · rename_i sf rf _ _
    dsimp only at h
    have ht : Descends M k.ledger
        (k.transferCaps sender receiver ((List.range 4).map (k.memory sf).cap) []).2.ledger :=
      transferCaps_descends _ _ _ _ _
    split at h
    · rename_i heq
      rw [heq] at ht
      cases h
      exact ht
    · rename_i heq
      rw [heq] at ht
      cases h
      exact ht.keep rfl
  · cases h
    exact .refl _

theorem mintReplyCap_descends {receiver caller : Nat} {r : Except IpcStatus Nat}
    (h : k.mintReplyCap receiver caller = (r, k')) : Descends M k.ledger k'.ledger := by
  have hi : Descends M k.ledger
      (k.insertCap receiver .replyObject caller noRights (k.tcb caller).replyGeneration).2.ledger :=
    insertCap_descends k receiver _ _ _ _ fun ht => by cases ht
  unfold mintReplyCap at h
  split at h
  · rename_i heq
    rw [heq] at hi
    cases h
    exact hi
  · rename_i heq
    rw [heq] at hi
    cases h
    exact hi.keep rfl

theorem ledger_caps_queueSendCopy (k : State) (caller : Nat) (badge : U64) :
    (k.queueSendCopy caller badge).2.ledger.caps = k.ledger.caps := by
  have halloc : k.allocQueuedSend.2.ledger.caps = k.ledger.caps := by
    unfold allocQueuedSend
    split <;> rfl
  unfold queueSendCopy
  dsimp only
  split
  · exact halloc
  · exact halloc

theorem message_descends {cap : Nat} {wanted : Bool} {r : IpcStatus × State}
    (hout : MessageOutcome k caller cap wanted r) : Descends M k.ledger r.2.ledger := by
  cases hout with
  | rejected => exact .refl _
  | gone => exact .of_caps rfl
  | handed o badge s k₃ r _ _ _ transfer rest =>
    have htaken : Descends M k.ledger ((k.wanting caller wanted).taking o).ledger := .of_caps rfl
    have hmoved := htaken.trans (transferMessage_descends transfer)
    cases rest with
    | refused => exact hmoved.keep (by rw [ledger_wakeWithResult])
    | unminted k₄ mint => exact (hmoved.trans (mintReplyCap_descends mint)).keep (by rw [ledger_wakeWithResult])
    | called h k₄ mint =>
      refine (hmoved.trans (mintReplyCap_descends mint)).keep ?_
      rw [ledger_wakeWithResult]
      rfl
    | sent => exact hmoved.keep (by rw [ledger_wakeWithResult, ledger_setA1])
  | queued o badge r _ _ _ rest =>
    have hdrop : ((k.wanting caller wanted).dropStaleReceiver o).ledger.caps = k.ledger.caps := by
      rw [ledger_dropStaleReceiver]
      rfl
    refine .of_caps ?_
    cases rest with
    | blocked =>
      rw [ledger_blockCaller]
      exact hdrop
    | unpooled =>
      rw [ledger_blockCaller, ledger_caps_queueSendCopy]
      exact hdrop
    | copied =>
      rw [ledger_appendSend, ledger_caps_queueSendCopy]
      exact hdrop

theorem receive_descends (k : State) (receiver cap : Nat) :
    Descends M k.ledger (k.receive receiver cap).2.2.ledger := by
  have hout := receive_outcome k receiver cap
  generalize k.receive receiver cap = r at hout ⊢
  have hdeq : ∀ {o c : Nat} {k₁ : State}, k.dequeueCaller o threadBound = (c, k₁) →
      Descends M k.ledger k₁.ledger := by
    intro o c k₁ h
    have := ledger_dequeueCaller k o threadBound
    rw [h] at this
    exact .of_caps (congrArg Ledger.caps this)
  cases hout with
  | rejected => exact .refl _
  | gone => exact .refl _
  | idle o badge k₁ r _ _ dequeued rest =>
    cases rest with
    | copied => exact (hdeq dequeued).keep (by rw [ledger_deliverSend])
    | occupied => exact hdeq dequeued
    | registered => exact (hdeq dequeued).keep rfl
  | taken o badge caller s k₁ k₂ r _ _ dequeued _ transfer rest =>
    have hmoved : Descends M k.ledger k₂.ledger := (hdeq dequeued).trans (transferMessage_descends transfer)
    cases rest with
    | refused | sent => exact hmoved.keep (by rw [ledger_wakeWithResult])
    | unminted k₃ _ mint => exact (hmoved.trans (mintReplyCap_descends mint)).keep (by rw [ledger_wakeWithResult])
    | called h k₃ _ mint => exact hmoved.trans (mintReplyCap_descends mint)

theorem reply_descends (k : State) (replier cap : Nat) :
    Descends M k.ledger (k.reply replier cap).2.ledger := by
  have hout := reply_outcome k replier cap
  generalize k.reply replier cap = r at hout ⊢
  have hforget : Descends M k.ledger (k.forgetCap replier cap).ledger :=
    (forgetCap_loses k replier cap).descends
  cases hout with
  | rejected => exact .refl _
  | stale => exact hforget
  | unbuffered => exact hforget.keep (by rw [ledger_wakeWithResult])
  | refused e s k₁ _ _ _ _ _ transfer =>
    exact (hforget.trans (transferMessage_descends transfer)).keep (by rw [ledger_wakeWithResult])
  | delivered e k₁ _ _ _ _ _ transfer =>
    refine (hforget.trans (transferMessage_descends transfer)).keep ?_
    rw [ledger_wake]
    rfl

/-! ## Spawn -/

theorem grantListCaps_descends {parent child : Nat} {grantCount : U64} {s : ProcStatus}
    (h : k.grantListCaps parent child grantCount = (s, k')) : Descends M k.ledger k'.ledger := by
  have hg : Descends M k.ledger (k.grantListCaps parent child grantCount).2.ledger := by
    apply grantListCaps_keeps (Q := fun j => Descends M k.ledger j.ledger) (.refl _)
    intro j _ cap e mask badge hj _ hlook _ _
    exact hj.trans (insertProcessCapAt_descends j child _ _ _ _ _ fun _ => .inl (lookupCap_names hlook))
  rw [h] at hg
  exact hg

theorem installAddressSpaceCap_descends (k : State) (p : Nat) :
    Descends M k.ledger (k.installAddressSpaceCap p).2.ledger := by
  unfold installAddressSpaceCap
  dsimp only
  split
  · exact .refl _
  · exact setCaps_descends _ _ _ (CapTable.insertAt_gains _ _ _ _ _ _ _) fun ht => by cases ht

theorem initializeSlotProcess_descends {parent slot root : Nat} {s : CapStatus}
    (h : k.initializeSlotProcess parent slot root = (s, k')) : Descends M k.ledger k'.ledger := by
  rw [initializeSlotProcess_eq] at h
  refine (blankProcess_loses k parent slot root).descends.trans ?_
  have hinst := installAddressSpaceCap_descends (M := M) (k.blankProcess parent slot root) (slot + 1)
  rw [h] at hinst
  exact hinst

theorem seatThread_caps (k : State) (slot buffer stack : Nat) :
    (k.seatThread slot buffer stack).ledger.caps = k.ledger.caps := rfl

theorem granting_descends {image : ImageSource} {size parent slot root buffer stack : Nat}
    {grantCount : U64} {s : ProcStatus} {k₁ k₂ k₃ : State}
    (build : k.buildAddressSpace image size = (some (root, buffer, stack), k₁))
    (init : k₁.initializeSlotProcess parent slot root = (.ok, k₂))
    (grant : (k₂.seatThread slot buffer stack).grantListCaps parent (slotAddress slot) grantCount =
      (s, k₃)) : Descends M k.ledger k₃.ledger := by
  exact (((Descends.of_caps (built_paged build).ledger_caps).trans (initializeSlotProcess_descends init)).keep
    (seatThread_caps k₂ slot buffer stack)).trans (grantListCaps_descends grant)

/-- **A spawn** copies the parent's caps, and makes a cap on the slot that it takes. -/
theorem spawnBootImage_descends (k : State) (cur cap : Nat) (grantCount : U64) :
    Descends (fun kind o => (k.spawnBootImage cur cap grantCount).1 = .ok ∧ kind = .processObject ∧
      ∃ slot rest, k.freeSlots = slot :: rest ∧ o = slot + 1)
      k.ledger (k.spawnBootImage cur cap grantCount).2.2.ledger := by
  have hout := spawnBootImage_outcome k cur cap grantCount
  generalize k.spawnBootImage cur cap grantCount = r at hout ⊢
  cases hout with
  | refused => exact .refl _
  | unbuilt build => exact .of_caps (built_paged build).ledger_caps
  | @unseated _ _ slot root _ _ _ _ _ k₂ _ build init _ =>
    exact ((Descends.of_caps (built_paged build).ledger_caps).trans (initializeSlotProcess_descends init)).trans
      (undoSpawn_loses k₂ slot root false).descends
  | @seated _ _ slot root _ _ rest _ _ _ k₃ _ free build init grant ending =>
    cases ending with
    | ungranted => exact (granting_descends build init grant).trans (undoSpawn_loses k₃ slot root true).descends
    | @unheld _ k₄ hold =>
      exact ((((granting_descends build init grant).trans (modPcb_loses k₃ _ _ rfl).descends).trans
        (insertCap_loses hold).descends)).trans (undoSpawn_loses k₄ slot root true).descends
    | spawned hold =>
      have hins := insertCap_descends (M := fun kind o => kind = .processObject ∧ o = slot + 1)
        (k₃.reviveProcess slot) cur .processObject (slotAddress slot) processRights
        (UInt64.ofNat ((k₃.reviveProcess slot).pcb (slotAddress slot)).id) fun _ => .inr ⟨rfl, rfl⟩
      change Descends _ _ ((k₃.reviveProcess slot).insertProcessHandle cur slot).2.ledger at hins
      rw [hold] at hins
      refine (((granting_descends build init grant).trans (modPcb_loses k₃ _ _ rfl).descends).trans
        (hins.mono fun kind o hm => ?_)).keep rfl
      exact ⟨rfl, hm.1, slot, rest, free, hm.2⟩

theorem installThread_descends {cur slot stack object : Nat} {ipcVA : U64} {priority : Int}
    {r : Except CapStatus Nat} (h : k.installThread cur slot stack object ipcVA priority = (r, k')) :
    Descends (fun kind o => (∃ cap, r = .ok cap) ∧ kind = .threadObject ∧ o = slot + 1) k.ledger k'.ledger := by
  unfold installThread at h
  dsimp only at h
  generalize hk3 : State.initializeSlotThread _ _ _ _ _ _ _ = k₃ at h
  have hcaps : k₃.ledger.caps = k.ledger.caps := by
    rw [← hk3]
    split <;> rfl
  have hins := insertCap_descends (M := fun kind o => kind = .threadObject ∧ o = slot + 1) k₃ cur
    .threadObject (slotAddress slot) threadCapRights (UInt64.ofNat k.nextThreadId) fun _ =>
      .inr ⟨rfl, rfl⟩
  cases hi : k₃.insertCap cur .threadObject (slotAddress slot) threadCapRights (UInt64.ofNat k.nextThreadId) with
  | mk r' k₄ =>
    rw [hi] at h hins
    cases h
    cases r' with
    | error e => exact ((Descends.of_caps hcaps).trans (insertCap_loses hi).descends).keep rfl
    | ok cap => exact ((Descends.of_caps hcaps).trans (hins.mono fun _ _ hm => ⟨⟨cap, rfl⟩, hm⟩)).keep rfl

/-- **A thread creation** makes a cap on the thread slot that it takes. -/
theorem threadCreate_descends (k : State) (cur : Nat) :
    Descends (fun kind o => (k.threadCreate cur).1 = .ok ∧ kind = .threadObject ∧
      ∃ slot rest, k.threadFreeSlots = slot :: rest ∧ o = slot + 1)
      k.ledger (k.threadCreate cur).2.2.ledger := by
  have hout := threadCreate_outcome k cur
  generalize k.threadCreate cur = r at hout ⊢
  have hres : ∀ {slot : Nat} {rest : List Nat} {k₁ k₂ : State}, Paged k k₁ →
      Paged (k₁.reserveThread slot rest) k₂ → k₂.ledger.caps = k.ledger.caps :=
    fun before after => after.ledger_caps.trans before.ledger_caps
  cases hout with
  | refused => exact .refl _
  | halted => exact .of_caps rfl
  | unmapped _ paged => exact .of_caps paged.ledger_caps
  | abandoned _ before _ after => exact (Descends.of_caps (hres before after)).keep rfl
  | @installed slot _ _ _ _ rest _ _ k₂ k₃ _ _ before free mapped install ending =>
    have hins : Descends _ k₂.ledger k₃.ledger := installThread_descends install
    have hkept := hres before mapped
    cases ending with
    | unheld _ after =>
      refine ((Descends.of_caps hkept).trans (hins.mono ?_)).keep after.ledger_caps
      rintro kind o ⟨⟨cap, hcap⟩, -⟩
      cases hcap
    | created =>
      have hfree : k.threadFreeSlots = slot :: rest := by
        rw [← free, before.same]
      refine ((Descends.of_caps hkept).trans (hins.mono ?_)).keep rfl
      rintro kind o ⟨-, hkind, ho⟩
      exact ⟨rfl, hkind, slot, rest, hfree, ho⟩

/-! ## Objects -/

theorem grantFresh_descends {cur : Nat} {kind : ObjectKind} {rights : Rights}
    {discard : State → Nat → State} {created : Nat × State} (hkind : kind.isTask = false)
    (hcreated : created.2.ledger.caps = k.ledger.caps)
    (hdiscard : ∀ (j : State) (o : Nat), (discard j o).ledger.caps = j.ledger.caps) :
    Descends M k.ledger (grantFresh cur kind rights discard created).ledger := by
  unfold grantFresh
  split
  · exact .of_caps (by rw [ledger_setA0, hcreated])
  · have hins : Descends M created.2.ledger (created.2.insertCap cur kind created.1 rights 0).2.ledger :=
      insertCap_descends _ _ _ _ _ _ fun ht => absurd (hkind.symm.trans ht) (by simp)
    have h := (Descends.of_caps hcreated).trans hins
    split
    · rename_i heq
      rw [heq] at h
      exact h.keep (by rw [ledger_setA0, hdiscard])
    · rename_i heq
      rw [heq] at h
      exact h.keep (by rw [ledger_setA0])

theorem ledger_caps_allocateFrames (n object index : Nat) (k : State) :
    (k.allocateFrames object index n).2.ledger.caps = k.ledger.caps := by
  induction n generalizing k index with
  | zero => rfl
  | succ n ih =>
    unfold allocateFrames
    split
    · rfl
    · dsimp only
      rw [ih]
      rfl

theorem ledger_caps_freeFrames (k : State) (object : Nat) : (k.freeFrames object).ledger.caps = k.ledger.caps := by
  unfold freeFrames
  dsimp only
  split <;> rfl

theorem ledger_caps_createMemory (k : State) (pages : U64) :
    (k.createMemory pages).2.ledger.caps = k.ledger.caps := by
  unfold createMemory
  split
  · rfl
  · split
    · rfl
    · rename_i s p _
      dsimp only
      have h := ledger_caps_allocateFrames pages.toNat s.take.1 0
        (({ k with memorySlab := s.take.2, pmm := p } : State).modMemoryObject s.take.1
          fun _ => ⟨0, pages.toNat, fun _ => 0⟩)
      split
      · rename_i heq
        rw [heq] at h
        exact h
      · rename_i heq
        rw [heq] at h
        exact (ledger_caps_freeFrames _ _).trans h

theorem ledger_caps_allocateDevice (k : State) : k.allocateDevice.2.ledger.caps = k.ledger.caps := by
  unfold allocateDevice
  split <;> rfl

theorem ledger_caps_createIrq (k : State) (source : U64) : (k.createIrq source).2.ledger.caps = k.ledger.caps := by
  unfold createIrq
  dsimp only
  split
  · exact ledger_caps_allocateDevice k
  · exact ledger_caps_allocateDevice k

theorem grantLine_descends (k : State) (cur : Nat) (source : U64) :
    Descends M k.ledger (k.grantLine cur source).ledger := by
  have hcreate := ledger_caps_createIrq k source
  have hregister : ∀ (j : State) (o : Nat), (j.registerLine o).2.ledger.caps = j.ledger.caps := by
    intro j o
    unfold registerLine
    dsimp only
    split
    · rfl
    · split <;> rfl
  unfold grantLine
  dsimp only
  split
  · exact .of_caps (by rw [ledger_setA0, hcreate])
  · have hreg := (hregister (k.createIrq source).2 (k.createIrq source).1).trans hcreate
    split
    · rename_i heq
      rw [heq] at hreg
      exact .of_caps (by rw [ledger_setA0, ledger_caps_releaseDevice]; exact hreg)
    · rename_i heq
      rw [heq] at hreg
      exact grantFresh_descends rfl hreg ledger_caps_releaseDevice

/-! ## Every step -/

/-- The slot whose control block a step fills for a new process or thread, as the kind and the object
    of a cap.  A thread whose cap could not be inserted leaves its block behind all the same. -/
def seated (k : State) : Action → Option (ObjectKind × Nat)
  | .syscall .spawn t f =>
    match decodeHandle f.a0, k.freeSlots with
    | some cap, slot :: _ =>
      if (k.spawnBootImage t cap f.a1).1 = .ok then some (.processObject, slotAddress slot) else none
    | _, _ => none
  | .syscall .threadCreate t _ =>
    match k.threadFreeSlots with
    | slot :: _ =>
      if (k.threadCreate t).1 = .ok ∨ (k.threadCreate t).1 = .capFailed then
        some (.threadObject, slotAddress slot)
      else none
    | [] => none
  | _ => none

theorem Answers.ledger_caps (h : Answers k k') : k'.ledger.caps = k.ledger.caps := by
  obtain ⟨k₁, hp, hl, -⟩ := h
  rw [hl, hp.ledger_caps]

theorem answer_descends {cur : Nat} {blocked : ThreadState} {r : IpcStatus × State}
    (h : Descends M k.ledger r.2.ledger) : Descends M k.ledger (match r with
      | (.wouldBlock, k') => k'.block cur blocked
      | (s, k') => k'.setIpcResult cur s).ledger := by
  obtain ⟨s, k'⟩ := r
  have hblock : (k'.block cur blocked).ledger.caps = k'.ledger.caps := rfl
  cases s with
  | wouldBlock => exact h.keep hblock
  | _ => exact h.keep (by unfold setIpcResult; rw [ledger_setA0])

/-- **Every system call** of any state copies caps on processes and threads, or makes one on the slot
    that it takes. -/
theorem handleSyscall_descends (k : State) (cur : Nat) (f : TrapFrame) (call : Syscall) :
    Descends (fun kind o => k.seated (.syscall call cur f) = some (kind, o))
      k.ledger (k.handleSyscall cur f call).ledger := by
  cases call with
  | epCreate =>
    refine grantFresh_descends rfl ?_ fun j o => ?_
    · unfold createEndpoint
      split <;> rfl
    · unfold discardEndpoint
      split <;> rfl
  | epSetStampIdentity =>
    refine .of_caps ?_
    show (k.handleEpSetStampIdentity cur f).ledger.caps = _
    unfold handleEpSetStampIdentity
    split
    · rfl
    · split
      · rfl
      · split
        · rfl
        · rw [ledger_setA0, (setStampIdentity_same k _ _).1]
  | ntfnCreate =>
    refine grantFresh_descends rfl ?_ fun j o => ?_
    · unfold createNotification
      split <;> rfl
    · unfold discardNotification
      split <;> rfl
  | memAlloc =>
    refine grantFresh_descends rfl (ledger_caps_createMemory k _) fun j o => ?_
    unfold discardMemory
    split
    · rfl
    · exact ledger_caps_freeFrames j o
  | memMap => exact .of_caps (handleMemMap_answers k cur f).ledger_caps
  | memUnmap => exact .of_caps (handleMemUnmap_answers k cur f).ledger_caps
  | mapMmio => exact .of_caps (handleMapMmio_answers k cur f).ledger_caps
  | ioMap =>
    show Descends _ _ (k.handleIoMap cur f).ledger
    unfold handleIoMap
    split
    · exact .of_caps (by rw [ledger_setA0])
    · split
      · exact .of_caps (by rw [ledger_setA0])
      · refine grantFresh_descends rfl ?_ ledger_caps_releaseDevice
        unfold createMmio
        dsimp only
        split
        · exact ledger_caps_allocateDevice k
        · exact ledger_caps_allocateDevice k
  | irqCreate =>
    show Descends _ _ (k.handleIrqCreate cur f).ledger
    unfold handleIrqCreate
    split
    · exact .of_caps (by rw [ledger_setA0])
    · exact grantLine_descends k cur _
  | irqMsiCreate vector =>
    show Descends _ _ (k.handleIrqMsiCreate cur f vector).ledger
    unfold handleIrqMsiCreate
    split
    · exact .of_caps (by rw [ledger_setA0])
    · split
      · exact .of_caps (by rw [ledger_setA0])
      · exact grantLine_descends k cur _
  | capMint =>
    apply handleCapMint_ind (R := fun j => Descends _ k.ledger j.ledger)
    · intro j v hj
      exact hj.keep (by rw [ledger_setA0])
    · exact .refl _
    · intro cap e hlook _ _
      exact insertCap_descends k cur e.kind e.object _ _ fun _ => .inl (lookupCap_names hlook)
  | capDelete =>
    obtain ⟨v, heq⟩ := handleCapDelete_cases k cur f
    show Descends _ _ (k.handleCapDelete cur f).ledger
    rw [heq]
    split <;> rw [ledger_setA0]
    · exact .refl _
    · exact (closeCap_loses k cur _ false).descends
  | ipcCall =>
    show Descends _ _ (k.handleIpcCall cur f).ledger
    obtain ⟨-, he⟩ | ⟨cap, r, -, hout, he⟩ := handleIpcCall_cases k cur f
    · exact he ▸ .of_caps (by rw [ledger_setA0])
    · exact he ▸ answer_descends (message_descends hout)
  | ipcSend =>
    show Descends _ _ (k.handleIpcSend cur f).ledger
    obtain ⟨-, he⟩ | ⟨cap, r, -, hout, he⟩ := handleIpcSend_cases k cur f
    · exact he ▸ .of_caps (by rw [ledger_setA0])
    · exact he ▸ answer_descends (message_descends hout)
  | ipcRecv =>
    have hrecv : ∀ j : State, Descends (fun kind o => k.seated (.syscall .ipcRecv cur f) = some (kind, o))
        j.ledger (j.receiveEndpoint cur f).ledger := by
      intro j
      unfold receiveEndpoint
      split
      · exact .of_caps (by rw [ledger_setA0])
      · rename_i cap _
        have h := receive_descends
          (M := fun kind o => k.seated (.syscall .ipcRecv cur f) = some (kind, o)) j cur cap
        split
        · rename_i heq
          rw [heq] at h
          exact h.keep rfl
        · rename_i heq
          rw [heq] at h
          exact h.keep rfl
    have htake : ∀ o, (k.takeNotification o).2.ledger.caps = k.ledger.caps := by
      intro o
      unfold takeNotification
      split <;> rfl
    show Descends _ _ (k.handleIpcRecv cur f).ledger
    unfold handleIpcRecv
    dsimp only
    split
    · exact hrecv k
    · split
      · refine .of_caps ?_
        unfold writeNotificationMessage
        split
        · exact htake _
        · exact htake _
      · exact (Descends.of_caps (htake _)).trans (hrecv _)
  | ipcReply =>
    show Descends _ _ (k.handleIpcReply cur f).ledger
    unfold handleIpcReply
    split
    · exact .of_caps (by rw [ledger_setA0])
    · exact (reply_descends k cur _).keep rfl
  | spawn =>
    show Descends _ _ (k.handleSpawn cur f).ledger
    unfold handleSpawn
    split
    · exact .of_caps (by rw [ledger_setA1, ledger_setA0])
    · rename_i cap hcap
      rw [ledger_setA1, ledger_setA0]
      refine (spawnBootImage_descends k cur cap f.a1).mono ?_
      rintro kind o ⟨hok, rfl, slot, rest, hfree, rfl⟩
      simp [seated, hcap, hfree, hok, slotAddress]
  | exit => exact (handleExit_loses k cur f).descends
  | threadCreate =>
    show Descends _ _ (k.handleThreadCreate cur).ledger
    unfold handleThreadCreate
    rw [ledger_setA0]
    refine (threadCreate_descends k cur).mono ?_
    rintro kind o ⟨hok, rfl, slot, rest, hfree, rfl⟩
    simp [seated, hfree, hok, slotAddress]
  | threadExit => exact (handleThreadExit_loses k cur).descends
  | threadWait =>
    refine .of_caps ?_
    show (k.handleThreadWait cur f).ledger.caps = _
    have hwait : ((k.setA0 cur 0).threadWait cur f.a0.toNat).2.ledger.caps = k.ledger.caps := by
      unfold threadWait
      split
      · rfl
      · split
        · rfl
        · split
          · rfl
          · split <;> rfl
    unfold handleThreadWait
    split
    · rfl
    · exact hwait
  | reapProcess =>
    show Descends _ _ (k.handleReapProcess cur f).ledger
    unfold handleReapProcess
    split
    · exact .of_caps (by rw [ledger_setA1, ledger_setA0])
    · dsimp only
      rw [ledger_setA0, ledger_setA1]
      exact (reapProcess_loses k cur _).descends
  | setPriority =>
    refine .of_caps ?_
    apply handleSetPriority_ind (P := fun j => j.ledger.caps = k.ledger.caps)
      (Q := fun j => j.ledger.caps = k.ledger.caps)
    · intro j v w hj
      exact hj
    · rfl
    · intro _
      rfl
    · intro cap e _ _
      unfold setThreadPriority
      split <;> rfl

theorem step_descends {a : Action} (hs : k.step a = some k') :
    Descends (fun kind o => k.seated a = some (kind, o)) k.ledger k'.ledger := by
  cases step_cases hs with
  | syscall => exact handleSyscall_descends k _ _ _
  | failEndpoint o => exact .of_caps (by rw [ledger_failEndpoint])
  | _ => exact .of_caps rfl

theorem boot_names (c : BootConfig) {kind : ObjectKind} {o : Nat} (hn : (boot c).ledger.Names kind o) :
    kind.isTask = false := by
  have hempty : ∀ kind o, ¬ ((bare c).setupInit c).ledger.Names kind o := by
    rintro kind o ⟨p, i, hv, -⟩
    unfold entry at hv
    rw [ledger_caps, setupInit_caps] at hv
    cases hv
  have hkinds : ∀ kind ∈ bootKinds, kind.isTask = false := by decide
  have hdesc : Descends (fun _ _ => False) ((bare c).setupInit c).ledger (boot c).ledger := by
    apply boot_ind (R := fun k => Descends (fun _ _ => False) ((bare c).setupInit c).ledger k.ledger) _ c (.refl _)
    intro k cap o kind rights badge hkind _ h
    exact h.trans (insertProcessCapAt_descends k _ _ _ _ _ _ fun ht => absurd ((hkinds kind hkind).symm.trans ht) (by simp))
  cases htask : kind.isTask with
  | false => rfl
  | true =>
    obtain ⟨p, i, hv, hkind, -⟩ := hn
    rcases hdesc p i hv (hkind ▸ htask) with h | h
    · exact absurd h (hempty _ _)
    · exact h.elim

end State

end Aegir.Kernel
