/-
  AUTHORITY: where the entries of the capability tables come from.

  An operation leaves every table with entries that were there before, copies of entries that the acting
  process held, reply caps, which carry no rights, and, for a spawn, the caps on what it has made: `Follows`
  says this of two ledgers.  It is transitive as long as nothing made lies in the actor's own table.  The
  rights held on an object by all tables together can then only shrink.
-/
import Mathlib.Data.Set.Basic
import Aegir.Laws.CapLoss

namespace Aegir.Kernel

open Aegir.Arch Aegir.Lib Ledger

/-! ## Rights one by one -/

/-- The components of `Rights`. -/
inductive Right where
  | read
  | write
  | execute
  | map
  | send
  | receive
  | wait
  | ack
  | transfer
  | manage
deriving DecidableEq, Repr

/-- The right is in the set. -/
def Rights.has (r : Rights) : Right → Bool
  | .read => r.read
  | .write => r.write
  | .execute => r.execute
  | .map => r.map
  | .send => r.send
  | .receive => r.receive
  | .wait => r.wait
  | .ack => r.ack
  | .transfer => r.transfer
  | .manage => r.manage

theorem hasRights_iff (hav need : Rights) :
    hasRights hav need = true ↔ ∀ right, need.has right = true → hav.has right = true := by
  simp only [hasRights, Bool.and_eq_true, Bool.or_eq_true, Bool.not_eq_true']
  constructor
  · intro h right
    cases right <;> simp only [Rights.has] <;> grind
  · intro h
    have hone : ∀ right, need.has right = false ∨ hav.has right = true := by
      intro right
      have := h right
      cases hn : need.has right with
      | false => exact .inl rfl
      | true => exact .inr (this hn)
    exact ⟨⟨⟨⟨⟨⟨⟨⟨⟨hone .read, hone .write⟩, hone .execute⟩, hone .map⟩, hone .send⟩,
      hone .receive⟩, hone .wait⟩, hone .ack⟩, hone .transfer⟩, hone .manage⟩

theorem hasRights_trans {a b c : Rights} (h : hasRights a b = true) (h' : hasRights b c = true) :
    hasRights a c = true := by
  rw [hasRights_iff] at h h' ⊢
  exact fun right hr => h right (h' right hr)

namespace Ledger

variable {L L' L'' : Ledger} {actor : Nat} {made : Nat → Nat → CapEntry → Prop}

/-! ## Losing entries -/

theorem Kept.loses (h : Kept L L') : Loses L L' := .of_entry h.entry

theorem SameCaps.loses (h : SameCaps L L') : Loses L L' := .of_entry h.entry

theorem CapSteps.loses (h : CapSteps actor (fun _ => False) L L') : Loses L L' :=
  fun _ i hv => h.entry_untouched id i hv

/-! ## Where entries come from -/

/-- The actor holds a non-reply cap on the object of `e`, with at least its rights. -/
def Derived (L : Ledger) (actor : Nat) (e : CapEntry) : Prop :=
  ∃ h, (L.entry actor h).valid = true ∧ (L.entry actor h).kind = e.kind ∧
    (L.entry actor h).object = e.object ∧ e.kind ≠ .replyObject ∧
    hasRights (L.entry actor h).rights e.rights = true

/-- Where the entry `e` at handle `h` of process `p` comes from. -/
inductive Source (L : Ledger) (actor : Nat) (made : Nat → Nat → CapEntry → Prop) (p h : Nat)
    (e : CapEntry) : Prop
  | kept (same : e = L.entry p h)
  | derived (copy : L.Derived actor e)
  | reply (kind : e.kind = .replyObject) (rights : e.rights = noRights)
  | made (new : made p h e)

/-- **Every valid entry afterwards has a source.** -/
def Follows (actor : Nat) (made : Nat → Nat → CapEntry → Prop) (L L' : Ledger) : Prop :=
  ∀ p h, (L'.entry p h).valid = true → Source L actor made p h (L'.entry p h)

namespace Follows

theorem of_loses (h : Loses L L') : Follows actor made L L' := fun p i hv => .kept (h p i hv)

theorem loses (h : Follows actor made L L') (h' : Loses L' L'') : Follows actor made L L'' := by
  intro p i hv
  have he := h' p i hv
  rw [he] at hv ⊢
  exact h p i hv

theorem mono {made' : Nat → Nat → CapEntry → Prop} (h : Follows actor made L L')
    (hm : ∀ p i, (L'.entry p i).valid = true → made p i (L'.entry p i) → made' p i (L'.entry p i)) :
    Follows actor made' L L' := by
  intro p i hv
  cases h p i hv with
  | kept same => exact .kept same
  | derived copy => exact .derived copy
  | reply kind rights => exact .reply kind rights
  | made new => exact .made (hm p i hv new)

theorem derived (h : Follows actor made L L') (hm : ∀ i e, ¬ made actor i e) {e : CapEntry}
    (hd : L'.Derived actor e) : L.Derived actor e := by
  obtain ⟨j, hv, hkind, hobj, hreply, hrights⟩ := hd
  cases h actor j hv with
  | kept same =>
    rw [same] at hv hkind hobj hrights
    exact ⟨j, hv, hkind, hobj, hreply, hrights⟩
  | derived copy =>
    obtain ⟨i, hv', hkind', hobj', -, hrights'⟩ := copy
    exact ⟨i, hv', hkind'.trans hkind, hobj'.trans hobj, hreply, hasRights_trans hrights' hrights⟩
  | reply kind rights => exact absurd (hkind.symm.trans kind) hreply
  | made new => exact absurd new (hm _ _)

theorem put {p h : Nat} {e : CapEntry} (hf : Follows actor made L L') (hi : Inserted L' L'' p h e)
    (hsrc : Source L actor made p h e) : Follows actor made L L'' := by
  intro q i hv
  rw [hi.entry] at hv ⊢
  split
  · rename_i hq
    rw [hq.1, hq.2]
    exact hsrc
  · rename_i hq
    rw [if_neg hq] at hv
    exact hf q i hv

theorem steps {target : Nat → Prop} (h : Follows actor made L L') (hm : ∀ i e, ¬ made actor i e)
    (ha : actor ≤ initProcess) (hs : CapSteps actor target L' L'') : Follows actor made L L'' := by
  induction hs with
  | refl => exact h
  | frame _ same ih => exact ih.loses same.loses
  | remove _ take ih =>
    refine ih.loses fun p i hv => ?_
    rw [take.entry] at hv ⊢
    split at hv
    · cases hv
    · rename_i hne
      rw [if_neg hne]
  | insert _ _ origin put ih =>
    refine ih.put put ?_
    cases origin with
    | copy j valid kind object not_reply rights =>
      exact .derived (ih.derived hm ⟨j, valid, kind, object, not_reply, rights⟩)
    | reply kind rights => exact .reply kind rights
    | made kind kernel =>
      unfold kernelActor at kernel
      omega

end Follows

/-- The rights that entries not in `but` hold on an object. -/
def rightsOn (L : Ledger) (but : Nat → Nat → CapEntry → Prop) (kind : ObjectKind) (object : Nat) :
    Set Right :=
  { right | ∃ p h, (L.entry p h).valid = true ∧ (L.entry p h).kind = kind ∧
    (L.entry p h).object = object ∧ (L.entry p h).rights.has right = true ∧ ¬ but p h (L.entry p h) }

/-- **Entries with sources hold no rights that were not held before.** -/
theorem Follows.rightsOn_subset (h : Follows actor made L L') (kind : ObjectKind) (object : Nat) :
    L'.rightsOn made kind object ⊆ L.rightsOn (fun _ _ _ => False) kind object := by
  rintro right ⟨p, i, hv, hkind, hobj, hhas, hmade⟩
  cases h p i hv with
  | kept same =>
    rw [same] at hv hkind hobj hhas
    exact ⟨p, i, hv, hkind, hobj, hhas, id⟩
  | derived copy =>
    obtain ⟨j, hv', hkind', hobj', -, hrights⟩ := copy
    exact ⟨actor, j, hv', hkind'.trans hkind, hobj'.trans hobj, (hasRights_iff _ _).mp hrights right hhas, id⟩
  | reply kind' rights =>
    rw [rights] at hhas
    cases right <;> cases hhas
  | made new => exact absurd new hmade

end Ledger

namespace State

variable {k k' : State} {cur s : Nat}

/-! ## Spawn -/

theorem Inv.running_ne_slot (h : k.Inv) (hrun : (k.tcb cur).state = .running) {rest : List Nat}
    (hfree : k.freeSlots = s :: rest) : cur ≠ s + 1 ∧ (k.tcb cur).process ≠ s + 1 := by
  have hb := h.building hfree
  have hs := hb.lt
  refine ⟨?_, fun he => ?_⟩
  · rintro rfl
    rcases h.running_cases hrun with hi | ⟨-, -, hu⟩
    · unfold initThread maxThreadSlots at hi
      unfold maxProcessSlots at hs
      omega
    · rw [Nat.add_sub_cancel, hb.threadUsed] at hu
      cases hu
  · have hopen : k.ledger.life.Open (k.tcb cur).process := open_of_running h.waits hrun
    rw [he] at hopen
    exact h.life.not_open hs hb.unused hopen

/-- The cap of a process on its own address space. -/
def spaceCap (c : Pcb) : CapEntry :=
  ⟨true, .addressSpaceObject, c.root, addressSpaceRights, UInt64.ofNat c.id⟩

/-- The cap on the process in a slot, for its parent. -/
def processCap (slot : Nat) (c : Pcb) : CapEntry :=
  ⟨true, .processObject, slotAddress slot, processRights, UInt64.ofNat c.id⟩

/-- **The two entries that a spawn makes.**  The thread `t` spawned a process, which fills the first free slot, and
    was answered the handle `cap`: the new process's cap on its own address space, and the parent's cap on it. -/
def Makes (k k' : State) (t cap p h : Nat) (e : CapEntry) : Prop :=
  ∃ slot rest, k.freeSlots = slot :: rest ∧ k'.used slot = true ∧
    (p = slotAddress slot ∧ h = addressSpaceCapHandle ∧ e = spaceCap (k'.pcb p) ∨
      p = (k.tcb t).process ∧ h = cap ∧ e = processCap slot (k'.pcb (slotAddress slot)))

theorem granted_follows {image : ImageSource} {size root buffer stack : Nat} {rest : List Nat}
    {grantCount : U64} {status : ProcStatus} {k₁ k₂ k₃ : State} (h : k.Inv)
    (hrun : (k.tcb cur).state = .running) (hfree : k.freeSlots = s :: rest)
    (hbuild : k.buildAddressSpace image size = (some (root, buffer, stack), k₁))
    (hinit : k₁.initializeSlotProcess cur s root = (.ok, k₂))
    (hgrant : (k₂.seatThread s buffer stack).grantListCaps cur (slotAddress s) grantCount = (status, k₃)) :
    Follows (k.tcb cur).process
        (fun p h e => p = s + 1 ∧ h = addressSpaceCapHandle ∧ e = spaceCap (k₃.pcb (s + 1))) k.ledger k₃.ledger ∧
      (k₃.tcb cur).process = (k.tcb cur).process := by
  obtain ⟨hcur, hactor⟩ := h.running_ne_slot hrun hfree
  have hp := built_paged hbuild
  have h1 := h.paged hp
  have hfree1 : k₁.freeSlots = s :: rest := by rw [hp.same]; exact hfree
  have hempty := h1.vacant s (h1.building hfree1).lt (h1.building hfree1).unused
  have hb2 := (initializeSlotProcess_building h1 hfree1 hinit).1
  have hheader := initializeSlotProcess_header k₁ cur s root
  rw [hinit] at hheader
  rw [initializeSlotProcess_eq] at hinit
  -- the blocks of the process
  have hkept := blankProcess_kept h1.counted hempty cur root
  have hlife := life_blankProcess k₁ cur s root
  have hlose : k.ledger.Loses (k₁.blankProcess cur s root).ledger :=
    (hp.ledger_same h.counted).loses.trans hkept.loses
  have hL := hkept.counted h1.counted
  have hproc : ((k₁.blankProcess cur s root).tcb cur).process = (k.tcb cur).process :=
    (congrFun (congrArg Life.process hlife) cur).trans (by rw [hp.same]; rfl)
  generalize k₁.blankProcess cur s root = k1' at hinit hlose hL hproc hheader
  -- its address-space cap, which names the block as the grants leave it
  have hheader3 := grantListCaps_header (k₂.seatThread s buffer stack) cur (slotAddress s) grantCount (s + 1)
  rw [hgrant] at hheader3
  have hspace : spaceCap (k1'.pcb (s + 1)) = spaceCap (k₃.pcb (s + 1)) := by
    have := congrArg spaceCap (hheader3.trans hheader)
    exact this.symm
  have hcases := installAddressSpaceCap_cases (k := k1') (p := s + 1) hL
  rw [hinit] at hcases
  rcases hcases with ⟨-, hins⟩ | ⟨hbad, -⟩
  swap
  · exact absurd rfl hbad
  have hf2 : Follows (k.tcb cur).process
      (fun p h e => p = s + 1 ∧ h = addressSpaceCapHandle ∧ e = spaceCap (k₃.pcb (s + 1)))
      k.ledger k₂.ledger := (Follows.of_loses hlose).put hins (.made ⟨rfl, rfl, hspace⟩)
  have hproc2 : (k₂.tcb cur).process = (k.tcb cur).process :=
    (congrFun (congrArg Life.process hins.life) cur).trans hproc
  -- its thread, and the grants
  have hl : (k₂.seatThread s buffer stack).ledger = _ := ledger_initializeSlotThread k₂ s _ _ _ _ _
  have hseat := hb2.seatThread buffer stack
  generalize k₂.seatThread s buffer stack = k2' at hl hseat hgrant
  have hproc2' : (k2'.tcb cur).process = (k.tcb cur).process := by
    refine (congrFun (congrArg Ledger.process hl) cur).trans ?_
    exact (Function.update_of_ne hcur _ _).trans hproc2
  have hsteps := grantListCaps_steps (fun p => p = s + 1) cur grantCount (fun p hp => by
      have := hseat.lt
      unfold initProcess
      omega) k2' hseat.counted rfl
  rw [show s + 1 = slotAddress s from rfl, hgrant, hproc2'] at hsteps
  exact ⟨Follows.steps (hf2.loses (.of_entry fun _ _ => by rw [hl]; rfl)) (fun i e hm => hactor hm.1)
    (h.process_le cur) hsteps, (congrFun (congrArg Life.process hsteps.life) cur).trans hproc2'⟩

theorem undoSpawn_used (k : State) (slot root : Nat) (closeAll : Bool) :
    (k.undoSpawn slot root closeAll).used slot = false := by
  unfold undoSpawn
  rw [(destroyAddressSpace_paged (k.discardSlot slot closeAll) root).same]
  exact Function.update_self _ _ _

/-- **A spawn makes two caps and copies the parent's.** -/
theorem spawnBootImage_follows (h : k.Inv) (hrun : (k.tcb cur).state = .running) (cap : Nat) (grantCount : U64) :
    Follows (k.tcb cur).process
      (k.Makes (k.spawnBootImage cur cap grantCount).2.2 cur (k.spawnBootImage cur cap grantCount).2.1)
      k.ledger (k.spawnBootImage cur cap grantCount).2.2.ledger := by
  have hout := spawnBootImage_outcome k cur cap grantCount
  have hafter := spawnBootImage_inv h hrun cap grantCount
  generalize k.spawnBootImage cur cap grantCount = r at hout hafter ⊢
  cases hout with
  | refused => exact .of_loses (.of_entry fun _ _ => rfl)
  | unbuilt build => exact .of_loses ((built_paged build).ledger_same h.counted).loses
  | @unseated _ _ slot root _ _ rest _ k₁ _ free build init bad =>
    have hp := built_paged build
    have h1 := h.paged hp
    have hfree1 : k₁.freeSlots = slot :: rest := by rw [hp.same]; exact free
    have hempty := h1.vacant slot (h1.building hfree1).lt (h1.building hfree1).unused
    rw [initializeSlotProcess_eq] at init
    have hkept := blankProcess_kept h1.counted hempty cur root
    have hcases := installAddressSpaceCap_cases (k := k₁.blankProcess cur slot root) (p := slot + 1)
      (hkept.counted h1.counted)
    rw [init] at hcases
    rcases hcases with ⟨hok, -⟩ | ⟨-, hsame⟩
    · exact absurd hok bad
    · exact .of_loses ((((hp.ledger_same h.counted).loses.trans hkept.loses).trans hsame.loses).trans
        (undoSpawn_loses _ slot root false))
  | @seated _ _ slot root _ _ rest _ _ _ k₃ _ free build init grant ending =>
    obtain ⟨hf, hproc⟩ := granted_follows h hrun free build init grant
    have hlose : k₃.ledger.Loses (k₃.reviveProcess slot).ledger := modPcb_loses k₃ _ _ rfl
    obtain ⟨hb, -⟩ := spawn_granted h free build init grant
    -- a spawn that failed leaves the table of the slot empty
    have hundone : ∀ {j : State}, (j.undoSpawn slot root true).Inv → k₃.ledger.Loses j.ledger →
        Follows (k.tcb cur).process (k.Makes (j.undoSpawn slot root true) cur 0) k.ledger
          (j.undoSpawn slot root true).ledger := by
      intro j hinv hl
      refine (hf.loses (hl.trans (undoSpawn_loses _ _ _ _))).mono fun p i hv hm => ?_
      rw [hm.1, hinv.vacant slot hb.lt (undoSpawn_used j slot root true) i] at hv
      cases hv
    cases ending with
    | ungranted => exact hundone hafter (.of_entry fun _ _ => rfl)
    | unheld hold => exact hundone hafter (hlose.trans (insertCap_loses hold))
    | @spawned handle k₄ hold =>
      obtain ⟨hb', -⟩ := hb.reviveProcess
      have hins := insertCap_ok hb'.counted (fun P hP => by cases hP) hold
      have hheader := insertCap_header (k₃.reviveProcess slot) cur .processObject (slotAddress slot) processRights
        (UInt64.ofNat ((k₃.reviveProcess slot).pcb (slotAddress slot)).id) (slot + 1)
      rw [show (k₃.reviveProcess slot).insertCap cur .processObject (slotAddress slot) processRights _ = _ from hold]
        at hheader
      have hused : (k₄.commitSlot slot).used slot = true := Function.update_self _ _ _
      have hrevive : spaceCap ((k₃.reviveProcess slot).pcb (slot + 1)) = spaceCap (k₃.pcb (slot + 1)) := by
        simp [reviveProcess, modPcb, slotAddress, spaceCap]
      have hspace := (congrArg spaceCap hheader).trans hrevive
      have hhold := congrArg (processCap slot) hheader
      rw [show ((k₃.reviveProcess slot).tcb cur).process = _ from hproc] at hins
      have hmade : Follows (k.tcb cur).process (k.Makes (k₄.commitSlot slot) cur handle) k.ledger k₃.ledger := by
        refine hf.mono fun p i _ hm => ⟨slot, rest, free, hused, .inl ⟨hm.1, hm.2.1, ?_⟩⟩
        rw [hm.2.2, hm.1]
        exact hspace.symm
      refine ((hmade.loses hlose).put hins (.made ?_)).loses (.of_entry fun _ _ => rfl)
      exact ⟨slot, rest, free, hused, .inr ⟨rfl, rfl, hhold.symm⟩⟩

theorem SpawnOutcome.answer {parent : Nat} {grantCount : U64} {r : ProcStatus × Nat × State}
    (h : k.SpawnOutcome parent grantCount r) : (if r.1 = .ok then UInt64.ofNat r.2.1 else 0) = UInt64.ofNat r.2.1 := by
  cases h with
  | refused | unbuilt | unseated => exact ite_self _
  | seated _ _ _ _ ending =>
    cases ending with
    | ungranted | unheld => exact ite_self _
    | spawned => rfl

theorem handleSpawn_follows (h : k.Inv) (hrun : (k.tcb cur).state = .running) (f : TrapFrame) :
    Follows (k.tcb cur).process
      (k.Makes (k.handleSpawn cur f) cur ((k.handleSpawn cur f).tcb cur).savedA1.toNat)
      k.ledger (k.handleSpawn cur f).ledger := by
  unfold handleSpawn
  split
  · exact .of_loses (.of_entry fun _ _ => by simp)
  · dsimp only
    rename_i cap _
    have hinv := spawnBootImage_inv h hrun cap f.a1
    have hf := spawnBootImage_follows h hrun cap f.a1
    have hanswer := (spawnBootImage_outcome k cur cap f.a1).answer
    generalize k.spawnBootImage cur cap f.a1 = r at hinv hf hanswer ⊢
    rw [hanswer]
    simp only [ledger_setA0, ledger_setA1]
    refine hf.mono fun p i hv hm => ?_
    obtain ⟨slot, rest, free, used, hm⟩ := hm
    refine ⟨slot, rest, free, used, hm.imp_right fun ⟨hp, hi, he⟩ => ⟨hp, ?_, he⟩⟩
    -- a handle fits the register
    have hle := ((hinv.counted.table p).handle i hv).2
    have hlt : i < 2 ^ 64 := by
      unfold handleLast at hle
      omega
    simp only [setA1, setA0, modTcb, Function.update_self]
    rw [← hi, UInt64.toNat_ofNat_of_lt' hlt]

end State

/-! ## Steps and runs -/

/-- The system calls that derive, move or drop caps; none of them creates an object but spawn. -/
def Syscall.MovesCaps : Syscall → Prop
  | .capMint | .capDelete | .ipcCall | .ipcSend | .ipcRecv | .ipcReply | .spawn | .exit
  | .threadExit | .reapProcess => True
  | _ => False

/-- The call is one of those, or the step is none of user code's system calls. -/
def Action.MovesCaps : Action → Prop
  | .syscall call _ _ => call.MovesCaps
  | _ => True

namespace State

variable {k k' : State} {cur : Nat}

/-- The process whose caps a step may copy: the sender of the message that it delivers, else the
    process of the thread that makes the call. -/
def sender (k : State) : Action → Nat
  | .syscall .ipcRecv t f => k.receiveActor t f
  | .syscall _ t _ => (k.tcb t).process
  | _ => 0

/-- The entries that a step makes: those of a spawn, which answers its handle in `a1`. -/
def made (k k' : State) : Action → Nat → Nat → CapEntry → Prop
  | .syscall .spawn t _ => k.Makes k' t (k'.tcb t).savedA1.toNat
  | _ => fun _ _ _ => False

theorem receiveActor_le (h : k.Inv) (cur : Nat) (f : TrapFrame) : k.receiveActor cur f ≤ initProcess := by
  unfold receiveActor
  split
  · exact Nat.zero_le _
  · exact h.process_le _

theorem follows_of_steps {actor : Nat} {target : Nat → Prop} (ha : actor ≤ initProcess)
    (hs : k.ledger.CapSteps actor target k'.ledger) :
    Follows actor (fun _ _ _ => False) k.ledger k'.ledger :=
  Follows.steps (.of_loses (.of_entry fun _ _ => rfl)) (fun _ _ => id) ha hs

/-- **Every entry after a step has a source.** -/
theorem step_follows {a : Action} (h : k.Inv) (ha : a.MovesCaps) (hs : k.step a = some k') :
    Follows (k.sender a) (k.made k' a) k.ledger k'.ledger := by
  have hnone : ∀ {actor : Nat} {made : Nat → Nat → CapEntry → Prop} {L L' : Ledger},
      Follows actor (fun _ _ _ => False) L L' → Follows actor made L L' :=
    fun hf => hf.mono fun _ _ _ hm => hm.elim
  cases step_cases hs with
  | @syscall call t f ht hrun =>
    cases call with
    | capMint => exact hnone (follows_of_steps (h.process_le t) (handleCapMint_steps h hrun f))
    | capDelete =>
      exact .of_loses (handleCapDelete_steps 0 (fun _ => False) h ht f).loses
    | ipcCall => exact hnone (follows_of_steps (h.process_le t) (handleIpcCall_steps h hrun f))
    | ipcSend => exact hnone (follows_of_steps (h.process_le t) (handleIpcSend_steps h hrun f))
    | ipcRecv =>
      exact hnone (follows_of_steps (receiveActor_le h t f) (handleIpcRecv_steps h ht hrun f))
    | ipcReply => exact hnone (follows_of_steps (h.process_le t) (handleIpcReply_steps t h f))
    | spawn => exact handleSpawn_follows h hrun f
    | exit => exact .of_loses (handleExit_loses k t f)
    | threadExit => exact .of_loses (handleThreadExit_loses k t)
    | reapProcess =>
      show Follows _ _ _ (k.handleReapProcess t f).ledger
      unfold handleReapProcess
      split
      · exact .of_loses (.of_entry fun _ _ => by simp)
      · dsimp only
        exact .of_loses (reapProcess_loses k t _)
    | _ => exact ha.elim
  | failEndpoint o => exact .of_loses (.of_entry fun _ _ => by rw [ledger_failEndpoint])
  | _ => exact .of_loses (.of_entry fun _ _ => rfl)

/-- Init gives a new process the receiving end of an endpoint and calls it. -/
def callScript : List Action :=
  [ .syscall .epCreate initThread ⟨0, 0, 0, 0, 0, 0⟩,
    .userWrite imageMachine.ipcBuffer (grantPage 4 32),
    .syscall .spawn initThread ⟨1, 1, 0, 0, 0, 0⟩,
    .dispatch 1,
    .syscall .ipcRecv 1 ⟨1, 0, 0, 0, 0, 0⟩,
    .syscall .ipcCall initThread ⟨4, 0, 0, 0, 0, 0⟩ ]

def callRun : Run step 6 :=
  Run.ofList step (boot imageMachine) (.dispatch 0) callScript (by decide +kernel)

theorem valid_lt_of_pages {k : State} {p : Nat} (h : k.Inv)
    (hpages : ∀ page, page < tablePages → 2 ≤ page → (k.pcb p).caps.root page = 0) {i : Nat}
    (hv : (k.ledger.entry p i).valid = true) : i < 256 := by
  by_contra hi
  have hle : i ≤ handleLast := ((h.counted.table p).handle i hv).2
  have hpage : CapTable.pageNo i < tablePages ∧ 2 ≤ CapTable.pageNo i := by
    unfold CapTable.pageNo tablePages capsPerPage
    unfold handleLast at hle
    omega
  have hget : k.ledger.entry p i = nullCap := by
    show (k.pcb p).caps.get i = nullCap
    unfold CapTable.get
    rw [if_pos (hpages _ hpage.1 hpage.2)]
  rw [hget] at hv
  cases hv

end State

end Aegir.Kernel
