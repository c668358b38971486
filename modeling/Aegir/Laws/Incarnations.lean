/-
  INCARNATIONS: the processes and threads that occupy a slot one after the other.

  A cap on a process or a thread holds the ADDRESS of a slot.  The slot is given away again after a
  reap or a thread exit, and nothing in `reap_process`, `set_priority` or `thread_wait` compares the
  generation of the cap with that of the slot.  What such a cap names is the incarnation it was made
  for as long as no slot is given away while a cap on it is still in some table; a copy that outlives
  its process names the next one.
-/
import Aegir.Laws.Lineage
import Aegir.Laws.Marks

namespace Aegir.Kernel

open Aegir.Arch Aegir.Lib Ledger Function

/-- The system calls that act through a cap on a process or a thread. -/
def Syscall.ActsThroughCap : Syscall → Prop
  | .reapProcess | .setPriority | .threadWait => True
  | _ => False

namespace State

variable {k k' : State}

/-! ## What the three operations touch -/

variable {o cap cur : Nat} {e : CapEntry}

/-- At most the occupant of slot `o - 1` is reaped, reprioritised or waited for. -/
structure Spares (o : Nat) (k k' : State) : Prop where
  used : ∀ s, s + 1 ≠ o → k'.used s = k.used s
  priority : ∀ t, t ≠ o → (k'.tcb t).priority = (k.tcb t).priority
  waits : ∀ t, (k'.tcb t).waitingFor = (k.tcb t).waitingFor ∨ (k'.tcb t).waitingFor = o

theorem Spares.of_marks (h : k'.marks = k.marks) : Spares o k k' where
  used := fun s _ => congrFun (congrArg Marks.used h) s
  priority := fun t _ => congrFun (congrArg Marks.priority h) t
  waits := fun t => .inl (congrFun (congrArg Marks.waitingFor h) t)

theorem Spares.keep {k'' : State} (h : Spares o k k') (hm : k''.marks = k'.marks) : Spares o k k'' where
  used := fun s hs => (congrFun (congrArg Marks.used hm) s).trans (h.used s hs)
  priority := fun t ht => (congrFun (congrArg Marks.priority hm) t).trans (h.priority t ht)
  waits := fun t => by
    rw [show (k''.tcb t).waitingFor = (k'.tcb t).waitingFor from
      congrFun (congrArg Marks.waitingFor hm) t]
    exact h.waits t

theorem marks_discardSlot (k : State) (slot : Nat) :
    (k.discardSlot slot false).marks = { k.marks with used := update k.used slot false } := by
  have hthread : (k.discardThread slot).marks = k.marks := by
    unfold discardThread
    dsimp only
    split
    · rw [marks_modTcb _ _ _ rfl rfl, marks_modTcb _ _ _ rfl rfl]
      rfl
    · rw [marks_modTcb _ _ _ rfl rfl]
  have hlast : ∀ j : State, ((j.resetProcessCaps (slot + 1)).discardProcess slot).marks =
      { j.marks with used := update j.used slot false } := fun _ => rfl
  have hused : (k.discardThread slot).used = k.used := congrArg Marks.used hthread
  refine (hlast (k.discardThread slot)).trans ?_
  rw [hthread, hused]

theorem reapProcess_spares (hlook : k.lookupCap cur cap = some e) :
    Spares e.object k (k.reapProcess cur cap).2.2 := by
  have hout := reapProcess_outcome k cur cap
  generalize k.reapProcess cur cap = r at hout ⊢
  cases hout with
  | refused => exact .of_marks rfl
  | unclosed close =>
    have h := marks_closeCap k cur cap false
    rw [close] at h
    exact .of_marks h
  | @reaped e' slot k₁ look _ object _ _ _ _ close =>
    obtain rfl : e' = e := Option.some.inj (look.symm.trans hlook)
    have h := marks_closeCap k cur cap false
    rw [close] at h
    have hclaim : (k₁.reclaim (slot + 1)).marks = k.marks := by
      refine Eq.trans ?_ ((marks_cleanupCapRefs k₁ (slot + 1)).trans h)
      exact marks_destroyAddressSpace _ _
    have hm := marks_discardSlot (k₁.reclaim (slot + 1)) slot
    rw [hclaim] at hm
    refine ⟨fun s hs => ?_, fun t _ => congrFun (congrArg Marks.priority hm) t, fun t =>
      .inl (congrFun (congrArg Marks.waitingFor hm) t)⟩
    refine (congrFun (congrArg Marks.used hm) s).trans ?_
    show update (k₁.reclaim (slot + 1)).used slot false s = k.used s
    rw [update_of_ne (by omega)]
    exact congrFun (congrArg Marks.used hclaim) s

theorem lookupCap_of_ledger (h : k'.ledger = k.ledger) (t cap : Nat) : k'.lookupCap t cap = k.lookupCap t cap := by
  unfold lookupCap capsOf
  rw [process_of_ledger_eq h, caps_of_ledger_eq h]

theorem threadWait_spares (hlook : k.lookupCap cur cap = some e) :
    Spares e.object k (k.threadWait cur cap).2 := by
  unfold threadWait
  rw [hlook]
  dsimp only
  split
  · exact .of_marks rfl
  · split
    · exact .of_marks rfl
    · split
      · exact .of_marks rfl
      · -- only the caller's own block says whom it waits for
        have hfirst : Spares e.object k (k.modTcb cur fun c =>
            { c with waitingFor := e.object, waitersNext := (k.tcb e.object).waitersHead }) := by
          refine ⟨fun _ _ => rfl, fun t _ => ?_, fun t => ?_⟩
          · by_cases ht : t = cur <;> simp [modTcb, ht]
          · by_cases ht : t = cur <;> simp [modTcb, ht]
        exact (hfirst.keep (marks_modTcb _ _ _ rfl rfl)).keep (marks_modTcb _ _ _ rfl rfl)

theorem setThreadPriority_spares (k : State) (o : Nat) (priority : Int) :
    Spares o k (k.setThreadPriority o priority).2 := by
  unfold setThreadPriority
  split
  · exact .of_marks rfl
  · refine ⟨fun _ _ => rfl, fun t ht => ?_, fun t => .inl ?_⟩
    · simp [modTcb, ht]
    · by_cases ht : t = o <;> simp [modTcb, ht]

/-- **The three operations** touch at most the slot that the cap names. -/
theorem handleSyscall_spares {f : TrapFrame} {call : Syscall}
    (hcall : call.ActsThroughCap) (hcap : decodeHandle f.a0 = some cap)
    (hlook : k.lookupCap cur cap = some e) : Spares e.object k (k.handleSyscall cur f call) := by
  have hlow : f.a0.toNat ≤ handleLast ∧ f.a0.toNat = cap := by
    unfold decodeHandle at hcap
    split at hcap
    · cases hcap
    · cases hcap
      omega
  cases call with
  | reapProcess =>
    show Spares _ _ (k.handleReapProcess cur f)
    unfold handleReapProcess
    rw [hcap]
    exact (reapProcess_spares hlook).keep (by rw [marks_setA0, marks_setA1])
  | threadWait =>
    show Spares _ _ (k.handleThreadWait cur f)
    unfold handleThreadWait
    rw [if_neg (by omega), hlow.2]
    have hlook' : (k.setA0 cur 0).lookupCap cur cap = some e :=
      (lookupCap_of_ledger (ledger_setA0 k cur 0) cur cap).trans hlook
    have hw := threadWait_spares hlook'
    exact
      ⟨fun s hs => hw.used s hs, fun t ht => (hw.priority t ht).trans
        (congrFun (congrArg Marks.priority (marks_setA0 k cur 0)) t), fun t => by
          rw [← show ((k.setA0 cur 0).tcb t).waitingFor = (k.tcb t).waitingFor from
            congrFun (congrArg Marks.waitingFor (marks_setA0 k cur 0)) t]
          exact hw.waits t⟩
  | setPriority =>
    have hne : f.a0 ≠ u64Last := by
      rintro hlast
      rw [hlast] at hlow
      exact absurd hlow.1 (by decide)
    apply handleSetPriority_ind (Q := Spares e.object k)
    · intro j v w hs
      exact hs.keep (by rw [marks_setA1, marks_setA0])
    · exact .of_marks rfl
    · intro hlast
      exact absurd hlast hne
    · intro cap' e' hcap' hlook'
      rw [hcap] at hcap'
      cases hcap'
      rw [hlook] at hlook'
      cases hlook'
      exact setThreadPriority_spares k e.object _
  | _ => exact hcall.elim

end State

/-! ## Chains of caps -/

open State

/-- The entry at handle `h` of process `p` in state `i` goes back to the step `j` that made a cap on
    its object: it was made there, or there was such an entry with the same kind and object one state
    earlier. -/
inductive Chain {n : Nat} (r : Run step n) : Nat → Nat → Nat → Nat → Prop
  | made {j p h : Nat} (valid : ((r.state (j + 1)).ledger.entry p h).valid = true)
      (seated : (r.state j).seated (r.action j) = some (((r.state (j + 1)).ledger.entry p h).kind,
        ((r.state (j + 1)).ledger.entry p h).object)) : Chain r j (j + 1) p h
  | passed {j i p h q g : Nat} (before : Chain r j i q g)
      (held : ((r.state i).ledger.entry q g).valid = true)
      (valid : ((r.state (i + 1)).ledger.entry p h).valid = true)
      (kind : ((r.state i).ledger.entry q g).kind = ((r.state (i + 1)).ledger.entry p h).kind)
      (object : ((r.state i).ledger.entry q g).object = ((r.state (i + 1)).ledger.entry p h).object) :
      Chain r j (i + 1) p h

namespace Chain

variable {n h i j p : Nat} {r : Run step n}

theorem seated_eq (hc : Chain r j i p h) : (r.state j).seated (r.action j) =
    some (((r.state i).ledger.entry p h).kind, ((r.state i).ledger.entry p h).object) := by
  induction hc with
  | made valid seated => exact seated
  | passed before held valid kind object ih => rw [ih, kind, object]

theorem lt (hc : Chain r j i p h) : j < i := by
  induction hc with
  | made => omega
  | passed _ _ _ _ _ ih => omega

theorem exists_of_task {c : BootConfig} (hboot : r.state 0 = boot c) (hi : i ≤ n)
    (hv : ((r.state i).ledger.entry p h).valid = true)
    (ht : ((r.state i).ledger.entry p h).kind.isTask = true) : ∃ j, Chain r j i p h := by
  induction i generalizing p h with
  | zero =>
    rw [hboot] at hv ht
    rw [boot_names c ⟨p, h, hv, rfl, rfl⟩] at ht
    cases ht
  | succ i ih =>
    rcases step_descends (r.step_eq i (by omega)) p h hv ht with ⟨q, g, hv', hkind, hobj⟩ | hm
    · obtain ⟨j, hc⟩ := ih (by omega) hv' (hkind ▸ ht)
      exact ⟨j, hc.passed hv' hv hkind hobj⟩
    · exact ⟨i, .made hv hm⟩

/-- As long as no slot is filled while a cap on it is held, the slot that a chain names was not filled
    again since its first cap was made. -/
theorem unseated (hc : Chain r j i p h)
    (hfresh : ∀ l, l < i → ∀ kind o, (r.state l).seated (r.action l) = some (kind, o) →
      ¬ (r.state l).ledger.Names kind o) :
    ∀ l, j < l → l < i → (r.state l).seated (r.action l) ≠
      some (((r.state i).ledger.entry p h).kind, ((r.state i).ledger.entry p h).object) := by
  induction hc with
  | made => omega
  | @passed i p h q g before held valid kind object ih =>
    intro l hjl hl hs
    rw [← kind, ← object] at hs
    rcases Nat.lt_succ_iff_lt_or_eq.mp hl with hlt | rfl
    · exact ih (fun l hl => hfresh l (by omega)) l hjl hlt hs
    · exact hfresh l (by omega) _ _ hs ⟨q, g, held, rfl, rfl⟩

end Chain

namespace State

/-- **Caps on processes and threads name one incarnation** in every run from boot in which no slot is
    filled while a cap on it is held: every such cap has a chain back to the step that made it, the
    slot it names was not filled again since, and an operation through it touches that slot only. -/
theorem task_caps_name_one_incarnation (c : BootConfig) {n : Nat} (r : Run step n)
    (hboot : r.state 0 = boot c)
    (hfresh : ∀ l, l < n → ∀ kind o, (r.state l).seated (r.action l) = some (kind, o) →
      ¬ (r.state l).ledger.Names kind o) :
    (∀ i, i ≤ n → ∀ p h, ((r.state i).ledger.entry p h).valid = true →
      ((r.state i).ledger.entry p h).kind.isTask = true →
      (∃ j, Chain r j i p h) ∧ ∀ j, Chain r j i p h → j < i ∧
        (r.state j).seated (r.action j) = some (((r.state i).ledger.entry p h).kind,
          ((r.state i).ledger.entry p h).object) ∧
        ∀ l, j < l → l < i → (r.state l).seated (r.action l) ≠
          some (((r.state i).ledger.entry p h).kind, ((r.state i).ledger.entry p h).object)) ∧
    (∀ i, i < n → ∀ call t f cap e, r.action i = .syscall call t f → call.ActsThroughCap →
      decodeHandle f.a0 = some cap → (r.state i).lookupCap t cap = some e →
      Spares e.object (r.state i) (r.state (i + 1))) := by
  constructor
  · intro i hi p h hv ht
    refine ⟨Chain.exists_of_task hboot hi hv ht, fun j hc => ⟨hc.lt, hc.seated_eq, ?_⟩⟩
    exact hc.unseated fun l hl => hfresh l (by omega)
  · intro i hi call t f cap e ha hcall hcap hlook
    have hs := r.step_eq i hi
    rw [ha] at hs
    unfold step at hs
    split at hs
    · cases hs
    · dsimp only at hs
      split at hs
      · rw [← Option.some.inj hs]
        exact handleSyscall_spares hcall hcap hlook
      · cases hs

/-- The parameters of a thread creation: one page of stack below `stackVA` from the object at handle 1,
    and an IPC buffer at `ipcVA` from the object at handle 2. -/
def threadPage (stackVA ipcVA : U64) : Page := fun w =>
  if w = 8 then stackVA
  else if w = 16 then 1
  else if w = 56 then 1
  else if w = 64 then 2
  else if w = 72 then ipcVA
  else 0

/-- Init spawns a process.  It creates a thread, which exits, creates another one, and waits for the
    first one through its cap. -/
def waitScript : List Action :=
  [.syscall .spawn initThread ⟨1, 0, 0, 0, 0, 0⟩,
   .dispatch 1,
   .syscall .memAlloc 1 ⟨1, 0, 0, 0, 0, 0⟩,
   .syscall .memAlloc 1 ⟨1, 0, 0, 0, 0, 0⟩,
   .userWrite 0x80547000 (threadPage 0x50001000 0x50002000),
   .syscall .threadCreate 1 ⟨0, 0, 0, 0, 0, 0⟩,
   .dispatch 129,
   .syscall .threadExit 129 ⟨0, 0, 0, 0, 0, 0⟩,
   .userWrite 0x80547000 (threadPage 0x50004000 0x50005000),
   .syscall .threadCreate 1 ⟨0, 0, 0, 0, 0, 0⟩,
   .syscall .threadWait 1 ⟨3, 0, 0, 0, 0, 0⟩]

def waitRun : Run step 11 :=
  Run.ofList step (boot imageMachine) (.dispatch 0) waitScript (by decide +kernel)

/-- Its first step. -/
def spawnRun : Run step 1 :=
  Run.ofList step (boot imageMachine) (.dispatch 0) (waitScript.take 1) (by decide +kernel)

/-- The spawn fills slot 0, on which nobody holds a cap; the cap that it makes has its chain. -/
theorem task_caps_name_one_incarnation_spawn :
    spawnRun.state 0 = boot imageMachine ∧
    (spawnRun.state 0).seated (spawnRun.action 0) = some (.processObject, 1) ∧
    ((spawnRun.state 1).ledger.entry initProcess 4).valid = true ∧
    ∃ j, Chain spawnRun j 1 initProcess 4 := by
  have hseat : (spawnRun.state 0).seated (spawnRun.action 0) = some (.processObject, 1) := by
    decide +kernel
  have hv : ((spawnRun.state 1).ledger.entry initProcess 4).valid = true := by decide +kernel
  refine ⟨rfl, hseat, hv, ((task_caps_name_one_incarnation imageMachine spawnRun rfl ?_).1 1
    (by decide) initProcess 4 hv (by decide +kernel)).1⟩
  intro l hl kind o hs hn
  obtain rfl : l = 0 := by omega
  rw [hseat] at hs
  cases hs
  cases boot_names imageMachine hn

/-- **A cap outlives its thread**: the cap at handle 3 was made for the thread that exited; a second
    thread got the slot, and the process that waits through the cap blocks on that one. -/
theorem wait_blocks_on_successor :
    waitRun.state 0 = boot imageMachine ∧ Chain waitRun 5 10 1 3 ∧
    ((waitRun.state 10).ledger.entry 1 3).kind = .threadObject ∧
    ((waitRun.state 10).ledger.entry 1 3).object = 129 ∧
    (waitRun.state 9).seated (waitRun.action 9) = some (.threadObject, 129) ∧
    waitRun.action 10 = .syscall .threadWait 1 ⟨3, 0, 0, 0, 0, 0⟩ ∧
    ((waitRun.state 11).tcb 1).state = .blockedThreadWait ∧
    ((waitRun.state 11).tcb 1).waitingFor = 129 := by
  have hheld : ∀ i, i ∈ [6, 7, 8, 9, 10] → (waitRun.state i).ledger.entry 1 3 =
      ⟨true, .threadObject, 129, threadCapRights, 1024⟩ := by decide +kernel
  have hend : ((waitRun.state 11).tcb 1).state = .blockedThreadWait ∧
      ((waitRun.state 11).tcb 1).waitingFor = 129 := by decide +kernel
  have hpass : ∀ i, i ∈ [6, 7, 8, 9, 10] → i + 1 ∈ [6, 7, 8, 9, 10] → Chain waitRun 5 i 1 3 →
      Chain waitRun 5 (i + 1) 1 3 := by
    intro i hi hi' hc
    refine hc.passed ?_ ?_ ?_ ?_
    · rw [hheld i hi]
    · rw [hheld (i + 1) hi']
    · rw [hheld i hi, hheld (i + 1) hi']
    · rw [hheld i hi, hheld (i + 1) hi']
  have hmade : Chain waitRun 5 6 1 3 := by
    refine .made (by rw [hheld 6 (by decide)]) ?_
    decide +kernel
  refine ⟨rfl, ?_, by rw [hheld 10 (by decide)], by rw [hheld 10 (by decide)], by decide +kernel, rfl,
    hend⟩
  exact hpass 9 (by decide) (by decide) (hpass 8 (by decide) (by decide)
    (hpass 7 (by decide) (by decide) (hpass 6 (by decide) (by decide) hmade)))

end State

end Aegir.Kernel
