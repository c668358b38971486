/-
  What spawn, thread creation and reap can end in, one constructor per outcome.

  As for IPC, the case analysis is made once: an outcome names the states that the operation went
  through, and every law about slots is proved per outcome.
-/
import Aegir.Laws.Paging

namespace Aegir.Kernel

open Aegir.Arch

namespace State

variable (k : State) (parent slot : Nat)

/-! ## Spawn -/

/-- The new process's first thread. -/
def seatThread (slot buffer stack : Nat) : State :=
  k.initializeSlotThread slot (slot + 4) (slotAddress slot) buffer ipcBufferVA (stack + pageSize)

/-- The new process is alive. -/
def reviveProcess : State :=
  k.modPcb (slotAddress slot) fun p => { p with state := .alive }

/-- The parent's cap on the new process. -/
def insertProcessHandle : Except CapStatus Nat × State :=
  k.insertCap parent .processObject (slotAddress slot) processRights
    (UInt64.ofNat (k.pcb (slotAddress slot)).id)

/-- The slot and the address space of a spawn that failed are given back. -/
def undoSpawn (slot root : Nat) (closeAll : Bool) : State :=
  (k.discardSlot slot closeAll).destroyAddressSpace root

/-- How a spawn ends whose thread has its slot: `k₃` has tried the grants, with status `s`. -/
inductive SeatedOutcome (k₃ : State) (parent slot root : Nat) : ProcStatus → ProcStatus × Nat × State → Prop
  | ungranted {s : ProcStatus} (bad : s ≠ .ok) :
      SeatedOutcome k₃ parent slot root s (s, 0, k₃.undoSpawn slot root true)
  | unheld {e : CapStatus} {k₄ : State}
      (hold : (k₃.reviveProcess slot).insertProcessHandle parent slot = (.error e, k₄)) :
      SeatedOutcome k₃ parent slot root .ok (.capFailed, 0, k₄.undoSpawn slot root true)
  | spawned {cap : Nat} {k₄ : State}
      (hold : (k₃.reviveProcess slot).insertProcessHandle parent slot = (.ok cap, k₄)) :
      SeatedOutcome k₃ parent slot root .ok (.ok, cap, k₄.commitSlot slot)

/-- How a spawn ends. -/
inductive SpawnOutcome (k : State) (parent : Nat) (grantCount : U64) : ProcStatus × Nat × State → Prop
  | refused {s : ProcStatus} (bad : s ≠ .ok) : SpawnOutcome k parent grantCount (s, 0, k)
  | unbuilt {image : ImageSource} {size : Nat} {k₁ : State}
      (build : k.buildAddressSpace image size = (none, k₁)) :
      SpawnOutcome k parent grantCount (.loadFailed, 0, k₁)
  | unseated {image : ImageSource} {size slot root buffer stack : Nat} {rest : List Nat}
      {s : CapStatus} {k₁ k₂ : State} (free : k.freeSlots = slot :: rest)
      (build : k.buildAddressSpace image size = (some (root, buffer, stack), k₁))
      (init : k₁.initializeSlotProcess parent slot root = (s, k₂)) (bad : s ≠ .ok) :
      SpawnOutcome k parent grantCount (.capFailed, 0, k₂.undoSpawn slot root false)
  | seated {image : ImageSource} {size slot root buffer stack : Nat} {rest : List Nat}
      {s : ProcStatus} {k₁ k₂ k₃ : State} {r : ProcStatus × Nat × State} (free : k.freeSlots = slot :: rest)
      (build : k.buildAddressSpace image size = (some (root, buffer, stack), k₁))
      (init : k₁.initializeSlotProcess parent slot root = (.ok, k₂))
      (grant : (k₂.seatThread slot buffer stack).grantListCaps parent (slotAddress slot) grantCount =
        (s, k₃)) (ending : k₃.SeatedOutcome parent slot root s r) : SpawnOutcome k parent grantCount r

theorem spawnImage_outcome (image : ImageSource) (size : Nat)
    (grantCount : U64) : k.SpawnOutcome parent grantCount (k.spawnImage parent image size grantCount) := by
  unfold spawnImage
  split
  · exact .refused (by simp)
  · rename_i slot rest hfree
    split
    · rename_i hbuild
      exact .unbuilt hbuild
    · rename_i root buffer stack k₁ hbuild
      split
      · rename_i k₂ hinit
        dsimp only
        split
        · rename_i k₄ hgrant
          refine .seated hfree hbuild hinit hgrant ?_
          split
          · rename_i hins
            exact .unheld hins
          · rename_i hins
            exact .spawned hins
        · rename_i s k₄ hne hgrant
          exact .seated hfree hbuild hinit hgrant (.ungranted hne)
      · rename_i s k₂ hne hinit
        exact .unseated hfree hbuild hinit hne

/-- **`Spawn_Boot_Image`** ends in one of the outcomes. -/
theorem spawnBootImage_outcome (parent cap : Nat) (grantCount : U64) :
    k.SpawnOutcome parent grantCount (k.spawnBootImage parent cap grantCount) := by
  unfold spawnBootImage
  split
  · exact .refused (by simp)
  · split
    · exact .refused (by simp)
    · split
      · dsimp only
        split
        · exact .refused (by simp)
        · exact spawnImage_outcome _ _ _ _ _
      · split
        · exact .refused (by simp)
        · exact spawnImage_outcome _ _ _ _ _

/-! ## Thread creation -/

/-- The secondary thread slot at the head of the free list is taken. -/
def reserveThread (rest : List Nat) : State :=
  { k with threadFreeSlots := rest, threadUsed := Function.update k.threadUsed slot true }

/-- One more thread of the caller's process. -/
def countThread (cur : Nat) : State :=
  let owner := (k.tcb cur).process - 1
  { k with
    processThreadCount :=
      Function.update k.processThreadCount owner (k.processThreadCount owner + 1) }

/-- How a thread creation ends whose control block is filled: `k₃` has tried to insert the cap. -/
inductive InstallOutcome (k₃ : State) (cur slot stack : Nat) :
    Except CapStatus Nat → ProcStatus × Nat × State → Prop
  | unheld {s : ProcStatus} {e : CapStatus} {k₄ : State} (bad : s ≠ .ok) (after : Paged k₃ k₄) :
      InstallOutcome k₃ cur slot stack (.error e) (s, 0, k₄.abandonThread slot stack)
  | created {cap : Nat} : InstallOutcome k₃ cur slot stack (.ok cap) (.ok, cap, k₃.countThread cur)

/-- How a thread creation ends.  The page-table work before and after the slot is taken is `Paged`. -/
inductive ThreadOutcome (k : State) (cur : Nat) : ProcStatus × Nat × State → Prop
  | refused {s : ProcStatus} (bad : s ≠ .ok) : ThreadOutcome k cur (s, 0, k)
  | halted {s : ProcStatus} (bad : s ≠ .ok) : ThreadOutcome k cur (s, 0, k.halt)
  | unmapped {s : ProcStatus} {k₁ : State} (bad : s ≠ .ok) (paged : Paged k k₁) :
      ThreadOutcome k cur (s, 0, k₁)
  | abandoned {s : ProcStatus} {slot stack : Nat} {rest : List Nat} {k₁ k₂ : State} (bad : s ≠ .ok)
      (before : Paged k k₁) (free : k₁.threadFreeSlots = slot :: rest)
      (after : Paged (k₁.reserveThread slot rest) k₂) :
      ThreadOutcome k cur (s, 0, k₂.abandonThread slot stack)
  | installed {slot stack object : Nat} {ipcVA : U64} {priority : Int} {rest : List Nat}
      {c : Except CapStatus Nat} {k₁ k₂ k₃ : State} {r : ProcStatus × Nat × State}
      (home : inProcessTable (k.tcb cur).process = true) (before : Paged k k₁)
      (free : k₁.threadFreeSlots = slot :: rest) (mapped : Paged (k₁.reserveThread slot rest) k₂)
      (install : k₂.installThread cur slot stack object ipcVA priority = (c, k₃))
      (ending : k₃.InstallOutcome cur slot stack c r) : ThreadOutcome k cur r

theorem buildThread_outcome (cur stackObject ipcObject : Nat)
    (stackVA stackPages ipcVA : U64) (priority : Int) (home : inProcessTable (k.tcb cur).process = true) :
    k.ThreadOutcome cur (k.buildThread cur stackObject ipcObject stackVA stackPages ipcVA priority) := by
  unfold buildThread
  dsimp only
  split
  · rename_i p halloc
    exact .unmapped (by simp) (allocate_paged halloc)
  · rename_i stack p halloc
    have hp0 := allocate_paged halloc
    have hp1 := mapPage_paged { k with pmm := p } (k.addressSpaceRoot cur) (physToVirt stack) stack kernelRW false
    split
    · rename_i k₁ hmap
      rw [hmap] at hp1
      have hp1 := hp0.trans hp1
      split
      · exact .unmapped (by simp) (hp1.trans (deallocate_paged _ _))
      · rename_i slot rest hfree
        have hp2 := mapObjectStack_paged (k.addressSpaceRoot cur) stackObject stackVA stackPages
          stackPages.toNat 0 (k₁.reserveThread slot rest)
        split
        · rename_i page k₃ hstack
          change (k₁.reserveThread slot rest).mapObjectStack _ _ _ _ _ _ = _ at hstack
          rw [hstack] at hp2
          exact .abandoned (by simp) hp1 hfree (hp2.trans (undoStackMap_paged _ _ _ _ _))
        · rename_i k₃ hstack
          change (k₁.reserveThread slot rest).mapObjectStack _ _ _ _ _ _ = _ at hstack
          rw [hstack] at hp2
          have hp3 := mapPage_paged k₃ (k.addressSpaceRoot cur) ipcVA.toNat (k₃.frameAt ipcObject 0) userRW false
          split
          · rename_i k₄ hipc
            rw [hipc] at hp3
            split
            · rename_i cap k5 hinst
              exact .installed home hp1 hfree (hp2.trans hp3) hinst .created
            · rename_i e k5 hinst
              exact .installed home hp1 hfree (hp2.trans hp3) hinst
                (.unheld (by simp) ((unmapBorrowedPage_paged _ _ _).trans (undoStackMap_paged _ _ _ _ _)))
          · rename_i k₄ _ hipc
            rw [hipc] at hp3
            exact .abandoned (by simp) hp1 hfree ((hp2.trans hp3).trans (undoStackMap_paged _ _ _ _ _))
    · rename_i k₁ _ hmap
      rw [hmap] at hp1
      exact .unmapped (by simp) ((hp0.trans hp1).trans (deallocate_paged _ _))

/-- **`Thread_Create`** ends in one of the outcomes. -/
theorem threadCreate_outcome (cur : Nat) : k.ThreadOutcome cur (k.threadCreate cur) := by
  unfold threadCreate
  dsimp only
  split
  · exact .refused (by simp)
  · split
    · exact .refused (by simp)
    · rename_i hin
      rw [Bool.not_eq_false] at hin
      split
      · exact .refused (by simp)
      · split
        · exact .halted (by simp)
        · split
          · exact .refused (by simp)
          · split
            · exact .refused (by simp)
            · split
              · exact .refused (by simp)
              · split
                · exact .refused (by simp)
                · split
                  · exact .refused (by simp)
                  · split
                    · exact .refused (by simp)
                    · exact buildThread_outcome _ _ _ _ _ _ _ _ hin

/-! ## Reap -/

/-- The process's caps are closed and its address space is gone. -/
def reclaim (process : Nat) : State :=
  let k₁ := k.cleanupCapRefs process
  (k₁.destroyAddressSpace (k₁.pcb process).root).modPcb process fun p => { p with root := 0 }

/-- How a reap ends. -/
inductive ReapOutcome (k : State) (parent cap : Nat) : ProcStatus × U64 × State → Prop
  | refused {s : ProcStatus} (bad : s ≠ .ok) : ReapOutcome k parent cap (s, 0, k)
  | unclosed {code : U64} {s : CapStatus} {k₁ : State} (close : k.closeCap parent cap false = (s, k₁))
      (bad : s ≠ .ok) : ReapOutcome k parent cap (.capFailed, code, k₁)
  | reaped {e : CapEntry} {slot : Nat} {k₁ : State} (look : k.lookupCap parent cap = some e)
      (kind : e.kind = .processObject) (object : e.object = slot + 1) (slot_lt : slot < maxProcessSlots)
      (used : k.used slot = true) (dead : (k.pcb (slot + 1)).state = .dead)
      (gone : (k.tcb (slot + 1)).state = .dead) (close : k.closeCap parent cap false = (.ok, k₁)) :
      ReapOutcome k parent cap (.ok, (k.pcb (slot + 1)).exitCode,
        (k₁.reclaim (slot + 1)).discardSlot slot false)

/-- **`Reap_Process`** ends in one of the outcomes. -/
theorem reapProcess_outcome (parent cap : Nat) :
    k.ReapOutcome parent cap (k.reapProcess parent cap) := by
  unfold reapProcess
  split
  · exact .refused (by simp)
  · rename_i e hlook
    split
    · exact .refused (by simp)
    · rename_i hkind
      rw [not_or, not_not] at hkind
      split
      · exact .refused (by simp)
      · rename_i htable
        rw [not_or, Bool.not_eq_false, Bool.not_eq_false] at htable
        split
        · exact .refused (by simp)
        · rename_i hdead
          rw [not_or, not_not, not_not] at hdead
          have hin := htable.1
          simp only [inProcessTable, Bool.and_eq_true, bne_iff_ne, ne_eq, decide_eq_true_eq] at hin
          obtain ⟨slot, hslot⟩ : ∃ slot, e.object = slot + 1 := ⟨e.object - 1, by omega⟩
          rw [hslot] at hin htable hdead ⊢
          split
          · rename_i k₁ hclose
            exact .reaped hlook hkind.1 hslot (by omega) htable.2 hdead.1 hdead.2 hclose
          · rename_i s k₁ hne hclose
            exact .unclosed hclose hne

end State

end Aegir.Kernel
