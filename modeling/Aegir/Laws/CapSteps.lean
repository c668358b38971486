/-
  What the operations on cap tables can do, said once.

  On the ledger an operation is a sequence of steps: an entry is INSERTED (and retained), an entry is REMOVED
  (and released), or something changes that the cap law does not see (a FRAME step).  An insert records the
  ORIGIN of the entry: a copy of one that the acting process holds, a reply cap, or the cap on what was just
  made.  `CapSteps actor target` takes copies from `actor` and inserts only into processes of `target`.
-/
import Aegir.Laws.Counted

namespace Aegir.Kernel

open Aegir.Arch

/-- The slots and lifecycle states of processes and threads. -/
structure Life where
  process : Nat → Nat
  dead : Nat → Bool
  procState : Nat → ProcessState
  used : Nat → Bool
  threadUsed : Nat → Bool
  processThreadCount : Nat → Nat
  freeSlots : List Nat
  threadFreeSlots : List Nat
  threadSlotGeneration : Nat → Nat

namespace Ledger

def life (L : Ledger) : Life where
  process := L.process
  dead := L.dead
  procState := L.procState
  used := L.used
  threadUsed := L.threadUsed
  processThreadCount := L.processThreadCount
  freeSlots := L.freeSlots
  threadFreeSlots := L.threadFreeSlots
  threadSlotGeneration := L.threadSlotGeneration

/-- `e` was put at the free handle `h` of `p` and retained. -/
def Inserted (L L' : Ledger) (p h : Nat) (e : CapEntry) : Prop :=
  ∃ t pmm, L' = (L.setCaps p t pmm).retain e ∧ t.Wf ∧ pmm.Wf ∧
    t.get = Function.update (L.caps p).get h e ∧ h ≤ handleLast ∧
    (L.entry p h).valid = false ∧ e.valid = true

/-- The entry at `h` of `p` was released and nulled. -/
def Removed (L L' : Ledger) (p h : Nat) : Prop :=
  ∃ t pmm, L' = (L.release (L.entry p h)).setCaps p t pmm ∧ t.Wf ∧ pmm.Wf ∧
    t.get = Function.update (L.caps p).get h nullCap ∧ (L.entry p h).valid = true

/-- Nothing changed that the cap law sees. -/
structure SameCaps (L L' : Ledger) : Prop where
  get : ∀ p, (L'.caps p).get = (L.caps p).get
  table : ∀ p, (L'.caps p).Wf
  pmm : L'.pmm.Wf
  count : L'.count = L.count
  slab : L'.slab = L.slab
  life : L'.life = L.life

/-- The kernel as the one who acts: above all processes. -/
def kernelActor : Nat := initProcess + 1

/-- Where an entry may come from.  Only the kernel itself makes entries. -/
inductive Origin (L : Ledger) (actor : Nat) (e : CapEntry) : Prop
  | copy (h : Nat) (valid : (L.entry actor h).valid = true) (kind : (L.entry actor h).kind = e.kind)
      (object : (L.entry actor h).object = e.object) (not_reply : e.kind ≠ .replyObject)
      (rights : hasRights (L.entry actor h).rights e.rights = true)
  | reply (kind : e.kind = .replyObject) (rights : e.rights = noRights)
  | made (kind : e.kind = .processObject ∨ e.kind = .addressSpaceObject ∨ e.kind = .threadObject)
      (kernel : actor = kernelActor)

/-- Sequences of cap steps. -/
inductive CapSteps (actor : Nat) (target : Nat → Prop) : Ledger → Ledger → Prop
  | refl (L : Ledger) : CapSteps actor target L L
  | frame {L L' L'' : Ledger} (prior : CapSteps actor target L L') (same : SameCaps L' L'') :
      CapSteps actor target L L''
  | insert {L L' L'' : Ledger} {p h : Nat} {e : CapEntry} (prior : CapSteps actor target L L')
      (dest : target p) (origin : Origin L' actor e) (put : Inserted L' L'' p h e) :
      CapSteps actor target L L''
  | remove {L L' L'' : Ledger} {p h : Nat} (prior : CapSteps actor target L L')
      (take : Removed L' L'' p h) : CapSteps actor target L L''

/-! ## Single steps -/

variable {e : CapEntry} {h p : Nat} {fresh : Option (Pool × Nat)}

theorem Inserted.entry {L L' : Ledger} (hi : Inserted L L' p h e)
    (q i : Nat) : L'.entry q i = if q = p ∧ i = h then e else L.entry q i := by
  obtain ⟨t, pmm, rfl, -, -, hget, -⟩ := hi
  rw [retain_entry]
  exact entry_setCaps L pmm hget q i

theorem Removed.entry {L L' : Ledger} (hr : Removed L L' p h) (q i : Nat) :
    L'.entry q i = if q = p ∧ i = h then nullCap else L.entry q i := by
  obtain ⟨t, pmm, rfl, -, -, hget, -⟩ := hr
  rw [entry_setCaps _ pmm (by rw [release_caps]; exact hget), release_entry]

theorem SameCaps.entry {L L' : Ledger} (hs : SameCaps L L') (q i : Nat) :
    L'.entry q i = L.entry q i := congrFun (hs.get q) i

theorem retain_life (L : Ledger) (e : CapEntry) : (L.retain e).life = L.life := by
  rw [retain_eq]
  rfl

theorem release_life (L : Ledger) (e : CapEntry) : (L.release e).life = L.life := by
  unfold release
  cases e.kind.pool with
  | none => rfl
  | some P =>
    show (L.dropRef P e.object).life = L.life
    unfold dropRef
    split
    · cases P <;> rfl
    · rfl

theorem Inserted.life {L L' : Ledger} (hi : Inserted L L' p h e) : L'.life = L.life := by
  obtain ⟨t, pmm, rfl, -⟩ := hi
  exact retain_life _ _

theorem Removed.life {L L' : Ledger} (hr : Removed L L' p h) : L'.life = L.life := by
  obtain ⟨t, pmm, rfl, -⟩ := hr
  exact release_life L _

theorem SameCaps.counted {L L' : Ledger} (hs : SameCaps L L') (hL : L.Counted fresh) : L'.Counted fresh := by
  have hentry : L'.entry = L.entry := by
    funext q i
    exact hs.entry q i
  have hrefs : L'.refs = L.refs := by
    funext P o
    unfold refs
    rw [hentry]
  refine ⟨hs.pmm, hs.table, ?_, ?_, ?_, ?_, ?_, ?_, ?_, ?_⟩
  · rw [hentry]; exact hL.place
  · rw [hentry, hs.slab]; exact hL.slot
  · rw [hs.slab]; exact hL.free_nodup
  · rw [hs.slab]; exact hL.free_range
  · rw [hs.slab, hs.count, hrefs]; exact hL.count
  · rw [hs.slab, hrefs]; exact hL.free
  · rw [hs.slab, hrefs]; exact hL.fresh_unref
  · rw [hs.slab, hs.count]; exact hL.uncarved

theorem Origin.referenced {L : Ledger} {actor : Nat}
    (ho : Origin L actor e) (hL : L.Counted fresh) (P : Pool) (hP : e.kind.pool = some P) :
    1 ≤ e.object ∧ e.object ≤ (L.slab P).carved ∧ 0 < L.refs P e.object := by
  cases ho with
  | copy h valid kind object not_reply rights =>
    rw [← kind] at hP
    obtain ⟨h1, h2⟩ := hL.slot actor h P valid hP
    have h3 := hL.refs_pos valid hP
    rw [object] at h1 h2 h3
    exact ⟨h1, h2, h3⟩
  | reply kind rights => rw [kind] at hP; cases hP
  | made kind _ => rcases kind with kind | kind | kind <;> rw [kind] at hP <;> cases hP

theorem Inserted.counted {L L' : Ledger} {actor : Nat} (hi : Inserted L L' p h e) (hL : L.Counted fresh) (hp : p ≤ initProcess)
    (ho : Origin L actor e) : L'.Counted fresh := by
  obtain ⟨t, pmm, rfl, ht, hpmm, hget, hh, hnull, hv⟩ := hi
  have hobj := ho.referenced hL
  have hclear : clear fresh e = fresh := by
    -- the object is referred to, so it is not the fresh one
    unfold clear
    split
    · rename_i hf
      cases hk : e.kind.pool with
      | none => rw [hf, hk]; rfl
      | some P =>
        rw [hk] at hf
        have h0 := (hL.fresh_unref P e.object hf).2.2
        have := (hobj P hk).2.2
        omega
    · rfl
  have := hL.insert hp hh hnull ht hget hpmm hv fun P hP =>
    ⟨(hobj P hP).1, (hobj P hP).2.1, .inl (hobj P hP).2.2⟩
  rw [hclear] at this
  exact this

theorem Removed.counted {L L' : Ledger} (hr : Removed L L' p h) (hL : L.Counted fresh) : L'.Counted fresh := by
  obtain ⟨t, pmm, rfl, ht, hpmm, hget, hv⟩ := hr
  exact hL.remove hv ht hget hpmm

/-! ## Sequences -/

namespace CapSteps

variable {actor : Nat} {target : Nat → Prop} {L L' L'' : Ledger}

theorem trans (h : CapSteps actor target L L') (h' : CapSteps actor target L' L'') :
    CapSteps actor target L L'' := by
  induction h' with
  | refl => exact h
  | frame _ same ih => exact .frame ih same
  | insert _ dest origin put ih => exact .insert ih dest origin put
  | remove _ take ih => exact .remove ih take

theorem mono {target' : Nat → Prop} (h : CapSteps actor target L L')
    (hsub : ∀ p, target p → target' p) : CapSteps actor target' L L' := by
  induction h with
  | refl => exact .refl _
  | frame _ same ih => exact .frame ih same
  | insert _ dest origin put ih => exact .insert ih (hsub _ dest) origin put
  | remove _ take ih => exact .remove ih take

theorem life (h : CapSteps actor target L L') : L'.life = L.life := by
  induction h with
  | refl => rfl
  | frame _ same ih => exact same.life.trans ih
  | insert _ _ _ put ih => exact put.life.trans ih
  | remove _ take ih => exact take.life.trans ih

/-- **Cap steps keep the reference-count law.** -/
theorem counted (h : CapSteps actor target L L')
    (htarget : ∀ p, target p → p ≤ initProcess) (hL : L.Counted fresh) : L'.Counted fresh := by
  induction h with
  | refl => exact hL
  | frame _ same ih => exact same.counted ih
  | insert _ dest origin put ih => exact put.counted ih (htarget _ dest) origin
  | remove _ take ih => exact take.counted ih

theorem entry_untouched (h : CapSteps actor target L L') (hp : ¬ target p) (i : Nat)
    (hv : (L'.entry p i).valid = true) : L'.entry p i = L.entry p i := by
  induction h with
  | refl => rfl
  | frame _ same ih =>
    rw [same.entry] at hv ⊢
    exact ih hv
  | @insert _ _ q j _ _ dest _ put ih =>
    have hne : ¬ (p = q ∧ i = j) := fun hh => hp (hh.1 ▸ dest)
    rw [put.entry, if_neg hne] at hv ⊢
    exact ih hv
  | remove _ take ih =>
    rw [take.entry] at hv ⊢
    split at hv
    · cases hv
    · rename_i hne
      rw [if_neg hne]
      exact ih hv

theorem entry_invalid {i : Nat} (h : CapSteps actor (fun _ => False) L L')
    (hv : (L.entry p i).valid = false) : (L'.entry p i).valid = false := by
  by_contra hv'
  rw [Bool.not_eq_false] at hv'
  rw [h.entry_untouched id i hv', hv] at hv'
  cases hv'

end CapSteps

end Ledger

end Aegir.Kernel
