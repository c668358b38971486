/-
  Nobody who waits for an interrupt is forgotten: who waits on which line.

  A thread that is asleep in `irq_wait` is the waiter of a line, and a line with a waiter has nothing in flight,
  so that the next delivery of the source wakes it.  Every operation keeps that, except three: an `irq_ack` of a
  line on which somebody sleeps, closing the last cap on such a line, and a wait on a source that the kernel
  handles itself.  The converse is NOT a law: a signal can wake a thread and leave it the waiter of its line.
-/
import Aegir.Laws.LineChains

namespace Aegir.Kernel

open Aegir.Lib

namespace State

variable {k k' k'' : State} {x x' o t : Nat} {kernelHandled : Nat → Bool}

/-! ## The law -/

/-- Nobody sleeps on the line. -/
def Quiet (k : State) (o : Nat) : Prop :=
  (k.device o).waiter = 0 ∨ (k.tcb (k.device o).waiter).state ≠ .blockedIrq

/-- **Who waits on a line.** -/
structure IrqLaw (kernelHandled : Nat → Bool) (x : Nat) (k : State) : Prop extends Chained x k where
  level : ∀ o, Line x k o → (k.device o).pending = (k.device o).inFlight
  flight : ∀ o, Line x k o → (k.device o).inFlight = true → (k.device o).waiter = 0
  waits : ∀ t, (k.tcb t).state = .blockedIrq → t ≠ 0 ∧
    ∃ o, Line x k o ∧ (k.device o).waiter = t ∧ kernelHandled (k.sourceOf o) = false

/-- The flags and the waiters of the lines are as they were. -/
def SameWaiters (x : Nat) (k k' : State) : Prop := ∀ o, Line x k o →
  (k'.device o).pending = (k.device o).pending ∧ (k'.device o).inFlight = (k.device o).inFlight ∧
    (k'.device o).waiter = (k.device o).waiter

theorem IrqLaw.same (h : IrqLaw kernelHandled x k) (hs : SameLines x k x' k') (hw : SameWaiters x k k')
    (hstate : ∀ t, (k'.tcb t).state = .blockedIrq → (k.tcb t).state = .blockedIrq)
    (hnodup : k'.deviceSlab.free.Nodup)
    (hrange : ∀ o ∈ k'.deviceSlab.free, 1 ≤ o ∧ o ≤ k'.deviceSlab.carved) : IrqLaw kernelHandled x' k' := by
  refine ⟨h.toChained.same hs hnodup hrange, fun o ho => ?_, fun o ho hf => ?_, fun t ht => ?_⟩
  · have ho := (hs.line o).mp ho
    obtain ⟨hp, hf, -⟩ := hw o ho
    rw [hp, hf]
    exact h.level o ho
  · have ho := (hs.line o).mp ho
    obtain ⟨-, hf', hw'⟩ := hw o ho
    rw [hf'] at hf
    rw [hw']
    exact h.flight o ho hf
  · obtain ⟨h0, o, ho, hwt, hsrc⟩ := h.waits t (hstate t ht)
    refine ⟨h0, o, (hs.line o).mpr ho, (hw o ho).2.2.trans hwt, ?_⟩
    rw [hs.source o ho]
    exact hsrc

theorem IrqLaw.elsewhere (h : IrqLaw kernelHandled x k) (he : Elsewhere k k') : IrqLaw kernelHandled x k' := by
  refine h.same (.of_shape x he.lines he.slab fun o => ?_) (fun o _ => ?_) he.state ?_ ?_
  · rw [he.device o]
    exact ⟨rfl, rfl, rfl⟩
  · rw [he.device o]
    exact ⟨rfl, rfl, rfl⟩
  · rw [he.slab]
    exact h.nodup
  · rw [he.slab]
    exact h.range

namespace Elsewhere

theorem of_eq (hd : k'.device = k.device) (hl : k'.lines = k.lines) (hs : k'.deviceSlab = k.deviceSlab)
    (ht : k'.tcb = k.tcb) : Elsewhere k k' := by
  refine ⟨fun o => ?_, hl, hs, fun t => by rw [ht]; exact id⟩
  rw [hd]

theorem refl (k : State) : Elsewhere k k := .of_eq rfl rfl rfl rfl

theorem trans (h : Elsewhere k k') (h' : Elsewhere k' k'') : Elsewhere k k'' := by
  refine ⟨fun o => ?_, h'.lines.trans h.lines, h'.slab.trans h.slab, fun t ht => h.state t (h'.state t ht)⟩
  rw [h'.device o, h.device o]

theorem modTcb (k : State) (t : Nat) (f : Tcb → Tcb)
    (hf : ((f (k.tcb t)).state = .blockedIrq → (k.tcb t).state = .blockedIrq)) : Elsewhere k (k.modTcb t f) := by
  refine ⟨fun o => rfl, rfl, rfl, fun u hu => ?_⟩
  by_cases hut : u = t
  · subst hut
    simp only [State.modTcb, Function.update_self] at hu
    exact hf hu
  · simpa [State.modTcb, hut] using hu

theorem setA0 (k : State) (t : Nat) (v : U64) : Elsewhere k (k.setA0 t v) := .modTcb k t _ id

theorem setCaps (k : State) (p : Nat) (caps : CapTable) (pmm : Pmm) : Elsewhere k (k.setCaps p caps pmm) :=
  .of_eq rfl rfl rfl rfl

theorem count (k : State) (o : Nat) (f : DeviceSlot → Nat) :
    Elsewhere k (k.modDevice o fun d => { d with count := f d }) := by
  refine ⟨fun q => ?_, rfl, rfl, fun _ => id⟩
  by_cases hq : q = o
  · subst hq
    rw [modDevice_self]
  · rw [modDevice_ne _ _ hq]

theorem law (h : Elsewhere k k') (hk : IrqLaw kernelHandled x k) : IrqLaw kernelHandled x k' := hk.elsewhere h

end Elsewhere

theorem retainCap_elsewhere (k : State) (e : CapEntry) : Elsewhere k (k.retainCap e) := by
  unfold retainCap retainEndpoint retainMemory retainNotification retainDevice
  split
  · exact .refl k
  · split
    case h_4 | h_5 => exact .count k _ fun d => d.count + 1
    all_goals first | exact .refl k | (split <;> exact .of_eq rfl rfl rfl rfl)

theorem insertProcessCapAt_elsewhere (k : State) (p cap : Nat) (kind : ObjectKind) (o : Nat) (rights : Rights)
    (badge : U64) : Elsewhere k (k.insertProcessCapAt p cap kind o rights badge).2 := by
  unfold insertProcessCapAt
  split <;> dsimp only
  · exact (Elsewhere.setCaps k p _ _).trans (retainCap_elsewhere _ _)
  · exact .setCaps k p _ _

theorem insertCap_elsewhere (k : State) (t : Nat) (kind : ObjectKind) (o : Nat) (rights : Rights) (badge : U64) :
    Elsewhere k (k.insertCap t kind o rights badge).2 :=
  insertCap_ind (.refl k) fun cap => insertProcessCapAt_elsewhere k _ cap kind o rights badge

/-! ## Slots come and go -/

theorem IrqLaw.fresh (h : IrqLaw kernelHandled 0 k) (hnew : ¬ k.Handed o)
    (hdev : ∀ q, q ≠ o → k'.device q = k.device q) (hlines : k'.lines = k.lines)
    (hhanded : ∀ q, k'.Handed q ↔ k.Handed q ∨ q = o) (hnodup : k'.deviceSlab.free.Nodup)
    (hrange : ∀ q ∈ k'.deviceSlab.free, 1 ≤ q ∧ q ≤ k'.deviceSlab.carved) (htcb : k'.tcb = k.tcb) :
    IrqLaw kernelHandled o k' := by
  have hne : ∀ q, Line 0 k q → q ≠ o := fun q hq e => hnew (e ▸ hq.1)
  have hline : ∀ q, Line o k' q ↔ Line 0 k q := by
    intro q
    constructor
    · rintro ⟨hq, hk, hqo⟩
      rw [hdev q hqo] at hk
      have hq := ((hhanded q).mp hq).resolve_right hqo
      have h1 := hq.1
      exact ⟨hq, hk, by omega⟩
    · intro hq
      refine ⟨(hhanded q).mpr (.inl hq.1), ?_, hne q hq⟩
      rw [hdev q (hne q hq)]
      exact hq.2.1
  refine h.same ⟨hlines, hline, fun q hq => ?_, fun q hq => ?_⟩ (fun q hq => ?_) (fun t ht => by rwa [htcb] at ht)
    hnodup hrange
  · unfold sourceOf
    rw [hdev q (hne q hq)]
  · rw [hdev q (hne q hq)]
  · rw [hdev q (hne q hq)]
    exact ⟨rfl, rfl, rfl⟩

theorem IrqLaw.other (h : IrqLaw kernelHandled o k) (hkind : (k.device o).kind ≠ .irq) : IrqLaw kernelHandled 0 k := by
  have hline : ∀ q, Line 0 k q ↔ Line o k q := by
    intro q
    constructor
    · rintro ⟨hq, hk, -⟩
      exact ⟨hq, hk, fun e => hkind (e ▸ hk)⟩
    · rintro ⟨hq, hk, -⟩
      have h1 := hq.1
      exact ⟨hq, hk, by omega⟩
  exact h.same ⟨rfl, hline, fun _ _ => rfl, fun _ _ => rfl⟩ (fun _ _ => ⟨rfl, rfl, rfl⟩) (fun _ ht => ht) h.nodup
    h.range

/-- **A new line** is nobody's. -/
theorem IrqLaw.withLine (h : IrqLaw kernelHandled o k) (ho : k.Handed o) (hkind : (k.device o).kind = .irq)
    (hsrc : k.sourceOf o < maxSources) : IrqLaw kernelHandled 0 (k.withLine o) := by
  have hcases : ∀ q, Line 0 (k.withLine o) q → q = o ∨ (q ≠ o ∧ Line o k q) := by
    intro q hq
    by_cases hqo : q = o
    · exact .inl hqo
    · exact .inr ⟨hqo, ((withLine_line ho hkind q).mp hq).resolve_right hqo⟩
  refine ⟨h.toChained.withLine ho hkind hsrc, fun q hq => ?_, fun q hq hf => ?_, fun t ht => ?_⟩
  · rcases hcases q hq with rfl | ⟨hqo, hq⟩
    · rw [withLine_self]
      rfl
    · rw [withLine_device k hqo]
      exact h.level q hq
  · rcases hcases q hq with rfl | ⟨hqo, hq⟩
    · rw [withLine_self]
      rfl
    · rw [withLine_device k hqo] at hf ⊢
      exact h.flight q hq hf
  · obtain ⟨h0, q, hq, hw⟩ := h.waits t ht
    refine ⟨h0, q, (withLine_line ho hkind q).mpr (.inl hq), ?_⟩
    rw [withLine_device k hq.2.2, withLine_source]
    exact hw

/-- **A slot goes back**: if it is a line, nobody may sleep on it. -/
theorem IrqLaw.finalize (h : IrqLaw kernelHandled 0 k) (ho : k.Handed o)
    (hquiet : (k.device o).kind = .irq → k.Quiet o) : IrqLaw kernelHandled 0 (k.finalizeDevice o) := by
  have h1 := ho.1
  unfold finalizeDevice
  split_ifs with hkind
  · have hline : Line 0 k o := ⟨ho, hkind, by omega⟩
    have hu := unregisterLine_unlinked h.toChained hline
    obtain ⟨hchained, hiff⟩ := hu.put h.toChained hline
    generalize k.unregisterLine o = k' at hu hchained hiff
    show IrqLaw kernelHandled 0 (k'.putDevice o)
    have htcb : (k'.putDevice o).tcb = k.tcb := by
      show k'.tcb = k.tcb
      rw [hu.same]
    have hdev : ∀ q, (k'.putDevice o).device q = { k.device q with next := (k'.device q).next } := hu.device
    have hsource : ∀ q, (k'.putDevice o).sourceOf q = k.sourceOf q := by
      intro q
      unfold sourceOf
      rw [hdev q]
    refine ⟨hchained, fun q hq => ?_, fun q hq hf => ?_, fun t ht => ?_⟩
    · rw [hdev q]
      exact h.level q ((hiff q).mp hq).1
    · rw [hdev q] at hf ⊢
      exact h.flight q ((hiff q).mp hq).1 hf
    · -- who sleeps does so on another line
      rw [htcb] at ht
      obtain ⟨h0, q, hq, hw, hsrc⟩ := h.waits t ht
      have hqo : q ≠ o := by
        rintro rfl
        rcases hquiet hkind with hz | hz
        · exact h0 (hw.symm.trans hz)
        · exact hz (hw ▸ ht)
      refine ⟨h0, q, (hiff q).mpr ⟨hq, hqo⟩, ?_, ?_⟩
      · rw [hdev q]
        exact hw
      · rw [hsource]
        exact hsrc
  · obtain ⟨hchained, hs⟩ := h.toChained.putOther ho (fun hl => hkind hl.2.1) (.inl rfl)
    exact h.same hs (fun _ _ => ⟨rfl, rfl, rfl⟩) (fun _ ht => ht) hchained.nodup hchained.range

/-- **`Release`**: the last reference to a line on which somebody sleeps may not go. -/
theorem IrqLaw.release (h : IrqLaw kernelHandled 0 k) (ho : k.Handed o)
    (hquiet : (k.device o).kind = .irq → (k.device o).count ≤ 1 → k.Quiet o) :
    IrqLaw kernelHandled 0 (k.releaseDevice o) := by
  unfold releaseDevice
  by_cases h0 : (k.device o).count = 0
  · rw [if_pos h0]
    exact h.finalize ho fun hkind => hquiet hkind (by omega)
  · rw [if_neg h0]
    dsimp only
    have hless := (Elsewhere.count k o fun d => d.count - 1).law h
    rw [modDevice_self]
    by_cases h1 : (k.device o).count - 1 = 0
    · rw [if_pos h1]
      refine hless.finalize ho fun hkind => ?_
      unfold Quiet
      rw [modDevice_self] at hkind ⊢
      exact hquiet hkind (by omega)
    · rw [if_neg h1]
      exact hless

/-! ## Creating devices -/

section

variable (h : IrqLaw kernelHandled 0 k)

include h

theorem allocateDevice_law (f : DeviceSlot → DeviceSlot) :
    k.allocateDevice.1 = 0 ∧ IrqLaw kernelHandled 0 k.allocateDevice.2 ∨
    k.allocateDevice.1 ≠ 0 ∧
      IrqLaw kernelHandled k.allocateDevice.1 (k.allocateDevice.2.modDevice k.allocateDevice.1 f) ∧
      (k.allocateDevice.2.modDevice k.allocateDevice.1 f).Handed k.allocateDevice.1 ∧
      (k.allocateDevice.2.device k.allocateDevice.1).count = 0 := by
  rcases allocateDevice_cases k h.nodup h.range with ⟨p, heq⟩ | ⟨o, p, slab, heq, h0, hnew, hnodup, hrange, hmem⟩
  · rw [heq]
    have hpmm : Elsewhere k { k with pmm := p } := .of_eq rfl rfl rfl rfl
    exact .inl ⟨rfl, hpmm.law h⟩
  · rw [heq]
    refine .inr ⟨h0, ?_, (hmem o).mpr (.inr rfl), ?_⟩
    · refine h.fresh hnew (fun q hq => ?_) rfl hmem hnodup hrange rfl
      rw [modDevice_ne _ _ hq]
      exact Function.update_of_ne hq _ _
    · show (Function.update k.device o _ o).count = 0
      rw [Function.update_self]

/-- **Granting a fresh device**: a cap on it, or the slot goes back. -/
theorem grantFresh_law (ho : k.Handed o)
    (hquiet : (k.device o).kind = .irq → (k.device o).waiter = 0) {kind : ObjectKind}
    (hkind : kind = .irqObject ∨ kind = .mmioObject) (rights : Rights) :
    IrqLaw kernelHandled 0 (grantFresh t kind rights releaseDevice (o, k)) := by
  have h1 := ho.1
  have hins := insertCap_elsewhere k t kind o rights 0
  unfold grantFresh
  rw [if_neg (by omega)]
  cases hr : k.insertCap t kind o rights 0 with
  | mk r k₁ =>
    rw [hr] at hins
    have hlaw := hins.law h
    cases r with
    | ok cap => exact (Elsewhere.setA0 _ _ _).law hlaw
    | error e =>
      refine (Elsewhere.setA0 _ _ _).law (hlaw.release ?_ fun hk _ => ?_)
      · unfold Handed
        rw [hins.slab]
        exact ho
      · refine .inl ?_
        rw [hins.device o] at hk ⊢
        exact hquiet hk

theorem grantLine_law (t : Nat) (source : U64) :
    IrqLaw kernelHandled 0 (k.grantLine t source) := by
  unfold grantLine createIrq
  rcases allocateDevice_law h (fun d => { d with
      kind := .irq, deviceId := noDevice, source := source, pending := false, inFlight := false
      waiter := 0, ntfn := 0, ntfnBadge := 0, next := 0 }) with ⟨h0, hlaw⟩ | ⟨hne, hlaw, hhanded, hcount⟩
  · rw [if_pos h0, if_pos h0]
    exact (Elsewhere.setA0 _ _ _).law hlaw
  · rw [if_neg hne, if_neg hne]
    generalize k.allocateDevice.1 = o at hne hlaw hhanded hcount ⊢
    have hself := modDevice_self k.allocateDevice.2 o fun d => { d with
      kind := .irq, deviceId := noDevice, source := source, pending := false, inFlight := false
      waiter := 0, ntfn := 0, ntfnBadge := 0, next := 0 }
    generalize k.allocateDevice.2.modDevice o _ = k₁ at hlaw hhanded hself ⊢
    have hkind : (k₁.device o).kind = .irq := by rw [hself]
    have hcount : (k₁.device o).count = 0 := by
      rw [hself]
      exact hcount
    rcases registerLine_cases hlaw.toChained with ⟨hsrc, hreg⟩ | ⟨hsrc, hreg⟩
    · -- the source is out of range: the slot goes back without having been in a chain
      rw [hreg]
      refine (Elsewhere.setA0 _ _ _).law ?_
      have hskip : k₁.unregisterLine o = k₁ := if_pos hsrc
      have hback : k₁.releaseDevice o = k₁.putDevice o := by
        unfold releaseDevice finalizeDevice
        rw [if_pos hcount, if_pos hkind]
        rw [hskip]
        rfl
      rw [hback]
      obtain ⟨hchained, hs⟩ := hlaw.toChained.putOther hhanded (fun hl => hl.2.2 rfl) (.inr rfl)
      exact hlaw.same hs (fun _ _ => ⟨rfl, rfl, rfl⟩) (fun _ ht => ht) hchained.nodup hchained.range
    · rw [hreg]
      refine grantFresh_law (hlaw.withLine hhanded hkind hsrc) hhanded (fun _ => ?_) (.inl rfl) _
      rw [withLine_self]
      rfl

theorem handleIrqCreate_law (t : Nat) (f : TrapFrame) :
    IrqLaw kernelHandled 0 (k.handleIrqCreate t f) := by
  unfold handleIrqCreate
  split
  · exact (Elsewhere.setA0 _ _ _).law h
  · exact grantLine_law h t _

theorem handleIrqMsiCreate_law (t : Nat) (f : TrapFrame) (vector : Option U64) :
    IrqLaw kernelHandled 0 (k.handleIrqMsiCreate t f vector) := by
  unfold handleIrqMsiCreate
  split
  · exact (Elsewhere.setA0 _ _ _).law h
  · cases vector with
    | none => exact (Elsewhere.setA0 _ _ _).law h
    | some source => exact grantLine_law h t source

theorem handleIoMap_law (t : Nat) (f : TrapFrame) :
    IrqLaw kernelHandled 0 (k.handleIoMap t f) := by
  unfold handleIoMap
  split
  · exact (Elsewhere.setA0 _ _ _).law h
  · split
    · exact (Elsewhere.setA0 _ _ _).law h
    · dsimp only
      generalize (if f.a3 ≠ u64Last then f.a3 else noDevice) = deviceId
      unfold createMmio
      rcases allocateDevice_law h (fun d => { d with
          kind := .mmio, physicalBase := f.a1, length := f.a2, deviceId := deviceId })
        with ⟨h0, hlaw⟩ | ⟨hne, hlaw, hhanded, -⟩
      · rw [if_pos h0]
        unfold grantFresh
        rw [if_pos h0]
        exact (Elsewhere.setA0 _ _ _).law hlaw
      · rw [if_neg hne]
        generalize k.allocateDevice.1 = o at hne hlaw hhanded ⊢
        have hkind : ((k.allocateDevice.2.modDevice o fun d => { d with
            kind := .mmio, physicalBase := f.a1, length := f.a2, deviceId := deviceId }).device o).kind ≠ .irq := by
          rw [modDevice_self]
          simp
        exact grantFresh_law (hlaw.other hkind) hhanded (fun hk => absurd hk hkind) (.inr rfl) _

end

/-! ## Closing caps -/

theorem IrqLaw.forget (h : IrqLaw kernelHandled 0 k) (hquiet : k.Quiet o) :
    IrqLaw kernelHandled 0 (k.modDevice o fun d => { d with waiter := 0 }) := by
  have hdev : ∀ q, (k.modDevice o fun d => { d with waiter := 0 }).device q =
      { k.device q with waiter := if q = o then 0 else (k.device q).waiter } := by
    intro q
    by_cases hq : q = o
    · subst hq
      rw [modDevice_self, if_pos rfl]
    · rw [modDevice_ne _ _ hq, if_neg hq]
  have hs : SameLines 0 k 0 (k.modDevice o fun d => { d with waiter := 0 }) := by
    refine .of_shape 0 rfl rfl fun q => ?_
    rw [hdev q]
    exact ⟨rfl, rfl, rfl⟩
  refine ⟨h.toChained.same hs h.nodup h.range, fun q hq => ?_, fun q hq hf => ?_, fun t ht => ?_⟩
  · rw [hdev q]
    exact h.level q ((hs.line q).mp hq)
  · rw [hdev q] at hf ⊢
    have hz := h.flight q ((hs.line q).mp hq) hf
    rw [hz, ite_self]
  · obtain ⟨h0, q, hq, hw, hsrc⟩ := h.waits t ht
    have hqo : q ≠ o := by
      rintro rfl
      rcases hquiet with hz | hz
      · exact h0 (hw.symm.trans hz)
      · exact hz (hw ▸ ht)
    refine ⟨h0, q, (hs.line q).mpr hq, ?_, ?_⟩
    · rw [modDevice_ne _ _ hqo]
      exact hw
    · rw [hs.source q hq]
      exact hsrc

/-- **Closing a cap on a device.** -/
theorem closeCap_law (h : IrqLaw kernelHandled 0 k) {cap : Nat} (dying : Bool)
    (hawake : (k.tcb t).state ≠ .blockedIrq) (hcap : ∀ e, (k.capsOf t).lookup cap = some e → k.DeviceCap e)
    (hlast : ∀ e, (k.capsOf t).lookup cap = some e → (k.device e.object).kind = .irq →
      (k.device e.object).count ≤ 1 → k.Quiet e.object) :
    IrqLaw kernelHandled 0 (k.closeCap t cap dying).2 := by
  unfold closeCap
  by_cases h0 : (k.tcb t).process = 0
  · rw [if_pos h0]
    exact h
  rw [if_neg h0]
  cases hlook : (k.capsOf t).lookup cap with
  | none => exact h
  | some e =>
    refine (Elsewhere.setCaps _ _ _ _).law ?_
    obtain ⟨hkind, hhanded⟩ := hcap e hlook
    have hquiet := hlast e hlook
    unfold cleanupThreadCapObject
    by_cases hskip : t = 0 ∨ e.valid = false
    · rw [if_pos hskip]
      exact h
    rw [if_neg hskip]
    rcases hkind with hk | hk
    · rw [hk]
      unfold cleanupLineWaiter
      by_cases hw : e.object ≠ 0 ∧ (k.device e.object).kind = .irq ∧ (k.device e.object).waiter = t
      · -- the closing thread is a stale waiter: it is awake
        rw [if_pos hw]
        refine (h.forget (.inr ?_)).release hhanded fun _ _ => .inl ?_
        · rw [hw.2.2]
          exact hawake
        · rw [modDevice_self]
      · rw [if_neg hw]
        exact h.release hhanded hquiet
    · rw [hk]
      exact h.release hhanded hquiet

/-! ## Waiting and acknowledging -/

/-- **A line is poked, acknowledged or waited on**: its flags become equal, and its old waiter does not sleep. -/
theorem IrqLaw.renewed (h : IrqLaw kernelHandled 0 k) {b : Bool} {w : Nat}
    (hself : k'.device o = { k.device o with pending := b, inFlight := b, waiter := w }) (hfree : b = true → w = 0)
    (hdev : ∀ q, q ≠ o → k'.device q = k.device q) (hlines : k'.lines = k.lines) (hslab : k'.deviceSlab = k.deviceSlab)
    (hstate : ∀ u, (k'.tcb u).state = .blockedIrq → ((k.tcb u).state = .blockedIrq ∧ u ≠ (k.device o).waiter) ∨
      (u = w ∧ w ≠ 0 ∧ Line 0 k o ∧ kernelHandled (k.sourceOf o) = false)) : IrqLaw kernelHandled 0 k' := by
  have hs : SameLines 0 k 0 k' := by
    refine .of_shape 0 hlines hslab fun q => ?_
    by_cases hq : q = o
    · subst hq
      rw [hself]
      exact ⟨rfl, rfl, rfl⟩
    · rw [hdev q hq]
      exact ⟨rfl, rfl, rfl⟩
  refine ⟨h.toChained.same hs (hslab ▸ h.nodup) (hslab ▸ h.range), fun q hq => ?_, fun q hq hf => ?_, fun u hu => ?_⟩
  · have hq := (hs.line q).mp hq
    by_cases hqo : q = o
    · subst hqo
      rw [hself]
    · rw [hdev q hqo]
      exact h.level q hq
  · have hq := (hs.line q).mp hq
    by_cases hqo : q = o
    · subst hqo
      rw [hself] at hf ⊢
      exact hfree hf
    · rw [hdev q hqo] at hf ⊢
      exact h.flight q hq hf
  · rcases hstate u hu with ⟨hu, hother⟩ | ⟨rfl, h0, ho, hsrc⟩
    · obtain ⟨h0, q, hq, hw, hsrc⟩ := h.waits u hu
      have hqo : q ≠ o := by
        rintro rfl
        exact hother hw.symm
      refine ⟨h0, q, (hs.line q).mpr hq, ?_, ?_⟩
      · rw [hdev q hqo]
        exact hw
      · rw [hs.source q hq]
        exact hsrc
    · refine ⟨h0, o, (hs.line o).mpr ho, by rw [hself], ?_⟩
      rw [hs.source o ho]
      exact hsrc

/-- **A thread falls asleep** on a line that has nothing in flight, and on which nobody else sleeps. -/
theorem IrqLaw.sleep (h : IrqLaw kernelHandled 0 k) (ho : Line 0 k o) (hrun : k.Runs t) (hquiet : k.Quiet o)
    (hflight : (k.device o).inFlight = false) (hsource : kernelHandled (k.sourceOf o) = false)
    (hself : k'.device o = { k.device o with pending := false, waiter := t })
    (hdev : ∀ q, q ≠ o → k'.device q = k.device q) (hlines : k'.lines = k.lines) (hslab : k'.deviceSlab = k.deviceSlab)
    (htcb : ∀ u, (k'.tcb u).state = if u = t then .blockedIrq else (k.tcb u).state) : IrqLaw kernelHandled 0 k' := by
  have hself' : k'.device o = { k.device o with pending := false, inFlight := false, waiter := t } := by
    rw [hself, ← hflight]
  refine h.renewed hself' nofun hdev hlines hslab fun u hu => ?_
  rw [htcb] at hu
  by_cases hut : u = t
  · exact .inr ⟨hut, hrun.1, ho, hsource⟩
  · rw [if_neg hut] at hu
    refine .inl ⟨hu, ?_⟩
    -- it sleeps on another line
    rintro rfl
    exact hquiet.elim (h.waits _ hu).1 fun hz => hz hu

theorem lookupLine_line {raw : U64} {right : Rights → Bool} (hlook : k.lookupLine t raw right = some o)
    (hhanded : k.Handed o) : Line 0 k o := by
  refine ⟨hhanded, ?_, ?_⟩
  · unfold lookupLine at hlook
    repeat' split at hlook
    all_goals first
      | cases hlook
        rename_i hline
        unfold isLine at hline
        rw [Bool.and_eq_true] at hline
        exact beq_iff_eq.mp hline.2
      | cases hlook
  · have h1 := hhanded.1
    omega

theorem dropDeadWaiter_law (h : IrqLaw kernelHandled 0 k) (o : Nat) :
    IrqLaw kernelHandled 0 (k.dropDeadWaiter o) := by
  unfold dropDeadWaiter
  by_cases hdead : (k.device o).waiter ≠ 0 ∧ (k.tcb (k.device o).waiter).state = .dead
  · rw [if_pos hdead]
    refine h.forget (.inr ?_)
    rw [hdead.2]
    simp
  · rw [if_neg hdead]
    exact h

theorem dropDeadWaiter_frame (k : State) (o : Nat) : (k.dropDeadWaiter o).tcb = k.tcb ∧
    (k.dropDeadWaiter o).deviceSlab = k.deviceSlab ∧
    ∀ q, (k.dropDeadWaiter o).device q = { k.device q with waiter := ((k.dropDeadWaiter o).device q).waiter } := by
  unfold dropDeadWaiter
  split
  · refine ⟨rfl, rfl, fun q => ?_⟩
    by_cases hq : q = o
    · subst hq
      rw [modDevice_self]
    · rw [modDevice_ne _ _ hq]
  · exact ⟨rfl, rfl, fun _ => rfl⟩

/-- **`irq_wait`** answers, or puts its caller to sleep. -/
theorem handleIrqWait_law (h : IrqLaw kernelHandled 0 k) (hrun : k.Runs t) (f : TrapFrame)
    (hcap : ∀ line, k.lookupLine t f.a0 Rights.wait = some line → k.Handed line)
    (hsource : ∀ line, k.lookupLine t f.a0 Rights.wait = some line → kernelHandled (k.sourceOf line) = false) :
    IrqLaw kernelHandled 0 (k.handleIrqWait t f) := by
  unfold handleIrqWait
  cases hlook : k.lookupLine t f.a0 Rights.wait with
  | none => exact (Elsewhere.setA0 _ _ _).law h
  | some line =>
    have ho : Line 0 k line := lookupLine_line hlook (hcap line hlook)
    have hsrc := hsource line hlook
    have hlaw := dropDeadWaiter_law h line
    obtain ⟨htcb, hslab, hdev⟩ := dropDeadWaiter_frame k line
    dsimp only
    unfold irqWait
    rw [if_neg hrun.1]
    generalize k.dropDeadWaiter line = k₁ at hlaw htcb hslab hdev ⊢
    have ho1 : Line 0 k₁ line := by
      unfold Line Handed
      rw [hslab, hdev line]
      exact ho
    have hsrc1 : kernelHandled (k₁.sourceOf line) = false := by
      unfold sourceOf
      rw [hdev line]
      exact hsrc
    have hrun1 : k₁.Runs t := ⟨hrun.1, by rw [htcb]; exact hrun.2⟩
    have hlevel := hlaw.level line ho1
    by_cases hf : (k₁.device line).inFlight = true
    · -- something is in flight: the call returns
      rw [if_pos ⟨hlevel.trans hf, hf⟩]
      exact (Elsewhere.setA0 _ _ _).law hlaw
    · rw [if_neg (fun hc => hf hc.2), if_neg (fun hc => hf hc.1)]
      by_cases hw : (k₁.device line).waiter ≠ 0 ∧ (k₁.device line).waiter ≠ t
      · rw [if_pos hw]
        exact (Elsewhere.setA0 _ _ _).law hlaw
      · rw [if_neg hw, if_neg (by rw [hrun1.2]; simp)]
        have hquiet : k₁.Quiet line := by
          by_cases h0 : (k₁.device line).waiter = 0
          · exact .inl h0
          · -- the waiter is the caller itself, left there by a signal
            have hself : (k₁.device line).waiter = t := by
              by_contra hne
              exact hw ⟨h0, hne⟩
            refine .inr ?_
            rw [hself, hrun1.2]
            simp
        have hself : (k₁.modDevice line fun d => { d with pending := false, waiter := t }).device line =
            { k₁.device line with pending := false, waiter := t } := modDevice_self _ _ _
        have hothers : ∀ q, q ≠ line → (k₁.modDevice line fun d =>
            { d with pending := false, waiter := t }).device q = k₁.device q := fun q hq => modDevice_ne _ _ hq
        refine hlaw.sleep ho1 hrun1 hquiet (by simpa using hf) hsrc1 hself hothers rfl rfl fun u => ?_
        by_cases hu : u = t
        · subst hu
          simp [setA0, modTcb, modDevice]
        · simp [setA0, modTcb, modDevice, hu]

/-- **`irq_ack`** of a line on which nobody sleeps. -/
theorem handleIrqAck_law (h : IrqLaw kernelHandled 0 k) (f : TrapFrame)
    (hquiet : ∀ line, k.lookupLine t f.a0 Rights.ack = some line → k.Quiet line) :
    IrqLaw kernelHandled 0 (k.handleIrqAck t f) := by
  unfold handleIrqAck
  cases hlook : k.lookupLine t f.a0 Rights.ack with
  | none => exact (Elsewhere.setA0 _ _ _).law h
  | some line =>
    have hpoke : ∀ g : DeviceSlot → DeviceSlot,
        g (k.device line) = { k.device line with pending := false, inFlight := false, waiter := 0 } →
        IrqLaw kernelHandled 0 (k.modDevice line g) := by
      intro g hg
      have hforget := h.forget (hquiet line hlook)
      refine hforget.renewed (o := line) (b := false) (w := 0) ?_ nofun (fun q hq => ?_) rfl rfl fun u hu => .inl ⟨hu, ?_⟩
      · rw [modDevice_self, modDevice_self, hg]
      · rw [modDevice_ne _ _ hq, modDevice_ne _ _ hq]
      · rw [modDevice_self]
        exact (h.waits u hu).1
    unfold irqAck
    dsimp only
    split_ifs with hf
    · refine (Elsewhere.setA0 _ _ _).law (hpoke _ ?_)
      rw [hf]
    · exact (Elsewhere.setA0 _ _ _).law (hpoke _ rfl)

/-! ## Signals -/

/-- Nothing about devices changes, and threads become ready. -/
structure Nudges (k k' : State) : Prop where
  device : k'.device = k.device
  lines : k'.lines = k.lines
  slab : k'.deviceSlab = k.deviceSlab
  state : ∀ u, (k'.tcb u).state = (k.tcb u).state ∨ (k'.tcb u).state = .ready

namespace Nudges

theorem of_tcb (hd : k'.device = k.device) (hl : k'.lines = k.lines) (hs : k'.deviceSlab = k.deviceSlab)
    (ht : ∀ u, (k'.tcb u).state = (k.tcb u).state) : Nudges k k' :=
  ⟨hd, hl, hs, fun u => .inl (ht u)⟩

theorem refl (k : State) : Nudges k k := .of_tcb rfl rfl rfl fun _ => rfl

theorem trans (h : Nudges k k') (h' : Nudges k' k'') : Nudges k k'' := by
  refine ⟨h'.device.trans h.device, h'.lines.trans h.lines, h'.slab.trans h.slab, fun u => ?_⟩
  rcases h'.state u with e | e
  · rw [e]
    exact h.state u
  · exact .inr e

section

variable (k : State)

theorem setA0 (t : Nat) (v : U64) : Nudges k (k.setA0 t v) := by
  refine .of_tcb rfl rfl rfl fun u => ?_
  by_cases hu : u = t
  · subst hu
    simp [State.setA0, modTcb]
  · simp [State.setA0, modTcb, hu]

theorem wake (t : Nat) : Nudges k (k.wake t) := by
  have hmod : Nudges k (k.modTcb t fun c => { c with state := .ready }) := by
    refine ⟨rfl, rfl, rfl, fun u => ?_⟩
    by_cases hu : u = t
    · subst hu
      exact .inr (by simp [modTcb])
    · exact .inl (by simp [modTcb, hu])
  unfold State.wake
  split
  · exact .refl k
  · split
    · exact .refl k
    · exact .refl k
    · exact .refl k
    · exact hmod

theorem modNotification (o : Nat) (f : Notification → Notification) :
    Nudges k (k.modNotification o f) := .of_tcb rfl rfl rfl fun _ => rfl

theorem takeNotification (o : Nat) : Nudges k (k.takeNotification o).2 := by
  unfold State.takeNotification
  split
  · have hmod : Nudges k (k.modNotification o fun n => { n with bits := 0 }) := modNotification k o _
    exact hmod
  · exact .refl k

theorem wakeWithBits (t o : Nat) : Nudges k (k.wakeWithBits t o) :=
  ((takeNotification k o).trans (setA0 _ _ _)).trans (wake _ t)

theorem cancelReceive (t : Nat) : Nudges k (k.cancelReceive t) := by
  have hmod : ∀ k₁ : State, Nudges k₁ (k₁.modTcb t fun c => { c with recvEp := 0 }) := by
    intro k₁
    refine .of_tcb rfl rfl rfl fun u => ?_
    by_cases hu : u = t
    · subst hu
      simp [modTcb]
    · simp [modTcb, hu]
  have hep : ∀ (o : Nat) (f : Endpoint → Endpoint), Nudges k (k.modEndpoint o f) :=
    fun _ _ => .of_tcb rfl rfl rfl fun _ => rfl
  unfold State.cancelReceive
  split
  · exact .refl k
  · dsimp only
    split
    · exact .refl k
    · split
      · exact (hep _ _).trans (hmod _)
      · exact hmod k

theorem wakeWithMessage (t o : Nat) : Nudges k (k.wakeWithMessage t o) := by
  have hwrite : ∀ (k₁ : State) (bits : U64), Nudges k₁ (k₁.writeNotificationMessage t bits) := by
    intro k₁ bits
    unfold writeNotificationMessage
    split
    · exact .refl k₁
    · exact .of_tcb rfl rfl rfl fun _ => rfl
  exact (((cancelReceive k t).trans (takeNotification _ o)).trans (hwrite _ _)).trans
    ((setA0 _ _ _).trans (wake _ t))

/-- **`Signal`** makes threads ready, and leaves the lines alone. -/
theorem signal (o : Nat) (bits : U64) : Nudges k (k.signal o bits) := by
  have hset : Nudges k (k.modNotification o fun n => { n with bits := n.bits ||| bits }) := .modNotification k o _
  unfold State.signal
  split
  · dsimp only
    split
    · exact (hset.trans (.modNotification _ o _)).trans (.wakeWithBits _ _ o)
    · split
      · exact hset
      · split
        · exact hset.trans (.wakeWithBits _ _ o)
        · split
          · exact hset.trans (.wakeWithMessage _ _ o)
          · exact hset
  · exact .refl k

end

end Nudges

end State

end Aegir.Kernel
