/-
  The chains of IRQ lines.

  Every line that was handed out is in the chain of its source, exactly once, and nothing else is: `Chained`.
  Between `Create_IRQ` and `Register` there is ONE slot that is not in a chain yet, the `x` of the law (0 when
  there is none).
-/
import Aegir.Laws.Creation
import Aegir.Traps.Notifications

namespace Aegir.Kernel

open Aegir.Lib List Function

/-- A line as `Register` leaves it. -/
def DeviceSlot.registered (d : DeviceSlot) (next : Nat) : DeviceSlot :=
  { d with pending := false, inFlight := false, waiter := 0, ntfn := 0, ntfnBadge := 0, next := next }

namespace State

variable {k k' : State} {x o s : Nat}

theorem modDevice_self (k : State) (o : Nat) (f : DeviceSlot → DeviceSlot) :
    (k.modDevice o f).device o = f (k.device o) := update_self _ _ _

theorem modDevice_ne (k : State) {o q : Nat} (f : DeviceSlot → DeviceSlot) (hne : q ≠ o) :
    (k.modDevice o f).device q = k.device q := update_of_ne hne _ _

/-- The slot is a line, other than `x`. -/
def Line (x : Nat) (k : State) (o : Nat) : Prop := k.Handed o ∧ (k.device o).kind = .irq ∧ o ≠ x

/-- The source that a line listens to. -/
def sourceOf (k : State) (o : Nat) : Nat := (k.device o).source.toNat

/-- **The chains hold the lines.** -/
structure Chained (x : Nat) (k : State) : Prop where
  nodup : k.deviceSlab.free.Nodup
  range : ∀ o ∈ k.deviceSlab.free, 1 ≤ o ∧ o ≤ k.deviceSlab.carved
  sources : ∀ o, Line x k o → k.sourceOf o < maxSources
  chain : ∀ s, s < maxSources → ∃ l, IsChain 0 (fun o => (k.device o).next) (k.lines s) l ∧
    ∀ o, o ∈ l ↔ Line x k o ∧ k.sourceOf o = s

/-- The lines are the same, with the same source and the same successor. -/
structure SameLines (x : Nat) (k : State) (x' : Nat) (k' : State) : Prop where
  lines : k'.lines = k.lines
  line : ∀ o, Line x' k' o ↔ Line x k o
  source : ∀ o, Line x k o → k'.sourceOf o = k.sourceOf o
  next : ∀ o, Line x k o → (k'.device o).next = (k.device o).next

theorem SameLines.of_shape (x : Nat) (hlines : k'.lines = k.lines) (hslab : k'.deviceSlab = k.deviceSlab)
    (hshape : ∀ o, (k'.device o).kind = (k.device o).kind ∧ (k'.device o).source = (k.device o).source ∧
      (k'.device o).next = (k.device o).next) : SameLines x k x k' := by
  refine ⟨hlines, fun o => ?_, fun o _ => ?_, fun o _ => (hshape o).2.2⟩
  · unfold Line Handed
    rw [hslab, (hshape o).1]
  · unfold sourceOf
    rw [(hshape o).2.1]

namespace Chained

theorem same {x' : Nat} (h : Chained x k) (hs : SameLines x k x' k') (hnodup : k'.deviceSlab.free.Nodup)
    (hrange : ∀ o ∈ k'.deviceSlab.free, 1 ≤ o ∧ o ≤ k'.deviceSlab.carved) : Chained x' k' := by
  refine ⟨hnodup, hrange, fun o ho => ?_, fun s hlt => ?_⟩
  · have ho := (hs.line o).mp ho
    rw [hs.source o ho]
    exact h.sources o ho
  · obtain ⟨l, hl, hmem⟩ := h.chain s hlt
    refine ⟨l, ?_, fun o => ?_⟩
    · rw [hs.lines]
      exact hl.congr fun o ho => hs.next o ((hmem o).mp ho).1
    · rw [hmem, hs.line]
      constructor
      · rintro ⟨ho, hsrc⟩
        exact ⟨ho, (hs.source o ho).trans hsrc⟩
      · rintro ⟨ho, hsrc⟩
        exact ⟨ho, (hs.source o ho).symm.trans hsrc⟩

theorem length_le {l : List Nat} (hl : IsChain 0 (fun o => (k.device o).next) (k.lines s) l)
    (hmem : ∀ o, o ∈ l ↔ Line x k o ∧ k.sourceOf o = s) : l.length ≤ k.deviceSlab.carved := by
  have hsub : l ⊆ range' 1 k.deviceSlab.carved := by
    intro o ho
    obtain ⟨⟨⟨h1, h2, -⟩, -, -⟩, -⟩ := (hmem o).mp ho
    exact mem_range'_1.mpr ⟨h1, by omega⟩
  have hle := (hl.nodup.subperm hsub).length_le
  rwa [length_range'] at hle

end Chained

/-! ## Taking a slot -/

/-- What `Allocate_Slot` does: nothing, or a slot that was free is handed out, with a count of 0. -/
theorem allocateDevice_cases (k : State) (hnodup : k.deviceSlab.free.Nodup)
    (hrange : ∀ o ∈ k.deviceSlab.free, 1 ≤ o ∧ o ≤ k.deviceSlab.carved) :
    (∃ p, k.allocateDevice = (0, { k with pmm := p })) ∨
    ∃ o p slab, k.allocateDevice =
        (o, { k.modDevice o fun d => { d with count := 0 } with deviceSlab := slab, pmm := p }) ∧
      o ≠ 0 ∧ ¬ k.Handed o ∧ slab.free.Nodup ∧ (∀ q ∈ slab.free, 1 ≤ q ∧ q ≤ slab.carved) ∧
      ∀ q, (1 ≤ q ∧ q ≤ slab.carved ∧ q ∉ slab.free) ↔ k.Handed q ∨ q = o := by
  unfold allocateDevice
  cases hens : k.deviceSlab.ensureFree devicesPerFrame k.pmm with
  | mk r p =>
    cases r with
    | none => exact .inl ⟨p, rfl⟩
    | some slab =>
      have hext := Slab.ensureFree_extends hnodup (fun o ho => (hrange o ho).2) hens
      have hne := Slab.ensureFree_ne_nil (by decide) hens
      obtain ⟨o, rest, hfree⟩ := exists_cons_of_ne_nil hne
      have hnd := hext.nodup
      rw [hfree] at hnd
      obtain ⟨hnot, hrest⟩ := nodup_cons.mp hnd
      have hmem : ∀ q, q = o ∨ q ∈ rest ↔ q ∈ k.deviceSlab.free ∨ (k.deviceSlab.carved < q ∧ q ≤ slab.carved) := by
        intro q
        rw [← hext.mem_free q, hfree, mem_cons]
      have hle := hext.carved_le
      have hlow : ∀ q, q = o ∨ q ∈ rest → 1 ≤ q ∧ q ≤ slab.carved := by
        intro q hq
        rcases (hmem q).mp hq with h | h
        · have := hrange q h
          omega
        · omega
      have hhanded : ∀ q, k.Handed q → q ≠ o ∧ q ∉ rest := by
        rintro q ⟨h1, h2, h3⟩
        have hq : ¬ (q = o ∨ q ∈ rest) := by
          rw [hmem q]
          rintro (h | h)
          · exact h3 h
          · omega
        exact ⟨fun e => hq (.inl e), fun e => hq (.inr e)⟩
      refine .inr ⟨o, p, { slab with free := rest }, ?_, ?_, ?_, hrest, ?_, fun q => ?_⟩
      · simp only [Slab.take, hfree, headD_cons, tail_cons]
      · have := hlow o (.inl rfl)
        omega
      · exact fun h => (hhanded o h).1 rfl
      · exact fun q hq => hlow q (.inr hq)
      · constructor
        · rintro ⟨h1, h2, h3⟩
          by_cases hqo : q = o
          · exact .inr hqo
          · refine .inl ⟨h1, ?_, fun hin => ?_⟩
            · by_contra hbig
              have := (hmem q).mpr (.inr ⟨by omega, h2⟩)
              exact this.elim hqo h3
            · exact ((hmem q).mpr (.inl hin)).elim hqo h3
        · rintro (h | rfl)
          · obtain ⟨hne, hnr⟩ := hhanded q h
            exact ⟨h.1, by have := h.2.1; show q ≤ slab.carved; omega, hnr⟩
          · obtain ⟨h1, h2⟩ := hlow q (.inl rfl)
            exact ⟨h1, h2, hnot⟩

/-! ## Registering -/

theorem mem_of_isChained {l : List Nat} {cur n : Nat} (hl : IsChain 0 (fun o => (k.device o).next) cur l)
    (h : k.isChained o cur n = true) : o ∈ l := by
  induction n generalizing cur l with
  | zero => cases h
  | succ n ih =>
    cases l with
    | nil =>
      have h0 : cur = 0 := hl
      simp [isChained, h0] at h
    | cons y ys =>
      obtain ⟨rfl, -, hys⟩ := hl
      simp only [isChained, Bool.and_eq_true, Bool.or_eq_true, beq_iff_eq] at h
      rcases h.2 with h | h
      · rw [h]
        exact mem_cons_self
      · exact mem_cons_of_mem _ (ih hys h)

/-- The line at the head of the chain of its source. -/
def withLine (k : State) (o : Nat) : State :=
  { k with
    device := update k.device o ((k.device o).registered (k.lines (k.sourceOf o)))
    lines := update k.lines (k.sourceOf o) o }

theorem withLine_device (k : State) {o q : Nat} (hne : q ≠ o) : (k.withLine o).device q = k.device q :=
  update_of_ne hne _ _

theorem withLine_self (k : State) (o : Nat) :
    (k.withLine o).device o = (k.device o).registered (k.lines (k.sourceOf o)) := update_self _ _ _

theorem withLine_source (k : State) (o q : Nat) : (k.withLine o).sourceOf q = k.sourceOf q := by
  unfold sourceOf
  by_cases hq : q = o
  · subst hq
    rw [withLine_self]
    rfl
  · rw [withLine_device k hq]

theorem withLine_line (ho : k.Handed o) (hkind : (k.device o).kind = .irq) (q : Nat) :
    Line 0 (k.withLine o) q ↔ Line o k q ∨ q = o := by
  by_cases hq : q = o
  · subst hq
    have h1 := ho.1
    refine iff_of_true ⟨ho, ?_, by omega⟩ (.inr rfl)
    rw [withLine_self]
    exact hkind
  · unfold Line
    rw [withLine_device k hq]
    constructor
    · rintro ⟨hh, hk, -⟩
      exact .inl ⟨hh, hk, hq⟩
    · rintro (⟨hh, hk, -⟩ | e)
      · have h1 : 1 ≤ q := hh.1
        exact ⟨hh, hk, by omega⟩
      · exact absurd e hq

/-- **Registering a new line** puts it into the chain of its source. -/
theorem Chained.withLine (h : Chained o k) (ho : k.Handed o) (hkind : (k.device o).kind = .irq)
    (hsrc : k.sourceOf o < maxSources) : Chained 0 (k.withLine o) := by
  refine ⟨h.nodup, h.range, fun q hq => ?_, fun s hs => ?_⟩
  · rw [withLine_source]
    rcases (withLine_line ho hkind q).mp hq with hq | rfl
    · exact h.sources q hq
    · exact hsrc
  · obtain ⟨l, hl, hmem⟩ := h.chain s hs
    have hnot : o ∉ l := fun hin => ((hmem o).mp hin).1.2.2 rfl
    have hkeep : ∀ q ∈ l, ((k.withLine o).device q).next = (k.device q).next := by
      intro q hq
      rw [withLine_device k fun e : q = o => hnot (e ▸ hq)]
    by_cases hso : s = k.sourceOf o
    · -- the chain it joins
      subst hso
      refine ⟨o :: l, ?_, fun q => ?_⟩
      · have hhead : (k.withLine o).lines (k.sourceOf o) = o := update_self _ _ _
        have h1 := ho.1
        rw [hhead]
        refine hl.push (by omega) ?_ hkeep
        rw [withLine_self]
        rfl
      · rw [mem_cons, hmem, withLine_line ho hkind, withLine_source]
        constructor
        · rintro (rfl | ⟨hq, hsq⟩)
          · exact ⟨.inr rfl, rfl⟩
          · exact ⟨.inl hq, hsq⟩
        · rintro ⟨hq | rfl, hsq⟩
          · exact .inr ⟨hq, hsq⟩
          · exact .inl rfl
    · refine ⟨l, ?_, fun q => ?_⟩
      · have hhead : (k.withLine o).lines s = k.lines s := update_of_ne hso _ _
        rw [hhead]
        exact hl.congr hkeep
      · rw [hmem, withLine_line ho hkind, withLine_source]
        constructor
        · rintro ⟨hq, hsq⟩
          exact ⟨.inl hq, hsq⟩
        · rintro ⟨hq | rfl, hsq⟩
          · exact ⟨hq, hsq⟩
          · exact absurd hsq.symm hso

/-- **`Register`** of a new slot is refused only for a source out of range. -/
theorem registerLine_cases (h : Chained o k) : (maxSources ≤ k.sourceOf o ∧ k.registerLine o = (false, k)) ∨
    (k.sourceOf o < maxSources ∧ k.registerLine o = (true, k.withLine o)) := by
  by_cases hs : maxSources ≤ k.sourceOf o
  · exact .inl ⟨hs, if_pos hs⟩
  · obtain ⟨l, hl, hmem⟩ := h.chain (k.sourceOf o) (by omega)
    have hnew : ¬ k.isChained o (k.lines (k.sourceOf o)) k.deviceSlab.carved = true :=
      fun hc => ((hmem o).mp (mem_of_isChained hl hc)).1.2.2 rfl
    refine .inr ⟨by omega, (if_neg hs).trans (if_neg hnew)⟩

/-! ## Unregistering -/

theorem unchainLine_found {b cur n : Nat} {ys zs : List Nat}
    (hl : IsChain 0 (fun o => (k.device o).next) cur (ys ++ b :: o :: zs)) (hn : ys.length < n) :
    k.unchainLine o cur n = k.modDevice b fun d => { d with next := (k.device o).next } := by
  have hnd := hl.nodup
  induction ys generalizing cur n with
  | nil =>
    obtain ⟨m, rfl⟩ : ∃ m, n = m + 1 := ⟨n - 1, by omega⟩
    obtain ⟨rfl, h0, ho, -⟩ := hl
    rw [unchainLine, if_neg h0, if_pos ho]
  | cons y ys ih =>
    obtain ⟨m, rfl⟩ : ∃ m, n = m + 1 := ⟨n - 1, by omega⟩
    obtain ⟨rfl, h0, hrest⟩ := hl
    have hrest : IsChain 0 (fun o => (k.device o).next) (k.device cur).next (ys ++ b :: o :: zs) := hrest
    have hnext : (k.device cur).next ≠ o := by
      -- the successor is the next member, and `o` comes after one more
      intro e
      have hhead : ∃ w ws, ys ++ b :: o :: zs = w :: ws ∧ w ≠ o := by
        cases ys with
        | nil =>
          refine ⟨b, o :: zs, rfl, fun e => ?_⟩
          subst e
          simp at hnd
        | cons w ws =>
          refine ⟨w, ws ++ b :: o :: zs, rfl, fun e => ?_⟩
          subst e
          simp at hnd
      obtain ⟨w, ws, heq, hwo⟩ := hhead
      rw [heq] at hrest
      exact hwo (hrest.1.symm.trans e)
    rw [unchainLine, if_neg h0, if_neg hnext]
    have hlen : ys.length < m := by
      simp only [length_cons] at hn
      omega
    exact ih hrest hlen (nodup_cons.mp hnd).2

/-- What `Unregister` leaves: chains and successors change, nothing else. -/
structure Unlinked (o : Nat) (k k' : State) : Prop where
  same : k' = { k with device := k'.device, lines := k'.lines }
  device : ∀ q, k'.device q = { k.device q with next := (k'.device q).next }
  chain : ∀ s, s < maxSources → ∃ l, IsChain 0 (fun o => (k'.device o).next) (k'.lines s) l ∧
    ∀ q, q ∈ l ↔ (Line 0 k q ∧ k.sourceOf q = s) ∧ q ≠ o

theorem Unlinked.of_chain (h : Chained 0 k) {l rest : List Nat}
    (hmem : ∀ q, q ∈ l ↔ Line 0 k q ∧ k.sourceOf q = k.sourceOf o) (hrest : ∀ q, q ∈ rest ↔ q ∈ l ∧ q ≠ o)
    (hin : o ∈ l) (hsame : k' = { k with device := k'.device, lines := k'.lines })
    (hdevice : ∀ q, k'.device q = { k.device q with next := (k'.device q).next })
    (hlines : ∀ s, s ≠ k.sourceOf o → k'.lines s = k.lines s)
    (hnext : ∀ q, q ∉ l → (k'.device q).next = (k.device q).next)
    (hchain : IsChain 0 (fun o => (k'.device o).next) (k'.lines (k.sourceOf o)) rest) : Unlinked o k k' := by
  refine ⟨hsame, hdevice, fun s hs => ?_⟩
  by_cases hso : s = k.sourceOf o
  · subst hso
    refine ⟨rest, hchain, fun q => ?_⟩
    rw [hrest, hmem]
  · obtain ⟨l', hl', hmem'⟩ := h.chain s hs
    have hother : ∀ q ∈ l', q ∉ l := by
      intro q hq hql
      exact hso (((hmem' q).mp hq).2.symm.trans ((hmem q).mp hql).2)
    refine ⟨l', ?_, fun q => ?_⟩
    · rw [hlines s hso]
      exact hl'.congr fun q hq => hnext q (hother q hq)
    · rw [hmem']
      constructor
      · intro hq
        refine ⟨hq, fun e => ?_⟩
        exact hother q ((hmem' q).mpr hq) (e ▸ hin)
      · exact fun hq => hq.1

/-- **`Unregister`** takes a line out of the chain of its source. -/
theorem unregisterLine_unlinked (h : Chained 0 k) (ho : Line 0 k o) : Unlinked o k (k.unregisterLine o) := by
  have hsrc := h.sources o ho
  obtain ⟨l, hl, hmem⟩ := h.chain (k.sourceOf o) hsrc
  have hin : o ∈ l := (hmem o).mpr ⟨ho, rfl⟩
  have hlen := Chained.length_le hl hmem
  have hnd := hl.nodup
  have hpast : ¬ maxSources ≤ (k.device o).source.toNat := Nat.not_le.mpr hsrc
  unfold unregisterLine
  rw [if_neg hpast]
  obtain ⟨ys, zs, rfl⟩ := append_of_mem hin
  have hrest : ∀ q, q ∈ ys ++ zs ↔ q ∈ ys ++ o :: zs ∧ q ≠ o := by
    intro q
    rw [nodup_middle, nodup_cons] at hnd
    constructor
    · intro hq
      refine ⟨?_, fun e => hnd.1 (e ▸ hq)⟩
      rcases mem_append.mp hq with hq | hq
      · exact mem_append_left _ hq
      · exact mem_append_right _ (mem_cons_of_mem _ hq)
    · rintro ⟨hq, hne⟩
      rcases mem_append.mp hq with hq | hq
      · exact mem_append_left _ hq
      · exact mem_append_right _ ((mem_cons.mp hq).resolve_left hne)
  rcases eq_nil_or_concat ys with rfl | ⟨as, b, rfl⟩
  · -- the line heads its chain
    have hhead : k.lines (k.device o).source.toNat = o := hl.1
    rw [if_pos hhead]
    have hdev : ∀ q, q ≠ o → ((({ k with
        lines := update k.lines (k.device o).source.toNat (k.device o).next } : State).modDevice o
        fun d => { d with next := 0 }).device q) = k.device q := fun q hq => update_of_ne hq _ _
    refine .of_chain h hmem hrest hin rfl (fun q => ?_) (fun s hs => update_of_ne hs _ _) (fun q hq => ?_) ?_
    · by_cases hq : q = o
      · subst hq
        rw [modDevice_self]
      · rw [hdev q hq]
    · rw [hdev q fun e => hq (e ▸ hin)]
    · have hstart : update k.lines (k.device o).source.toNat (k.device o).next (k.sourceOf o) =
          (k.device o).next := update_self _ _ _
      have hpop : IsChain 0 (fun q => ((({ k with
          lines := update k.lines (k.device o).source.toNat (k.device o).next } : State).modDevice o
          fun d => { d with next := 0 }).device q).next) (k.device o).next zs := hl.pop fun q hq => by rw [hdev q hq]
      show IsChain 0 _ (update k.lines (k.device o).source.toNat (k.device o).next (k.sourceOf o)) zs
      rw [hstart]
      exact hpop
  · -- the line has a predecessor, which takes over its successor
    rw [concat_eq_append, append_assoc, singleton_append] at hl hnd hmem hin hlen
    have hnotas : b ≠ o ∧ o ∉ as ∧ o ∉ zs ∧ b ∉ as ∧ b ∉ zs := by
      rw [nodup_append'] at hnd
      obtain ⟨-, hnd2, hdis⟩ := hnd
      obtain ⟨hb, hnd3⟩ := nodup_cons.mp hnd2
      refine ⟨fun e => hb (e ▸ mem_cons_self), fun hm => hdis hm ?_, (nodup_cons.mp hnd3).1,
        fun hm => hdis hm mem_cons_self, fun hm => hb (mem_cons_of_mem _ hm)⟩
      exact mem_cons_of_mem _ mem_cons_self
    obtain ⟨hbo, hoas, hozs, hbas, hbzs⟩ := hnotas
    have hhead : k.lines (k.device o).source.toNat ≠ o := by
      intro e
      cases as with
      | nil => exact hbo (hl.1.symm.trans e)
      | cons a as =>
        have ha : k.lines (k.sourceOf o) = a := hl.1
        exact hoas (mem_cons.mpr (.inl (e.symm.trans ha)))
    have hshort : as.length < k.deviceSlab.carved := by
      simp only [length_append, length_cons] at hlen
      omega
    have hfound := unchainLine_found (n := k.deviceSlab.carved) hl hshort
    rw [if_neg hhead, show k.lines (k.device o).source.toNat = k.lines (k.sourceOf o) from rfl, hfound]
    generalize hk' : (k.modDevice b fun d => { d with next := (k.device o).next }).modDevice o
      (fun d => { d with next := 0 }) = k'
    have hself : k'.device o = { k.device o with next := 0 } := by
      rw [← hk', modDevice_self, modDevice_ne _ _ hbo.symm]
    have hpred : k'.device b = { k.device b with next := (k.device o).next } := by
      rw [← hk', modDevice_ne _ _ hbo, modDevice_self]
    have hdev : ∀ q, q ≠ o → q ≠ b → k'.device q = k.device q := by
      intro q hqo hqb
      rw [← hk', modDevice_ne _ _ hqo, modDevice_ne _ _ hqb]
    have hlines : k'.lines = k.lines := by
      rw [← hk']
      rfl
    have hsame : k' = { k with device := k'.device, lines := k'.lines } := by
      rw [← hk']
      rfl
    have hrest' : ∀ q, q ∈ as ++ b :: zs ↔ q ∈ as ++ b :: o :: zs ∧ q ≠ o := by
      intro q
      have hq := hrest q
      rwa [concat_eq_append, append_assoc, append_assoc, singleton_append] at hq
    refine .of_chain h hmem hrest' hin hsame (fun q => ?_) (fun s _ => by rw [hlines]) (fun q hq => ?_) ?_
    · by_cases hqo : q = o
      · subst hqo
        rw [hself]
      · by_cases hqb : q = b
        · subst hqb
          rw [hpred]
        · rw [hdev q hqo hqb]
    · have hqo : q ≠ o := fun e => hq (e ▸ hin)
      have hqb : q ≠ b := fun e => hq (e ▸ mem_append_right _ mem_cons_self)
      rw [hdev q hqo hqb]
    · rw [hlines]
      refine hl.unlink (fun q => (k'.device q).next) (by rw [hpred]) fun q hq => ?_
      have hqo : q ≠ o := by
        rintro rfl
        exact (mem_append.mp hq).elim hoas hozs
      have hqb : q ≠ b := by
        rintro rfl
        exact (mem_append.mp hq).elim hbas hbzs
      rw [hdev q hqo hqb]

/-! ## Giving a slot back -/

/-- A slot back on the free list. -/
def putDevice (k : State) (o : Nat) : State := { k with deviceSlab := k.deviceSlab.put o }

theorem handed_putDevice (k : State) (o q : Nat) : (k.putDevice o).Handed q ↔ k.Handed q ∧ q ≠ o := by
  show (1 ≤ q ∧ q ≤ k.deviceSlab.carved ∧ q ∉ o :: k.deviceSlab.free) ↔ _
  rw [mem_cons, not_or]
  constructor
  · rintro ⟨h1, h2, h3, h4⟩
    exact ⟨⟨h1, h2, h4⟩, h3⟩
  · rintro ⟨⟨h1, h2, h4⟩, h3⟩
    exact ⟨h1, h2, h3, h4⟩

theorem putDevice_free (h : Chained x k) (ho : k.Handed o) : (k.putDevice o).deviceSlab.free.Nodup ∧
    ∀ q ∈ (k.putDevice o).deviceSlab.free, 1 ≤ q ∧ q ≤ (k.putDevice o).deviceSlab.carved := by
  refine ⟨nodup_cons.mpr ⟨ho.2.2, h.nodup⟩, fun q hq => ?_⟩
  rcases mem_cons.mp hq with rfl | hq
  · exact ⟨ho.1, ho.2.1⟩
  · exact h.range q hq

theorem Chained.putOther (h : Chained x k) (ho : k.Handed o) (hnot : ¬ Line x k o) (hx : x = 0 ∨ x = o) :
    Chained 0 (k.putDevice o) ∧ SameLines x k 0 (k.putDevice o) := by
  have hline : ∀ q, Line 0 (k.putDevice o) q ↔ Line x k q := by
    intro q
    show (k.putDevice o).Handed q ∧ (k.device q).kind = .irq ∧ q ≠ 0 ↔ _
    rw [handed_putDevice]
    constructor
    · rintro ⟨⟨hq, hne⟩, hk, h0⟩
      refine ⟨hq, hk, ?_⟩
      rcases hx with rfl | rfl
      · exact h0
      · exact hne
    · rintro ⟨hq, hk, hqx⟩
      have h1 := hq.1
      refine ⟨⟨hq, fun e => hnot ?_⟩, hk, by omega⟩
      exact e ▸ ⟨hq, hk, hqx⟩
  obtain ⟨hnodup, hrange⟩ := putDevice_free h ho
  have hs : SameLines x k 0 (k.putDevice o) := ⟨rfl, hline, fun _ _ => rfl, fun _ _ => rfl⟩
  exact ⟨h.same hs hnodup hrange, hs⟩

theorem Unlinked.put (hu : Unlinked o k k') (h : Chained 0 k) (ho : Line 0 k o) :
    Chained 0 (k'.putDevice o) ∧ ∀ q, Line 0 (k'.putDevice o) q ↔ Line 0 k q ∧ q ≠ o := by
  have hslab : k'.deviceSlab = k.deviceSlab := by rw [hu.same]
  have hhanded : ∀ q, k'.Handed q ↔ k.Handed q := by
    intro q
    unfold Handed
    rw [hslab]
  have hline : ∀ q, Line 0 (k'.putDevice o) q ↔ Line 0 k q ∧ q ≠ o := by
    intro q
    show (k'.putDevice o).Handed q ∧ (k'.device q).kind = .irq ∧ q ≠ 0 ↔ _
    rw [handed_putDevice, hhanded, hu.device q]
    constructor
    · rintro ⟨⟨hq, hne⟩, hk, h0⟩
      exact ⟨⟨hq, hk, h0⟩, hne⟩
    · rintro ⟨⟨hq, hk, h0⟩, hne⟩
      exact ⟨⟨hq, hne⟩, hk, h0⟩
  have hsource : ∀ q, (k'.putDevice o).sourceOf q = k.sourceOf q := by
    intro q
    show (k'.device q).source.toNat = _
    rw [hu.device q]
    rfl
  have hnodup : (k'.putDevice o).deviceSlab.free.Nodup := by
    show (o :: k'.deviceSlab.free).Nodup
    rw [hslab]
    exact nodup_cons.mpr ⟨ho.1.2.2, h.nodup⟩
  refine ⟨⟨hnodup, fun q hq => ?_, fun q hq => ?_, fun s hs => ?_⟩, hline⟩
  · show 1 ≤ q ∧ q ≤ k'.deviceSlab.carved
    have hq : q ∈ o :: k'.deviceSlab.free := hq
    rw [hslab] at hq ⊢
    rcases mem_cons.mp hq with rfl | hq
    · exact ⟨ho.1.1, ho.1.2.1⟩
    · exact h.range q hq
  · rw [hsource]
    exact h.sources q ((hline q).mp hq).1
  · obtain ⟨l, hl, hmem⟩ := hu.chain s hs
    refine ⟨l, hl, fun q => ?_⟩
    rw [hmem, hline, hsource]
    exact ⟨fun hq => ⟨⟨hq.1.1, hq.2⟩, hq.1.2⟩, fun hq => ⟨⟨hq.1.1, hq.2⟩, hq.1.2⟩⟩

end State

end Aegir.Kernel
