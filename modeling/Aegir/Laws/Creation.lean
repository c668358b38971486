/-
  Creating objects: between the creation and the insert of the first cap the object is FRESH.

  A slot is taken from its slab (which grows if it must), a cap on it is inserted, and if that fails
  the slot goes back.  The reference-count law holds throughout, with the fresh object as its one
  exception.
-/
import Aegir.Laws.Lifecycle

namespace Aegir.Kernel

open Aegir.Arch Ledger Roster List Function

namespace Slab

variable {n : Nat} {p' : Pmm} {s s' : Slab}

/-- The free list of `s'` is that of `s` with the slots carved since. -/
structure Extends (s s' : Slab) : Prop where
  carved_le : s.carved ≤ s'.carved
  nodup : s'.free.Nodup
  mem_free : ∀ o, o ∈ s'.free ↔ o ∈ s.free ∨ (s.carved < o ∧ o ≤ s'.carved)

theorem mem_carve {c o : Nat} : o ∈ ((range n).map fun i => c + n - i) ↔ c < o ∧ o ≤ c + n := by
  rw [mem_map]
  constructor
  · rintro ⟨i, hi, rfl⟩
    rw [mem_range] at hi
    omega
  · rintro ⟨h1, h2⟩
    exact ⟨c + n - o, by rw [mem_range]; omega, by omega⟩

theorem ensureFree_extends {p : Pmm} (hnd : s.free.Nodup)
    (hrange : ∀ o ∈ s.free, o ≤ s.carved) (h : s.ensureFree n p = (some s', p')) : s.Extends s' := by
  unfold ensureFree grow at h
  split at h
  · split at h
    · cases h
    · cases h
      refine ⟨Nat.le_add_right _ _, ?_, fun o => ?_⟩
      · refine nodup_append.mpr ⟨?_, hnd, fun a ha b hb => ?_⟩
        · refine List.Nodup.map_on (fun i hi j hj he => ?_) nodup_range
          rw [mem_range] at hi hj
          omega
        · have h1 := mem_carve.mp ha
          have h2 := hrange b hb
          omega
      · rw [mem_append, mem_carve]
        exact ⟨fun h => h.symm, fun h => h.symm⟩
  · cases h
    exact ⟨Nat.le_refl _, hnd, fun o => ⟨.inl, fun h => h.elim id fun h => by omega⟩⟩

theorem ensureFree_some {p : Pmm} (hp : p.Wf) (hnd : s.free.Nodup) (hrange : ∀ o ∈ s.free, o ≤ s.carved)
    (h : s.ensureFree n p = (some s', p')) : s.Extends s' ∧ p'.Wf := by
  refine ⟨ensureFree_extends hnd hrange h, ?_⟩
  unfold ensureFree grow at h
  split at h
  · split at h
    · cases h
    · rename_i halloc
      cases h
      exact (Pmm.allocateFrame_ok hp halloc).1
  · cases h
    exact hp

theorem ensureFree_none {p : Pmm} (hp : p.Wf) (h : s.ensureFree n p = (none, p')) : p'.Wf := by
  unfold ensureFree grow at h
  split at h
  · split at h
    · rename_i halloc
      cases h
      exact (Pmm.allocateFrame_error hp halloc).1
    · cases h
  · cases h

theorem ensureFree_ne_nil {p : Pmm} (hn : 0 < n) (h : s.ensureFree n p = (some s', p')) : s'.free ≠ [] := by
  unfold ensureFree grow at h
  split at h
  · split at h
    · cases h
    · cases h
      intro he
      have hlen := congrArg length he
      simp at hlen
      omega
  · rename_i hne
    cases h
    exact hne

end Slab

namespace Ledger

variable {L L' : Ledger} {fresh : Option (Pool × Nat)} {P : Pool} {o : Nat}

theorem Counted.refs_uncarved (hL : L.Counted fresh) (h : (L.slab P).carved < o) : L.refs P o = 0 := by
  refine Lib.refs_eq_zero_iff.mpr fun i _ hr => ?_
  obtain ⟨hv, hP, rfl⟩ := hr
  have := (hL.slot i.1 i.2 P hv hP).2
  omega

/-- **Taking a slot** makes its object the fresh one. -/
theorem Counted.take {s : Slab} {rest : List Nat} (hL : L.Counted none)
    (hext : (L.slab P).Extends s) (hfree : s.free = o :: rest) (hcaps : L'.caps = L.caps)
    (hpmm : L'.pmm.Wf) (hslab : L'.slab = update L.slab P { s with free := rest })
    (hcount : ∀ Q u, L'.count Q u = if Q = P ∧ u = o then 0 else L.count Q u) :
    L'.Counted (some (P, o)) := by
  have hentry : L'.entry = L.entry := by
    funext p h
    unfold entry
    rw [hcaps]
  have hrefs : L'.refs = L.refs := by
    funext Q u
    unfold refs
    rw [hentry]
  have hnd := hext.nodup
  rw [hfree] at hnd
  have hmem : ∀ u, u ∈ s.free ↔ u = o ∨ u ∈ rest := by
    intro u
    rw [hfree, mem_cons]
  have ho : o ∈ (L.slab P).free ∨ ((L.slab P).carved < o ∧ o ≤ s.carved) :=
    (hext.mem_free o).mp ((hmem o).mpr (.inl rfl))
  have ho0 : L.refs P o = 0 := by
    rcases ho with ho | ho
    · have hr := hL.free_range P o ho
      exact ((hL.free P o hr.1 hr.2).mp ho).1
    · exact hL.refs_uncarved ho.1
  have horange : 1 ≤ o ∧ o ≤ s.carved := by
    rcases ho with ho | ho
    · have hr := hL.free_range P o ho
      exact ⟨hr.1, hr.2.trans hext.carved_le⟩
    · exact ⟨by omega, ho.2⟩
  have hself : L'.slab P = { s with free := rest } := by rw [hslab, update_self]
  have hother : ∀ Q, Q ≠ P → L'.slab Q = L.slab Q := fun Q hQ => by
    rw [hslab, update_of_ne hQ]
  refine ⟨hpmm, by rw [hcaps]; exact hL.table, by rw [hentry]; exact hL.place,
    fun p h Q hv hQ => ?_, fun Q => ?_, fun Q u hu => ?_, fun Q u h1 h2 => ?_, fun Q u h1 h2 => ?_,
    fun Q u hf => ?_, fun Q u hu => ?_⟩
  · rw [hentry] at hv hQ ⊢
    obtain ⟨h1, h2⟩ := hL.slot p h Q hv hQ
    refine ⟨h1, ?_⟩
    by_cases hQP : Q = P
    · subst hQP
      rw [hself]
      exact h2.trans hext.carved_le
    · rw [hother Q hQP]
      exact h2
  · by_cases hQP : Q = P
    · subst hQP
      rw [hself]
      exact (nodup_cons.mp hnd).2
    · rw [hother Q hQP]
      exact hL.free_nodup Q
  · by_cases hQP : Q = P
    · subst hQP
      rw [hself] at hu ⊢
      rcases (hext.mem_free u).mp ((hmem u).mpr (.inr hu)) with hu | hu
      · have hr := hL.free_range Q u hu
        exact ⟨hr.1, hr.2.trans hext.carved_le⟩
      · exact ⟨by omega, hu.2⟩
    · rw [hother Q hQP] at hu ⊢
      exact hL.free_range Q u hu
  · rw [hcount, hrefs]
    split_ifs with hQo
    · rw [hQo.1, hQo.2, ho0]
    · by_cases hQP : Q = P
      · subst hQP
        by_cases hle : u ≤ (L.slab Q).carved
        · exact hL.count Q u h1 hle
        · rw [hL.uncarved Q u (by omega), hL.refs_uncarved (by omega)]
      · rw [hother Q hQP] at h2
        exact hL.count Q u h1 h2
  · rw [hrefs]
    by_cases hQP : Q = P
    · subst hQP
      rw [hself]
      by_cases huo : u = o
      · subst huo
        exact iff_of_false (nodup_cons.mp hnd).1 fun hh => hh.2 rfl
      · have hne : some (Q, o) ≠ some (Q, u) := fun he => huo (by cases he; rfl)
        have hin : u ∈ rest ↔ u ∈ s.free := by
          rw [hmem u]
          exact ⟨.inr, fun h => h.resolve_left huo⟩
        rw [hin, hext.mem_free u]
        by_cases hle : u ≤ (L.slab Q).carved
        · rw [hL.free Q u h1 hle]
          exact ⟨fun h => h.elim (fun h => ⟨h.1, hne⟩) fun h => by omega, fun h => .inl ⟨h.1, by simp⟩⟩
        · rw [hself] at h2
          exact iff_of_true (.inr ⟨by omega, h2⟩) ⟨hL.refs_uncarved (by omega), hne⟩
    · rw [hother Q hQP] at h2 ⊢
      rw [hL.free Q u h1 h2]
      have hne : some (P, o) ≠ some (Q, u) := fun he => hQP (by cases he; rfl)
      simp [hne]
  · cases hf
    rw [hself, hrefs]
    exact ⟨horange.1, horange.2, ho0⟩
  · rw [hcount]
    split_ifs with hQo
    · rfl
    · by_cases hQP : Q = P
      · subst hQP
        rw [hself] at hu
        exact hL.uncarved Q u (Nat.lt_of_le_of_lt hext.carved_le hu)
      · rw [hother Q hQP] at hu
        exact hL.uncarved Q u hu

/-- **Giving the fresh slot back.** -/
theorem Counted.put (hL : L.Counted (some (P, o))) (hcaps : L'.caps = L.caps) (hpmm : L'.pmm.Wf)
    (hslab : L'.slab = update L.slab P ((L.slab P).put o)) (hcount : L'.count = L.count) :
    L'.Counted none := by
  have hentry : L'.entry = L.entry := by
    funext p h
    unfold entry
    rw [hcaps]
  have hrefs : L'.refs = L.refs := by
    funext Q u
    unfold refs
    rw [hentry]
  obtain ⟨h1o, h2o, h0o⟩ := hL.fresh_unref P o rfl
  have hself : L'.slab P = (L.slab P).put o := by rw [hslab, update_self]
  have hother : ∀ Q, Q ≠ P → L'.slab Q = L.slab Q := fun Q hQ => by
    rw [hslab, update_of_ne hQ]
  have hcarved : ∀ Q, (L'.slab Q).carved = (L.slab Q).carved := by
    intro Q
    by_cases hQP : Q = P
    · subst hQP; rw [hself]; rfl
    · rw [hother Q hQP]
  refine ⟨hpmm, by rw [hcaps]; exact hL.table, by rw [hentry]; exact hL.place,
    fun p h Q hv hQ => ?_, fun Q => ?_, fun Q u hu => ?_, fun Q u h1 h2 => ?_, fun Q u h1 h2 => ?_,
    fun Q u hf => (by cases hf), fun Q u hu => ?_⟩
  · rw [hentry] at hv hQ ⊢
    rw [hcarved]
    exact hL.slot p h Q hv hQ
  · by_cases hQP : Q = P
    · subst hQP
      rw [hself]
      refine nodup_cons.mpr ⟨fun hm => ?_, hL.free_nodup Q⟩
      exact ((hL.free Q o h1o h2o).mp hm).2 rfl
    · rw [hother Q hQP]
      exact hL.free_nodup Q
  · rw [hcarved]
    by_cases hQP : Q = P
    · subst hQP
      rw [hself] at hu
      rcases mem_cons.mp hu with rfl | hu
      · exact ⟨h1o, h2o⟩
      · exact hL.free_range Q u hu
    · rw [hother Q hQP] at hu
      exact hL.free_range Q u hu
  · rw [hcarved] at h2
    rw [hcount, hrefs]
    exact hL.count Q u h1 h2
  · rw [hcarved] at h2
    rw [hrefs]
    by_cases hQP : Q = P
    · subst hQP
      rw [hself]
      show u ∈ o :: (L.slab Q).free ↔ _
      rw [mem_cons]
      by_cases huo : u = o
      · subst huo
        exact iff_of_true (.inl rfl) ⟨h0o, by simp⟩
      · have hne : some (Q, o) ≠ some (Q, u) := fun he => huo (by cases he; rfl)
        rw [hL.free Q u h1 h2]
        simp [huo, hne]
    · have hne : some (P, o) ≠ some (Q, u) := fun he => hQP (by cases he; rfl)
      rw [hother Q hQP, hL.free Q u h1 h2]
      simp [hne]
  · rw [hcarved] at hu
    rw [hcount]
    exact hL.uncarved Q u hu

theorem Inserted.counted_fresh {p h : Nat} {e : CapEntry} (hi : Inserted L L' p h e)
    (hL : L.Counted (some (P, e.object))) (hp : p ≤ initProcess) (hP : e.kind.pool = some P) :
    L'.Counted none := by
  obtain ⟨t, pmm, rfl, ht, hpmm, hget, hh, hnull, hv⟩ := hi
  obtain ⟨h1, h2, -⟩ := hL.fresh_unref P e.object rfl
  have hclear : clear (some (P, e.object)) e = none := by
    unfold clear
    rw [hP]
    exact if_pos rfl
  have := hL.insert hp hh hnull ht hget hpmm hv fun Q hQ => by
    rw [hP] at hQ
    cases hQ
    exact ⟨h1, h2, .inr rfl⟩
  rwa [hclear] at this

end Ledger

namespace State

variable {k k₁ k₂ : State} {fresh : Option (Pool × Nat)} {P : Pool} {cur o : Nat}

/-- `k₁` is `k` with at most one slot taken: tables and lifecycle are those of `k`, and a fresh
    endpoint is idle. -/
structure Prepared (k k₁ : State) (fresh : Option (Pool × Nat)) : Prop where
  counted : k₁.ledger.Counted fresh
  entry : ∀ p h, k₁.ledger.entry p h = k.ledger.entry p h
  life : k₁.ledger.life = k.ledger.life
  waits : k₁.Waits
  idle : ∀ o, fresh = some (.endpoint, o) → k₁.roster.Idle o

theorem Prepared.refl (h : k.Inv) : Prepared k k none :=
  ⟨h.counted, fun _ _ => rfl, rfl, h.waits, fun _ hf => by cases hf⟩

theorem Prepared.frame (h : Prepared k k₁ fresh) (hcaps : k₂.ledger.caps = k₁.ledger.caps)
    (hlife : k₂.ledger.life = k₁.ledger.life) (hcount : k₂.ledger.count = k₁.ledger.count)
    (hslab : k₂.ledger.slab = k₁.ledger.slab) (hpmm : k₂.pmm.Wf) (hr : k₂.roster = k₁.roster) :
    Prepared k k₂ fresh := by
  refine ⟨h.counted.congr hcaps hcount hslab hpmm, fun p i => ?_, hlife.trans h.life,
    h.waits.of_eq hr (endpointSlab_of_ledger hslab), fun o ho => ?_⟩
  · rw [Ledger.entry, hcaps]
    exact h.entry p i
  · rw [hr]
    exact h.idle o ho

theorem Prepared.setPmm (h : Prepared k k₁ fresh) {p : Pmm} (hp : p.Wf) :
    Prepared k { k₁ with pmm := p } fresh := h.frame rfl rfl rfl rfl hp rfl

theorem Prepared.inv (h : k.Inv) (hk : Prepared k k₁ none) : k₁.Inv := by
  refine ⟨hk.counted, by rw [hk.life]; exact h.life, fun s hs hu i => ?_, hk.waits⟩
  rw [hk.entry]
  exact h.vacant s hs ((congrFun (congrArg Life.used hk.life) s).symm.trans hu) i

/-- **The shape of the creating calls keeps the invariant.** -/
theorem grantFresh_inv {kind : ObjectKind} {rights : Rights} {discard : State → Nat → State}
    {created : Nat × State} (h : k.Inv) (hrun : (k.tcb cur).state = .running)
    (hP : kind.pool = some P)
    (hnone : created.1 = 0 → Prepared k created.2 none)
    (hsome : created.1 ≠ 0 → Prepared k created.2 (some (P, created.1)))
    (hdiscard : ∀ k', Prepared k k' (some (P, created.1)) → Prepared k (discard k' created.1) none) :
    (grantFresh cur kind rights discard created).Inv := by
  unfold grantFresh
  split
  · rename_i h0
    exact (Prepared.inv h (hnone h0)).setA0 _ _
  · rename_i h0
    have hk := hsome h0
    have hroster := roster_insertCap created.2 cur kind created.1 rights 0
    split
    · rename_i k' heq
      rw [heq] at hroster
      have hsame := insertCap_error hk.counted heq
      refine (Prepared.inv h (hdiscard _ ⟨hsame.counted hk.counted, fun p i =>
        (hsame.entry p i).trans (hk.entry p i), hsame.life.trans hk.life, ?_, fun o ho => ?_⟩)).setA0 _ _
      · exact hk.waits.of_eq hroster (endpointSlab_of_ledger hsame.slab)
      · rw [hroster]
        exact hk.idle o ho
    · rename_i cap k' heq
      rw [heq] at hroster
      have hrange := hk.counted.fresh_unref P created.1 rfl
      have hins := insertCap_ok hk.counted (fun Q hQ => by
        rw [hP] at hQ
        cases hQ
        exact ⟨hrange.1, hrange.2.1⟩) heq
      have hproc : (created.2.tcb cur).process = (k.tcb cur).process :=
        congrFun (congrArg Life.process hk.life) cur
      rw [hproc] at hins
      have hlife : k'.ledger.life = k.ledger.life := hins.life.trans hk.life
      refine Inv.setA0 ⟨hins.counted_fresh hk.counted (h.process_le cur) hP,
        by rw [hlife]; exact h.life, fun s hs hu i => ?_,
        hk.waits.of_eq hroster (endpointSlab_of_inserted hins)⟩ _ _
      have hu : k.used s = false := (congrFun (congrArg Life.used hlife) s).symm.trans hu
      -- the cap went to a process that runs, not to a vacant slot
      have hne : ¬ (s + 1 = (k.tcb cur).process ∧ i = cap) := fun he =>
        h.life.not_open hs hu (he.1 ▸ open_of_running h.waits hrun)
      rw [hins.entry, if_neg hne, hk.entry]
      exact h.vacant s hs hu i

/-! ## Taking a slot -/

theorem Prepared.take (k₁ : State) {s : Slab} {n : Nat} {p : Pmm} (h : k.Inv) (hn : 0 < n)
    (hens : (k.ledger.slab P).ensureFree n k.pmm = (some s, p))
    (hcaps : k₁.ledger.caps = k.ledger.caps) (hlife : k₁.ledger.life = k.ledger.life)
    (hslab : k₁.ledger.slab = update k.ledger.slab P s.take.2) (hpmm : k₁.pmm = p)
    (hcount : k₁.ledger.count = (k.ledger.setCount P s.take.1 0).count) (hw : k₁.Waits)
    (hidle : P = .endpoint → k₁.roster.Idle s.take.1) :
    s.take.1 ≠ 0 ∧ Prepared k k₁ (some (P, s.take.1)) := by
  obtain ⟨hext, hp⟩ := Slab.ensureFree_some h.counted.pmm (h.counted.free_nodup P)
    (fun o ho => (h.counted.free_range P o ho).2) hens
  cases hfree : s.free with
  | nil => exact absurd hfree (Slab.ensureFree_ne_nil hn hens)
  | cons o rest =>
    have ho : s.take.1 = o := by simp [Slab.take, hfree]
    have hrest : s.take.2 = { s with free := rest } := by simp [Slab.take, hfree]
    rw [ho] at hcount hidle ⊢
    rw [hrest] at hslab
    have hc : k₁.ledger.Counted (some (P, o)) :=
      h.counted.take hext hfree hcaps (by rw [ledger_pmm, hpmm]; exact hp) hslab fun Q u => by
        rw [hcount, count_setCount]
    have hrange := hc.fresh_unref P o rfl
    refine ⟨by omega, hc, fun q i => by rw [Ledger.entry, hcaps]; rfl, hlife, hw, fun u hu => ?_⟩
    cases hu
    exact hidle rfl

theorem Prepared.no_slot {n : Nat} {p : Pmm} (h : k.Inv)
    (hens : (k.ledger.slab P).ensureFree n k.pmm = (none, p)) :
    Prepared k { k with pmm := p } none :=
  (Prepared.refl h).setPmm (Slab.ensureFree_none h.counted.pmm hens)

theorem Prepared.put (h : Prepared k k₁ (some (P, o))) (hl : k₂.ledger = k₁.ledger.putSlot P o)
    (hr : k₂.roster = k₁.roster) : Prepared k k₂ none := by
  have hslab : k₂.ledger.slab = update k₁.ledger.slab P ((k₁.ledger.slab P).put o) := by
    rw [hl]; rfl
  refine ⟨h.counted.put (by rw [hl]; rfl) (by rw [hl]; exact h.counted.pmm) hslab (by rw [hl]; rfl),
    fun p i => ?_, ?_, ⟨by rw [hr]; exact h.waits.sound, by rw [hr]; exact h.waits.failed,
      fun u hu hf => ?_⟩, fun _ hf => by cases hf⟩
  · rw [← h.entry p i, hl]
    rfl
  · rw [← h.life, hl]
    rfl
  · rw [hr]
    have hes : k₂.endpointSlab = (update k₁.ledger.slab P ((k₁.ledger.slab P).put o)) .endpoint :=
      congrFun hslab .endpoint
    by_cases hP : P = .endpoint
    · subst hP
      unfold EpFree at hf
      rw [hes] at hf
      rcases hf with hf | hf
      · rcases mem_cons.mp hf with rfl | hf
        · exact h.idle u rfl
        · exact h.waits.free u hu (.inl hf)
      · exact h.waits.free u hu (.inr hf)
    · rw [update_of_ne (Ne.symm hP)] at hes
      refine h.waits.free u hu ?_
      unfold EpFree at hf ⊢
      rwa [hes] at hf

/-! ## Endpoints -/

theorem roster_initializeEndpoint (hw : k.Waits) (ho : o ≠ 0) (hf : k.EpFree o) :
    (k.modEndpoint o initializeEndpoint).roster = k.roster.setEp o { k.roster.ep o with failed := false } := by
  obtain ⟨hhead, hrecv⟩ := hw.free o ho hf
  obtain ⟨l, hl⟩ := hw.sound.queue o ho
  have htail := hl.tail_eq_zero_iff.mpr (hl.eq_nil_iff.mpr hhead)
  rw [roster_modEndpoint]
  congr 1
  show EndpointIpc.mk 0 0 0 false = ⟨(k.roster.ep o).head, (k.roster.ep o).tail, (k.roster.ep o).receiver, false⟩
  rw [hhead, htail, hrecv]

theorem epFree_of_take {s : Slab} {n : Nat} {p : Pmm} (h : k.Inv) (hn : 0 < n)
    (hens : k.endpointSlab.ensureFree n k.pmm = (some s, p)) :
    s.take.1 ≠ 0 ∧ k.EpFree s.take.1 ∧ ∀ u, u ∈ s.take.2.free ∨ s.take.2.carved < u → k.EpFree u := by
  obtain ⟨hext, -⟩ := Slab.ensureFree_some h.counted.pmm (h.counted.free_nodup .endpoint)
    (fun o ho => (h.counted.free_range .endpoint o ho).2) hens
  have hmem : ∀ u, u ∈ s.free → k.EpFree u := fun u hu =>
    ((hext.mem_free u).mp hu).imp_right fun hu => hu.1
  cases hfree : s.free with
  | nil => exact absurd hfree (Slab.ensureFree_ne_nil hn hens)
  | cons o rest =>
    have ho : s.take.1 = o := by simp [Slab.take, hfree]
    have hrest : s.take.2 = { s with free := rest } := by simp [Slab.take, hfree]
    have hof : k.EpFree o := hmem o (by rw [hfree]; exact mem_cons_self)
    rw [ho, hrest]
    refine ⟨?_, hof, fun u hu => ?_⟩
    · rcases hof with hof | hof
      · have := (h.counted.free_range .endpoint o hof).1
        omega
      · omega
    · rcases hu with hu | hu
      · exact hmem u (by rw [hfree]; exact mem_cons_of_mem o hu)
      · exact .inr (Nat.lt_of_le_of_lt hext.carved_le hu)

theorem Waits.initializeEndpoint (k₁ : State) (hw : k.Waits) (ho : o ≠ 0) (hf : k.EpFree o)
    (hr : k₁.roster = (k.modEndpoint o State.initializeEndpoint).roster)
    (hfree : ∀ u, k₁.EpFree u → k.EpFree u) : k₁.Waits ∧ k₁.roster.Idle o := by
  rw [roster_initializeEndpoint hw ho hf] at hr
  have hidle : ∀ u, k.roster.Idle u → k₁.roster.Idle u := by
    intro u hu
    rw [hr]
    unfold Idle
    by_cases huo : u = o
    · subst huo
      rw [setEp_ep, update_self]
      exact hu
    · rw [setEp_ep, update_of_ne huo]
      exact hu
  refine ⟨⟨by rw [hr]; exact hw.sound.setFailed false, fun u hu hfail => ?_,
    fun u hu hf' => hidle u (hw.free u hu (hfree u hf'))⟩, hidle o (hw.free o ho hf)⟩
  refine hidle u (hw.failed u hu ?_)
  rw [hr] at hfail
  by_cases huo : u = o
  · subst huo
    simp at hfail
  · rwa [setEp_ep, update_of_ne huo] at hfail

theorem createEndpoint_prepared (h : k.Inv) : (k.createEndpoint.1 = 0 → Prepared k k.createEndpoint.2 none) ∧
    (k.createEndpoint.1 ≠ 0 → Prepared k k.createEndpoint.2 (some (.endpoint, k.createEndpoint.1))) := by
  unfold createEndpoint
  split
  · rename_i p heq
    exact ⟨fun _ => .no_slot (P := .endpoint) h heq, fun h0 => absurd rfl h0⟩
  · rename_i s p heq
    obtain ⟨h0, hf, hfree⟩ := epFree_of_take h (by decide) heq
    obtain ⟨hw, hidle⟩ := Waits.initializeEndpoint
      { k.modEndpoint s.take.1 initializeEndpoint with endpointSlab := s.take.2, pmm := p }
      h.waits h0 hf rfl hfree
    have hk := Prepared.take (P := .endpoint)
      { k.modEndpoint s.take.1 initializeEndpoint with endpointSlab := s.take.2, pmm := p }
      h (by decide) heq rfl rfl
      (by funext Q; cases Q <;> rfl) rfl
      ((by funext Q u; cases Q <;> rfl : _ = (k.modEndpoint s.take.1 initializeEndpoint).ledger.count).trans
        (congrArg Ledger.count (ledger_modEndpoint_count k s.take.1 initializeEndpoint)))
      hw fun _ => hidle
    exact ⟨fun e => absurd e hk.1, fun _ => hk.2⟩

theorem handleEpCreate_inv (h : k.Inv) (hrun : (k.tcb cur).state = .running) :
    (k.handleEpCreate cur).Inv := by
  obtain ⟨hnone, hsome⟩ := createEndpoint_prepared h
  refine grantFresh_inv h hrun rfl hnone hsome fun k' hk => ?_
  have hrange := hk.counted.fresh_unref .endpoint k.createEndpoint.1 rfl
  unfold discardEndpoint
  rw [if_neg (by omega)]
  exact hk.put (ledger_freeEndpoint _ _) rfl

/-! ## Notifications -/

theorem roster_initNotification (hw : k.Waits) (o : Nat) :
    (k.modNotification o fun _ => ⟨0, 0, 0, 0, true⟩).roster = k.roster :=
  roster_modNotification_same _ _ _ (hw.sound.ntfn o).symm

theorem createNotification_prepared (h : k.Inv) :
    (k.createNotification.1 = 0 → Prepared k k.createNotification.2 none) ∧
    (k.createNotification.1 ≠ 0 →
      Prepared k k.createNotification.2 (some (.notification, k.createNotification.1))) := by
  unfold createNotification
  split
  · rename_i p heq
    exact ⟨fun _ => .no_slot (P := .notification) h heq, fun h0 => absurd rfl h0⟩
  · rename_i s p heq
    let k₁ : State := { k.modNotification s.take.1 fun _ => ⟨0, 0, 0, 0, true⟩ with
      notificationSlab := s.take.2, pmm := p }
    have hroster : k₁.roster = k.roster := roster_initNotification h.waits _
    have hcount : k₁.ledger.count = (k.modNotification s.take.1 fun _ => ⟨0, 0, 0, 0, true⟩).ledger.count := by
      funext Q u; cases Q <;> rfl
    rw [ledger_modNotification_count] at hcount
    have hk := Prepared.take (P := .notification) k₁ h (by decide) heq rfl rfl
      (by funext Q; cases Q <;> rfl) rfl hcount (h.waits.of_eq hroster rfl) (by simp)
    exact ⟨fun e => absurd e hk.1, fun _ => hk.2⟩

theorem handleNtfnCreate_inv (h : k.Inv) (hrun : (k.tcb cur).state = .running) :
    (k.handleNtfnCreate cur).Inv := by
  obtain ⟨hnone, hsome⟩ := createNotification_prepared h
  refine grantFresh_inv h hrun rfl hnone hsome fun k' hk => ?_
  obtain ⟨h1, h2, -⟩ := hk.counted.fresh_unref .notification k.createNotification.1 rfl
  unfold discardNotification
  have hslot : k'.isNotificationSlot k.createNotification.1 = true := by
    unfold isNotificationSlot
    rw [Bool.and_eq_true, bne_iff_ne, decide_eq_true_eq]
    exact ⟨by omega, h2⟩
  rw [if_pos hslot]
  refine hk.put (ledger_freeNotification _ _) ?_
  show (k'.modNotification k.createNotification.1 fun n =>
    { n with inUse := false, waiting := 0 }).roster = k'.roster
  refine roster_modNotification_same _ _ _ ?_
  exact (hk.waits.sound.ntfn _).symm

/-! ## Devices -/

theorem allocateDevice_prepared (h : k.Inv) : (k.allocateDevice.1 = 0 → Prepared k k.allocateDevice.2 none) ∧
    (k.allocateDevice.1 ≠ 0 → Prepared k k.allocateDevice.2 (some (.device, k.allocateDevice.1))) := by
  unfold allocateDevice
  split
  · rename_i p heq
    exact ⟨fun _ => .no_slot (P := .device) h heq, fun h0 => absurd rfl h0⟩
  · rename_i s p heq
    let k₁ : State := { k.modDevice s.take.1 fun d => { d with count := 0 } with
      deviceSlab := s.take.2, pmm := p }
    have hroster : k₁.roster = k.roster :=
      roster_modDevice_same k s.take.1 (fun d => { d with count := 0 }) rfl
    have hcount : k₁.ledger.count = (k.modDevice s.take.1 fun d => { d with count := 0 }).ledger.count := by
      funext Q u; cases Q <;> rfl
    rw [ledger_modDevice_count] at hcount
    have hk := Prepared.take (P := .device) k₁ h (by decide) heq rfl rfl
      (by funext Q; cases Q <;> rfl) rfl hcount (h.waits.of_eq hroster rfl) (by simp)
    exact ⟨fun e => absurd e hk.1, fun _ => hk.2⟩

theorem Prepared.modDevice (h : Prepared k k₁ fresh) (o : Nat) (f : DeviceSlot → DeviceSlot)
    (hc : (f (k₁.device o)).count = (k₁.device o).count) (hwt : (f (k₁.device o)).waiter = 0) :
    Prepared k (k₁.modDevice o f) fresh := by
  have hl := ledger_modDevice k₁ o f hc
  exact h.frame (by rw [hl]) (by rw [hl]) (by rw [hl]) (by rw [hl]) h.counted.pmm
    (roster_modDevice_same _ _ _ (hwt.trans (h.waits.sound.line o).symm))

theorem Prepared.releaseDevice (h : Prepared k k₁ (some (.device, o))) :
    Prepared k (k₁.releaseDevice o) none := by
  have h0 : (k₁.device o).count = 0 := by
    obtain ⟨h1, h2, h3⟩ := h.counted.fresh_unref .device o rfl
    have := h.counted.count .device o h1 h2
    rw [h3] at this
    exact this
  unfold State.releaseDevice
  rw [if_pos h0]
  exact h.put (ledger_finalizeDevice _ _) (roster_finalizeDevice _ _)

theorem createMmio_prepared (h : k.Inv) (base length deviceId : U64) :
    ((k.createMmio base length deviceId).1 = 0 → Prepared k (k.createMmio base length deviceId).2 none) ∧
    ((k.createMmio base length deviceId).1 ≠ 0 → Prepared k (k.createMmio base length deviceId).2
      (some (.device, (k.createMmio base length deviceId).1))) := by
  obtain ⟨hnone, hsome⟩ := allocateDevice_prepared h
  unfold createMmio
  dsimp only
  split
  · exact ⟨hnone, hsome⟩
  · rename_i h0
    refine ⟨fun e => absurd e h0, fun _ => ?_⟩
    dsimp only
    refine Prepared.modDevice (hsome h0) _ _ ?_ ?_
    · rfl
    · exact (hsome h0).waits.sound.line _

theorem handleIoMap_inv (h : k.Inv) (hrun : (k.tcb cur).state = .running) (f : TrapFrame) :
    (k.handleIoMap cur f).Inv := by
  unfold handleIoMap
  split
  · exact h.setA0 _ _
  · split
    · exact h.setA0 _ _
    · obtain ⟨hnone, hsome⟩ := createMmio_prepared h f.a1 f.a2 (if f.a3 ≠ u64Last then f.a3 else noDevice)
      exact grantFresh_inv h hrun rfl hnone hsome fun k' hk => hk.releaseDevice

theorem createIrq_prepared (h : k.Inv) (source : U64) :
    ((k.createIrq source).1 = 0 → Prepared k (k.createIrq source).2 none) ∧
    ((k.createIrq source).1 ≠ 0 → Prepared k (k.createIrq source).2 (some (.device, (k.createIrq source).1))) := by
  obtain ⟨hnone, hsome⟩ := allocateDevice_prepared h
  unfold createIrq
  dsimp only
  split
  · exact ⟨hnone, hsome⟩
  · rename_i h0
    refine ⟨fun e => absurd e h0, fun _ => ?_⟩
    dsimp only
    refine Prepared.modDevice (hsome h0) _ _ ?_ ?_
    · rfl
    · rfl

theorem registerLine_prepared (h : Prepared k k₁ fresh) (o : Nat) :
    Prepared k (k₁.registerLine o).2 fresh := by
  unfold registerLine
  dsimp only
  split
  · exact h
  · split
    · exact h
    · have hd := h.modDevice o (fun d =>
        { d with
          pending := false, inFlight := false, waiter := 0, ntfn := 0, ntfnBadge := 0
          next := k₁.lines (k₁.device o).source.toNat }) rfl rfl
      refine hd.frame rfl rfl ?_ ?_ hd.counted.pmm rfl
      · funext Q u; cases Q <;> rfl
      · funext Q; cases Q <;> rfl

theorem grantLine_inv (h : k.Inv) (hrun : (k.tcb cur).state = .running) (source : U64) :
    (k.grantLine cur source).Inv := by
  obtain ⟨hnone, hsome⟩ := createIrq_prepared h source
  unfold grantLine
  dsimp only
  split
  · rename_i h0
    exact (Prepared.inv h (hnone h0)).setA0 _ _
  · rename_i h0
    have hk := registerLine_prepared (hsome h0) (k.createIrq source).1
    split
    · rename_i heq
      rw [heq] at hk
      exact (Prepared.inv h hk.releaseDevice).setA0 _ _
    · rename_i heq
      rw [heq] at hk
      exact grantFresh_inv h hrun rfl (fun e => absurd e h0) (fun _ => hk) fun k' hk' => hk'.releaseDevice

theorem handleIrqCreate_inv (h : k.Inv) (hrun : (k.tcb cur).state = .running) (f : TrapFrame) :
    (k.handleIrqCreate cur f).Inv := by
  unfold handleIrqCreate
  split
  · exact h.setA0 _ _
  · exact grantLine_inv h hrun _

theorem handleIrqMsiCreate_inv (h : k.Inv) (hrun : (k.tcb cur).state = .running) (f : TrapFrame)
    (vector : Option U64) : (k.handleIrqMsiCreate cur f vector).Inv := by
  unfold handleIrqMsiCreate
  split
  · exact h.setA0 _ _
  · split
    · exact h.setA0 _ _
    · exact grantLine_inv h hrun _

/-! ## Memory objects -/

theorem Prepared.modMemoryObject (h : Prepared k k₁ fresh) (o : Nat)
    (f : MemoryObject → MemoryObject) (hc : (f (k₁.memoryObject o)).count = (k₁.memoryObject o).count) :
    Prepared k (k₁.modMemoryObject o f) fresh := by
  refine h.frame rfl rfl ?_ ?_ h.counted.pmm rfl
  · funext Q u
    cases Q with
    | memory =>
      show ((k₁.modMemoryObject o f).memoryObject u).count = (k₁.memoryObject u).count
      by_cases hu : u = o
      · subst hu
        simpa [State.modMemoryObject] using hc
      · simp [State.modMemoryObject, hu]
    | _ => rfl
  · funext Q; cases Q <;> rfl

theorem allocateFrames_prepared (n index : Nat) (h : Prepared k k₁ fresh) :
    Prepared k (k₁.allocateFrames o index n).2 fresh := by
  induction n generalizing k₁ index with
  | zero => exact h
  | succ n ih =>
    unfold allocateFrames
    split
    · rename_i p heq
      have hp := (Pmm.allocateFrame_error h.counted.pmm heq).1
      dsimp only
      refine Prepared.modMemoryObject (h.setPmm hp) _ _ ?_
      rfl
    · rename_i frame p heq
      have hp := (Pmm.allocateFrame_ok h.counted.pmm heq).1
      refine ih _ (Prepared.modMemoryObject ?_ _ _ ?_)
      · exact (h.setPmm hp).frame rfl rfl rfl rfl hp rfl
      · rfl

theorem Prepared.discardMemory (h : Prepared k k₁ (some (.memory, o))) :
    Prepared k ((k₁.freeFrames o).freeMemorySlot o) none := by
  have hl := ledger_freeFrames k₁ o
  have hwf : ∀ (frames : Nat → Nat) (n index : Nat) (p : Pmm), p.Wf →
      (freeFramesFrom frames index n p).Wf := by
    intro frames n
    induction n with
    | zero => exact fun _ _ hp => hp
    | succ n ih => exact fun index p hp => ih _ _ (hp.deallocateFrame _)
  have hk : Prepared k (k₁.freeFrames o) (some (.memory, o)) := by
    refine h.frame (by rw [hl]; rfl) (by rw [hl]; rfl) (by rw [hl]; rfl) (by rw [hl]; rfl) ?_
      (roster_freeFrames _ _)
    rw [← ledger_pmm, hl]
    exact hwf _ _ _ _ h.counted.pmm
  exact hk.put (ledger_freeMemorySlot _ _) rfl

theorem createMemory_prepared (h : k.Inv) (pages : U64) :
    ((k.createMemory pages).1 = 0 → Prepared k (k.createMemory pages).2 none) ∧
    ((k.createMemory pages).1 ≠ 0 →
      Prepared k (k.createMemory pages).2 (some (.memory, (k.createMemory pages).1))) := by
  unfold createMemory
  split
  · exact ⟨fun _ => .refl h, fun h0 => absurd rfl h0⟩
  · split
    · rename_i p heq
      exact ⟨fun _ => .no_slot (P := .memory) h heq, fun h0 => absurd rfl h0⟩
    · rename_i s p heq
      dsimp only
      have hk : s.take.1 ≠ 0 ∧ Prepared k ({ k with memorySlab := s.take.2, pmm := p }.modMemoryObject s.take.1
            fun _ => ⟨0, pages.toNat, fun _ => 0⟩) (some (.memory, s.take.1)) := by
        refine Prepared.take (P := .memory) _ h (by decide) heq rfl rfl ?_ rfl ?_ ?_ (by simp)
        · funext Q; cases Q <;> rfl
        · funext Q u
          rw [count_setCount]
          cases Q with
          | memory =>
            by_cases hu : u = s.take.1
            · simp [State.modMemoryObject, ledger, poolCount, hu]
            · simp [State.modMemoryObject, ledger, poolCount, hu]
          | _ => simp; rfl
        · exact h.waits.of_eq rfl rfl
      have hall := allocateFrames_prepared (o := s.take.1) pages.toNat 0 hk.2
      split
      · rename_i heq'
        rw [heq'] at hall
        exact ⟨fun e => absurd e hk.1, fun _ => hall⟩
      · rename_i heq'
        rw [heq'] at hall
        exact ⟨fun _ => hall.discardMemory, fun h0 => absurd rfl h0⟩

theorem handleMemAlloc_inv (h : k.Inv) (hrun : (k.tcb cur).state = .running) (f : TrapFrame) :
    (k.handleMemAlloc cur f).Inv := by
  obtain ⟨hnone, hsome⟩ := createMemory_prepared h f.a0
  refine grantFresh_inv h hrun rfl hnone hsome fun k' hk => ?_
  have hrange := hk.counted.fresh_unref .memory (k.createMemory f.a0).1 rfl
  unfold State.discardMemory
  rw [if_neg (by omega)]
  exact hk.discardMemory

end State

end Aegir.Kernel
