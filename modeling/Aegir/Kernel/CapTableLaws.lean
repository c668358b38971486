/-
  The capability table as a FUNCTION from handles to entries.

  Behind `get` the table is paged, and its pages come and go with their entries.  `CapTable.Wf` says
  that the page counters are exact; under it every operation is what it looks like from outside:
  an insert updates one entry, a close nulls one entry, a failed operation changes nothing.
-/
import Aegir.Lib.Counting
import Aegir.Kernel.Capabilities
import Aegir.Kernel.PmmLaws

namespace Aegir.Kernel

open Aegir.Lib Function

namespace CapTable

variable {t t' : CapTable} {page : Nat}

/-- The number of valid entries in a page. -/
def validIn (t : CapTable) (page : Nat) : Nat :=
  refs (Finset.range (handleLast + 1)) (fun h => (pageNo h, t.get h))
    fun v => v.1 = page ∧ v.2.valid = true

/-- The table's invariant: valid entries have handles in range, invalid ones read as null, and every
    page counts its valid entries. -/
structure Wf (t : CapTable) : Prop where
  handle : ∀ h, (t.get h).valid = true → 1 ≤ h ∧ h ≤ handleLast
  null : ∀ h, (t.get h).valid = false → t.get h = nullCap
  count : ∀ page, t.count page = t.validIn page

theorem get_empty (h : Nat) : empty.get h = nullCap := rfl

theorem validIn_of_get_eq (h : t'.get = t.get) (page : Nat) : t'.validIn page = t.validIn page := by
  unfold validIn
  rw [h]

theorem validIn_eq_zero_iff :
    t.validIn page = 0 ↔ ∀ h, h ≤ handleLast → pageNo h = page → (t.get h).valid = false := by
  unfold validIn
  rw [refs_eq_zero_iff]
  simp only [Finset.mem_range, not_and, Bool.not_eq_true]
  exact ⟨fun h i hi => h i (by omega), fun h i hi => h i (by omega)⟩

theorem wf_empty : empty.Wf := by
  refine ⟨fun h hv => ?_, fun h _ => rfl, fun page => ?_⟩
  · rw [get_empty] at hv
    cases hv
  · exact (validIn_eq_zero_iff.mpr fun _ _ _ => rfl).symm

theorem Wf.of_get_eq (ht : t.Wf) (h : t'.get = t.get) (hc : t'.count = t.count) :
    t'.Wf := by
  refine ⟨fun i hi => ht.handle i (h ▸ hi), fun i hi => ?_, fun page => ?_⟩
  · rw [h] at hi ⊢
    exact ht.null i hi
  · rw [hc, validIn_of_get_eq h]
    exact ht.count page

/-! ## Pages -/

variable {p p' : Pmm} {s : CapStatus} {cap : Nat} {e : CapEntry}

theorem ensurePage_ok (hp : p.Wf) (h : t.ensurePage page p = (.ok, t', p')) :
    t'.root page ≠ 0 ∧ t'.get = t.get ∧ t'.count = t.count ∧ p'.Wf := by
  unfold ensurePage at h
  split at h
  · rename_i hroot
    cases h
    exact ⟨hroot, rfl, rfl, hp⟩
  · rename_i hroot
    split at h
    · cases h
    · rename_i frame p'' halloc
      cases h
      obtain ⟨hp', hne, -⟩ := Pmm.allocateFrame_ok hp halloc
      refine ⟨by simpa using hne, ?_, rfl, hp'⟩
      funext i
      by_cases hi : pageNo i = page
      · simp [get, hi, hroot, hne]
      · simp [get, hi]

theorem ensurePage_error (hp : p.Wf) (hs : s ≠ .ok) (h : t.ensurePage page p = (s, t', p')) : t' = t ∧ p'.Wf := by
  unfold ensurePage at h
  split at h
  · cases h
    exact absurd rfl hs
  · split at h
    · rename_i halloc
      cases h
      exact ⟨rfl, (Pmm.allocateFrame_error hp halloc).1⟩
    · cases h
      exact absurd rfl hs

theorem get_putNew (hroot : t.root (pageNo cap) ≠ 0) (e : CapEntry) :
    (t.putNew cap e).get = update t.get cap e := by
  funext i
  by_cases hi : i = cap
  · subst hi
    simp [get, putNew, hroot]
  · simp [get, putNew, hi]

theorem Wf.putNew (ht : t.Wf) (hroot : t.root (pageNo cap) ≠ 0) (h1 : 1 ≤ cap) (h2 : cap ≤ handleLast)
    (hnull : (t.get cap).valid = false) (he : e.valid = true) : (t.putNew cap e).Wf := by
  have hget := get_putNew hroot e
  refine ⟨fun i hi => ?_, fun i hi => ?_, fun page => ?_⟩
  · by_cases hic : i = cap
    · exact hic ▸ ⟨h1, h2⟩
    · rw [hget, update_of_ne hic] at hi
      exact ht.handle i hi
  · by_cases hic : i = cap
    · rw [hget, hic, update_self] at hi
      rw [he] at hi
      cases hi
    · rw [hget, update_of_ne hic] at hi ⊢
      exact ht.null i hi
  · unfold validIn
    rw [hget]
    by_cases hpage : page = pageNo cap
    · subst hpage
      rw [refs_gain (i := cap) (f := fun h => (pageNo h, t.get h)) (by simp; omega)
        (by simp [hnull]) (by simp [he]) fun j hj => by simp [hj]]
      show update t.count _ _ _ = _
      rw [update_self, ht.count]
      rfl
    · rw [refs_keep (i := cap) (f := fun h => (pageNo h, t.get h)) (by simp [Ne.symm hpage])
        fun j hj => by simp [hj]]
      show update t.count _ _ _ = _
      rw [update_of_ne hpage, ht.count]
      rfl

/-! ## Insert -/

variable {object : Nat} {rights : Rights} {badge : U64} {kind : ObjectKind}

theorem lowestFree_some {start n : Nat} (h : t.lowestFree start n = some cap) :
    start ≤ cap ∧ cap < start + n ∧ (t.get cap).valid = false := by
  induction n generalizing start with
  | zero => cases h
  | succ n ih =>
    unfold lowestFree at h
    split at h
    · obtain ⟨h1, h2, h3⟩ := ih h
      exact ⟨by omega, by omega, h3⟩
    · rename_i hv
      cases h
      exact ⟨Nat.le_refl _, by omega, by simpa using hv⟩

/-- **`Insert_At` that succeeds.** -/
theorem insertAt_ok (ht : t.Wf) (hp : p.Wf) (hcap : cap ≤ handleLast)
    (h : t.insertAt cap kind object rights badge p = (.ok, t', p')) :
    object ≠ 0 ∧ 1 ≤ cap ∧ (t.get cap).valid = false ∧
      t'.get = update t.get cap ⟨true, kind, object, rights, badge⟩ ∧ t'.Wf ∧ p'.Wf := by
  unfold insertAt at h
  split at h
  · cases h
  · rename_i h0
    split at h
    · cases h
    · rename_i hko
      split at h
      · cases h
      · rename_i hocc
        have hnull : (t.get cap).valid = false := by
          by_cases hroot : t.root (pageNo cap) = 0
          · simp [get, hroot, nullCap]
          · by_contra hv
            exact hocc ⟨hroot, by simpa using hv⟩
        split at h
        · rename_i t1 p1 hpage
          cases h
          obtain ⟨hroot, hget, hcount, hp1⟩ := ensurePage_ok hp hpage
          have hnull' : (t1.get cap).valid = false := by rw [hget]; exact hnull
          refine ⟨fun e => hko (.inr e), by omega, hnull, ?_, ?_, hp1⟩
          · rw [get_putNew hroot, hget]
          · exact (ht.of_get_eq hget hcount).putNew hroot (by omega) hcap hnull' rfl
        · rename_i s t1 p1 hne hpage
          cases h
          exact absurd rfl hne

theorem insertAt_error (hp : p.Wf) (hs : s ≠ .ok)
    (h : t.insertAt cap kind object rights badge p = (s, t', p')) : t' = t ∧ p'.Wf := by
  unfold insertAt at h
  split at h
  · cases h
    exact ⟨rfl, hp⟩
  · split at h
    · cases h
      exact ⟨rfl, hp⟩
    · split at h
      · cases h
        exact ⟨rfl, hp⟩
      · split at h
        · cases h
          exact absurd rfl hs
        · rename_i s' t1 p1 hne hpage
          cases h
          exact ensurePage_error hp hne hpage

/-- **`Insert` is `Insert_At` at the lowest free handle.** -/
theorem insert_cases (t : CapTable) (kind : ObjectKind) (object : Nat) (rights : Rights) (badge : U64) (p : Pmm) :
    (∃ s, t.insert kind object rights badge p = (.error s, t, p)) ∨
      ∃ cap, t.lowestFree 1 handleLast = some cap ∧ t.insert kind object rights badge p =
        match t.insertAt cap kind object rights badge p with
        | (.ok, t', p') => (.ok cap, t', p')
        | (s, t', p') => (.error s, t', p') := by
  unfold insert
  split
  · exact .inl ⟨_, rfl⟩
  · rename_i hko
    split
    · exact .inl ⟨_, rfl⟩
    · rename_i cap hfree
      obtain ⟨h1, -, hnull⟩ := lowestFree_some hfree
      refine .inr ⟨cap, hfree, ?_⟩
      unfold insertAt
      rw [if_neg (Nat.ne_of_gt h1), if_neg hko, if_neg (by simp [hnull])]
      cases t.ensurePage (pageNo cap) p with
      | mk s r => cases s <;> rfl

theorem insert_eq_ok (h : t.insert kind object rights badge p = (.ok cap, t', p')) :
    t.lowestFree 1 handleLast = some cap ∧ cap ≤ handleLast ∧ t.insertAt cap kind object rights badge p = (.ok, t', p') := by
  rcases insert_cases t kind object rights badge p with ⟨s, heq⟩ | ⟨c, hfree, heq⟩ <;> rw [heq] at h
  · cases h
  · obtain ⟨-, hlt, -⟩ := lowestFree_some hfree
    split at h <;> cases h
    exact ⟨hfree, by omega, ‹_›⟩

/-- **`Insert` that succeeds.**  One free handle gets the entry. -/
theorem insert_ok (ht : t.Wf) (hp : p.Wf) (h : t.insert kind object rights badge p = (.ok cap, t', p')) :
    object ≠ 0 ∧ 1 ≤ cap ∧ cap ≤ handleLast ∧ (t.get cap).valid = false ∧
      t'.get = update t.get cap ⟨true, kind, object, rights, badge⟩ ∧ t'.Wf ∧ p'.Wf := by
  obtain ⟨-, hcap, hat⟩ := insert_eq_ok h
  obtain ⟨ho, h1, hrest⟩ := insertAt_ok ht hp hcap hat
  exact ⟨ho, h1, hcap, hrest⟩

/-! ## Close -/

theorem lookup_eq_some (h : t.lookup cap = some e) : cap ≠ 0 ∧ t.get cap = e ∧ e.valid = true := by
  unfold lookup at h
  split at h
  · cases h
  · rename_i hc
    injection h with h
    rw [not_or] at hc
    exact ⟨hc.1, h, by rw [← h]; simpa using hc.2⟩

/-- **`Close` of a valid entry.** -/
theorem close_valid (cap : Nat) (ht : t.Wf) (hp : p.Wf) (hv : (t.get cap).valid = true) :
    (t.close cap p).1 = .ok ∧ (t.close cap p).2.1.get = update t.get cap nullCap ∧
      (t.close cap p).2.1.Wf ∧ (t.close cap p).2.2.Wf := by
  obtain ⟨h1, h2⟩ := ht.handle cap hv
  have hroot : t.root (pageNo cap) ≠ 0 := by
    intro h0
    simp [get, h0, nullCap] at hv
  -- the table with the entry nulled and counted out, its page still there
  let t1 : CapTable := { t with
    slots := update t.slots cap nullCap
    count := update t.count (pageNo cap) (t.count (pageNo cap) - 1)
    total := t.total - 1 }
  have hget1 : t1.get = update t.get cap nullCap := by
    funext i
    by_cases hi : i = cap
    · subst hi
      simp [t1, get, hroot]
    · simp [t1, get, hi]
  have hwf1 : t1.Wf := by
    refine ⟨fun i hi => ?_, fun i hi => ?_, fun page => ?_⟩
    · by_cases hic : i = cap
      · exact hic ▸ ⟨h1, h2⟩
      · rw [hget1, update_of_ne hic] at hi
        exact ht.handle i hi
    · by_cases hic : i = cap
      · rw [hget1, hic, update_self]
      · rw [hget1, update_of_ne hic] at hi ⊢
        exact ht.null i hi
    · unfold validIn
      rw [hget1]
      by_cases hpage : page = pageNo cap
      · subst hpage
        have hlose := refs_lose (S := Finset.range (handleLast + 1)) (i := cap)
          (f := fun h => (pageNo h, t.get h))
          (g := fun h => (pageNo h, update t.get cap nullCap h))
          (R := fun v => v.1 = pageNo cap ∧ v.2.valid = true)
          (by simp; omega) (by simp [hv]) (by simp [nullCap]) fun j hj => by simp [hj]
        have hcount : t.count (pageNo cap) = _ := ht.count (pageNo cap)
        show update t.count (pageNo cap) (t.count (pageNo cap) - 1) (pageNo cap) = _
        rw [update_self, hcount]
        unfold validIn
        omega
      · rw [refs_keep (i := cap) (f := fun h => (pageNo h, t.get h)) (by simp [Ne.symm hpage])
          fun j hj => by simp [hj]]
        show update t.count _ _ _ = _
        rw [update_of_ne hpage, ht.count]
        rfl
  have hclose : t.close cap p =
      if t1.count (pageNo cap) = 0 then (.ok, t1.releasePage (pageNo cap) p) else (.ok, t1, p) := by
    unfold close
    rw [if_neg (by simp [hv]; omega)]
  rw [hclose]
  split
  · -- the last entry of the page: nothing valid is lost with it
    rename_i hzero
    have hnone := validIn_eq_zero_iff.mp ((hwf1.count (pageNo cap)).symm.trans hzero)
    have hget2 : (t1.releasePage (pageNo cap) p).1.get = t1.get := by
      funext i
      by_cases hi : pageNo i = pageNo cap
      · have hinv : (t1.get i).valid = false := by
          by_contra hv'
          have hv' : (t1.get i).valid = true := by simpa using hv'
          rw [hnone i (hwf1.handle i hv').2 hi] at hv'
          cases hv'
        rw [hwf1.null i hinv]
        simp [releasePage, get, hi]
      · simp [releasePage, get, hi]
    exact ⟨rfl, hget2.trans hget1, hwf1.of_get_eq hget2 rfl, hp.deallocateFrame _⟩
  · exact ⟨rfl, hget1, hwf1, hp⟩

theorem close_invalid (hv : (t.get cap).valid = false) : t.close cap p = (.invalidCap, t, p) := by
  unfold close
  rw [if_pos (.inr hv)]

/-! ## Reset -/

theorem resetPages_spec (n page : Nat) (t : CapTable) (p : Pmm) (hp : p.Wf) :
    (t.resetPages p page n).2.Wf ∧ (t.resetPages p page n).1.slots = t.slots ∧
    ∀ i, (t.resetPages p page n).1.root i = if page ≤ i ∧ i < page + n then 0 else t.root i := by
  induction n generalizing page t p with
  | zero => exact ⟨hp, rfl, fun i => by rw [if_neg (by omega)]; rfl⟩
  | succ n ih =>
    unfold resetPages
    split
    · obtain ⟨hp', hslots, hroot⟩ := ih (page + 1) (t.releasePage page p).1
        (t.releasePage page p).2 (hp.deallocateFrame _)
      refine ⟨hp', hslots, fun i => (hroot i).trans ?_⟩
      by_cases hi : i = page
      · subst hi
        simp [releasePage]
      · simp only [releasePage, update_of_ne hi]
        exact if_congr (by omega) rfl rfl
    · rename_i h0
      obtain ⟨hp', hslots, hroot⟩ := ih (page + 1) t p hp
      refine ⟨hp', hslots, fun i => (hroot i).trans ?_⟩
      by_cases hi : i = page
      · subst hi
        have h0 : t.root i = 0 := by simpa using h0
        simp [h0]
      · exact if_congr (by omega) rfl rfl

theorem wf_of_get_null (h : t.get = fun _ => nullCap) (hc : t.count = fun _ => 0) :
    t.Wf := by
  refine wf_empty.of_get_eq (h.trans ?_) (hc.trans rfl)
  funext i
  exact (get_empty i).symm

/-- **`Reset`**: the table reads as empty. -/
theorem reset_spec (ht : t.Wf) (hp : p.Wf) :
    ((t.reset p).1.get = fun _ => nullCap) ∧ (t.reset p).1.Wf ∧ (t.reset p).2.Wf := by
  obtain ⟨hp', hslots, hroot⟩ := resetPages_spec tablePages 0 t p hp
  have hget : (t.reset p).1.get = fun _ => nullCap := by
    funext h
    show (if (t.resetPages p 0 tablePages).1.root (pageNo h) = 0 then nullCap
      else (t.resetPages p 0 tablePages).1.slots h) = nullCap
    rw [hroot, hslots]
    by_cases hpage : 0 ≤ pageNo h ∧ pageNo h < 0 + tablePages
    · rw [if_pos hpage, if_pos rfl]
    · -- a page past the table is left over, and it reads as null already
      rw [if_neg hpage]
      refine ht.null h ?_
      by_contra hv
      have hh := (ht.handle h (by simpa using hv)).2
      refine hpage ⟨Nat.zero_le _, ?_⟩
      unfold pageNo capsPerPage tablePages
      unfold handleLast at hh
      omega
  exact ⟨hget, wf_of_get_null hget rfl, hp'⟩

end CapTable

end Aegir.Kernel
