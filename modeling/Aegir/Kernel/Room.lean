/-
  What still FITS: frames in the allocator, entries in a capability table.

  `HasFrames p n` is read off the state of the allocator: that many frames are in its free list, or lie between
  the bump pointer and the limit OUTSIDE the reserved ranges.  `HasRoom t p n` says that a table takes `n` more
  entries: it has the free handles, and the allocator a frame for each page that they need.  Every allocation,
  and every insert, uses up one; and they fail only where nothing is left.
-/
import Mathlib.Data.Finset.Card
import Aegir.Kernel.PmmRuns
import Aegir.Kernel.CapTableLaws

namespace Aegir.Kernel

open Aegir.Lib List Function

namespace Pmm

/-! ## Frames -/

variable {p p' : Pmm} {f g : Nat}

/-- The allocator can still give this frame. -/
def Grantable (p : Pmm) (f : Nat) : Prop :=
  p.isReady = true ∧ f % pageSize = 0 ∧
    (p.isInFreeList f = true ∨ p.nextFrame ≤ f ∧ f + pageSize ≤ p.limit ∧ ∀ r ∈ p.reserved, r.Outside f)

/-- It can give so many. -/
def HasFrames (p : Pmm) (n : Nat) : Prop := ∃ s : Finset Nat, s.card = n ∧ ∀ f ∈ s, p.Grantable f

theorem hasFrames_zero (p : Pmm) : p.HasFrames 0 := ⟨∅, rfl, nofun⟩

/-- The search skips a page only for a range that touches it. -/
theorem skipReserved_inside (hp : p.Wf) (h1 : p.nextFrame ≤ g) (h2 : g < p.skipReserved p.nextFrame 1) :
    ∃ r ∈ p.reserved, ¬ r.Outside g := by
  have hscan : ∀ fuel x, x + pageSize < 2 ^ 64 → x ≤ g → g < skipReservedFrom p.reserved 1 x fuel →
      ∃ r ∈ p.reserved, ¬ r.Outside g := by
    intro fuel
    induction fuel with
    | zero =>
      intro x _ hx hg
      have hg : g < x := hg
      omega
    | succ fuel ih =>
      intro x hlt hx hg
      unfold skipReservedFrom at hg
      split at hg
      · omega
      · rename_i r hfind
        have hmem : r ∈ p.reserved := mem_of_find?_eq_some hfind
        have hover := find?_some hfind
        have hsum : add64 x (1 * pageSize) = x + pageSize := by
          rw [Nat.one_mul]
          exact Nat.mod_eq_of_lt hlt
        simp only [hsum, Bool.and_eq_true, decide_eq_true_eq] at hover
        by_cases hin : g < r.last
        · refine ⟨r, hmem, fun hout => ?_⟩
          unfold ReservedRange.Outside at hout
          omega
        · exact ih r.last (hp.reserved_ok r hmem).2 (by omega) hg
  exact hscan _ _ hp.next_lt h1 h2

theorem isInFreeList_nil (hhead : p.freeListHead = 0) (g : Nat) : p.isInFreeList g = false := by
  unfold isInFreeList inFreeListFrom
  rw [if_pos hhead]

/-- The head of the free list goes. -/
theorem pop_grantable {ys : List Nat} (hready : p.isReady = true) (hl : p.FreeList (f :: ys))
    (hvalid : ∀ g ∈ f :: ys, p.validFrame g = true) (h : p.allocateFrame = (.ok f, p')) :
    p.Grantable f ∧ ∀ g, p'.Grantable g ↔ p.Grantable g ∧ g ≠ f := by
  obtain ⟨hhead, hne, hys⟩ := hl
  have hchain : IsChain 0 p.link p.freeListHead (f :: ys) := ⟨hhead, hne, hys⟩
  rw [allocateFrame_pop hready hne hhead] at h
  cases h
  have hnot : f ∉ ys := (nodup_cons.mp hchain.nodup).1
  obtain ⟨-, hlt, halign⟩ := validFrame_iff.mp (hvalid f mem_cons_self)
  have hpop := isInFreeList_iff (p := { p with
    freeListHead := p.link f, freeListCount := p.freeListCount - 1, link := update p.link f 0 })
    (hchain.pop fun z hz => update_of_ne hz _ _) fun g hg => hvalid g (mem_cons_of_mem _ hg)
  refine ⟨⟨hready, halign, .inl ((isInFreeList_iff hchain hvalid f).mpr mem_cons_self)⟩, fun g => ?_⟩
  unfold Grantable
  rw [hpop, isInFreeList_iff hchain hvalid, mem_cons]
  constructor
  · rintro ⟨hr, ha, hin | hbump⟩
    · exact ⟨⟨hr, ha, .inl (.inr hin)⟩, fun e => hnot (e ▸ hin)⟩
    · have hge : p.nextFrame ≤ g := hbump.1
      exact ⟨⟨hr, ha, .inr hbump⟩, by omega⟩
  · rintro ⟨⟨hr, ha, (rfl | hin) | hbump⟩, hgf⟩
    · exact absurd rfl hgf
    · exact ⟨hr, ha, .inl hin⟩
    · exact ⟨hr, ha, .inr hbump⟩

/-- The bump pointer passes the first page that no range touches. -/
theorem bump_grantable (hp : p.Wf) (hready : p.isReady = true) (hhead : p.freeListHead = 0)
    (h : p.allocateFrame = (.ok f, p')) : p.Grantable f ∧ ∀ g, p'.Grantable g ↔ p.Grantable g ∧ g ≠ f := by
  obtain ⟨hle, hal, hlt⟩ := skipReserved_spec hp 1
  have hinside := fun g => skipReserved_inside (g := g) hp
  have hclear := p.skipReserved_clear p.nextFrame 1
  rw [allocateFrame_bump hready hhead] at h
  generalize p.skipReserved p.nextFrame 1 = next at *
  have hsum : add64 next pageSize = next + pageSize := Nat.mod_eq_of_lt hlt
  rw [Nat.one_mul, hsum] at hclear
  rw [hsum] at h
  split at h
  · cases h
  rename_i hlimit
  cases h
  refine ⟨⟨hready, hal, .inr ⟨hle, by omega, hclear⟩⟩, fun g => ?_⟩
  unfold Grantable
  rw [isInFreeList_nil (p := { p with nextFrame := f + pageSize }) hhead, isInFreeList_nil hhead]
  have hps : 0 < pageSize := by decide
  constructor
  · rintro ⟨hr, ha, hno | ⟨hge, hg, hout⟩⟩
    · cases hno
    · have hge : f + pageSize ≤ g := hge
      exact ⟨⟨hr, ha, .inr ⟨by omega, hg, hout⟩⟩, by omega⟩
  · rintro ⟨⟨hr, ha, hno | ⟨hge, hg, hout⟩⟩, hgf⟩
    · cases hno
    · have hskip : f ≤ g := by
        by_contra hlt'
        obtain ⟨r, hmem, hno⟩ := hinside g hge (by omega)
        exact hno (hout r hmem)
      refine ⟨hr, ha, .inr ⟨?_, hg, hout⟩⟩
      show f + pageSize ≤ g
      by_contra hlt'
      exact hgf (Nat.le_antisymm (aligned_le hal ha (by omega)) hskip)

/-- **A frame that is given was grantable, and no other frame is lost.** -/
theorem allocateFrame_grantable (hp : p.Wf) (h : p.allocateFrame = (.ok f, p')) :
    p.Grantable f ∧ ∀ g, p'.Grantable g ↔ p.Grantable g ∧ g ≠ f := by
  obtain ⟨l, hl, hvalid⟩ := hp.freeList
  have hready : p.isReady = true := by
    cases hr : p.isReady with
    | true => rfl
    | false => simp [allocateFrame, hr] at h
  cases l with
  | nil => exact bump_grantable hp hready hl h
  | cons y ys =>
    have hpop := allocateFrame_pop hready hl.2.1 hl.1
    rw [hpop] at h
    cases h
    exact pop_grantable hready hl hvalid hpop

/-- **The allocator refuses only when no frame is left.** -/
theorem allocateFrame_refused (hp : p.Wf) {e : PmmStatus} (h : p.allocateFrame = (.error e, p')) (g : Nat) :
    ¬ p.Grantable g := by
  rintro ⟨hready, -, hg⟩
  by_cases hhead : p.freeListHead = 0
  · rw [isInFreeList_nil hhead] at hg
    obtain ⟨hge, hlimit, hout⟩ := hg.resolve_left Bool.false_ne_true
    have hskip : p.skipReserved p.nextFrame 1 ≤ g := by
      by_contra hlt
      obtain ⟨r, hmem, hno⟩ := skipReserved_inside hp hge (by omega)
      exact hno (hout r hmem)
    have hsum : add64 (p.skipReserved p.nextFrame 1) pageSize = p.skipReserved p.nextFrame 1 + pageSize :=
      Nat.mod_eq_of_lt (skipReserved_spec hp 1).2.2
    rw [allocateFrame_bump hready hhead, hsum, if_neg (by omega)] at h
    cases h
  · rw [allocateFrame_pop hready hhead rfl] at h
    cases h

theorem hasFrames_succ (hp : p.Wf) (h : p.allocateFrame = (.ok f, p')) (n : Nat) :
    p.HasFrames (n + 1) ↔ p'.HasFrames n := by
  obtain ⟨hf, hrest⟩ := allocateFrame_grantable hp h
  constructor
  · rintro ⟨s, hcard, hs⟩
    have hle : n ≤ (s.erase f).card := by
      have := Finset.pred_card_le_card_erase (a := f) (s := s)
      omega
    obtain ⟨t, hts, ht⟩ := Finset.exists_subset_card_eq hle
    refine ⟨t, ht, fun g hg => (hrest g).mpr ?_⟩
    obtain ⟨hne, hg⟩ := Finset.mem_erase.mp (hts hg)
    exact ⟨hs g hg, hne⟩
  · rintro ⟨s, hcard, hs⟩
    have hnot : f ∉ s := fun hm => ((hrest f).mp (hs f hm)).2 rfl
    refine ⟨insert f s, by rw [Finset.card_insert_of_notMem hnot, hcard], fun g hg => ?_⟩
    rcases Finset.mem_insert.mp hg with rfl | hg
    · exact hf
    · exact ((hrest g).mp (hs g hg)).1

theorem not_hasFrames (hp : p.Wf) {e : PmmStatus} (h : p.allocateFrame = (.error e, p')) (n : Nat) :
    ¬ p.HasFrames (n + 1) := by
  rintro ⟨s, hcard, hs⟩
  obtain ⟨g, hg⟩ := Finset.card_pos.mp (show 0 < s.card by omega)
  exact allocateFrame_refused hp h g (hs g hg)

end Pmm

namespace CapTable

/-! ## Entries of a table -/

variable {t t' : CapTable} {p p' : Pmm} {cap object : Nat} {kind : ObjectKind} {rights : Rights} {badge : U64}

/-- The free handles, lowest first. -/
def freeHandles (t : CapTable) : List Nat := (range' 1 handleLast).filter fun cap => !(t.get cap).valid

/-- The pages of these handles that the table has no frame for. -/
def absentPages (t : CapTable) (caps : List Nat) : Finset Nat :=
  (caps.map pageNo).toFinset.filter fun page => t.root page = 0

/-- **The table takes `n` more entries.** -/
def HasRoom (t : CapTable) (p : Pmm) (n : Nat) : Prop :=
  n ≤ t.freeHandles.length ∧ p.HasFrames (t.absentPages (t.freeHandles.take n)).card

theorem lowestFree_eq (t : CapTable) (start n : Nat) :
    t.lowestFree start n = ((range' start n).filter fun cap => !(t.get cap).valid).head? := by
  induction n generalizing start with
  | zero => rfl
  | succ n ih =>
    rw [lowestFree, range'_succ, filter_cons, ih]
    cases (t.get start).valid <;> rfl

/-- An insert takes the first of the free handles. -/
theorem insert_freeHandles (ht : t.Wf) (hp : p.Wf)
    (h : t.insert kind object rights badge p = (.ok cap, t', p')) : t.freeHandles = cap :: t'.freeHandles := by
  obtain ⟨hlow, -, -⟩ := insert_eq_ok h
  obtain ⟨-, -, -, -, hget, -, -⟩ := insert_ok ht hp h
  rw [lowestFree_eq] at hlow
  obtain ⟨rest, hrest⟩ := head?_eq_some_iff.mp hlow
  have hfree : t.freeHandles = cap :: rest := hrest
  have hnodup : t.freeHandles.Nodup := Nodup.filter _ nodup_range'
  have hnew : t'.freeHandles = t.freeHandles.filter fun c => c ≠ cap := by
    unfold freeHandles
    rw [filter_filter, hget]
    refine filter_congr fun c _ => ?_
    by_cases hc : c = cap
    · subst hc
      simp
    · simp [hc]
  rw [hfree] at hnodup
  rw [hnew, hfree, filter_cons_of_neg (by simp)]
  refine congrArg _ (filter_eq_self.mpr fun c hc => ?_).symm
  exact decide_eq_true fun e : c = cap => (nodup_cons.mp hnodup).1 (e ▸ hc)

theorem absentPages_cons (t : CapTable) (cap : Nat) (caps : List Nat) :
    t.absentPages (cap :: caps) = if t.root (pageNo cap) = 0 then Insert.insert (pageNo cap) (t.absentPages caps)
      else t.absentPages caps := by
  unfold absentPages
  rw [map_cons, toFinset_cons, Finset.filter_insert]

/-- **An insert uses up one**: a handle, and a frame if its page was absent. -/
theorem insert_room (ht : t.Wf) (hp : p.Wf)
    (h : t.insert kind object rights badge p = (.ok cap, t', p')) (n : Nat) :
    t'.HasRoom p' n ↔ t.HasRoom p (n + 1) := by
  have hfree := insert_freeHandles ht hp h
  obtain ⟨-, -, hat⟩ := insert_eq_ok h
  unfold HasRoom
  rw [hfree, length_cons, take_succ_cons, absentPages_cons]
  refine and_congr (by omega) ?_
  unfold insertAt at hat
  split at hat
  · cases hat
  split at hat
  · cases hat
  split at hat
  · cases hat
  split at hat
  · rename_i t1 p1 hens
    cases hat
    unfold ensurePage at hens
    split at hens
    · -- the page is there
      rename_i hroot
      cases hens
      rw [if_neg hroot]
      exact Iff.rfl
    · rename_i hroot
      split at hens
      · cases hens
      · rename_i frame q halloc
        cases hens
        rw [if_pos (not_not.mp hroot)]
        have hne : frame ≠ 0 := (Pmm.allocateFrame_ok hp halloc).2.1
        -- of the new table the page is not absent any more
        have hpages : ∀ caps, absentPages { t with root := update t.root (pageNo cap) frame } caps =
            (t.absentPages caps).erase (pageNo cap) := by
          intro caps
          ext page
          unfold absentPages
          simp only [Finset.mem_erase, Finset.mem_filter]
          by_cases hpage : page = pageNo cap
          · subst hpage
            simp [hne]
          · simp [hpage]
        have hcard : ∀ s : Finset Nat, (Insert.insert (pageNo cap) s).card = (s.erase (pageNo cap)).card + 1 := by
          intro s
          rw [← Finset.card_insert_of_notMem (Finset.notMem_erase (pageNo cap) s)]
          refine congrArg Finset.card (Finset.ext fun page => ?_)
          simp only [Finset.mem_insert, Finset.mem_erase]
          tauto
        rw [hcard, Pmm.hasFrames_succ hp halloc, ← hpages]
        exact Iff.rfl
  · rename_i hne _
    cases hat
    exact absurd rfl hne

/-- **An insert fails only where there is no room.** -/
theorem not_hasRoom (hp : p.Wf) (hkind : kind ≠ .nullObject) (hobject : object ≠ 0) {s : CapStatus}
    (h : t.insert kind object rights badge p = (.error s, t', p')) (n : Nat) : ¬ t.HasRoom p (n + 1) := by
  rintro ⟨hlen, hframes⟩
  unfold insert at h
  rw [if_neg (by simp [hkind, hobject])] at h
  split at h
  · rename_i hnone
    rw [lowestFree_eq, head?_eq_none_iff] at hnone
    have hnil : t.freeHandles = [] := hnone
    rw [hnil] at hlen
    cases hlen
  · rename_i cap hlow
    rw [lowestFree_eq] at hlow
    obtain ⟨rest, hrest⟩ := head?_eq_some_iff.mp hlow
    have hfree : t.freeHandles = cap :: rest := hrest
    rw [hfree, take_succ_cons, absentPages_cons] at hframes
    split at h
    · cases h
    · rename_i s' t1 p1 hne hens
      cases h
      unfold ensurePage at hens
      split at hens
      · cases hens
        exact hne rfl
      · rename_i hroot
        split at hens
        · rename_i halloc
          rw [if_pos (not_not.mp hroot)] at hframes
          obtain ⟨m, hm⟩ := Nat.exists_eq_succ_of_ne_zero
            (Finset.card_ne_zero.mpr (Finset.insert_nonempty (pageNo cap) (t.absentPages (rest.take n))))
          rw [hm] at hframes
          exact Pmm.not_hasFrames hp halloc m hframes
        · cases hens
          exact hne rfl

end CapTable

end Aegir.Kernel
