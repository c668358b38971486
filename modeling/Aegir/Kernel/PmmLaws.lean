/-
  The frame allocator keeps its invariant and never hands out a frame twice.

  `Pmm.Wf` is the allocator's own invariant: the free list is a chain of aligned frames below the
  bump pointer, and no sum of the bump pointer wraps.  `p.Available f` says that the allocator still
  has `f` to give: `f` is on the free list or at or above the bump pointer.

  * an allocation takes ONE available frame away and makes nothing available;
  * a deallocation, whatever its argument, makes at most its argument available.
-/
import Mathlib.Data.Finset.Card
import Aegir.Lib.Chain
import Aegir.Kernel.PhysicalMemory

open Function (update update_of_ne update_self)

namespace Aegir.Kernel

open Aegir.Lib List

namespace Pmm

/-- The frames of the free list, in order. -/
def FreeList (p : Pmm) (l : List Nat) : Prop := IsChain 0 p.link p.freeListHead l

/-- The allocator's invariant. -/
structure Wf (p : Pmm) : Prop where
  base_pos : 0 < p.baseFrame
  base_le : p.baseFrame ≤ p.nextFrame
  next_aligned : p.nextFrame % pageSize = 0
  next_lt : p.nextFrame + pageSize < 2 ^ 64
  limit_lt : p.limit + pageSize < 2 ^ 64
  reserved_ok : ∀ r ∈ p.reserved, r.last % pageSize = 0 ∧ r.last + pageSize < 2 ^ 64
  freeList : ∃ l, p.FreeList l ∧ ∀ f ∈ l, p.validFrame f = true

/-- The allocator may still hand out this frame. -/
def Available (p : Pmm) (f : Nat) : Prop :=
  f % pageSize = 0 ∧ (p.isInFreeList f = true ∨ p.nextFrame ≤ f)

theorem validFrame_iff {p : Pmm} {f : Nat} :
    p.validFrame f = true ↔ p.baseFrame ≤ f ∧ f < p.nextFrame ∧ f % pageSize = 0 := by
  simp [validFrame, and_assoc]

theorem aligned_le {f g : Nat} (hf : f % pageSize = 0) (hg : g % pageSize = 0) (h : g < f + pageSize) : g ≤ f := by
  unfold pageSize at *
  omega

/-! ## The walk of the free list -/

theorem inFreeListFrom_iff {link : Nat → Nat} {head : Nat} {l : List Nat} (f fuel : Nat)
    (hl : IsChain 0 link head l) (hfuel : l.length ≤ fuel) :
    inFreeListFrom link f head fuel = true ↔ f ∈ l := by
  induction l generalizing head fuel with
  | nil =>
    have hhead : head = 0 := hl
    subst hhead
    cases fuel <;> simp [inFreeListFrom]
  | cons y ys ih =>
    obtain ⟨rfl, hne, hys⟩ := hl
    cases fuel with
    | zero => cases hfuel
    | succ fuel =>
      have hrest := ih fuel hys (Nat.le_of_succ_le_succ hfuel)
      by_cases hyf : head = f
      · subst hyf
        simp [inFreeListFrom, hne]
      · simp [inFreeListFrom, hne, hyf, hrest, Ne.symm hyf]

theorem length_le_pages {l : List Nat} {bound : Nat} (hnd : l.Nodup)
    (hl : ∀ f ∈ l, f < bound ∧ f % pageSize = 0) : l.length ≤ bound / pageSize + 1 := by
  have hinj : ∀ f ∈ l, ∀ g ∈ l, f / pageSize = g / pageSize → f = g := by
    intro f hf g hg hfg
    have h1 := Nat.div_add_mod f pageSize
    have h2 := Nat.div_add_mod g pageSize
    rw [(hl f hf).2] at h1
    rw [(hl g hg).2] at h2
    rw [← h1, ← h2, hfg]
  have hmap : (l.map (· / pageSize)).Nodup := hnd.map_on hinj
  have hsub : (l.map (· / pageSize)).toFinset ⊆ Finset.range (bound / pageSize + 1) := by
    intro x hx
    simp only [mem_toFinset, mem_map] at hx
    obtain ⟨f, hf, rfl⟩ := hx
    have := Nat.div_le_div_right (c := pageSize) (Nat.le_of_lt (hl f hf).1)
    simp only [Finset.mem_range]
    omega
  have hcard := Finset.card_le_card hsub
  rw [toFinset_card_of_nodup hmap, length_map, Finset.card_range] at hcard
  exact hcard

theorem isInFreeList_iff {p : Pmm} {l : List Nat} (hl : p.FreeList l)
    (hvalid : ∀ f ∈ l, p.validFrame f = true) (f : Nat) : p.isInFreeList f = true ↔ f ∈ l := by
  refine inFreeListFrom_iff f _ hl (length_le_pages hl.nodup fun g hg => ?_)
  have := validFrame_iff.mp (hvalid g hg)
  exact this.2

/-! ## Allocation -/

theorem skipReservedFrom_spec (ranges : List ReservedRange) (pages candidate fuel : Nat) :
    candidate ≤ skipReservedFrom ranges pages candidate fuel ∧
    (skipReservedFrom ranges pages candidate fuel = candidate ∨
      ∃ r ∈ ranges, skipReservedFrom ranges pages candidate fuel = r.last) := by
  induction fuel generalizing candidate with
  | zero => exact ⟨Nat.le_refl _, .inl rfl⟩
  | succ fuel ih =>
    unfold skipReservedFrom
    split
    · exact ⟨Nat.le_refl _, .inl rfl⟩
    · rename_i r hr
      have hmem : r ∈ ranges := mem_of_find?_eq_some hr
      have hlt : candidate < r.last := by
        have := find?_some hr
        simp only [Bool.and_eq_true, decide_eq_true_eq] at this
        exact this.1
      obtain ⟨hle, hcase⟩ := ih r.last
      refine ⟨by omega, .inr ?_⟩
      rcases hcase with h | h
      · exact ⟨r, hmem, h⟩
      · exact h

theorem skipReserved_spec {p : Pmm} (hp : p.Wf) (pages : Nat) : p.nextFrame ≤ p.skipReserved p.nextFrame pages ∧
    p.skipReserved p.nextFrame pages % pageSize = 0 ∧
    p.skipReserved p.nextFrame pages + pageSize < 2 ^ 64 := by
  obtain ⟨hle, hcase⟩ :=
    skipReservedFrom_spec p.reserved pages p.nextFrame (p.reserved.length + 1)
  refine ⟨hle, ?_⟩
  rcases hcase with h | ⟨r, hr, h⟩
  · unfold skipReserved
    rw [h]
    exact ⟨hp.next_aligned, hp.next_lt⟩
  · unfold skipReserved
    rw [h]
    exact hp.reserved_ok r hr

theorem Wf.setNext {p : Pmm} (hp : p.Wf) {next : Nat} (hle : p.nextFrame ≤ next)
    (hal : next % pageSize = 0) (hlt : next + pageSize < 2 ^ 64) :
    Wf { p with nextFrame := next } := by
  obtain ⟨l, hl, hvalid⟩ := hp.freeList
  refine ⟨hp.base_pos, hp.base_le.trans hle, hal, hlt, hp.limit_lt, hp.reserved_ok, l, hl, ?_⟩
  intro f hf
  have := validFrame_iff.mp (hvalid f hf)
  exact validFrame_iff.mpr ⟨this.1, this.2.1.trans_le hle, this.2.2⟩

theorem available_of_setNext {p : Pmm} (hp : p.Wf) {next f : Nat} (hle : p.nextFrame ≤ next)
    (h : Available { p with nextFrame := next } f) : p.Available f := by
  obtain ⟨l, hl, hvalid⟩ := hp.freeList
  obtain ⟨hf, h⟩ := h
  refine ⟨hf, ?_⟩
  rcases h with h | h
  · have hvalid' : ∀ g ∈ l, Pmm.validFrame { p with nextFrame := next } g = true := by
      intro g hg
      have := validFrame_iff.mp (hvalid g hg)
      exact validFrame_iff.mpr ⟨this.1, this.2.1.trans_le hle, this.2.2⟩
    exact .inl ((isInFreeList_iff hl hvalid f).mpr
      ((isInFreeList_iff (p := { p with nextFrame := next }) hl hvalid' f).mp h))
  · exact .inr (hle.trans h)

/-- **Allocation.**  The frame was available, is not any more, and nothing became available. -/
theorem allocateFrame_ok {p p' : Pmm} {f : Nat} (hp : p.Wf) (h : p.allocateFrame = (.ok f, p')) :
    p'.Wf ∧ f ≠ 0 ∧ p.Available f ∧ p'.validFrame f = true ∧ ¬ p'.Available f ∧
      (∀ g, p'.Available g → p.Available g) ∧ p'.baseFrame = p.baseFrame ∧
      (∀ g, p.validFrame g = true → p'.validFrame g = true) := by
  obtain ⟨l, hl, hvalid⟩ := hp.freeList
  unfold allocateFrame at h
  split at h
  · cases h
  · split at h
    · -- the head of the free list
      rename_i hhead
      injection h with hf hp'
      injection hf with hf
      subst hf
      cases l with
      | nil => exact absurd hl hhead
      | cons y ys =>
        obtain ⟨hy, hne, hys⟩ := hl
        have hchain : IsChain 0 p.link p.freeListHead (y :: ys) := ⟨hy, hne, hys⟩
        have hnot : y ∉ ys := (nodup_cons.mp hchain.nodup).1
        have hl' : p'.FreeList ys := by
          subst hp'
          rw [hy]
          exact hchain.pop fun z hz => update_of_ne hz _ _
        have hnext : p'.nextFrame = p.nextFrame := by subst hp'; rfl
        have hbase : p'.baseFrame = p.baseFrame := by subst hp'; rfl
        have hval : ∀ g, p'.validFrame g = p.validFrame g := by
          intro g
          unfold validFrame
          rw [hnext, hbase]
        have hvalid' : ∀ g ∈ ys, p'.validFrame g = true := fun g hg => by
          rw [hval]; exact hvalid g (mem_cons_of_mem _ hg)
        have hyv := validFrame_iff.mp (hvalid y mem_cons_self)
        have hav : ∀ g, p'.Available g → p.Available g := by
          intro g hg
          refine ⟨hg.1, ?_⟩
          rcases hg.2 with h | h
          · have hmem := (isInFreeList_iff hl' hvalid' g).mp h
            exact .inl ((isInFreeList_iff hchain hvalid g).mpr (mem_cons_of_mem _ hmem))
          · exact .inr (hnext ▸ h)
        refine ⟨?_, by rw [hy]; exact hne, ?_, ?_, ?_, hav, hbase, fun g hg => by rw [hval]; exact hg⟩
        · subst hp'
          exact ⟨hp.base_pos, hp.base_le, hp.next_aligned, hp.next_lt, hp.limit_lt, hp.reserved_ok,
            ys, hl', hvalid'⟩
        · rw [hy]
          exact ⟨hyv.2.2, .inl ((isInFreeList_iff hchain hvalid y).mpr mem_cons_self)⟩
        · rw [hval, hy]
          exact hvalid y mem_cons_self
        · rw [hy]
          rintro ⟨-, h | h⟩
          · exact hnot ((isInFreeList_iff hl' hvalid' y).mp h)
          · rw [hnext] at h
            omega
    · -- the bump pointer
      obtain ⟨hle, hal, hlt⟩ := skipReserved_spec hp 1
      have hsum : add64 (p.skipReserved p.nextFrame 1) pageSize =
          p.skipReserved p.nextFrame 1 + pageSize := Nat.mod_eq_of_lt hlt
      dsimp only at h
      rw [hsum] at h
      split at h
      · cases h
      · rename_i hlimit
        injection h with hf hp'
        injection hf with hf
        subst hf hp'
        have hpos := hp.base_pos
        have hbase := hp.base_le
        have hle' : p.nextFrame ≤ p.skipReserved p.nextFrame 1 + pageSize := by omega
        have hal' : (p.skipReserved p.nextFrame 1 + pageSize) % pageSize = 0 := by
          rw [Nat.add_mod_right]
          exact hal
        have hlt' : p.skipReserved p.nextFrame 1 + pageSize + pageSize < 2 ^ 64 := by
          have := hp.limit_lt
          omega
        have hps : 0 < pageSize := by decide
        refine ⟨hp.setNext hle' hal' hlt', by omega, ⟨hal, .inr hle⟩, ?_, ?_,
          fun g => available_of_setNext hp hle', rfl, fun g hg => ?_⟩
        · exact validFrame_iff.mpr ⟨by show p.baseFrame ≤ _; omega, by
            show _ < p.skipReserved p.nextFrame 1 + pageSize; omega, hal⟩
        · rintro ⟨-, h | h⟩
          · have hvalid' : ∀ g ∈ l, Pmm.validFrame
                { p with nextFrame := p.skipReserved p.nextFrame 1 + pageSize } g = true := by
              intro g hg
              have := validFrame_iff.mp (hvalid g hg)
              exact validFrame_iff.mpr ⟨this.1, this.2.1.trans_le hle', this.2.2⟩
            have hmem := (isInFreeList_iff
              (p := { p with nextFrame := p.skipReserved p.nextFrame 1 + pageSize }) hl hvalid' _).mp h
            have := validFrame_iff.mp (hvalid _ hmem)
            omega
          · have h' : p.skipReserved p.nextFrame 1 + pageSize ≤ p.skipReserved p.nextFrame 1 := h
            omega
        · have := validFrame_iff.mp hg
          exact validFrame_iff.mpr ⟨this.1, this.2.1.trans_le hle', this.2.2⟩

theorem allocateFrame_error {p p' : Pmm} {s : PmmStatus} (hp : p.Wf) (h : p.allocateFrame = (.error s, p')) :
    p'.Wf ∧ (∀ g, p'.Available g → p.Available g) ∧ (∀ g, p.validFrame g = true → p'.validFrame g = true) := by
  unfold allocateFrame at h
  split at h
  · injection h with _ h
    subst h
    exact ⟨hp, fun _ h => h, fun _ h => h⟩
  · split at h
    · cases h
    · dsimp only at h
      split at h
      · injection h with _ h
        subst h
        obtain ⟨hle, hal, hlt⟩ := skipReserved_spec hp 1
        refine ⟨hp.setNext hle hal hlt, fun g => available_of_setNext hp hle, fun g hg => ?_⟩
        have := validFrame_iff.mp hg
        exact validFrame_iff.mpr ⟨this.1, this.2.1.trans_le hle, this.2.2⟩
      · cases h

/-! ## Deallocation -/

/-- **Deallocation.**  At most the argument becomes available; the invariant stays in any case. -/
theorem deallocateFrame_spec {p : Pmm} (hp : p.Wf) (frame : Nat) : (p.deallocateFrame frame).2.Wf ∧
    (∀ g, (p.deallocateFrame frame).2.Available g → p.Available g ∨ g = frame) ∧
    (∀ g, p.validFrame g = true → g ≠ frame → (p.deallocateFrame frame).2.validFrame g = true) := by
  obtain ⟨l, hl, hvalid⟩ := hp.freeList
  unfold deallocateFrame
  split
  · exact ⟨hp, fun _ h => .inl h, fun _ h _ => h⟩
  · split
    · exact ⟨hp, fun _ h => .inl h, fun _ h _ => h⟩
    · rename_i hok
      simp only [Bool.or_eq_true, Bool.not_eq_true', not_or, Bool.not_eq_false, Bool.not_eq_true] at hok
      obtain ⟨hfv, hfree⟩ := hok
      have hframe := validFrame_iff.mp hfv
      have hnot : frame ∉ l := fun hm => by
        rw [(isInFreeList_iff hl hvalid frame).mpr hm] at hfree
        cases hfree
      have hsum : add64 frame pageSize = frame + pageSize :=
        Nat.mod_eq_of_lt (by have := hp.next_lt; omega)
      split
      · -- the topmost frame: the bump pointer moves down, below no member of the list
        have hbelow : ∀ g, p.validFrame g = true → g ≠ frame →
            Pmm.validFrame { p with nextFrame := frame } g = true := by
          intro g hg hne
          have := validFrame_iff.mp hg
          refine validFrame_iff.mpr ⟨this.1, ?_, this.2.2⟩
          show g < frame
          have := aligned_le hframe.2.2 this.2.2 (by omega)
          omega
        have hvalid' : ∀ g ∈ l, Pmm.validFrame { p with nextFrame := frame } g = true :=
          fun g hg => hbelow g (hvalid g hg) fun e => hnot (e ▸ hg)
        refine ⟨⟨hp.base_pos, hframe.1, hframe.2.2, ?_, hp.limit_lt, hp.reserved_ok, l, hl, hvalid'⟩,
          fun g hg => ?_, hbelow⟩
        · show frame + pageSize < 2 ^ 64
          have := hp.next_lt
          omega
        · obtain ⟨hga, hg⟩ := hg
          rcases hg with hg | hg
          · exact .inl ⟨hga, .inl ((isInFreeList_iff hl hvalid g).mpr
              ((isInFreeList_iff (p := { p with nextFrame := frame }) hl hvalid' g).mp hg))⟩
          · have hge : frame ≤ g := hg
            by_cases hlt : g < frame + pageSize
            · exact .inr (Nat.le_antisymm (aligned_le hframe.2.2 hga hlt) hge)
            · exact .inl ⟨hga, .inr (by omega)⟩
      · -- pushed on the free list
        have hpos := hp.base_pos
        have hl' : IsChain 0 (update p.link frame p.freeListHead) frame (frame :: l) :=
          IsChain.push hl (by omega) (update_self _ _ _)
            fun y hy => update_of_ne (fun e : y = frame => hnot (e ▸ hy)) _ _
        have hvalid' : ∀ g ∈ frame :: l, p.validFrame g = true := by
          intro g hg
          rcases mem_cons.mp hg with rfl | hg
          · exact hfv
          · exact hvalid g hg
        refine ⟨⟨hp.base_pos, hp.base_le, hp.next_aligned, hp.next_lt, hp.limit_lt, hp.reserved_ok,
          frame :: l, hl', hvalid'⟩, fun g hg => ?_, fun g hg _ => hg⟩
        obtain ⟨hga, hg⟩ := hg
        rcases hg with hg | hg
        · have hmem := (isInFreeList_iff
            (p := { p with
              link := update p.link frame p.freeListHead, freeListHead := frame
              freeListCount := p.freeListCount + 1 }) hl' hvalid' g).mp hg
          rcases mem_cons.mp hmem with rfl | hmem
          · exact .inr rfl
          · exact .inl ⟨hga, .inl ((isInFreeList_iff hl hvalid g).mpr hmem)⟩
        · exact .inl ⟨hga, .inr hg⟩

theorem Wf.deallocateFrame {p : Pmm} (hp : p.Wf) (frame : Nat) : (p.deallocateFrame frame).2.Wf :=
  (deallocateFrame_spec hp frame).1

end Pmm

/-!
## Frames that leave the allocator and come back

`p.Takes fs q` says that the frames `fs` come out of the allocator one after the other, `p.Draws fs q` the
same where other attempts FAIL; `p.giveBack fs` gives frames back.  A frame that was handed out is
`Out`: distinct frames that are out can all be given back, in any order, and are available again after it.
-/

namespace Pmm

variable {p q p₁ p₂ : Pmm} {f : Nat} {fs : List Nat}

/-! ## Frames taken and given back -/

/-- The frames `fs` come out of the allocator one after the other. -/
def Takes : Pmm → List Nat → Pmm → Prop
  | p, [], q => q = p
  | p, f :: fs, q => ∃ p', p.allocateFrame = (.ok f, p') ∧ Takes p' fs q

/-- `Deallocate_Frame` for each of them. -/
def giveBack (p : Pmm) (fs : List Nat) : Pmm := fs.foldl (fun p f => (p.deallocateFrame f).2) p

/-- The answers of these calls. -/
def answers : Pmm → List Nat → List PmmStatus
  | _, [] => []
  | p, f :: fs => (p.deallocateFrame f).1 :: answers (p.deallocateFrame f).2 fs

/-- A frame that the allocator has handed out. -/
def Out (p : Pmm) (f : Nat) : Prop := p.validFrame f = true ∧ ¬ p.Available f

theorem Takes.append (h : Takes p fs p₁) (ha : p₁.allocateFrame = (.ok f, p₂)) : Takes p (fs ++ [f]) p₂ := by
  induction fs generalizing p with
  | nil =>
    cases h
    exact ⟨p₂, ha, rfl⟩
  | cons g gs ih =>
    obtain ⟨p', hp', hrest⟩ := h
    exact ⟨p', hp', ih hrest⟩

theorem allocateFrame_isReady {r : Except PmmStatus Nat} (h : p.allocateFrame = (r, q)) : q.isReady = p.isReady := by
  unfold allocateFrame at h
  split at h
  · cases h
    rfl
  · split at h
    · cases h
      rfl
    · dsimp only at h
      split at h <;> (cases h; rfl)

theorem Takes.isReady (h : Takes p fs q) (hne : fs ≠ []) : q.isReady = true := by
  have hkeep : ∀ (fs : List Nat) (p : Pmm), Takes p fs q → q.isReady = p.isReady := by
    intro fs
    induction fs with
    | nil =>
      intro p h
      rw [h]
    | cons f fs ih =>
      rintro p ⟨p', hp', hrest⟩
      exact (ih p' hrest).trans (allocateFrame_isReady hp')
  cases fs with
  | nil => exact absurd rfl hne
  | cons f fs =>
    rw [hkeep _ _ h]
    obtain ⟨p', hp', -⟩ := h
    unfold allocateFrame at hp'
    cases hready : p.isReady with
    | true => rfl
    | false =>
      rw [hready] at hp'
      cases hp'

theorem Takes.out_of_out (hp : p.Wf) (h : Takes p fs q) (hf : p.Out f) : q.Out f := by
  induction fs generalizing p with
  | nil =>
    cases h
    exact hf
  | cons g gs ih =>
    obtain ⟨p', hp', hrest⟩ := h
    obtain ⟨hwf, -, -, -, -, hav, -, hvalid⟩ := allocateFrame_ok hp hp'
    exact ih hwf hrest ⟨hvalid f hf.1, fun h => hf.2 (hav f h)⟩

/-- **The frames that are taken are distinct**, and are out. -/
theorem Takes.spec (hp : p.Wf) (h : Takes p fs q) :
    q.Wf ∧ fs.Nodup ∧ (∀ f ∈ fs, p.Available f ∧ q.Out f) ∧ (∀ f, q.Available f → p.Available f) := by
  induction fs generalizing p with
  | nil =>
    cases h
    exact ⟨hp, List.nodup_nil, fun f hf => absurd hf List.not_mem_nil, fun f hf => hf⟩
  | cons g gs ih =>
    obtain ⟨p', hp', hrest⟩ := h
    obtain ⟨hwf, -, hg, hgvalid, hgout, hav, -, -⟩ := allocateFrame_ok hp hp'
    obtain ⟨hq, hnodup, hmem, hle⟩ := ih hwf hrest
    refine ⟨hq, ?_, fun f hf => ?_, fun f hf => hav f (hle f hf)⟩
    · refine List.nodup_cons.mpr ⟨fun hin => ?_, hnodup⟩
      exact hgout (hmem g hin).1
    · rcases List.mem_cons.mp hf with rfl | hf
      · exact ⟨hg, hrest.out_of_out hwf ⟨hgvalid, hgout⟩⟩
      · exact ⟨hav f (hmem f hf).1, (hmem f hf).2⟩

/-- **A frame that is out can be given back**: it is accepted, and what was available stays so. -/
theorem deallocateFrame_out (hp : p.Wf) (hready : p.isReady = true) (hf : p.Out f) :
    (p.deallocateFrame f).1 = .ok ∧ (p.deallocateFrame f).2.isReady = true ∧ (p.deallocateFrame f).2.Available f ∧
      ∀ g, p.Available g → (p.deallocateFrame f).2.Available g := by
  obtain ⟨l, hl, hvalid⟩ := hp.freeList
  have hframe := validFrame_iff.mp hf.1
  have hfree : p.isInFreeList f = false := by
    rw [← Bool.not_eq_true]
    intro h
    exact hf.2 ⟨hframe.2.2, .inl h⟩
  have hnot : f ∉ l := fun hm => by
    rw [(isInFreeList_iff hl hvalid f).mpr hm] at hfree
    cases hfree
  have hsum : add64 f pageSize = f + pageSize := Nat.mod_eq_of_lt (by have := hp.next_lt; omega)
  unfold deallocateFrame
  rw [if_neg (by simp [hready]), if_neg (by simp [hf.1, hfree]), hsum]
  split_ifs with htop
  · -- the topmost frame
    have hvalid' : ∀ g ∈ l, Pmm.validFrame { p with nextFrame := f } g = true := by
      intro g hg
      have hv := validFrame_iff.mp (hvalid g hg)
      have hne : g ≠ f := fun e => hnot (e ▸ hg)
      have hle := aligned_le hframe.2.2 hv.2.2 (by omega)
      exact validFrame_iff.mpr ⟨hv.1, by show g < f; omega, hv.2.2⟩
    refine ⟨rfl, hready, ⟨hframe.2.2, .inr (Nat.le_refl f)⟩, fun g hg => ⟨hg.1, ?_⟩⟩
    rcases hg.2 with h | h
    · have hmem := (isInFreeList_iff hl hvalid g).mp h
      exact .inl ((isInFreeList_iff (p := { p with nextFrame := f }) hl hvalid' g).mpr hmem)
    · exact .inr (by show f ≤ g; omega)
  · -- on the free list
    have hpos := hp.base_pos
    have hl' : Lib.IsChain 0 (update p.link f p.freeListHead) f (f :: l) :=
      Lib.IsChain.push hl (by omega) (update_self _ _ _)
        fun y hy => update_of_ne (fun e : y = f => hnot (e ▸ hy)) _ _
    have hvalid' : ∀ g ∈ f :: l, p.validFrame g = true := by
      intro g hg
      rcases List.mem_cons.mp hg with rfl | hg
      · exact hf.1
      · exact hvalid g hg
    have hiff := isInFreeList_iff (p := { p with
      link := update p.link f p.freeListHead, freeListHead := f
      freeListCount := p.freeListCount + 1 }) hl' hvalid'
    refine ⟨rfl, hready, ⟨hframe.2.2, .inl ((hiff f).mpr List.mem_cons_self)⟩, fun g hg => ⟨hg.1, ?_⟩⟩
    rcases hg.2 with h | h
    · exact .inl ((hiff g).mpr (List.mem_cons_of_mem _ ((isInFreeList_iff hl hvalid g).mp h)))
    · exact .inr h

/-- **Frames that are out and distinct can all be given back**, in any order. -/
theorem giveBack_out (hp : p.Wf) (hready : fs ≠ [] → p.isReady = true) (hnodup : fs.Nodup) (hout : ∀ f ∈ fs, p.Out f) :
    (∀ a ∈ p.answers fs, a = .ok) ∧ (∀ f, (p.giveBack fs).Available f ↔ p.Available f ∨ f ∈ fs) := by
  induction fs generalizing p with
  | nil => exact ⟨fun a ha => absurd ha List.not_mem_nil, fun f => by simp [giveBack]⟩
  | cons g gs ih =>
    obtain ⟨hg, hnodup⟩ := List.nodup_cons.mp hnodup
    obtain ⟨hok, hready', hgav, hkeep⟩ := deallocateFrame_out hp (hready (List.cons_ne_nil g gs)) (hout g List.mem_cons_self)
    obtain ⟨hwf, hback, hvalid⟩ := deallocateFrame_spec hp g
    have hout' : ∀ f ∈ gs, (p.deallocateFrame g).2.Out f := by
      intro f hf
      have hne : f ≠ g := fun e => hg (e ▸ hf)
      have hfout := hout f (List.mem_cons_of_mem _ hf)
      refine ⟨hvalid f hfout.1 hne, fun h => ?_⟩
      rcases hback f h with h | h
      · exact hfout.2 h
      · exact hne h
    obtain ⟨hall, hiff⟩ := ih hwf (fun _ => hready') hnodup hout'
    constructor
    · intro a ha
      rcases List.mem_cons.mp ha with rfl | ha
      · exact hok
      · exact hall a ha
    · intro f
      show (giveBack (p.deallocateFrame g).2 gs).Available f ↔ _
      rw [hiff f, List.mem_cons]
      constructor
      · rintro (h | h)
        · rcases hback f h with h | h
          · exact .inl h
          · exact .inr (.inl h)
        · exact .inr (.inr h)
      · rintro (h | rfl | h)
        · exact .inl (hkeep f h)
        · exact .inl hgav
        · exact .inr h

/-! ## Attempts that may fail -/

/-- Calls of `Allocate_Frame` one after the other: `fs` are the frames that came out. -/
inductive Draws : Pmm → List Nat → Pmm → Prop
  | done {p : Pmm} : Draws p [] p
  | got {p p' q : Pmm} {f : Nat} {fs : List Nat} (hf : p.allocateFrame = (.ok f, p')) (hrest : Draws p' fs q) :
    Draws p (f :: fs) q
  | missed {p p' q : Pmm} {e : PmmStatus} {fs : List Nat} (h : p.allocateFrame = (.error e, p'))
    (hrest : Draws p' fs q) : Draws p fs q

theorem Draws.trans {gs : List Nat} (h : Draws p fs p₁) (h' : Draws p₁ gs q) : Draws p (fs ++ gs) q := by
  induction h with
  | done => exact h'
  | got hf _ ih => exact .got hf (ih h')
  | missed he _ ih => exact .missed he (ih h')

theorem Draws.isReady (h : Draws p fs q) : q.isReady = p.isReady := by
  induction h with
  | done => rfl
  | got hf _ ih => exact ih.trans (allocateFrame_isReady hf)
  | missed he _ ih => exact ih.trans (allocateFrame_isReady he)

theorem Draws.ready (h : Draws p fs q) (hne : fs ≠ []) : q.isReady = true := by
  rw [h.isReady]
  induction h with
  | done => exact absurd rfl hne
  | missed he _ ih =>
    rw [← allocateFrame_isReady he]
    exact ih hne
  | @got p p' q f fs hf _ _ =>
    unfold allocateFrame at hf
    cases hready : p.isReady with
    | true => rfl
    | false =>
      rw [hready] at hf
      cases hf

/-- The memory of the machine, and what is reserved of it, lies below an address. -/
structure Within (p : Pmm) (b : Nat) : Prop where
  next : p.nextFrame ≤ b
  limit : p.limit ≤ b
  reserved : ∀ r ∈ p.reserved, r.last ≤ b

theorem Within.lt {b : Nat} (h : p.Within b) {f : Nat} (hf : p.Out f) : f < b :=
  (validFrame_iff.mp hf.1).2.1.trans_le h.next

theorem Within.skipReserved {b : Nat} (h : p.Within b) (pages : Nat) : p.skipReserved p.nextFrame pages ≤ b := by
  have hscan : ∀ n c, c ≤ b → skipReservedFrom p.reserved pages c n ≤ b := by
    intro n
    induction n with
    | zero => exact fun c hc => hc
    | succ n ih =>
      intro c hc
      unfold skipReservedFrom
      split
      · exact hc
      · rename_i r hr
        exact ih _ (h.reserved r (List.mem_of_find?_eq_some hr))
  exact hscan _ _ h.next

theorem Within.allocateFrame {b : Nat} (h : p.Within b) (hp : p.Wf) {r : Except PmmStatus Nat}
    (ha : p.allocateFrame = (r, q)) : q.Within b := by
  have hskip := h.skipReserved 1
  unfold Pmm.allocateFrame at ha
  split at ha
  · cases ha
    exact h
  · split at ha
    · cases ha
      exact ⟨h.next, h.limit, h.reserved⟩
    · dsimp only at ha
      split at ha
      · cases ha
        exact ⟨hskip, h.limit, h.reserved⟩
      · rename_i hlimit
        cases ha
        exact ⟨(Nat.le_of_not_lt hlimit).trans h.limit, h.limit, h.reserved⟩

theorem Draws.within {b : Nat} (h : Draws p fs q) (hp : p.Wf) (hb : p.Within b) : q.Within b := by
  induction h with
  | done => exact hb
  | got hf _ ih => exact ih (allocateFrame_ok hp hf).1 (hb.allocateFrame hp hf)
  | missed he _ ih => exact ih (allocateFrame_error hp he).1 (hb.allocateFrame hp he)

/-- **What is drawn** was available and is out, and is all that went. -/
theorem Draws.spec (hp : p.Wf) (h : Draws p fs q) :
    q.Wf ∧ fs.Nodup ∧ (∀ f ∈ fs, p.Available f ∧ q.Out f) ∧ (∀ f, q.Available f → p.Available f) ∧
      (∀ f, p.Out f → q.Out f) := by
  induction h with
  | done => exact ⟨hp, List.nodup_nil, fun f hf => absurd hf List.not_mem_nil, fun _ h => h, fun _ h => h⟩
  | missed he _ ih =>
    obtain ⟨hwf, hav, hvalid⟩ := allocateFrame_error hp he
    obtain ⟨hq, hnodup, hmem, hle, hkeep⟩ := ih hwf
    refine ⟨hq, hnodup, fun f hf => ⟨hav f (hmem f hf).1, (hmem f hf).2⟩, fun f hf => hav f (hle f hf), fun f hf => ?_⟩
    exact hkeep f ⟨hvalid f hf.1, fun h => hf.2 (hav f h)⟩
  | @got p p' q g gs hg _ ih =>
    obtain ⟨hwf, -, hgav, hgvalid, hgout, hav, -, hvalid⟩ := allocateFrame_ok hp hg
    obtain ⟨hq, hnodup, hmem, hle, hkeep⟩ := ih hwf
    refine ⟨hq, ?_, fun f hf => ?_, fun f hf => hav f (hle f hf), fun f hf => ?_⟩
    · refine List.nodup_cons.mpr ⟨fun hin => ?_, hnodup⟩
      exact hgout (hmem g hin).1
    · rcases List.mem_cons.mp hf with rfl | hf
      · exact ⟨hgav, hkeep f ⟨hgvalid, hgout⟩⟩
      · exact ⟨hav f (hmem f hf).1, (hmem f hf).2⟩
    · exact hkeep f ⟨hvalid f hf.1, fun h => hf.2 (hav f h)⟩

theorem Draws.eq_nil (hp : p.Wf) (h : Draws p fs p) : fs = [] := by
  rw [List.eq_nil_iff_forall_not_mem]
  intro f hf
  obtain ⟨hav, hout⟩ := (h.spec hp).2.2.1 f hf
  exact hout.2 hav

theorem Draws.unique {gs : List Nat} (hp : p.Wf) (h : Draws p fs q) (h' : Draws p gs q) : fs = gs := by
  induction h generalizing gs with
  | done => exact (h'.eq_nil hp).symm
  | missed he hrest ih =>
    cases h' with
    | done => exact (Draws.missed he hrest).eq_nil hp
    | missed he' hrest' =>
      rw [he] at he'
      cases he'
      exact ih (allocateFrame_error hp he).1 hrest'
    | got hf _ =>
      rw [he] at hf
      cases hf
  | got hf hrest ih =>
    cases h' with
    | done => exact (Draws.got hf hrest).eq_nil hp
    | missed he _ =>
      rw [hf] at he
      cases he
    | got hf' hrest' =>
      rw [hf] at hf'
      cases hf'
      rw [ih (allocateFrame_ok hp hf).1 hrest']

theorem answers_append (p : Pmm) (fs gs : List Nat) :
    p.answers (fs ++ gs) = p.answers fs ++ (p.giveBack fs).answers gs := by
  induction fs generalizing p with
  | nil => rfl
  | cons f fs ih =>
    rw [List.cons_append, answers, ih]
    rfl

theorem giveBack_append (p : Pmm) (fs gs : List Nat) : p.giveBack (fs ++ gs) = (p.giveBack fs).giveBack gs :=
  List.foldl_append

end Pmm

end Aegir.Kernel
