/-
  Creating a memory object, all or nothing.

  When the allocator runs out, `Memory.Create` sets the page count to the number of frames it has and lets the
  loop that frees an object give them back.  That loop runs over `0 .. Pages - 1` in MODULAR arithmetic: with
  no frame taken it runs past the frame array, and the index check stops the kernel.
-/
import Aegir.Kernel.Boot

namespace Aegir.Kernel

open List Function

namespace State

open Pmm

variable {k k₁ : State} {pages : U64} {o index n : Nat} {p : Pmm} {fs : List Nat}

/-! ## The loops -/

theorem freeFramesFrom_eq (frames : Nat → Nat) (index n : Nat) (p : Pmm) :
    freeFramesFrom frames index n p = p.giveBack ((range' index n).map frames) := by
  induction n generalizing index p with
  | zero => rfl
  | succ n ih =>
    rw [freeFramesFrom, ih]
    rfl

/-- The object has taken `fs` from the allocator `p` so far. -/
structure Filled (k : State) (o : Nat) (p : Pmm) (fs : List Nat) : Prop where
  takes : p.Takes fs k.pmm
  frames : ∀ i (h : i < fs.length), (k.memoryObject o).frames i = fs[i]
  zero : ∀ f ∈ fs, k.memory f = fun _ => 0

theorem Filled.push {f : Nat} {p' : Pmm} (h : Filled k o p fs) (ha : k.pmm.allocateFrame = (.ok f, p')) :
    Filled ((({ k with pmm := p' } : State).zeroFrame f).modMemoryObject o fun m =>
      { m with frames := update m.frames fs.length f }) o p (fs ++ [f]) := by
  refine ⟨h.takes.append ha, fun i hi => ?_, fun g hg => ?_⟩
  · show (update k.memoryObject o _ o).frames i = _
    rw [update_self]
    show update (k.memoryObject o).frames fs.length f i = _
    rw [length_append, length_singleton] at hi
    by_cases hlast : i = fs.length
    · subst hlast
      rw [update_self, getElem_concat_length rfl]
    · have hlt : i < fs.length := by omega
      rw [update_of_ne hlast, getElem_append_left hlt]
      exact h.frames i hlt
  · show update k.memory f (fun _ => 0) g = _
    by_cases hfg : g = f
    · rw [hfg, update_self]
    · rw [update_of_ne hfg]
      rcases mem_append.mp hg with hg | hg
      · exact h.zero g hg
      · exact absurd (mem_singleton.mp hg) hfg

theorem allocateFrames_frame (k : State) (o index n : Nat) :
    (k.allocateFrames o index n).2.memorySlab = k.memorySlab ∧
      (k.allocateFrames o index n).2.halted = k.halted := by
  induction n generalizing k index with
  | zero => exact ⟨rfl, rfl⟩
  | succ n ih =>
    unfold allocateFrames
    split
    · exact ⟨rfl, rfl⟩
    · exact ih _ _

/-- **The loop of `Create`**: it fills the object, or stops at the frame that cannot be had. -/
theorem allocateFrames_spec (n : Nat) (h : Filled k o p fs) : ((k.allocateFrames o fs.length n).1 = true ∧
      (((k.allocateFrames o fs.length n).2.memoryObject o).pages = (k.memoryObject o).pages) ∧
      ∃ gs, gs.length = fs.length + n ∧ Filled (k.allocateFrames o fs.length n).2 o p gs) ∨
    ((k.allocateFrames o fs.length n).1 = false ∧ ∃ gs q e,
      fs.length ≤ gs.length ∧ gs.length < fs.length + n ∧ p.Takes gs q ∧
      q.allocateFrame = (.error e, (k.allocateFrames o fs.length n).2.pmm) ∧
      ((k.allocateFrames o fs.length n).2.memoryObject o).pages = gs.length ∧
      ∀ i (hi : i < gs.length), ((k.allocateFrames o fs.length n).2.memoryObject o).frames i = gs[i]) := by
  induction n generalizing k fs with
  | zero => exact .inl ⟨rfl, rfl, fs, rfl, h⟩
  | succ n ih =>
    unfold allocateFrames
    cases ha : k.pmm.allocateFrame with
    | mk r p' =>
      cases r with
      | error e =>
        refine .inr ⟨rfl, fs, k.pmm, e, Nat.le_refl _, by omega, h.takes, ha, ?_, fun i hi => ?_⟩
        · show (update k.memoryObject o _ o).pages = _
          rw [update_self]
        · show (update k.memoryObject o _ o).frames i = _
          rw [update_self]
          exact h.frames i hi
      | ok f =>
        have hstep := ih (h.push ha)
        rw [length_append, length_singleton] at hstep
        rcases hstep with ⟨htrue, hp, gs, hlen, hfilled⟩ | ⟨hfalse, gs, q, e, hle, hlt, hrest⟩
        · refine .inl ⟨htrue, hp.trans ?_, gs, by omega, hfilled⟩
          show (update k.memoryObject o _ o).pages = _
          rw [update_self]
          rfl
        · exact .inr ⟨hfalse, gs, q, e, by omega, by omega, hrest⟩

/-! ## All or nothing -/

/-- What `Create` may do: make the object, refuse the page count, fail to get a slot, or undo what it has
    begun. -/
inductive Outcome (k : State) (pages : U64) : Nat × State → Prop
  | created {s : Slab} {p : Pmm} {fs : List Nat} {k' : State}
      (hslot : k.memorySlab.ensureFree memoryObjectsPerFrame k.pmm = (some s, p)) (hobject : s.take.1 ≠ 0)
      (htakes : p.Takes fs k'.pmm) (hslab : k'.memorySlab = s.take.2)
      (hlen : fs.length = pages.toNat) (hnodup : fs.Nodup)
      (hpages : (k'.memoryObject s.take.1).pages = pages.toNat)
      (hframes : ∀ i (h : i < fs.length), (k'.memoryObject s.take.1).frames i = fs[i])
      (hzero : ∀ f ∈ fs, k'.memory f = fun _ => 0) : Outcome k pages (s.take.1, k')
  | refused (hpages : pages.toNat = 0 ∨ maxPages < pages.toNat) : Outcome k pages (0, k)
  | noSlot {p : Pmm} (hslot : k.memorySlab.ensureFree memoryObjectsPerFrame k.pmm = (none, p)) :
      Outcome k pages (0, { k with pmm := p })
  /-- Exactly the frames `fs` were taken, and they are given back; all are accepted. -/
  | undone {s : Slab} {p q p' : Pmm} {e : PmmStatus} {fs : List Nat} {k' : State}
      (hslot : k.memorySlab.ensureFree memoryObjectsPerFrame k.pmm = (some s, p))
      (htakes : p.Takes fs q) (hlen : fs.length < pages.toNat) (hfail : q.allocateFrame = (.error e, p'))
      (hpmm : k'.pmm = p'.giveBack fs) (haccepted : ∀ a ∈ p'.answers fs, a = .ok)
      (havailable : ∀ f, k'.pmm.Available f ↔ p'.Available f ∨ f ∈ fs)
      (hslab : k'.memorySlab = s) : Outcome k pages (0, k')

/-- The object is made or everything is given back, and no check fails. -/
def AllOrNothing (k : State) (pages : U64) : Prop :=
  Outcome k pages (k.createMemory pages) ∧ (k.createMemory pages).2.halted = false

/-- When the slot is there, there is a frame for it. -/
def HasFirstFrame (k : State) (pages : U64) : Prop :=
  0 < pages.toNat → pages.toNat ≤ maxPages → ∀ s p,
    k.memorySlab.ensureFree memoryObjectsPerFrame k.pmm = (some s, p) → ∃ f p', p.allocateFrame = (.ok f, p')

theorem ensureFree_some {s s' : Slab} {n : Nat} {p p' : Pmm} (hp : p.Wf) (hfree : ∀ o ∈ s.free, o ≠ 0) (hn : 0 < n)
    (h : s.ensureFree n p = (some s', p')) : p'.Wf ∧ s'.free ≠ [] ∧ s'.take.1 ≠ 0 := by
  have htake : ∀ s' : Slab, s'.free ≠ [] → (∀ o ∈ s'.free, o ≠ 0) → s'.take.1 ≠ 0 := by
    intro s' hne hall
    obtain ⟨o, os, hos⟩ := exists_cons_of_ne_nil hne
    unfold Slab.take
    rw [hos]
    exact hall o (hos ▸ mem_cons_self)
  unfold Slab.ensureFree at h
  split_ifs at h with hempty
  · unfold Slab.grow at h
    cases ha : p.allocateFrame with
    | mk r p1 =>
      rw [ha] at h
      cases r with
      | error e => cases h
      | ok f =>
        cases h
        have hne : (range n).map (fun i => s.carved + n - i) ++ s.free ≠ [] := by
          intro hnil
          have := congrArg length hnil
          simp at this
          omega
        refine ⟨(Pmm.allocateFrame_ok hp ha).1, hne, htake _ hne fun o ho => ?_⟩
        rcases mem_append.mp ho with ho | ho
        · obtain ⟨i, hi, rfl⟩ := mem_map.mp ho
          rw [mem_range] at hi
          omega
        · exact hfree o ho
  · cases h
    exact ⟨hp, hempty, htake _ hempty hfree⟩

theorem take_put {s : Slab} (h : s.free ≠ []) : s.take.2.put s.take.1 = s := by
  obtain ⟨o, os, hos⟩ := exists_cons_of_ne_nil h
  cases s
  cases hos
  rfl

theorem map_frames {frames : Nat → Nat} (h : ∀ i (hi : i < fs.length), frames i = fs[i]) :
    (range' 0 fs.length).map frames = fs := by
  refine ext_getElem (by simp) fun i hi _ => ?_
  rw [getElem_map, getElem_range']
  rw [length_map, length_range'] at hi
  rw [Nat.zero_add, Nat.one_mul]
  exact h i hi

/-- **Every run is one of the cases**, and a check fails exactly when no frame was taken. -/
theorem createMemory_outcome (hp : k.pmm.Wf) (hfree : ∀ o ∈ k.memorySlab.free, o ≠ 0) (hrun : k.halted = false) :
    Outcome k pages (k.createMemory pages) ∧
      ((k.createMemory pages).2.halted = false ↔ HasFirstFrame k pages) := by
  unfold createMemory
  split_ifs with hpages
  · refine ⟨.refused hpages, iff_of_true hrun fun hpos hle => ?_⟩
    omega
  · cases hslot : k.memorySlab.ensureFree memoryObjectsPerFrame k.pmm with
    | mk r p =>
      cases r with
      | none =>
        refine ⟨.noSlot hslot, iff_of_true hrun fun _ _ s p' h => ?_⟩
        rw [hslot] at h
        cases h
      | some s =>
        obtain ⟨hwf, hne, hobject⟩ := ensureFree_some hp hfree (by decide) hslot
        dsimp only
        generalize hk1 : ({ k with memorySlab := s.take.2, pmm := p } : State).modMemoryObject s.take.1
          (fun _ => ⟨0, pages.toNat, fun _ => 0⟩) = k₁
        have hpmm : k₁.pmm = p := by rw [← hk1]; rfl
        have hslab : k₁.memorySlab = s.take.2 := by rw [← hk1]; rfl
        have hhalted : k₁.halted = false := by rw [← hk1]; exact hrun
        have hstart : (k₁.memoryObject s.take.1).pages = pages.toNat := by
          rw [← hk1]
          show (update k.memoryObject s.take.1 _ s.take.1).pages = _
          rw [update_self]
        have hempty : Filled k₁ s.take.1 p [] :=
          ⟨hpmm, fun i hi => absurd hi (Nat.not_lt_zero i), fun f hf => absurd hf not_mem_nil⟩
        obtain ⟨hframe, hhalt⟩ := allocateFrames_frame k₁ s.take.1 0 pages.toNat
        have hspec := allocateFrames_spec pages.toNat hempty
        rw [length_nil] at hspec
        cases hres : k₁.allocateFrames s.take.1 0 pages.toNat with
        | mk b k₂ =>
          rw [hres] at hspec hframe hhalt
          rcases hspec with ⟨hb, hkept, gs, hlen, hfilled⟩ | ⟨hb, gs, q, e, -, hlt, htakes, hfail, hcount, hframes⟩
          · -- all frames were had
            cases hb
            have hlen' : gs.length = pages.toNat := by omega
            refine ⟨.created hslot hobject hfilled.takes (hframe.trans hslab) hlen'
              (hfilled.takes.spec hwf).2.1 (hkept.trans hstart) hfilled.frames hfilled.zero,
              iff_of_true (hhalt.trans hhalted) fun _ _ s' p' h => ?_⟩
            rw [hslot] at h
            cases h
            cases gs with
            | nil =>
              rw [length_nil] at hlen'
              omega
            | cons f gs =>
              obtain ⟨p', ha, -⟩ := hfilled.takes
              exact ⟨f, p', ha⟩
          · -- one could not be had
            cases hb
            obtain ⟨hq, hnodup, hmem, -⟩ := htakes.spec hwf
            obtain ⟨hwf', hle, hvalid⟩ := Pmm.allocateFrame_error hq hfail
            have hout : ∀ f ∈ gs, k₂.pmm.Out f := fun f hf =>
              ⟨hvalid f (hmem f hf).2.1, fun h => (hmem f hf).2.2 (hle f h)⟩
            have hready : gs ≠ [] → k₂.pmm.isReady = true := fun h =>
              (Pmm.allocateFrame_isReady hfail).trans (htakes.isReady h)
            obtain ⟨haccepted, havailable⟩ := Pmm.giveBack_out hwf' hready hnodup hout
            have hgive : freeFramesFrom (k₂.memoryObject s.take.1).frames 0 (k₂.memoryObject s.take.1).pages k₂.pmm =
                k₂.pmm.giveBack gs := by
              rw [freeFramesFrom_eq, hcount, map_frames hframes]
            have hdone : ((k₂.freeFrames s.take.1).freeMemorySlot s.take.1).pmm = k₂.pmm.giveBack gs := by
              rw [← hgive]
              unfold freeFrames
              dsimp only
              split <;> rfl
            have hback : ((k₂.freeFrames s.take.1).freeMemorySlot s.take.1).memorySlab = s := by
              have hkept : (k₂.freeFrames s.take.1).memorySlab = k₂.memorySlab := by
                unfold freeFrames
                dsimp only
                split <;> rfl
              show (k₂.freeFrames s.take.1).memorySlab.put s.take.1 = s
              rw [hkept, hframe, hslab, take_put hne]
            refine ⟨.undone hslot htakes (by omega) hfail hdone haccepted (fun f => by rw [hdone]; exact havailable f)
              hback, ?_⟩
            have hcheck : ((k₂.freeFrames s.take.1).freeMemorySlot s.take.1).halted = false ↔ gs ≠ [] := by
              show (k₂.freeFrames s.take.1).halted = false ↔ _
              unfold freeFrames
              dsimp only
              rw [hcount]
              cases gs with
              | nil => simp [halt]
              | cons f gs => simp [show k₂.halted = false from hhalt.trans hhalted]
            rw [hcheck]
            constructor
            · intro hgs _ _ s' p' h
              rw [hslot] at h
              cases h
              obtain ⟨f, gs, rfl⟩ := exists_cons_of_ne_nil hgs
              obtain ⟨p', ha, -⟩ := htakes
              exact ⟨f, p', ha⟩
            · rintro h rfl
              obtain ⟨f, p', ha⟩ := h (by omega) (by omega) s p hslot
              cases htakes
              rw [hfail] at ha
              cases ha

/-- **`Memory.Create` is all or nothing** exactly when, with the slot in hand, there is one frame to take. -/
theorem createMemory_allOrNothing_iff (hp : k.pmm.Wf) (hfree : ∀ o ∈ k.memorySlab.free, o ≠ 0)
    (hrun : k.halted = false) : AllOrNothing k pages ↔ HasFirstFrame k pages := by
  have hout : Outcome k pages (k.createMemory pages) ∧
      ((k.createMemory pages).2.halted = false ↔ HasFirstFrame k pages) := createMemory_outcome hp hfree hrun
  obtain ⟨houtcome, hiff⟩ := hout
  unfold AllOrNothing
  rw [hiff]
  exact and_iff_right houtcome

/-- On a machine with plenty of frames an object of two pages is made. -/
theorem createMemory_allOrNothing_iff_boot : AllOrNothing (.bare smallMachine) 2 := by
  have hfree : ∀ o ∈ (State.bare smallMachine).memorySlab.free, o ≠ 0 := fun o ho => absurd ho not_mem_nil
  refine (createMemory_allOrNothing_iff smallMachine.pmm_wf hfree rfl).mpr fun _ _ s p h => ?_
  have hfirst : ((State.bare smallMachine).memorySlab.ensureFree memoryObjectsPerFrame
      (State.bare smallMachine).pmm).2.allocateFrame.1.toOption.isSome = true := by decide +kernel
  rw [h] at hfirst
  cases ha : p.allocateFrame with
  | mk r p' =>
    rw [ha] at hfirst
    cases r with
    | error e => cases hfirst
    | ok f => exact ⟨f, p', rfl⟩

/-- The same machine with its last frame in reach of the bump pointer. -/
def oneFrameLeft : State :=
  { State.bare smallMachine with pmm := { smallMachine.pmm with nextFrame := 0x806FF000 } }

/-- The slab grows into the last frame, and the object gets none: the kernel stops. -/
theorem createMemory_last_frame_halts : ¬ AllOrNothing oneFrameLeft 1 := by
  intro h
  have hhalted : (oneFrameLeft.createMemory 1).2.halted = true := by decide +kernel
  rw [h.2] at hhalted
  cases hhalted

end State

end Aegir.Kernel
