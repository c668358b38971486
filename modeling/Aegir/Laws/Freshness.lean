/-
  WHAT A NEW PROCESS CAN READ, compared between two states of the kernel.

  The two states differ only in the contents of free frames, and the same image is spawned in both.  The
  spawns go in step (`Pair`): they take the same frames and write the same pages, but the frames of the user
  stack are mapped as they were found.  So the new processes read the same words exactly if the two states
  agree on the frames that the stack loop takes.
-/
import Aegir.Laws.Runs

open Function (update update_of_ne update_self)

namespace Aegir.Arch

open Aegir.Kernel

namespace PageTable

/-! ## Leaves of a walk -/

variable {l l' : Leaf} {t : PageTable}

theorem mapAt_keeps {is js : List Nat} {p : Pmm} (hlen : js.length = is.length) (hl : leafAt js t = some l') :
    leafAt js (mapAt l is t p).2.1 = some l' := by
  by_cases h : js ≠ is ∨ (mapAt l is t p).1 ≠ .ok
  · rw [(mapAt_spec l is t p).2 js hlen h, hl]
  · rw [not_or, not_not, not_not] at h
    obtain ⟨rfl, hok⟩ := h
    rw [((mapAt_spec l js t p).1 hok).1] at hl
    cases hl

theorem mapAt_leaf (is js : List Nat) {p : Pmm}
    (hlen : js.length = is.length) (hl : leafAt js (mapAt l is t p).2.1 = some l') :
    leafAt js t = some l' ∨ l' = l := by
  by_cases h : js ≠ is ∨ (mapAt l is t p).1 ≠ .ok
  · rw [(mapAt_spec l is t p).2 js hlen h] at hl
    exact .inl hl
  · rw [not_or, not_not, not_not] at h
    obtain ⟨rfl, hok⟩ := h
    rw [((mapAt_spec l js t p).1 hok).2, Option.some.injEq] at hl
    exact .inr hl.symm

theorem mapAt_available (l : Leaf) (is : List Nat) (t : PageTable) (p : Pmm) (hp : p.Wf) (f : Nat)
    (h : (mapAt l is t p).2.2.Available f) : p.Available f := by
  fun_induction mapAt l is t p with
  | case1 t p => exact h
  | case2 i t p hi => exact h
  | case3 i t p hi => exact h
  | case4 i j is t p hi e p' halloc => exact (Pmm.allocateFrame_error hp halloc).2.1 f h
  | case5 i j is t p hi frame p' halloc s sub p'' hs ih =>
    obtain ⟨hp', -, -, -, -, hmono, -⟩ := Pmm.allocateFrame_ok hp halloc
    rw [hs] at ih
    exact hmono f (ih hp' h)
  | case6 i j is t p l' hi => exact h
  | case7 i j is t p frame sub hi s sub' p' hs ih =>
    rw [hs] at ih
    exact ih hp h

/-- No leaf of the table is for user mode. -/
def Supervisor (t : PageTable) : Prop :=
  ∀ va l, leafAt (path va) t = some l → l.flags.user = false

theorem supervisor_zero : Supervisor zero := by
  intro va l hl
  simp [path, leafAt, zero] at hl

/-- The three outcomes of `Map_Page` at once: it kept the leaves, added at most the new one, and took
    frames from the allocator. -/
theorem mapPage_spec (root virtual physical : Nat) (flags : PageFlags) (borrowed : Bool)
    (t : PageTable) {p : Pmm} (hp : p.Wf) :
    let r := mapPage root t virtual physical flags borrowed p
    (∀ va l, leafAt (path va) t = some l → leafAt (path va) r.2.1 = some l) ∧
    (∀ va l, leafAt (path va) r.2.1 = some l → leafAt (path va) t = some l ∨ l = ⟨physical, flags, borrowed⟩) ∧
    (∀ f, r.2.2.Available f → p.Available f) ∧
    (r.1 = .ok → leafAt (path virtual) r.2.1 = some ⟨physical, flags, borrowed⟩) := by
  intro r
  by_cases hbad : root % pageSize ≠ 0 ∨ virtual % pageSize ≠ 0 ∨ physical % pageSize ≠ 0
  · have hr : r = (.invalidAddress, t, p) := if_pos hbad
    rw [hr]
    exact ⟨fun _ _ h => h, fun _ _ h => .inl h, fun _ h => h, fun h => by cases h⟩
  · have hr : r = mapAt ⟨physical, flags, borrowed⟩ (path virtual) t p := if_neg hbad
    rw [hr]
    exact ⟨fun _ _ h => mapAt_keeps rfl h, fun va _ h => mapAt_leaf (path virtual) (path va) rfl h,
      fun f h => mapAt_available _ _ _ _ hp f h, fun h => ((mapAt_spec _ _ _ _).1 h).2⟩

end PageTable

theorem mapTrampoline_supervisor (root n page : Nat) {t : PageTable} {p : Pmm} (hp : p.Wf)
    (ht : t.Supervisor) : (mapTrampoline root page n t p).2.1.Supervisor ∧
      ∀ f, (mapTrampoline root page n t p).2.2.Available f → p.Available f := by
  induction n generalizing page t p with
  | zero => exact ⟨ht, fun _ h => h⟩
  | succ n ih =>
    unfold mapTrampoline
    obtain ⟨-, hleaf, havail, -⟩ := PageTable.mapPage_spec root page (kernelVirtToPhys page) kernelRX false t hp
    have hwf := PageTable.mapPage_wf root t page (kernelVirtToPhys page) kernelRX false p hp
    have hsup : (t.mapPage root page (kernelVirtToPhys page) kernelRX false p).2.1.Supervisor := by
      intro va l hl
      rcases hleaf va l hl with h | rfl
      · exact ht va l h
      · rfl
    split
    · rename_i heq
      rw [heq] at hsup havail hwf
      obtain ⟨h1, h2⟩ := ih (page + pageSize) hwf hsup
      exact ⟨h1, fun f hf => havail f (h2 f hf)⟩
    · exact ⟨hsup, havail⟩

theorem newUserAddressSpace_supervisor {first last root : Nat} {t : PageTable} {p p' : Pmm}
    (hp : p.Wf) (h : newUserAddressSpace first last p = (.ok (root, t), p')) :
    t.Supervisor ∧ p'.Wf ∧ ∀ f, p'.Available f → p.Available f := by
  have hwf := newUserAddressSpace_wf first last p hp
  rw [h] at hwf
  unfold newUserAddressSpace at h
  split at h
  · cases h
  · rename_i frame p1 halloc
    obtain ⟨hp1, -, -, -, -, hmono, -⟩ := Pmm.allocateFrame_ok hp halloc
    obtain ⟨hsup, havail⟩ := mapTrampoline_supervisor frame
      ((last - (first - first % pageSize) + pageSize - 1) / pageSize) (first - first % pageSize) hp1
      PageTable.supervisor_zero
    dsimp only at h
    split at h
    · rename_i heq
      rw [heq] at hsup havail
      cases h
      exact ⟨hsup, hwf, fun f hf => hmono f (havail f hf)⟩
    · cases h

end Aegir.Arch

namespace Aegir.Kernel

open Aegir.Arch

/-- Two pages have the same 512 words. -/
def SamePage (p q : Page) : Prop := ∀ w, w < 512 → p (8 * w) = q (8 * w)

/-- A page whose frame was `listed` on the free list has lost its first word. -/
def scrub (listed : Bool) (p : Page) : Page := if listed then update p 0 0 else p

namespace State

/-- The state with other contents of memory. -/
def withMemory (k : State) (m : Nat → Page) : State := { k with memory := m }

/-! ## The frames of the stack, and the image -/

variable {m' : Nat → Page} {offset : Nat}

/-- The frames that the stack loop takes for the pages `i, i + 1, ..`, each with whether it came off
    the free list. -/
def stackFramesFrom (k : State) (root : Nat) : Nat → Nat → List (Nat × Bool)
  | _, 0 => []
  | i, n + 1 =>
    match k.pmm.allocateFrame with
    | (.error _, _) => []
    | (.ok frame, p) =>
      match ({ k with pmm := p } : State).mapPage root (userStackTop - i * pageSize) frame userRWX
        false with
      | (.ok, k') => (frame, k.pmm.freeListHead != 0) :: stackFramesFrom k' root (i + 1) n
      | _ => []

/-- The frames that the stack loop of a spawn takes. -/
def stackFrames (k : State) : List (Nat × Bool) :=
  match newUserAddressSpace k.trampolineFirst k.trampolineLast k.pmm with
  | (.error _, _) => []
  | (.ok (root, table), p) =>
    ({ k with pmm := p, space := update k.space root table } : State).stackFramesFrom root 1
      userStackPages

/-- The frame that holds a byte of an image. -/
def imageFrame (k : State) (src : ImageSource) (offset : Nat) : Nat :=
  let pa := match src with
    | .physmapBytes base => sub64 (add64 base offset) physmapBase
    | .objectFrames object => k.frameAt object (offset / pageSize) + offset % pageSize
  pa - pa % pageSize

theorem byteAt_congr {k : State} {m : Nat → Page} {pa : Nat}
    (h : m (pa - pa % pageSize) = m' (pa - pa % pageSize)) :
    (k.withMemory m).byteAt pa = (k.withMemory m').byteAt pa := by
  unfold byteAt withMemory
  dsimp only
  rw [h]

/-- The program header at `ph`, and the bytes of the segment that it describes, are inside the image;
    the loader's checks say so only up to wrap-around. -/
def HeaderInside (k : State) (src : ImageSource) (size ph : Nat) : Prop :=
  (add64 ph 56 ≤ size → ph + 56 ≤ size) ∧
  (k.readLE src ph 4 = 1 →
    add64 (k.readLE src (add64 ph 8) 8) (k.readLE src (add64 ph 32) 8) ≤ size →
    k.readLE src (add64 ph 8) 8 + k.readLE src (add64 ph 32) 8 ≤ size)

theorem HeaderInside.fits {k : State} {src : ImageSource} {size ph : Nat} (h : k.HeaderInside src size ph) :
    k.HeaderFits src size ph := by
  intro hle
  have hph := h.1 hle
  have h32 : add64 ph 32 ≤ ph + 32 := Nat.mod_le _ _
  exact ⟨by omega, fun hkind => ⟨by omega, by omega, fun hacc =>
    .inr (h.2 hkind (Nat.not_lt.mp (not_or.mp hacc.1).1))⟩⟩

/-- No program header of the image, and no segment, reaches outside it by wrap-around. -/
def ImageInside (k : State) (src : ImageSource) (size : Nat) : Prop :=
  ∀ index, index < (if k.readLE src 56 2 = 0 then 65536 else k.readLE src 56 2) →
    k.HeaderInside src size (add64 (k.readLE src 32 8) (index * k.readLE src 54 2))

theorem readByte_congr {k : State} {m : Nat → Page} {src : ImageSource}
    (h : m (k.imageFrame src offset) = m' (k.imageFrame src offset)) :
    (k.withMemory m).readByte src offset = (k.withMemory m').readByte src offset := by
  cases src with
  | physmapBytes base => exact byteAt_congr h
  | objectFrames object =>
    have hbyte : (k.withMemory m).byteAt (k.frameAt object (offset / pageSize) + offset % pageSize) =
        (k.withMemory m').byteAt (k.frameAt object (offset / pageSize) + offset % pageSize) :=
      byteAt_congr h
    show (if k.frameAt object (offset / pageSize) = 0 then 0 else _) =
      if k.frameAt object (offset / pageSize) = 0 then 0 else _
    split
    · rfl
    · exact hbyte

/-! ## Two spawns in step -/

variable {flags : PageFlags}

/-- **Two spawns at the same point.**  `k₀` and the memory `m₀` are where they started, `k` and `m`
    where they are now; `root` is the new address space and `stack` the frames mapped for the stack
    so far.  Frames that are still available, and frames that were not, are as at the start. -/
structure Pair (k₀ : State) (m₀ : Nat → Page) (root : Nat) (stack : List (Nat × Bool)) (k : State)
    (m : Nat → Page) : Prop where
  paged : Paged k₀ k
  wf : k.pmm.Wf
  avail : ∀ f, k.pmm.Available f → k₀.pmm.Available f
  fresh : ∀ f, k.pmm.Available f → k.memory f = k₀.memory f ∧ m f = m₀ f
  held : ∀ f, ¬ k₀.pmm.Available f → k.memory f = k₀.memory f ∧ m f = m₀ f
  taken : ∀ x ∈ stack, ¬ k.pmm.Available x.1
  found : ∀ x ∈ stack, k.memory x.1 = scrub x.2 (k₀.memory x.1) ∧ m x.1 = scrub x.2 (m₀ x.1)
  mapped : ∀ x ∈ stack, ∃ va, PageTable.leafAt (PageTable.path va) (k.space root) =
    some ⟨x.1, userRWX, false⟩
  leaves : ∀ va l, PageTable.leafAt (PageTable.path va) (k.space root) = some l →
    l.flags.user = true → (∃ b, (l.frame, b) ∈ stack) ∨ SamePage (k.memory l.frame) (m l.frame)

theorem mapPage_withMemory (k : State) (m : Nat → Page) (root virtual physical : Nat)
    (flags : PageFlags) (borrowed : Bool) :
    (k.withMemory m).mapPage root virtual physical flags borrowed =
      ((k.mapPage root virtual physical flags borrowed).1,
        (k.mapPage root virtual physical flags borrowed).2.withMemory m) := rfl

theorem stackFramesFrom_withMemory (n root i : Nat) (k : State) (m : Nat → Page) :
    (k.withMemory m).stackFramesFrom root i n = k.stackFramesFrom root i n := by
  induction n generalizing k i with
  | zero => rfl
  | succ n ih =>
    unfold stackFramesFrom
    show (match k.pmm.allocateFrame with
      | (.error _, _) => []
      | (.ok frame, p) => _) = _
    cases k.pmm.allocateFrame with
    | mk r p =>
      cases r with
      | error s => rfl
      | ok frame =>
        dsimp only
        rw [show ({ k.withMemory m with pmm := p } : State) =
          ({ k with pmm := p } : State).withMemory m from rfl, mapPage_withMemory]
        cases ({ k with pmm := p } : State).mapPage root (userStackTop - i * pageSize) frame userRWX false with
        | mk status k' =>
          cases status with
          | ok => exact congrArg _ (ih _ k')
          | _ => rfl

theorem clearLink_self (p : Pmm) (f : Nat) (m : Nat → Page) :
    p.clearLink f m f = scrub (p.freeListHead != 0) (m f) := by
  unfold Pmm.clearLink scrub
  by_cases h : p.freeListHead = 0
  · simp [h]
  · simp [h]

theorem clearLink_of_ne (p : Pmm) {f g : Nat} (hne : g ≠ f) (m : Nat → Page) : p.clearLink f m g = m g := by
  unfold Pmm.clearLink
  split
  · rfl
  · exact update_of_ne hne _ _

theorem mapFresh_eq_some {k k' : State} {root f : Nat} {virtual : Nat → Nat}
    (h : k.mapFresh root virtual flags = (some f, k')) :
    ∃ p, k.pmm.allocateFrame = (.ok f, p) ∧
      ({ k with pmm := p } : State).mapPage root (virtual f) f flags false = (.ok, k') := by
  unfold mapFresh at h
  split at h
  · cases h
  · rename_i frame p halloc
    dsimp only at h
    split at h
    · rename_i hmap
      cases h
      exact ⟨p, halloc, hmap⟩
    · cases h

theorem mapFresh_of_eq {k k' : State} {root f : Nat} {virtual : Nat → Nat}
    {p : Pmm} (halloc : k.pmm.allocateFrame = (.ok f, p))
    (hmap : ({ k with pmm := p } : State).mapPage root (virtual f) f flags false = (.ok, k')) :
    k.mapFresh root virtual flags = (some f, k') := by
  unfold mapFresh
  rw [halloc]
  dsimp only
  rw [hmap]

namespace Pair

variable {k₀ k k' : State} {m₀ m : Nat → Page} {root f : Nat} {stack : List (Nat × Bool)} {p : Pmm}

section

variable (h : Pair k₀ m₀ root stack k m)

include h

theorem map (virtual physical : Nat) (flags : PageFlags) (borrowed : Bool) (hf : flags.user = true →
      (∃ b, (physical, b) ∈ stack) ∨ SamePage (k.memory physical) (m physical)) :
    Pair k₀ m₀ root stack (k.mapPage root virtual physical flags borrowed).2 m := by
  obtain ⟨hkeep, hleaf, havail, -⟩ := PageTable.mapPage_spec root virtual physical flags borrowed
    (k.space root) h.wf
  have hp := mapPage_paged k root virtual physical flags borrowed
  have hspace : (k.mapPage root virtual physical flags borrowed).2.space root =
      ((k.space root).mapPage root virtual physical flags borrowed k.pmm).2.1 :=
    update_self _ _ _
  refine ⟨h.paged.trans hp, hp.wf h.wf, fun g hg => h.avail g (havail g hg),
    fun g hg => h.fresh g (havail g hg), h.held, fun x hx ha => h.taken x hx (havail _ ha), h.found,
    fun x hx => ?_, fun va l hl hu => ?_⟩
  · obtain ⟨va, hva⟩ := h.mapped x hx
    refine ⟨va, ?_⟩
    rw [hspace]
    exact hkeep va _ hva
  · rw [hspace] at hl
    rcases hleaf va l hl with hl | rfl
    · exact h.leaves va l hl hu
    · exact hf hu

theorem take (halloc : k.pmm.allocateFrame = (.ok f, p)) :
    Pair k₀ m₀ root stack { k with pmm := p } m ∧ k₀.pmm.Available f ∧ ¬ p.Available f ∧
      (∀ x ∈ stack, x.1 ≠ f) ∧ k.memory f = k₀.memory f ∧ m f = m₀ f := by
  obtain ⟨hwf, -, hav, -, hgone, hmono, -⟩ := Pmm.allocateFrame_ok h.wf halloc
  refine ⟨⟨h.paged.trans (allocate_paged halloc), hwf, fun g hg => h.avail g (hmono g hg),
    fun g hg => h.fresh g (hmono g hg), h.held, fun x hx ha => h.taken x hx (hmono _ ha), h.found,
    h.mapped, h.leaves⟩, h.avail f hav, hgone, fun x hx he => h.taken x hx (he ▸ hav), h.fresh f hav⟩

theorem write (h0 : k₀.pmm.Available f) (hf : ¬ k.pmm.Available f) (hstack : ∀ x ∈ stack, x.1 ≠ f) (page : Page) :
    Pair k₀ m₀ root stack { k with memory := update k.memory f page }
      (update m f page) := by
  have hother : ∀ g, g ≠ f → update k.memory f page g = k.memory g ∧ update m f page g = m g :=
    fun g hg => ⟨update_of_ne hg _ _, update_of_ne hg _ _⟩
  refine ⟨h.paged.trans ⟨rfl, id⟩, h.wf, h.avail, fun g hg => ?_, fun g hg => ?_, h.taken,
    fun x hx => ?_, h.mapped, fun va l hl hu => ?_⟩
  · obtain ⟨h1, h2⟩ := hother g (fun he => hf (he ▸ hg))
    exact ⟨h1.trans (h.fresh g hg).1, h2.trans (h.fresh g hg).2⟩
  · obtain ⟨h1, h2⟩ := hother g (fun he => hg (he ▸ h0))
    exact ⟨h1.trans (h.held g hg).1, h2.trans (h.held g hg).2⟩
  · obtain ⟨h1, h2⟩ := hother x.1 (hstack x hx)
    exact ⟨h1.trans (h.found x hx).1, h2.trans (h.found x hx).2⟩
  · by_cases hl' : l.frame = f
    · refine .inr ?_
      show SamePage (update k.memory f page l.frame) (update m f page l.frame)
      rw [hl', update_self, update_self]
      exact fun _ _ => rfl
    · obtain ⟨h1, h2⟩ := hother l.frame hl'
      show _ ∨ SamePage (update k.memory f page l.frame) (update m f page l.frame)
      rw [h1, h2]
      exact h.leaves va l hl hu

theorem stackPage {virtual : Nat} (halloc : k.pmm.allocateFrame = (.ok f, p))
    (hmap : ({ k with pmm := p, memory := k.pmm.clearLink f k.memory } : State).mapPage root virtual f
      userRWX false = (.ok, k')) :
    Pair k₀ m₀ root (stack ++ [(f, k.pmm.freeListHead != 0)]) k' (k.pmm.clearLink f m) := by
  obtain ⟨h1, h0, hgone, hne, hk, hm⟩ := h.take halloc
  -- the pair before the mapping, with the frame in the stack but for its leaf
  have hother : ∀ g, g ≠ f → k.pmm.clearLink f k.memory g = k.memory g ∧
      k.pmm.clearLink f m g = m g := fun g hg => ⟨clearLink_of_ne _ hg _, clearLink_of_ne _ hg _⟩
  obtain ⟨hkeep, hleaf, havail, hnew⟩ := PageTable.mapPage_spec root virtual f userRWX false (k.space root) h1.wf
  have hp := mapPage_paged { k with pmm := p, memory := k.pmm.clearLink f k.memory } root virtual f userRWX false
  have hspace : k'.space root = ((k.space root).mapPage root virtual f userRWX false p).2.1 := by
    have := congrArg (fun r => r.2.space root) hmap
    exact this.symm.trans (update_self _ _ _)
  have hmem : k'.memory = k.pmm.clearLink f k.memory := (congrArg (fun r => r.2.memory) hmap).symm
  have hpmm : k'.pmm = ((k.space root).mapPage root virtual f userRWX false p).2.2 :=
    (congrArg (fun r => r.2.pmm) hmap).symm
  have hok : ((k.space root).mapPage root virtual f userRWX false p).1 = .ok :=
    congrArg Prod.fst hmap
  rw [hmap] at hp
  rw [← hspace] at hkeep hleaf hnew
  rw [← hpmm] at havail
  have hcases : ∀ x, x ∈ stack ++ [(f, k.pmm.freeListHead != 0)] →
      x ∈ stack ∨ x = (f, k.pmm.freeListHead != 0) := by
    intro x hx
    simpa using hx
  have hclear : Paged { k with pmm := p } { k with pmm := p, memory := k.pmm.clearLink f k.memory } :=
    ⟨rfl, id⟩
  refine ⟨(h1.paged.trans hclear).trans hp, hp.wf h1.wf, fun g hg => h1.avail g (havail g hg),
    fun g hg => ?_, fun g hg => ?_, fun x hx ha => ?_, fun x hx => ?_, fun x hx => ?_,
    fun va l hl hu => ?_⟩
  · have hgf : g ≠ f := fun he => hgone (he ▸ havail g hg)
    rw [hmem, (hother g hgf).1, (hother g hgf).2]
    exact h1.fresh g (havail g hg)
  · have hgf : g ≠ f := fun he => hg (he ▸ h0)
    rw [hmem, (hother g hgf).1, (hother g hgf).2]
    exact h.held g hg
  · rcases hcases x hx with hx | rfl
    · exact h1.taken x hx (havail _ ha)
    · exact hgone (havail _ ha)
  · rcases hcases x hx with hx | rfl
    · rw [hmem, (hother x.1 (hne x hx)).1, (hother x.1 (hne x hx)).2]
      exact h.found x hx
    · rw [hmem, clearLink_self, clearLink_self, hk, hm]
      exact ⟨rfl, rfl⟩
  · rcases hcases x hx with hx | rfl
    · obtain ⟨va, hva⟩ := h.mapped x hx
      exact ⟨va, hkeep va _ hva⟩
    · exact ⟨virtual, hnew hok⟩
  · rcases hleaf va l hl with hl | rfl
    · by_cases hlf : l.frame = f
      · exact .inl ⟨k.pmm.freeListHead != 0, by simp [hlf]⟩
      · rw [hmem, (hother l.frame hlf).1, (hother l.frame hlf).2]
        rcases h.leaves va l hl hu with ⟨b, hb⟩ | hsame
        · exact .inl ⟨b, by simp [hb]⟩
        · exact .inr hsame
    · exact .inl ⟨k.pmm.freeListHead != 0, by simp⟩

end

/-- **The stack loops go in step.** -/
theorem mapStack (n i : Nat) (k : State) (m : Nat → Page) (stack : List (Nat × Bool))
    (h : Pair k₀ m₀ root stack k m) (hrun : k.mapStack root i n = (true, k')) :
    ∃ m', (k.withMemory m).mapStack root i n = (true, k'.withMemory m') ∧
      Pair k₀ m₀ root (stack ++ k.stackFramesFrom root i n) k' m' := by
  induction n generalizing k m i stack with
  | zero =>
    obtain rfl : k = k' := (Prod.ext_iff.mp hrun).2
    exact ⟨m, rfl, by simpa [stackFramesFrom] using h⟩
  | succ n ih =>
    unfold State.mapStack at hrun ⊢
    unfold stackFramesFrom
    cases halloc : k.pmm.allocateFrame with
    | mk r p =>
      cases r with
      | error s =>
        rw [halloc] at hrun
        cases hrun
      | ok frame =>
        rw [halloc] at hrun
        dsimp only at hrun
        cases hmap : ({ k with pmm := p, memory := k.pmm.clearLink frame k.memory } : State).mapPage
            root (userStackTop - i * pageSize) frame userRWX false with
        | mk status k₁ =>
          rw [hmap] at hrun
          -- the same mapping on other contents of memory
          have hcomm : ∀ m' : Nat → Page, ({ k with pmm := p, memory := m' } : State).mapPage root
              (userStackTop - i * pageSize) frame userRWX false = (status, k₁.withMemory m') := by
            intro m'
            have := mapPage_withMemory { k with pmm := p, memory := k.pmm.clearLink frame k.memory } m'
              root (userStackTop - i * pageSize) frame userRWX false
            rw [hmap] at this
            exact this
          cases status with
          | ok =>
            obtain ⟨m', hm', hpair⟩ := ih (i + 1) k₁ _ _ (h.stackPage halloc hmap) hrun
            refine ⟨m', ?_, ?_⟩
            · dsimp only [withMemory]
              rw [halloc]
              dsimp only
              rw [hcomm]
              exact hm'
            · dsimp only
              rw [show ({ k with pmm := p } : State).mapPage root (userStackTop - i * pageSize) frame
                userRWX false = _ from hcomm k.memory]
              dsimp only
              rw [stackFramesFrom_withMemory, List.append_cons]
              exact hpair
          | _ => cases hrun

theorem mapFresh_kernel {virtual : Nat → Nat} (h : Pair k₀ m₀ root stack k m)
    (hflags : flags.user = false) (hrun : k.mapFresh root virtual flags = (some f, k')) :
    (k.withMemory m).mapFresh root virtual flags = (some f, k'.withMemory m) ∧ Pair k₀ m₀ root stack k' m := by
  obtain ⟨p, halloc, hmap⟩ := mapFresh_eq_some hrun
  refine ⟨mapFresh_of_eq halloc (k := k.withMemory m) ?_, ?_⟩
  · have := mapPage_withMemory { k with pmm := p } m root (virtual f) f flags false
    rw [hmap] at this
    exact this
  · have h1 := (h.take halloc).1.map (virtual f) f flags false fun hu => absurd (hflags.symm.trans hu) (by simp)
    rw [hmap] at h1
    exact h1

theorem mapFresh_zero {virtual : Nat → Nat} (h : Pair k₀ m₀ root stack k m)
    (hrun : k.mapFresh root virtual flags = (some f, k')) :
    (k.withMemory m).mapFresh root virtual flags = (some f, k'.withMemory m) ∧
      Pair k₀ m₀ root stack (k'.zeroFrame f) (update m f fun _ => 0) := by
  obtain ⟨p, halloc, hmap⟩ := mapFresh_eq_some hrun
  refine ⟨mapFresh_of_eq halloc (k := k.withMemory m) ?_, ?_⟩
  · have := mapPage_withMemory { k with pmm := p } m root (virtual f) f flags false
    rw [hmap] at this
    exact this
  · obtain ⟨h1, h0, hgone, hne, -⟩ := h.take halloc
    have h2 := (h1.write h0 hgone hne fun _ => 0).map (virtual f) f flags false fun _ => .inr (by
      show SamePage (update k.memory f _ f) (update m f _ f)
      rw [update_self, update_self]
      exact fun _ _ => rfl)
    -- zeroing before the mapping is zeroing after it
    have hcomm := mapPage_withMemory { k with pmm := p } (update k.memory f fun _ => 0) root
      (virtual f) f flags false
    rw [hmap] at hcomm
    have hstate : (({ k with pmm := p, memory := update k.memory f fun _ => 0 } :
        State).mapPage root (virtual f) f flags false).2 = k'.zeroFrame f := by
      refine (congrArg Prod.snd hcomm).trans ?_
      have hmem : k'.memory = k.memory := (congrArg (fun r => r.2.memory) hmap).symm
      show k'.withMemory _ = { k' with memory := update k'.memory f fun _ => 0 }
      rw [hmem]
      rfl
    exact hstate ▸ h2

/-! ### The image -/

section Image

variable {src : ImageSource} {size filesz : Nat} (hdiff : ∀ g, ¬ k₀.pmm.Available g → m₀ g = k₀.memory g)
  (himage : ∀ offset, offset < size → ¬ k₀.pmm.Available (k₀.imageFrame src offset))

include hdiff himage

section

variable (h : Pair k₀ m₀ root stack k m)

include h

theorem readByte (offset : Nat)
    (ho : offset < size) : k.readByte src offset = k₀.readByte src offset ∧
      (k.withMemory m).readByte src offset = k₀.readByte src offset := by
  have hfree := himage offset ho
  have hk : k.readByte src offset = (k₀.withMemory k.memory).readByte src offset := by
    conv_lhs => rw [h.paged.same]
    rfl
  have hm : (k.withMemory m).readByte src offset = (k₀.withMemory m).readByte src offset := by
    conv_lhs => rw [h.paged.same]
    rfl
  have h0 : k₀.readByte src offset = (k₀.withMemory k₀.memory).readByte src offset := rfl
  rw [hk, hm, h0]
  exact ⟨readByte_congr (h.held _ hfree).1, readByte_congr ((h.held _ hfree).2.trans (hdiff _ hfree))⟩

theorem readLE (n offset : Nat) (ho : offset + n ≤ size) :
    k.readLE src offset n = k₀.readLE src offset n ∧
      (k.withMemory m).readLE src offset n = k₀.readLE src offset n := by
  induction n generalizing offset with
  | zero => exact ⟨rfl, rfl⟩
  | succ n ih =>
    obtain ⟨hk, hm⟩ := h.readByte hdiff himage offset (by omega)
    have hle : add64 offset 1 ≤ offset + 1 := Nat.mod_le _ _
    obtain ⟨ihk, ihm⟩ := ih (add64 offset 1) (by omega)
    unfold State.readLE
    rw [hk, hm, ihk, ihm]
    exact ⟨rfl, rfl⟩

theorem segmentPage (hin : filesz = 0 ∨ offset + filesz ≤ size) (pageVA vaddr : Nat) :
    (k.withMemory m).segmentPage src pageVA vaddr offset filesz =
      k.segmentPage src pageVA vaddr offset filesz := by
  have hbyte : ∀ va, (if vaddr ≤ va ∧ va < add64 vaddr filesz then
      (k.withMemory m).readByte src (add64 offset (va - vaddr)) else 0) =
      if vaddr ≤ va ∧ va < add64 vaddr filesz then
        k.readByte src (add64 offset (va - vaddr)) else 0 := by
    intro va
    split
    · rename_i hva
      have hle : add64 vaddr filesz ≤ vaddr + filesz := Nat.mod_le _ _
      have hin : offset + filesz ≤ size := hin.resolve_left (by omega)
      have hle' : add64 offset (va - vaddr) ≤ offset + (va - vaddr) := Nat.mod_le _ _
      obtain ⟨h1, h2⟩ := h.readByte hdiff himage (add64 offset (va - vaddr)) (by omega)
      rw [h1, h2]
    · rfl
  unfold State.segmentPage
  simp only [hbyte]

end

/-- **The page loops go in step.** -/
theorem loadPages (hin : filesz = 0 ∨ offset + filesz ≤ size) (vaddr : Nat) (flags : PageFlags)
    (n pageVA : Nat) (k : State) (m : Nat → Page) (h : Pair k₀ m₀ root stack k m)
    (hrun : k.loadPages src root vaddr offset filesz flags pageVA n = (true, k')) :
    ∃ m', (k.withMemory m).loadPages src root vaddr offset filesz flags pageVA n =
        (true, k'.withMemory m') ∧ Pair k₀ m₀ root stack k' m' := by
  induction n generalizing k m pageVA with
  | zero =>
    obtain rfl : k = k' := (Prod.ext_iff.mp hrun).2
    exact ⟨m, rfl, h⟩
  | succ n ih =>
    unfold State.loadPages at hrun ⊢
    cases halloc : k.pmm.allocateFrame with
    | mk r p =>
      cases r with
      | error s =>
        rw [halloc] at hrun
        cases hrun
      | ok frame =>
        rw [halloc] at hrun
        dsimp only at hrun
        obtain ⟨h1, h0, hgone, hne, -⟩ := h.take halloc
        have hpage := h.segmentPage hdiff himage hin pageVA vaddr
        generalize k.segmentPage src pageVA vaddr offset filesz = page at hrun hpage
        have h2 := (h1.write h0 hgone hne page).map pageVA frame flags false fun _ => .inr (by
          show SamePage (update k.memory frame _ frame) (update m frame _ frame)
          rw [update_self, update_self]
          exact fun _ _ => rfl)
        have hcomm := mapPage_withMemory { k with
          pmm := p, memory := update k.memory frame page } (update m frame page) root
          pageVA frame flags false
        cases hmap : ({ k with pmm := p, memory := update k.memory frame page } :
            State).mapPage root pageVA frame flags false with
        | mk status k₁ =>
          rw [hmap] at hrun
          rw [hmap] at hcomm h2
          cases status with
          | ok =>
            obtain ⟨m', hm', hpair⟩ := ih (pageVA + pageSize) k₁ _ h2 hrun
            refine ⟨m', ?_, hpair⟩
            rw [show (k.withMemory m).pmm.allocateFrame = _ from halloc]
            dsimp only
            rw [hpage]
            dsimp only [withMemory]
            rw [show ({ k with pmm := p, memory := update m frame page } :
              State).mapPage root pageVA frame flags false = _ from hcomm]
            exact hm'
          | _ => cases hrun

/-- The words of a header stay as at the start. -/
theorem programHeader (h : Pair k₀ m₀ root stack k m) {ph : Nat} (h24 : ph + 24 ≤ size)
    (h48 : add64 ph 32 + 16 ≤ size) : k.programHeader src ph = k₀.programHeader src ph ∧
      (k.withMemory m).programHeader src ph = k₀.programHeader src ph := by
  have hadd : ∀ d, add64 ph d ≤ ph + d := fun d => Nat.mod_le _ _
  have h4 := hadd 4
  have h8 := hadd 8
  have h16 := hadd 16
  have h40 : add64 ph 40 ≤ add64 ph 32 + 8 := by
    unfold add64
    omega
  obtain ⟨hk1, hm1⟩ := h.readLE hdiff himage 4 ph (by omega)
  obtain ⟨hk2, hm2⟩ := h.readLE hdiff himage 4 (add64 ph 4) (by omega)
  obtain ⟨hk3, hm3⟩ := h.readLE hdiff himage 8 (add64 ph 8) (by omega)
  obtain ⟨hk4, hm4⟩ := h.readLE hdiff himage 8 (add64 ph 16) (by omega)
  obtain ⟨hk5, hm5⟩ := h.readLE hdiff himage 8 (add64 ph 32) (by omega)
  obtain ⟨hk6, hm6⟩ := h.readLE hdiff himage 8 (add64 ph 40) (by omega)
  unfold State.programHeader
  rw [hk1, hk2, hk3, hk4, hk5, hk6, hm1, hm2, hm3, hm4, hm5, hm6]
  exact ⟨rfl, rfl⟩

theorem loadSegment (h : Pair k₀ m₀ root stack k m) {ph : Nat} (hin : k₀.HeaderFits src size ph)
    (hrun : k.loadSegment src size root ph = (true, k')) :
    ∃ m', (k.withMemory m).loadSegment src size root ph = (true, k'.withMemory m') ∧
      Pair k₀ m₀ root stack k' m' := by
  rw [loadSegment_eq] at hrun ⊢
  dsimp only at hrun ⊢
  split at hrun
  · cases hrun
  rename_i hph
  obtain ⟨h4, hload⟩ := hin (Nat.not_lt.mp hph)
  obtain ⟨hk, hm⟩ := h.readLE hdiff himage 4 ph h4
  have hk : (k.programHeader src ph).kind = (k₀.programHeader src ph).kind := hk
  have hm : ((k.withMemory m).programHeader src ph).kind = (k₀.programHeader src ph).kind := hm
  rw [if_neg hph, hm]
  rw [hk] at hrun
  split at hrun
  · rename_i htype
    rw [if_pos htype]
    obtain rfl : k = k' := (Prod.ext_iff.mp hrun).2
    exact ⟨m, rfl, h⟩
  · rename_i htype
    obtain ⟨h24, h48, hfile⟩ := hload (not_not.mp htype)
    obtain ⟨hk, hm⟩ := h.programHeader hdiff himage h24 h48
    rw [if_neg htype, hm]
    rw [hk] at hrun
    split at hrun
    · rename_i hacc
      rw [if_pos hacc]
      exact loadPages hdiff himage (hfile hacc) _ _ _ _ k m h hrun
    · cases hrun

theorem loadSegments (phOffset entrySize n index : Nat)
    (hin : ∀ i, index ≤ i → i < index + n → k₀.HeaderFits src size (add64 phOffset (i * entrySize)))
    (k : State) (m : Nat → Page) (h : Pair k₀ m₀ root stack k m)
    (hrun : k.loadSegments src size root phOffset entrySize index n = (true, k')) :
    ∃ m', (k.withMemory m).loadSegments src size root phOffset entrySize index n =
        (true, k'.withMemory m') ∧ Pair k₀ m₀ root stack k' m' := by
  induction n generalizing k m index with
  | zero =>
    obtain rfl : k = k' := (Prod.ext_iff.mp hrun).2
    exact ⟨m, rfl, h⟩
  | succ n ih =>
    unfold State.loadSegments at hrun ⊢
    split at hrun
    · rename_i k₁ hseg
      obtain ⟨m1, hm1, h₁⟩ := h.loadSegment hdiff himage (hin index (Nat.le_refl _) (by omega)) hseg
      rw [hm1]
      exact ih (index + 1) (fun i h1 h2 => hin i (by omega) (by omega)) k₁ m1 h₁ hrun
    · cases hrun

/-- **The loaders go in step**, on an image that stays inside itself. -/
theorem loadIntoAddressSpace (h : Pair k₀ m₀ root stack k m) (hin : k₀.ImageInside src size)
    (hrun : k.loadIntoAddressSpace src size root = (true, k')) :
    ∃ m', (k.withMemory m).loadIntoAddressSpace src size root = (true, k'.withMemory m') ∧
      Pair k₀ m₀ root stack k' m' := by
  by_cases hsize : size < 64
  · unfold State.loadIntoAddressSpace at hrun
    rw [if_pos (.inl hsize)] at hrun
    cases hrun
  · have hb : ∀ o, o < 64 → (k.withMemory m).readByte src o = k.readByte src o := by
      intro o ho
      obtain ⟨h1, h2⟩ := h.readByte hdiff himage o (by omega)
      rw [h1, h2]
    obtain ⟨hk1, hm1⟩ := h.readLE hdiff himage 2 18 (by omega)
    obtain ⟨hk2, hm2⟩ := h.readLE hdiff himage 2 54 (by omega)
    obtain ⟨hk3, hm3⟩ := h.readLE hdiff himage 2 56 (by omega)
    obtain ⟨hk4, hm4⟩ := h.readLE hdiff himage 8 32 (by omega)
    unfold State.loadIntoAddressSpace at hrun ⊢
    rw [hb 0 (by omega), hb 1 (by omega), hb 2 (by omega), hb 3 (by omega), hb 4 (by omega), hb 5 (by omega), hm1]
    rw [hk1] at hrun
    split at hrun
    · cases hrun
    · rename_i h1
      rw [if_neg h1]
      split at hrun
      · cases hrun
      · rename_i h2
        rw [if_neg h2]
        dsimp only at hrun ⊢
        rw [hk2, hk3, hk4] at hrun
        rw [hm2, hm3, hm4]
        split at hrun
        · cases hrun
        · rename_i h3
          rw [if_neg h3]
          exact loadSegments hdiff himage _ _ _ 0 (fun i _ hi => (hin i (by omega)).fits) k m h hrun

end Image

end Pair

/-- The steps of a build that succeeded. -/
structure Built (k : State) (src : ImageSource) (size root buffer stack : Nat) (k' : State) where
  table : PageTable
  pmm : Pmm
  afterStack : State
  afterBuffer : State
  afterKernel : State
  new : newUserAddressSpace k.trampolineFirst k.trampolineLast k.pmm = (.ok (root, table), pmm)
  stacked : ({ k with pmm := pmm, space := update k.space root table } : State).mapStack
    root 1 userStackPages = (true, afterStack)
  buffered : afterStack.mapFresh root (fun _ => ipcBufferVA) userRW = (some buffer, afterBuffer)
  kernel : (afterBuffer.zeroFrame buffer).mapFresh root physToVirt kernelRW =
    (some stack, afterKernel)
  loaded : afterKernel.loadIntoAddressSpace src size root = (true, k')

variable {buffer : Nat}

theorem Built.eq {k k' : State} {src : ImageSource} {size root stack : Nat}
    (h : Built k src size root buffer stack k') :
    k.buildAddressSpace src size = (some (root, buffer, stack), k') := by
  unfold buildAddressSpace
  rw [h.new]
  dsimp only
  rw [h.stacked]
  dsimp only
  rw [h.buffered]
  dsimp only
  rw [h.kernel]
  dsimp only
  rw [h.loaded]

theorem exists_built {k k' : State} {src : ImageSource} {size root stack : Nat}
    (h : k.buildAddressSpace src size = (some (root, buffer, stack), k')) :
    Nonempty (Built k src size root buffer stack k') := by
  unfold buildAddressSpace at h
  split at h
  · cases h
  · rename_i root' table p hnew
    dsimp only at h
    split at h
    · cases h
    · rename_i k₂ hstack
      split at h
      · cases h
      · rename_i buffer' k₃ hbuf
        split at h
        · cases h
        · rename_i stack' k₄ hkernel
          split at h
          · rename_i k5 hload
            cases h
            exact ⟨⟨table, p, k₂, k₃, k₄, hnew, hstack, hbuf, hkernel, hload⟩⟩
          · cases h

/-- **The two address spaces are built in step.** -/
theorem buildAddressSpace_pair {k₀ k₁ : State} {m₀ : Nat → Page} {src : ImageSource} {size root stack : Nat} (hwf : k₀.pmm.Wf)
    (hdiff : ∀ g, ¬ k₀.pmm.Available g → m₀ g = k₀.memory g)
    (himage : ∀ offset, offset < size → ¬ k₀.pmm.Available (k₀.imageFrame src offset))
    (hin : k₀.ImageInside src size)
    (hrun : k₀.buildAddressSpace src size = (some (root, buffer, stack), k₁)) :
    ∃ m1, (k₀.withMemory m₀).buildAddressSpace src size =
        (some (root, buffer, stack), k₁.withMemory m1) ∧ Pair k₀ m₀ root k₀.stackFrames k₁ m1 := by
  obtain ⟨b⟩ := exists_built hrun
  obtain ⟨hsup, hp, havail⟩ := newUserAddressSpace_supervisor hwf b.new
  -- nothing is for user mode yet
  have h0 : Pair k₀ m₀ root [] { k₀ with
      pmm := b.pmm, space := update k₀.space root b.table } m₀ := by
    refine ⟨⟨rfl, fun _ => hp⟩, hp, havail, fun _ _ => ⟨rfl, rfl⟩, fun _ _ => ⟨rfl, rfl⟩,
      fun x hx => (by cases hx), fun x hx => (by cases hx), fun x hx => (by cases hx),
      fun va l hl hu => ?_⟩
    change PageTable.leafAt _ (update k₀.space root b.table root) = some l at hl
    rw [update_self] at hl
    exact absurd ((hsup va l hl).symm.trans hu) (by simp)
  obtain ⟨m2, hm2, h2⟩ := Pair.mapStack userStackPages 1 _ m₀ [] h0 b.stacked
  obtain ⟨hm3, h3⟩ := h2.mapFresh_zero b.buffered
  obtain ⟨hm4, h4⟩ := h3.mapFresh_kernel rfl b.kernel
  obtain ⟨m5, hm5, h5⟩ := h4.loadIntoAddressSpace hdiff himage hin b.loaded
  have hframes : k₀.stackFrames = [] ++ ({ k₀ with
      pmm := b.pmm, space := update k₀.space root b.table } : State).stackFramesFrom root 1
      userStackPages := by
    unfold stackFrames
    rw [b.new]
    rfl
  refine ⟨m5, ?_, hframes ▸ h5⟩
  exact Built.eq ⟨b.table, b.pmm, b.afterStack.withMemory m2, b.afterBuffer.withMemory m2,
    b.afterKernel.withMemory _, b.new, hm2, hm3, hm4, hm5⟩

/-! ## The rest of a spawn does not look at memory -/

/-- The state with other memory and other page tables. -/
def withStore (k : State) (m : Nat → Page) (s : Nat → PageTable) : State :=
  { k with memory := m, space := s }

section

variable (k : State)

theorem withStore_self : k.withStore k.memory k.space = k := rfl

theorem retainCap_withStore (m : Nat → Page) (s : Nat → PageTable) (e : CapEntry) :
    (k.withStore m s).retainCap e = (k.retainCap e).withStore m s := by
  unfold retainCap
  cases e.valid with
  | false => rfl
  | true =>
    cases e.kind with
    | endpointObject =>
      show (if e.object = 0 ∨ (k.endpoint e.object).count = pinnedRefcount then _ else _) =
        State.withStore (if e.object = 0 ∨ (k.endpoint e.object).count = pinnedRefcount then _ else _) m s
      split <;> rfl
    | memoryObject =>
      show (if e.object = 0 then _ else _) = State.withStore (if e.object = 0 then _ else _) m s
      split <;> rfl
    | notificationObject =>
      show (if k.isNotificationSlot e.object then _ else _) =
        State.withStore (if k.isNotificationSlot e.object then _ else _) m s
      split <;> rfl
    | _ => rfl

theorem insertProcessCapAt_withStore (m : Nat → Page) (s : Nat → PageTable)
    (process cap : Nat) (kind : ObjectKind) (object : Nat) (rights : Rights) (badge : U64) :
    (k.withStore m s).insertProcessCapAt process cap kind object rights badge =
      ((k.insertProcessCapAt process cap kind object rights badge).1,
        (k.insertProcessCapAt process cap kind object rights badge).2.withStore m s) := by
  unfold insertProcessCapAt
  dsimp only [withStore]
  cases (k.pcb process).caps.insertAt cap kind object rights badge k.pmm with
  | mk status r =>
    obtain ⟨t, p⟩ := r
    cases status with
    | ok => exact Prod.ext rfl (retainCap_withStore (k.setCaps process t p) m s
        ⟨true, kind, object, rights, badge⟩)
    | _ => rfl

theorem insertCap_withStore (m : Nat → Page) (s : Nat → PageTable) (t : Nat)
    (kind : ObjectKind) (object : Nat) (rights : Rights) (badge : U64) :
    (k.withStore m s).insertCap t kind object rights badge = ((k.insertCap t kind object rights badge).1,
        (k.insertCap t kind object rights badge).2.withStore m s) := by
  unfold insertCap insertProcessCap
  rw [show ((k.withStore m s).tcb t).process = (k.tcb t).process from rfl]
  split
  · rfl
  · rw [show ((k.withStore m s).pcb (k.tcb t).process).caps.insert kind object rights badge (k.withStore m s).pmm =
      (k.pcb (k.tcb t).process).caps.insert kind object rights badge k.pmm from rfl]
    cases (k.pcb (k.tcb t).process).caps.insert kind object rights badge k.pmm with
    | mk status r =>
      obtain ⟨table, p⟩ := r
      cases status with
      | ok cap => exact Prod.ext rfl (retainCap_withStore (k.setCaps (k.tcb t).process table p) m s
          ⟨true, kind, object, rights, badge⟩)
      | error e => rfl

theorem installAddressSpaceCap_withStore (m : Nat → Page) (s : Nat → PageTable) (process : Nat) :
    (k.withStore m s).installAddressSpaceCap process =
      ((k.installAddressSpaceCap process).1, (k.installAddressSpaceCap process).2.withStore m s) := by
  unfold installAddressSpaceCap
  show (if (k.pcb process).root = 0 then _ else _) = _
  split_ifs with h0
  · rw [if_pos h0]
  · rw [if_neg h0]
    rfl

theorem initializeSlotProcess_withStore (m : Nat → Page) (s : Nat → PageTable)
    (parent slot root : Nat) :
    (k.withStore m s).initializeSlotProcess parent slot root = ((k.initializeSlotProcess parent slot root).1,
        (k.initializeSlotProcess parent slot root).2.withStore m s) := by
  exact installAddressSpaceCap_withStore (k.blankProcess parent slot root) m s (slot + 1)

end

theorem grantCaps_withStore (m : Nat → Page) (s : Nat → PageTable) (parent child : Nat) (buf : Page)
    (n index : Nat) (k : State) :
    (k.withStore m s).grantCaps parent child buf index n = ((k.grantCaps parent child buf index n).1,
        (k.grantCaps parent child buf index n).2.withStore m s) := by
  induction n generalizing k index with
  | zero => rfl
  | succ n ih =>
    unfold grantCaps
    dsimp only
    split
    · rfl
    · rw [show (k.withStore m s).lookupCap parent (buf (grantListOffset + 24 * index)).toNat = k.lookupCap parent
        (buf (grantListOffset + 24 * index)).toNat from rfl]
      cases k.lookupCap parent (buf (grantListOffset + 24 * index)).toNat with
      | none => rfl
      | some e =>
        dsimp only
        split
        · rfl
        · split
          · rfl
          · rw [insertProcessCapAt_withStore]
            cases k.insertProcessCapAt child (index + 1) e.kind e.object
              (toRights (buf (grantListOffset + 24 * index + 8)))
              (buf (grantListOffset + 24 * index + 16)) with
            | mk status k' =>
              cases status with
              | ok => exact ih _ k'
              | _ => rfl

theorem grantListCaps_withStore (k : State) {m : Nat → Page} (s : Nat → PageTable)
    (parent child : Nat) (grantCount : U64)
    (hm : m (k.tcb parent).ipcBuffer = k.memory (k.tcb parent).ipcBuffer) :
    (k.withStore m s).grantListCaps parent child grantCount = ((k.grantListCaps parent child grantCount).1,
        (k.grantListCaps parent child grantCount).2.withStore m s) := by
  unfold grantListCaps
  show (if grantCount = 0 then _ else if grantCount.toNat > maxGrants then _
    else if (k.tcb parent).ipcBuffer = 0 then _
    else (k.withStore m s).grantCaps parent child (m (k.tcb parent).ipcBuffer) 0 grantCount.toNat) = _
  rw [hm, grantCaps_withStore]
  split
  · rfl
  · split
    · rfl
    · split <;> rfl

/-- An operation that does not look at memory and page tables leaves them as they are, and does the
    same on other contents of memory. -/
theorem blind {α : Type} {g : State → α × State} {k k' : State} {a : α} (C : (Nat → Page) → Prop)
    (hg : ∀ m s, C m → g (k.withStore m s) = ((g k).1, (g k).2.withStore m s)) (hself : C k.memory)
    (h : g k = (a, k')) :
    k'.memory = k.memory ∧ k'.space = k.space ∧ ∀ m, C m → g (k.withMemory m) = (a, k'.withMemory m) := by
  have hk := hg k.memory k.space hself
  rw [withStore_self, h] at hk
  have hk' : k' = k'.withStore k.memory k.space := (Prod.ext_iff.mp hk).2
  have hspace : k'.space = k.space := by rw [hk']; rfl
  refine ⟨by rw [hk']; rfl, hspace, fun m hm => ?_⟩
  have := hg m k.space hm
  rw [h, ← hspace] at this
  rw [hspace] at this
  refine this.trans ?_
  rw [← hspace]
  rfl

/-! ## The root of the new process -/

theorem initializeSlotProcess_root (k : State) (parent slot root : Nat) :
    ((k.initializeSlotProcess parent slot root).2.pcb (slot + 1)).root = root := by
  refine (congrArg Pcb.root (initializeSlotProcess_header k parent slot root)).trans ?_
  simp [Pcb.header, blankProcess, initializeProcess, modPcb]

theorem initializeSlotProcess_tcb (k : State) (parent slot root : Nat) :
    (k.initializeSlotProcess parent slot root).2.tcb = k.tcb := by
  rw [initializeSlotProcess_eq]
  unfold installAddressSpaceCap
  dsimp only
  split <;> rfl

/-! ## Spawns -/

variable {grantCount : U64} {cap parent slot : Nat}

/-- The steps of a spawn that succeeded. -/
structure Spawned (k : State) (parent : Nat) (src : ImageSource) (size : Nat) (grantCount : U64)
    (slot root cap : Nat) where
  rest : List Nat
  buffer : Nat
  stack : Nat
  built : State
  seated : State
  granted : State
  held : State
  free : k.freeSlots = slot :: rest
  build : k.buildAddressSpace src size = (some (root, buffer, stack), built)
  init : built.initializeSlotProcess parent slot root = (.ok, seated)
  grant : (seated.seatThread slot buffer stack).grantListCaps parent (slotAddress slot) grantCount =
    (.ok, granted)
  hold : (granted.reviveProcess slot).insertProcessHandle parent slot = (.ok cap, held)

theorem Spawned.eq {k : State} {size root : Nat} {src : ImageSource} (h : Spawned k parent src size grantCount slot root cap) :
    k.spawnImage parent src size grantCount = (.ok, cap, h.held.commitSlot slot) := by
  unfold spawnImage
  rw [h.free]
  rw [h.build]
  dsimp only
  rw [h.init]
  dsimp only
  rw [show State.grantListCaps (h.seated.initializeSlotThread slot (slot + 4) (slotAddress slot)
    h.buffer ipcBufferVA (h.stack + pageSize)) parent (slotAddress slot) grantCount = _ from h.grant]
  have hhold := h.hold
  unfold insertProcessHandle reviveProcess at hhold
  dsimp only
  rw [hhold]

theorem exists_spawned {k : State} {size : Nat} {src : ImageSource}
    (h : (k.spawnImage parent src size grantCount).1 = .ok) :
    ∃ slot root cap, Nonempty (Spawned k parent src size grantCount slot root cap) := by
  unfold spawnImage at h
  split at h
  · cases h
  · rename_i slot rest hfree
    split at h
    · cases h
    · rename_i root buffer stack k₁ hbuild
      split at h
      · rename_i k₂ hinit
        dsimp only at h
        split at h
        · rename_i k₃ hgrant
          split at h
          · cases h
          · rename_i cap k₄ hhold
            exact ⟨slot, root, cap, ⟨⟨rest, buffer, stack, k₁, k₂, k₃, k₄, hfree, hbuild, hinit, hgrant, hhold⟩⟩⟩
        · rename_i hne _
          exact absurd h hne
      · cases h

/-- The image that a cap of the parent names. -/
def imageOf (k : State) (parent cap : Nat) : Option (ImageSource × Nat) :=
  match k.lookupCap parent cap with
  | none => none
  | some e =>
    if e.rights.read = false ∨ (e.kind ≠ .bootFileObject ∧ e.kind ≠ .memoryObject) then none
    else if e.kind = .bootFileObject then
      if e.rights.execute = false ∨ e.object = 0 ∨ (k.bootFile e.object).length = 0 then none
      else some (.physmapBytes (k.bootFile e.object).base, (k.bootFile e.object).length)
    else if k.pageCount e.object = 0 then none
    else some (.objectFrames e.object, k.pageCount e.object * pageSize)

theorem spawnBootImage_eq (k : State) (parent cap : Nat) (grantCount : U64) :
    k.spawnBootImage parent cap grantCount =
      match k.imageOf parent cap with
      | none => (.invalidProgram, 0, k)
      | some (src, size) => k.spawnImage parent src size grantCount := by
  unfold spawnBootImage imageOf
  cases k.lookupCap parent cap with
  | none => rfl
  | some e =>
    dsimp only
    split
    · rfl
    · split
      · split <;> rfl
      · split <;> rfl

/-- A word that user code of an address space can read. -/
def userWord (k : State) (root va w : Nat) : Option U64 :=
  match PageTable.leafAt (PageTable.path va) (k.space root) with
  | some l => if l.flags.user && l.flags.read then some (k.memory l.frame (8 * w)) else none
  | none => none

/-- Every word that user code of the process can read is the same in both states. -/
def SameView (k k' : State) (process : Nat) : Prop :=
  ∀ va w, w < 512 → k.userWord (k.pcb process).root va w = k'.userWord (k'.pcb process).root va w

/-- The two states agree on the frames that the stack loop will take. -/
def StackAgree (k k' : State) : Prop :=
  ∀ x ∈ k.stackFrames, SamePage (scrub x.2 (k.memory x.1)) (scrub x.2 (k'.memory x.1))

theorem Pair.view_iff {k₀ k : State} {m₀ m : Nat → Page} {root : Nat} (h : Pair k₀ m₀ root k₀.stackFrames k m) :
    (∀ va w, w < 512 → k.userWord root va w = (k.withMemory m).userWord root va w) ↔
      k₀.StackAgree (k₀.withMemory m₀) := by
  constructor
  · intro hview x hx w hw
    obtain ⟨va, hva⟩ := h.mapped x hx
    obtain ⟨hk, hm⟩ := h.found x hx
    have := hview va w hw
    unfold userWord at this
    rw [show PageTable.leafAt (PageTable.path va) ((k.withMemory m).space root) = _ from hva, hva] at this
    have := Option.some.inj this
    rw [hk] at this
    exact this.trans (congrFun hm _)
  · intro hagree va w hw
    show (match PageTable.leafAt (PageTable.path va) (k.space root) with
      | some l => _
      | none => _) = match PageTable.leafAt (PageTable.path va) (k.space root) with
        | some l => _
        | none => _
    cases hl : PageTable.leafAt (PageTable.path va) (k.space root) with
    | none => rfl
    | some l =>
      dsimp only
      split
      · rename_i hflags
        rw [Bool.and_eq_true] at hflags
        have hsame : SamePage (k.memory l.frame) (m l.frame) := by
          rcases h.leaves va l hl hflags.1 with ⟨b, hb⟩ | hsame
          · obtain ⟨hk, hm⟩ := h.found _ hb
            have hag := hagree _ hb
            rw [← hk] at hag
            exact fun w hw => (hag w hw).trans (congrFun hm _).symm
          · exact hsame
        exact congrArg some (hsame w hw)
      · rfl

theorem Spawned.withMemory {k : State} {size root : Nat} {src : ImageSource} {m₀ m1 : Nat → Page} (sp : Spawned k parent src size grantCount slot root cap)
    (hbuild : (k.withMemory m₀).buildAddressSpace src size =
      (some (root, sp.buffer, sp.stack), sp.built.withMemory m1))
    (hparent : parent ≠ slotAddress slot)
    (hbuf : m1 (sp.built.tcb parent).ipcBuffer = sp.built.memory (sp.built.tcb parent).ipcBuffer) :
    (∃ sp' : Spawned (k.withMemory m₀) parent src size grantCount slot root cap,
      sp'.held = sp.held.withMemory m1) ∧
    sp.held.memory = sp.built.memory ∧ sp.held.space = sp.built.space ∧
    (sp.held.pcb (slotAddress slot)).root = root := by
  obtain ⟨hmem1, hspace1, hrun1⟩ := blind (g := fun j => j.initializeSlotProcess parent slot root)
    (fun _ => True) (fun m s _ => initializeSlotProcess_withStore sp.built m s parent slot root) trivial
    sp.init
  -- the parent's buffer is not the new thread's
  have htcb : (sp.seated.seatThread slot sp.buffer sp.stack).tcb parent = sp.built.tcb parent := by
    have h1 : sp.seated.tcb = sp.built.tcb := by
      have := initializeSlotProcess_tcb sp.built parent slot root
      rwa [sp.init] at this
    rw [← h1]
    unfold seatThread initializeSlotThread initializeThread
    simp [modTcb, update_of_ne hparent]
  obtain ⟨hmem2, hspace2, hrun2⟩ := blind
    (g := fun j => j.grantListCaps parent (slotAddress slot) grantCount)
    (k := sp.seated.seatThread slot sp.buffer sp.stack)
    (fun m => m (sp.built.tcb parent).ipcBuffer = sp.built.memory (sp.built.tcb parent).ipcBuffer)
    (fun m s hm => grantListCaps_withStore _ s parent (slotAddress slot) grantCount (by
      rw [htcb]
      exact hm.trans (congrFun hmem1 _).symm)) (congrFun hmem1 _) sp.grant
  obtain ⟨hmem3, hspace3, hrun3⟩ := blind (g := fun j => j.insertProcessHandle parent slot)
    (k := sp.granted.reviveProcess slot) (fun _ => True)
    (fun m s _ => insertCap_withStore (sp.granted.reviveProcess slot) m s parent .processObject
      (slotAddress slot) processRights _) trivial sp.hold
  refine ⟨⟨⟨sp.rest, sp.buffer, sp.stack, sp.built.withMemory m1, sp.seated.withMemory m1,
    sp.granted.withMemory m1, sp.held.withMemory m1, sp.free, hbuild, hrun1 m1 trivial,
    hrun2 m1 hbuf, hrun3 m1 trivial⟩, rfl⟩, (hmem3.trans hmem2).trans hmem1,
    (hspace3.trans hspace2).trans hspace1, ?_⟩
  have hroot1 := initializeSlotProcess_root sp.built parent slot root
  rw [sp.init] at hroot1
  have hroot2 := congrArg Pcb.root (grantListCaps_header (sp.seated.seatThread slot sp.buffer sp.stack) parent
    (slotAddress slot) grantCount (slot + 1))
  rw [sp.grant] at hroot2
  have hroot3 := congrArg Pcb.root (insertCap_header (sp.granted.reviveProcess slot) parent .processObject
    (slotAddress slot) processRights (UInt64.ofNat ((sp.granted.reviveProcess slot).pcb (slotAddress slot)).id) (slot + 1))
  rw [show State.insertCap _ parent .processObject (slotAddress slot) processRights _ = _ from
    sp.hold] at hroot3
  have hrevive : ((sp.granted.reviveProcess slot).pcb (slot + 1)).root = (sp.granted.pcb (slot + 1)).root := by
    simp [reviveProcess, modPcb, slotAddress]
  exact hroot3.trans (hrevive.trans (hroot2.trans hroot1))

/-- **What a new process sees of free memory.**  Two states differ only in the contents of free
    frames; the image, inside itself, and the grant list of the parent are not in free frames.  If the
    spawn succeeds in one it succeeds in the other, and every word that user code of the new process
    can read is the same exactly if the states agree on the frames that the stack loop takes. -/
theorem spawn_view_iff (k k' : State) (parent cap : Nat) (grantCount : U64) (src : ImageSource)
    (size : Nat) (hwf : k.pmm.Wf) (hsame : k' = k.withMemory k'.memory)
    (hdiff : ∀ f, ¬ k.pmm.Available f → k'.memory f = k.memory f)
    (hsrc : k.imageOf parent cap = some (src, size))
    (himage : ∀ offset, offset < size → ¬ k.pmm.Available (k.imageFrame src offset))
    (hin : k.ImageInside src size) (hgrants : ¬ k.pmm.Available (k.tcb parent).ipcBuffer)
    (hparent : parent ≠ slotAddress (k.freeSlots.headD 0))
    (hok : (k.spawnBootImage parent cap grantCount).1 = .ok) :
    (k'.spawnBootImage parent cap grantCount).1 = .ok ∧
    (SameView (k.spawnBootImage parent cap grantCount).2.2
        (k'.spawnBootImage parent cap grantCount).2.2 (slotAddress (k.freeSlots.headD 0)) ↔
      k.StackAgree k') := by
  generalize k'.memory = m₀ at hsame hdiff
  subst hsame
  have hrun : k.spawnBootImage parent cap grantCount = k.spawnImage parent src size grantCount := by
    rw [spawnBootImage_eq, hsrc]
  have hrun' : (k.withMemory m₀).spawnBootImage parent cap grantCount =
      (k.withMemory m₀).spawnImage parent src size grantCount := by
    rw [spawnBootImage_eq, show (k.withMemory m₀).imageOf parent cap = _ from hsrc]
  rw [hrun] at hok
  obtain ⟨slot, root, handle, ⟨sp⟩⟩ := exists_spawned hok
  have hslot : k.freeSlots.headD 0 = slot := by rw [sp.free]; rfl
  rw [hslot] at hparent ⊢
  obtain ⟨m₁, hbuild, hpair⟩ := buildAddressSpace_pair hwf hdiff himage hin sp.build
  -- the grant list is as at the start in both
  have hbuf : m₁ (sp.built.tcb parent).ipcBuffer =
      sp.built.memory (sp.built.tcb parent).ipcBuffer := by
    have htcb : sp.built.tcb parent = k.tcb parent := by rw [hpair.paged.same]
    obtain ⟨h1, h2⟩ := hpair.held _ hgrants
    rw [htcb, h1, h2]
    exact hdiff _ hgrants
  obtain ⟨⟨sp', hsp'⟩, hmem, hspace, hroot⟩ := sp.withMemory hbuild hparent hbuf
  rw [hrun, hrun', sp.eq, sp'.eq, hsp']
  refine ⟨rfl, ?_⟩
  generalize sp.held = kf at hmem hspace hroot ⊢
  show (∀ va w, w < 512 → kf.userWord (kf.pcb (slotAddress slot)).root va w =
    (kf.withMemory m₁).userWord (kf.pcb (slotAddress slot)).root va w) ↔ _
  rw [hroot, ← hpair.view_iff]
  have hword : ∀ va w, kf.userWord root va w = sp.built.userWord root va w := by
    intro va w
    unfold userWord
    rw [hmem, hspace]
  have hword' : ∀ va w, (kf.withMemory m₁).userWord root va w =
      (sp.built.withMemory m₁).userWord root va w := by
    intro va w
    unfold userWord
    rw [show (kf.withMemory m₁).space = (sp.built.withMemory m₁).space from hspace]
    rfl
  simp only [hword, hword']

instance (p : Pmm) (f : Nat) : Decidable (p.Available f) :=
  inferInstanceAs (Decidable (_ ∧ _))

/-- The machine after boot, with something left in one free frame. -/
def leftover (frame : Nat) : State :=
  (boot loadableMachine).withMemory (update (boot loadableMachine).memory frame fun _ => 1)

theorem leftover_memory {frame : Nat} (h : (boot loadableMachine).pmm.Available frame) (f : Nat)
    (hf : ¬ (boot loadableMachine).pmm.Available f) :
    (leftover frame).memory f = (boot loadableMachine).memory f := by
  refine update_of_ne ?_ _ _
  rintro rfl
  exact hf h

/-- A frame that the spawn does not take for the stack may hold anything. -/
theorem spawn_view_iff_leftover :
    (boot loadableMachine).pmm.Available 0x806FF000 ∧
    (boot loadableMachine).StackAgree (leftover 0x806FF000) ∧
    ((leftover 0x806FF000).spawnBootImage initThread 1 0).1 = .ok ∧
    SameView ((boot loadableMachine).spawnBootImage initThread 1 0).2.2
      ((leftover 0x806FF000).spawnBootImage initThread 1 0).2.2 1 := by
  have hav : (boot loadableMachine).pmm.Available 0x806FF000 := by decide +kernel
  have hsrc : (boot loadableMachine).imageOf initThread 1 =
      some (.physmapBytes (physmapBase + 0x80404000), 128) := by decide +kernel
  have himage : ∀ offset, offset < 128 → ¬ (boot loadableMachine).pmm.Available
      ((boot loadableMachine).imageFrame (.physmapBytes (physmapBase + 0x80404000)) offset) := by
    decide +kernel
  have hin : (boot loadableMachine).ImageInside (.physmapBytes (physmapBase + 0x80404000)) 128 := by
    unfold ImageInside HeaderInside
    decide +kernel
  have hframe : ∀ x ∈ (boot loadableMachine).stackFrames, x.1 ≠ 0x806FF000 := by decide +kernel
  have hagree : (boot loadableMachine).StackAgree (leftover 0x806FF000) := by
    intro x hx w _
    rw [show (leftover 0x806FF000).memory x.1 = (boot loadableMachine).memory x.1 from
      update_of_ne (hframe x hx) _ _]
  have hboth := spawn_view_iff (boot loadableMachine) (leftover 0x806FF000) initThread 1 0 _ _
    (boot_inv loadableMachine).counted.pmm rfl (leftover_memory hav) hsrc himage hin (by decide +kernel) (by decide +kernel)
    (by decide +kernel)
  exact ⟨hav, hagree, hboth.1, hboth.2.mpr hagree⟩

/-- **A new process reads what was left in free memory.**  The two machines differ in one free frame
    only; the first word of the top stack page of the process that init spawns differs too. -/
theorem stack_reveals_leftover :
    (boot loadableMachine).pmm.Available 0x80505000 ∧
    (∀ f, ¬ (boot loadableMachine).pmm.Available f →
      (leftover 0x80505000).memory f = (boot loadableMachine).memory f) ∧
    ((boot loadableMachine).spawnBootImage initThread 1 0).1 = .ok ∧
    ((leftover 0x80505000).spawnBootImage initThread 1 0).1 = .ok ∧
    ¬ SameView ((boot loadableMachine).spawnBootImage initThread 1 0).2.2
      ((leftover 0x80505000).spawnBootImage initThread 1 0).2.2 1 := by
  have hav : (boot loadableMachine).pmm.Available 0x80505000 := by decide +kernel
  refine ⟨hav, leftover_memory hav, by decide +kernel, by decide +kernel, fun hview => ?_⟩
  have hword := hview 0x7FFFF000 0 (by decide)
  revert hword
  decide +kernel

end State

end Aegir.Kernel
