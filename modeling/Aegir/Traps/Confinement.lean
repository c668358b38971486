/-
  What `mem_map` and `map_mmio` write into a page table.

  Both handlers end in the same loop, and a loop that succeeded has put exactly the requested leaf on the
  path of each page, where nothing was before.  The bound checks are made on modular sums: a VA whose end
  wraps past zero maps the topmost page, and an offset whose end wraps maps a page that is not the object's.
  The theorems say that these are the only exceptions.
-/
import Aegir.Traps.Objects
import Aegir.Kernel.Boot

namespace Aegir.Kernel

open Aegir.Arch Aegir.Arch.PageTable

/-- What a memory object keeps from its creation: at most `Max_Pages` pages, all of them frames. -/
def MemoryObject.WellFormed (m : MemoryObject) : Prop :=
  m.pages ≤ State.maxPages ∧ ∀ i < m.pages, m.frames i ≠ 0

namespace State

/-! ## The mapping loop -/

variable {k k' k'' : State} {root n : Nat}

theorem mapPage_ok {va pa : Nat} {flags : PageFlags} {borrowed : Bool}
    (h : k.mapPage root va pa flags borrowed = (.ok, k')) :
    leafAt (path va) (k.space root) = none ∧
    leafAt (path va) (k'.space root) = some ⟨pa, flags, borrowed⟩ ∧
    (∀ js, js.length = 3 → js ≠ path va → leafAt js (k'.space root) = leafAt js (k.space root)) ∧
    ∀ r, r ≠ root → k'.space r = k.space r := by
  simp only [mapPage, PageTable.mapPage, Prod.mk.injEq] at h
  obtain ⟨hs, rfl⟩ := h
  split at hs
  · cases hs
  · rename_i hal
    obtain ⟨h1, h2⟩ := mapAt_spec ⟨pa, flags, borrowed⟩ (path va) (k.space root) k.pmm
    refine ⟨(h1 hs).1, ?_, fun js hlen hne => ?_, fun r hr => Function.update_of_ne hr ..⟩
    · simpa [if_neg hal] using (h1 hs).2
    · simpa [if_neg hal] using h2 js hlen (.inl hne)

/-- **The mapping loop.**  After success every page of the request has its leaf, on a path that was
    empty before, and all other paths and spaces are as they were. -/
theorem mapPages_ok {va pa : Nat → Nat} {flags : PageFlags} {page : Nat} (h : k.mapPages root va pa flags page n = (true, k')) :
    (∀ j, page ≤ j → j < page + n → leafAt (path (va j)) (k.space root) = none ∧
      leafAt (path (va j)) (k'.space root) = some ⟨pa j, flags, true⟩) ∧
    (∀ js, js.length = 3 → (∀ j, page ≤ j → j < page + n → js ≠ path (va j)) →
      leafAt js (k'.space root) = leafAt js (k.space root)) ∧
    ∀ r, r ≠ root → k'.space r = k.space r := by
  induction n generalizing k page with
  | zero =>
    obtain rfl : k = k' := by simpa [mapPages] using h
    exact ⟨fun j h1 h2 => by omega, fun _ _ _ => rfl, fun _ _ => rfl⟩
  | succ n ih =>
    unfold mapPages at h
    split at h
    · rename_i k₁ h1
      obtain ⟨e1, e2, e3, e4⟩ := mapPage_ok h1
      obtain ⟨i₁, i₂, i3⟩ := ih h
      refine ⟨fun j hj hj' => ?_, fun js hlen hne => ?_, fun r hr => ?_⟩
      · by_cases hjp : j = page
        · subst hjp
          -- a later page on the same path would have found the leaf and failed
          have hlater : ∀ j', j + 1 ≤ j' → j' < j + 1 + n → path (va j) ≠ path (va j') := by
            intro j' h1 h2 e
            have := (i₁ j' h1 h2).1
            rw [← e, e2] at this
            cases this
          exact ⟨e1, by rw [i₂ _ rfl hlater, e2]⟩
        · obtain ⟨b1, b2⟩ := i₁ j (by omega) (by omega)
          have hne : path (va j) ≠ path (va page) := by
            intro e
            rw [e, e2] at b1
            cases b1
          exact ⟨by rw [← e3 _ rfl hne, b1], b2⟩
      · rw [i₂ js hlen fun j h1 h2 => hne j (by omega) (by omega), e3 js hlen (hne page (by omega) (by omega))]
      · rw [i3 r hr, e4 r hr]
    · cases h

/-- A leaf that a step from `k` to `k'` wrote: it is there after and was not there before. -/
def WroteLeaf (k k' : State) (root i₂ i₁ i₀ : Nat) (l : Leaf) : Prop :=
  leafAt [i₂, i₁, i₀] (k'.space root) = some l ∧ leafAt [i₂, i₁, i₀] (k.space root) ≠ some l

theorem wroteLeaf_mapPages {va pa : Nat → Nat} {flags : PageFlags} (h : k.mapPages root va pa flags 0 n = (true, k')) (hk : k''.space = k'.space)
    {r i₂ i₁ i₀ : Nat} {l : Leaf} :
    WroteLeaf k k'' r i₂ i₁ i₀ l ↔ r = root ∧ ∃ j < n, [i₂, i₁, i₀] = path (va j) ∧ l = ⟨pa j, flags, true⟩ := by
  obtain ⟨h1, h2, h3⟩ := mapPages_ok h
  unfold WroteLeaf
  rw [hk]
  constructor
  · rintro ⟨hafter, hbefore⟩
    by_cases hr : r = root
    · subst hr
      refine ⟨rfl, ?_⟩
      by_contra hno
      have hsame : ∀ j, 0 ≤ j → j < 0 + n → [i₂, i₁, i₀] ≠ path (va j) := by
        intro j hj hj' e
        have hleaf := (h1 j hj hj').2
        rw [← e, hafter] at hleaf
        exact hno ⟨j, by omega, e, Option.some.inj hleaf⟩
      exact hbefore (by rw [← h2 _ rfl hsame, hafter])
    · rw [h3 r hr] at hafter
      exact absurd hafter hbefore
  · rintro ⟨rfl, j, hj, hp, rfl⟩
    obtain ⟨b1, b2⟩ := h1 j (by omega) (by omega)
    exact ⟨by rw [hp, b2], by rw [hp, b1]; simp⟩

/-! ## Virtual addresses of paths -/

theorem vaOf_path {va : Nat} (hal : va % pageSize = 0) (hlt : va < 2 ^ 38) :
    vaOf (indexFor va 2) (indexFor va 1) (indexFor va 0) = va := by
  unfold vaOf indexFor
  unfold pageSize at hal
  rw [if_neg (by omega)]
  omega

/-! ## `mem_map` -/

variable {f : TrapFrame} {e : CapEntry} {cur : Nat}

@[simp] theorem setA0_space (k : State) (t : Nat) (v : U64) : (k.setA0 t v).space = k.space := rfl
@[simp] theorem setA1_space (k : State) (t : Nat) (v : U64) : (k.setA1 t v).space = k.space := rfl
@[simp] theorem setA0_savedA0 (k : State) (t : Nat) (v : U64) : ((k.setA0 t v).tcb t).savedA0 = v := by
  simp [setA0, modTcb]

/-- The register checks of `Handle_Mem_Map` that both kinds of object share. -/
structure MemMapChecks (f : TrapFrame) : Prop where
  low : 0x40000000 ≤ f.a2.toNat
  high : (f.a2.toNat + f.a4.toNat) % 2 ^ 64 ≤ 0x80000000
  length_pos : 0 < f.a4.toNat
  va_aligned : f.a2.toNat % 4096 = 0
  offset_aligned : f.a3.toNat % 4096 = 0
  length_aligned : f.a4.toNat % 4096 = 0

/-- A frame that belongs to the object an entry names: one of the memory object's frames, or a page
    that holds a byte of the boot file. -/
def FrameOf (k : State) (e : CapEntry) (frame : Nat) : Prop :=
  match e.kind with
  | .memoryObject => ∃ i < k.pageCount e.object, (k.memoryObject e.object).frames i = frame
  | .bootFileObject =>
    ∃ b, (k.bootFile e.object).base - physmapBase ≤ b ∧
      b < (k.bootFile e.object).base - physmapBase + (k.bootFile e.object).length ∧
      frame ≤ b ∧ b < frame + pageSize
  | _ => False

/-- A leaf inside the user window, over a frame of the entry's object, with no permission that the
    entry does not hold. -/
structure MapConfined (k : State) (e : CapEntry) (i₂ i₁ i₀ : Nat) (l : Leaf) : Prop where
  window : 0x40000000 ≤ vaOf i₂ i₁ i₀ ∧ vaOf i₂ i₁ i₀ < 0x80000000
  frame : k.FrameOf e l.frame
  read : l.flags.read = true → e.rights.read = true
  write : l.flags.write = true → e.rights.write = true

theorem checks_of (h : ¬ (f.a5 &&& ~~~3 ≠ 0 ∨ f.a5 = 0 ∨ f.a5 &&& 3 = 2 ∨ f.a2 < 0x40000000 ∨
            f.a2 + f.a4 > 0x80000000 ∨ f.a4 = 0 ∨ isPageAligned f.a2 = false ∨
            isPageAligned f.a3 = false ∨ isPageAligned f.a4 = false)) : MemMapChecks f := by
  simp only [not_or, isPageAligned, pageSize, beq_eq_false_iff_ne, Decidable.not_not] at h
  obtain ⟨-, -, -, h1, h2, h3, h4, h5, h6⟩ := h
  refine ⟨?_, ?_, ?_, h4, h5, h6⟩
  · simpa [UInt64.lt_iff_toNat_lt] using h1
  · simpa [UInt64.lt_iff_toNat_lt, UInt64.toNat_add] using h2
  · exact Nat.pos_of_ne_zero fun e => h3 (UInt64.toNat_inj.mp e)

theorem forall_wroteLeaf_mapPages {va pa : Nat → Nat}
    {flags : PageFlags} (h : k.mapPages root va pa flags 0 n = (true, k'))
    (hk : k''.space = k'.space) {P : Nat → Nat → Nat → Leaf → Prop} :
    (∀ r i₂ i₁ i₀ l, WroteLeaf k k'' r i₂ i₁ i₀ l → P i₂ i₁ i₀ l) ↔
      ∀ j < n, P (indexFor (va j) 2) (indexFor (va j) 1) (indexFor (va j) 0) ⟨pa j, flags, true⟩ := by
  constructor
  · intro hall j hj
    exact hall root _ _ _ _ ((wroteLeaf_mapPages h hk).mpr ⟨rfl, j, hj, rfl, rfl⟩)
  · intro hpages r i₂ i₁ i₀ l hw
    obtain ⟨-, j, hj, hp, rfl⟩ := (wroteLeaf_mapPages h hk).mp hw
    obtain ⟨rfl, rfl, rfl⟩ := hp
    exact hpages j hj

theorem window_iff {va len : U64} (hlow : 0x40000000 ≤ va.toNat)
    (hhigh : (va.toNat + len.toNat) % 2 ^ 64 ≤ 0x80000000) (hva : va.toNat % 4096 = 0)
    (hlen : len.toNat % 4096 = 0) :
    (∀ j < len.toNat / pageSize, 0x40000000 ≤ vaOf (indexFor (pageVA va j) 2) (indexFor (pageVA va j) 1)
          (indexFor (pageVA va j) 0) ∧
        vaOf (indexFor (pageVA va j) 2) (indexFor (pageVA va j) 1) (indexFor (pageVA va j) 0) < 0x80000000) ↔
      va.toNat + len.toNat < 2 ^ 64 := by
  have hbound := va.toNat_lt
  constructor
  · intro hall
    by_contra hwrap
    -- the topmost page of the address space is one of the request's
    have htop : pageVA va ((2 ^ 64 - 4096 - va.toNat) / 4096) = 2 ^ 64 - 4096 := by
      unfold pageVA add64 pageSize
      omega
    have hlast := (hall ((2 ^ 64 - 4096 - va.toNat) / 4096) (by unfold pageSize; omega)).2
    rw [htop] at hlast
    exact absurd hlast (by decide)
  · intro hno j hj
    have hj' : j * 4096 + 4096 ≤ len.toNat := by unfold pageSize at hj; omega
    have hpage : pageVA va j = va.toNat + j * 4096 := by
      unfold pageVA add64 pageSize
      omega
    rw [vaOf_path (by rw [hpage]; unfold pageSize; omega) (by rw [hpage]; omega), hpage]
    omega

theorem mapMemoryObject_success {va off len flags : U64}
    (h : ((k.mapMemoryObject cur e va off len flags).tcb cur).savedA0 = 0) :
    e.kind = .memoryObject ∧ (flags &&& 1 ≠ 0 → e.rights.read = true) ∧
    (flags &&& 2 ≠ 0 → e.rights.write = true) ∧
    (off + len).toNat ≤ k.pageCount e.object * pageSize ∧
    ∃ k', k.mapPages (k.addressSpaceRoot cur) (pageVA va)
        (fun page => k.frameAt e.object (off.toNat / pageSize + page))
        ⟨flags &&& 1 != 0, flags &&& 2 != 0, false, true, false⟩ 0 (len.toNat / pageSize) = (true, k') ∧
      (k.mapMemoryObject cur e va off len flags).space = k'.space := by
  unfold mapMemoryObject at h ⊢
  split at h
  · simp at h
  · rename_i hc
    rw [if_neg hc]
    simp only [not_or, not_and, Decidable.not_not, Bool.not_eq_false, Nat.not_lt, gt_iff_lt] at hc
    obtain ⟨h1, h2, h3, h4, h5⟩ := hc
    refine ⟨h1, h3, h4, h5, ?_⟩
    split at h
    · simp at h
    · rename_i k' hk'
      exact ⟨k', hk', by simp⟩

theorem mapMemoryObject_confined_iff (hc : MemMapChecks f) (hwf : (k.memoryObject e.object).WellFormed)
    (h : ((k.mapMemoryObject cur e f.a2 f.a3 f.a4 f.a5).tcb cur).savedA0 = 0) :
    (∀ r i₂ i₁ i₀ l, WroteLeaf k (k.mapMemoryObject cur e f.a2 f.a3 f.a4 f.a5) r i₂ i₁ i₀ l →
      MapConfined k e i₂ i₁ i₀ l) ↔
      f.a2.toNat + f.a4.toNat < 2 ^ 64 ∧ f.a3.toNat + f.a4.toNat < 2 ^ 64 := by
  obtain ⟨hkind, hread, hwrite, hoff, k', hloop, hspace⟩ := mapMemoryObject_success h
  rw [forall_wroteLeaf_mapPages hloop hspace]
  have hwin := window_iff hc.low hc.high hc.va_aligned hc.length_aligned
  have hlt := f.a3.toNat_lt
  have hoa := hc.offset_aligned
  rw [UInt64.toNat_add] at hoff
  unfold pageSize at hoff
  constructor
  · intro hall
    refine ⟨hwin.mp fun j hj => (hall j hj).window, ?_⟩
    by_contra hwrap
    -- the page whose offset is the topmost one has no frame in the object
    obtain ⟨i, hi, hframe⟩ : ∃ i < k.pageCount e.object, (k.memoryObject e.object).frames i =
        k.frameAt e.object (f.a3.toNat / pageSize + (2 ^ 64 - 4096 - f.a3.toNat) / 4096) := by
      have hbel := (hall ((2 ^ 64 - 4096 - f.a3.toNat) / 4096) (by unfold pageSize; omega)).frame
      simpa only [FrameOf, hkind] using hbel
    have hout : k.frameAt e.object (f.a3.toNat / pageSize + (2 ^ 64 - 4096 - f.a3.toNat) / 4096) = 0 := by
      have hidx : f.a3.toNat / pageSize + (2 ^ 64 - 4096 - f.a3.toNat) / 4096 = 2 ^ 52 - 1 := by
        unfold pageSize
        omega
      have hp := hwf.1
      unfold maxPages at hp
      rw [frameAt, if_pos (.inr (by omega))]
    rw [hout] at hframe
    unfold pageCount at hi
    split at hi
    · omega
    · exact hwf.2 i hi hframe
  · rintro ⟨hno, hno'⟩ j hj
    have hj' : j * 4096 + 4096 ≤ f.a4.toNat := by unfold pageSize at hj; omega
    have hidx : f.a3.toNat / pageSize + j < k.pageCount e.object := by unfold pageSize; omega
    refine ⟨hwin.mpr hno j hj, ?_, ?_, ?_⟩
    · simp only [FrameOf, hkind]
      refine ⟨_, hidx, ?_⟩
      unfold pageCount at hidx
      unfold frameAt
      split at hidx
      · exact absurd hidx (Nat.not_lt_zero _)
      · rename_i hz
        rw [if_neg (not_or.mpr ⟨hz, Nat.not_le.mpr hidx⟩)]
    · intro hr
      exact hread (by simpa using hr)
    · intro hw
      exact hwrite (by simpa using hw)

theorem mapBootFile_success {va off len flags : U64}
    (h : ((k.mapBootFile cur e va off len flags).tcb cur).savedA0 = 0) :
    e.rights.read = true ∧ (off + len).toNat ≤ fileSpan (k.bootFile e.object) ∧
    ∃ k', k.mapPages (k.addressSpaceRoot cur) (pageVA va)
        (fun page => add64 (sub64 (add64 (sub64 (k.bootFile e.object).base physmapBase) off.toNat)
          (add64 (sub64 (k.bootFile e.object).base physmapBase) off.toNat % pageSize))
          (page * pageSize))
        ⟨true, false, false, true, false⟩ 0 (len.toNat / pageSize) = (true, k') ∧
      (k.mapBootFile cur e va off len flags).space = k'.space := by
  unfold mapBootFile at h ⊢
  split at h
  · simp at h
  · rename_i hc
    rw [if_neg hc]
    split at h
    · simp at h
    · rename_i hs
      rw [if_neg hs]
      simp only [not_or, Bool.not_eq_false, Nat.not_lt, gt_iff_lt] at hc hs
      refine ⟨hc.1, hs.2, ?_⟩
      dsimp only at h ⊢
      split at h
      · simp at h
      · rename_i k' hk'
        exact ⟨k', hk', by simp⟩

theorem bootPage_eq {b : BootFile} {off j : Nat} (hoff : off % 4096 = 0) (hlt : off + j * 4096 < 2 ^ 39) :
    add64 (sub64 (add64 (sub64 b.base physmapBase) off)
      (add64 (sub64 b.base physmapBase) off % pageSize)) (j * pageSize) =
        b.base - physmapBase - b.base % 4096 + off + j * 4096 := by
  have h1 := b.base_mem
  have h2 := b.end_lt
  unfold add64 sub64 pageSize physmapBase at *
  omega

/-- A page that starts inside a file's span, counted from the page boundary below the file, holds a
    byte of the file. -/
theorem page_overlaps {pa lead len x : Nat} (hlead : lead ≤ pa) (hlt : lead < 4096)
    (hx : x < lead + len) (hlen : len ≠ 0) :
    ∃ b, pa ≤ b ∧ b < pa + len ∧ pa - lead + x ≤ b ∧ b < pa - lead + x + pageSize := by
  unfold pageSize
  exact ⟨max pa (pa - lead + x), by omega, by omega, by omega, by omega⟩

theorem mapBootFile_confined_iff (hc : MemMapChecks f) (hkind : e.kind = .bootFileObject)
    (h : ((k.mapBootFile cur e f.a2 f.a3 f.a4 f.a5).tcb cur).savedA0 = 0) :
    (∀ r i₂ i₁ i₀ l, WroteLeaf k (k.mapBootFile cur e f.a2 f.a3 f.a4 f.a5) r i₂ i₁ i₀ l →
      MapConfined k e i₂ i₁ i₀ l) ↔
      f.a2.toNat + f.a4.toNat < 2 ^ 64 ∧ f.a3.toNat + f.a4.toNat < 2 ^ 64 ∧ (k.bootFile e.object).length ≠ 0 := by
  obtain ⟨hread, hoff, k', hloop, hspace⟩ := mapBootFile_success h
  rw [forall_wroteLeaf_mapPages hloop hspace]
  have hwin := window_iff hc.low hc.high hc.va_aligned hc.length_aligned
  have hlt := f.a3.toNat_lt
  have hoa := hc.offset_aligned
  have hla := hc.length_aligned
  have hlp := hc.length_pos
  have hbase := (k.bootFile e.object).base_mem
  have hend := (k.bootFile e.object).end_lt
  rw [UInt64.toNat_add] at hoff
  constructor
  · intro hall
    refine ⟨hwin.mp fun j hj => (hall j hj).window, ?_, ?_⟩
    · by_contra hwrap
      -- the page whose offset is the topmost one lies just before the file
      have hbel := (hall ((2 ^ 64 - 4096 - f.a3.toNat) / 4096) (by unfold pageSize; omega)).frame
      simp only [FrameOf, hkind] at hbel
      unfold add64 sub64 pageSize physmapBase at *
      omega
    · intro hzero
      have hbel := (hall 0 (by unfold pageSize; omega)).frame
      simp only [FrameOf, hkind] at hbel
      omega
  · rintro ⟨hno, hno', hbyte⟩ j hj
    refine ⟨hwin.mpr hno j hj, ?_, fun _ => hread, fun hw => by cases hw⟩
    have hspan : f.a3.toNat + j * 4096 < (k.bootFile e.object).base % 4096 +
        (k.bootFile e.object).length := by
      unfold fileSpan add64 sub64 pageSize physmapBase at *
      omega
    have hlead : (k.bootFile e.object).base % 4096 ≤ (k.bootFile e.object).base - physmapBase := by
      unfold physmapBase at *
      omega
    simp only [FrameOf, hkind]
    rw [bootPage_eq hoa (by unfold physmapBase at *; omega), Nat.add_assoc]
    exact page_overlaps hlead (Nat.mod_lt _ (by omega)) hspan hbyte

/-- **`mem_map` is confined to its object and to the user window exactly when no sum of its argument
    registers wraps around.**  For every successful call on an entry `e`: every leaf it wrote is in
    the window, over a frame of the object, with no more permission than the entry, if and only if
    `VA + Length` and `Offset + Length` stay below 2^64 (and a boot file has at least one byte). -/
theorem handleMemMap_confined_iff (k : State) (cur cap : Nat) (f : TrapFrame) (e : CapEntry)
    (hcap : decodeHandle f.a1 = some cap) (he : k.lookupCap cur cap = some e)
    (hwf : e.kind = .memoryObject → (k.memoryObject e.object).WellFormed)
    (hok : ((k.handleMemMap cur f).tcb cur).savedA0 = 0) :
    (∀ r i₂ i₁ i₀ l, WroteLeaf k (k.handleMemMap cur f) r i₂ i₁ i₀ l →
      MapConfined k e i₂ i₁ i₀ l) ↔
      f.a2.toNat + f.a4.toNat < 2 ^ 64 ∧ f.a3.toNat + f.a4.toNat < 2 ^ 64 ∧
        (e.kind = .bootFileObject → (k.bootFile e.object).length ≠ 0) := by
  unfold handleMemMap at hok ⊢
  cases has : decodeHandle f.a0 with
  | none => simp [has] at hok
  | some asCap =>
    simp only [has, hcap, he] at hok ⊢
    split at hok
    · simp at hok
    · rename_i hauth
      rw [if_neg hauth]
      split at hok
      · simp at hok
      · rename_i hchecks
        rw [if_neg hchecks]
        have hc := checks_of hchecks
        split at hok
        · rename_i hkind
          rw [if_pos hkind, mapBootFile_confined_iff hc hkind hok]
          simp [hkind]
        · rename_i hkind
          have hmem := (mapMemoryObject_success hok).1
          rw [if_neg hkind, mapMemoryObject_confined_iff hc (hwf hmem) hok]
          simp [hkind]

/-- Init with one page of memory, behind handle 3. -/
def onePage : State := (boot smallMachine).handleMemAlloc initThread ⟨1, 0, 0, 0, 0, 0⟩

/-- The entry of that page. -/
def onePageEntry : CapEntry := ⟨true, .memoryObject, 1, memoryFullRights, 0⟩

/-- A request at the start of the window: read and write, one page. -/
def windowRequest : TrapFrame := ⟨255, 3, 0x40000000, 0, 4096, 3⟩

theorem onePage_wellFormed : (onePage.memoryObject 1).WellFormed := by
  have hpages : (onePage.memoryObject 1).pages = 1 := by decide +kernel
  have hframe : (onePage.memoryObject 1).frames 0 ≠ 0 := by decide +kernel
  refine ⟨by rw [hpages]; decide, fun i hi => ?_⟩
  obtain rfl : i = 0 := by omega
  exact hframe

/-- The request at the start of the window is confined. -/
theorem handleMemMap_confined_at_window :
    ((onePage.handleMemMap initThread windowRequest).tcb initThread).savedA0 = 0 ∧
    ∀ r i₂ i₁ i₀ l, WroteLeaf onePage (onePage.handleMemMap initThread windowRequest) r i₂ i₁ i₀ l →
      MapConfined onePage onePageEntry i₂ i₁ i₀ l := by
  refine ⟨by decide +kernel, ?_⟩
  exact (handleMemMap_confined_iff onePage initThread 3 windowRequest onePageEntry (by decide)
    (by decide +kernel) (fun _ => onePage_wellFormed) (by decide +kernel)).mpr
    ⟨by decide, by decide, by decide⟩

/-- A request for the topmost page of the address space: its end wraps to zero. -/
def topRequest : TrapFrame := ⟨255, 3, 0xFFFFFFFFFFFFF000, 0, 4096, 1⟩

/-- **The wrapped request passes all the checks and maps a page above the window.** -/
theorem handleMemMap_top_escapes :
    onePage.lookupCap initThread 3 = some onePageEntry ∧
    ((onePage.handleMemMap initThread topRequest).tcb initThread).savedA0 = 0 ∧
    ¬ ∀ r i₂ i₁ i₀ l, WroteLeaf onePage (onePage.handleMemMap initThread topRequest) r i₂ i₁ i₀ l →
      MapConfined onePage onePageEntry i₂ i₁ i₀ l := by
  refine ⟨by decide +kernel, by decide +kernel, fun hall => ?_⟩
  have hwrote : WroteLeaf onePage (onePage.handleMemMap initThread topRequest) 0x80400000 511 511 511
      ⟨0x80503000, ⟨true, false, false, true, false⟩, true⟩ :=
    ⟨by decide +kernel, by decide +kernel⟩
  exact absurd (hall _ _ _ _ _ hwrote).window.2 (by decide)

/-! ## `map_mmio` -/

/-- The page is in the user window, inside the device region, readable only with the Read right and
    writable only with the Write right and when the flags asked for it. -/
structure MmioConfined (d : DeviceSlot) (e : CapEntry) (flags : U64) (i₂ i₁ i₀ : Nat) (l : Leaf) :
    Prop where
  window : 0x40000000 ≤ vaOf i₂ i₁ i₀ ∧ vaOf i₂ i₁ i₀ < 0x80000000
  region : d.physicalBase.toNat ≤ l.frame ∧ l.frame < d.physicalBase.toNat + d.length.toNat
  read : l.flags.read = true → e.rights.read = true
  write : l.flags.write = true → e.rights.write = true ∧ flags &&& 2 ≠ 0

theorem handleMapMmio_success {cap : Nat} (hcap : decodeHandle f.a1 = some cap) (he : k.lookupCap cur cap = some e)
    (hok : ((k.handleMapMmio cur f).tcb cur).savedA0 = 0) :
    (f.a5 &&& 2 ≠ 0 → e.rights.write = true) ∧ 0x40000000 ≤ f.a2.toNat ∧
    (f.a2.toNat + f.a4.toNat) % 2 ^ 64 ≤ 0x80000000 ∧
    (f.a3.toNat + f.a4.toNat) % 2 ^ 64 ≤ (k.device e.object).length.toNat ∧
    f.a2.toNat % 4096 = 0 ∧ f.a3.toNat % 4096 = 0 ∧ f.a4.toNat = 4096 ∧
    ∃ k', k.mapPages (k.addressSpaceRoot cur) (pageVA f.a2)
        (fun page => add64 ((k.device e.object).physicalBase + f.a3).toNat (page * pageSize)) userRW 0
        (f.a4.toNat / pageSize) = (true, k') ∧ (k.handleMapMmio cur f).space = k'.space := by
  unfold handleMapMmio at hok ⊢
  cases has : decodeHandle f.a0 with
  | none => simp [has] at hok
  | some asCap =>
    simp only [has, hcap, he] at hok ⊢
    split at hok
    · simp at hok
    · rename_i hauth
      rw [if_neg hauth]
      split at hok
      · simp at hok
      · rename_i hrights
        rw [if_neg hrights]
        split at hok
        · simp at hok
        · rename_i hc
          rw [if_neg hc]
          simp only [not_or, not_and, Bool.not_eq_false, Decidable.not_not] at hrights
          simp only [not_or, Decidable.not_not, isPageAligned, pageSize, Bool.not_eq_false, beq_iff_eq] at hc
          obtain ⟨-, -, h1, h2, -, h3, h4, h5, -, h6⟩ := hc
          refine ⟨hrights.2.2.2.1, ?_, ?_, ?_, h4, h5, by rw [h6]; rfl, ?_⟩
          · simpa [UInt64.lt_iff_toNat_lt] using h1
          · simpa [UInt64.lt_iff_toNat_lt, UInt64.toNat_add] using h2
          · simpa [UInt64.lt_iff_toNat_lt, UInt64.toNat_add] using h3
          · split at hok
            · simp at hok
            · rename_i k' hk'
              exact ⟨k', hk', by simp⟩

/-- **When `map_mmio` is confined to its region and to its rights.**  For every successful call: the
    page is in the window, in the region and within the rights that were asked for, if and only if
    the VA is not the topmost page, the physical address does not wrap and starts inside the region,
    the cap has Read, and the flags asked for write access. -/
theorem handleMapMmio_confined_iff (k : State) (cur cap : Nat) (f : TrapFrame) (e : CapEntry)
    (hcap : decodeHandle f.a1 = some cap) (he : k.lookupCap cur cap = some e)
    (hok : ((k.handleMapMmio cur f).tcb cur).savedA0 = 0) :
    (∀ r i₂ i₁ i₀ l, WroteLeaf k (k.handleMapMmio cur f) r i₂ i₁ i₀ l →
      MmioConfined (k.device e.object) e f.a5 i₂ i₁ i₀ l) ↔
      f.a2.toNat + f.a4.toNat < 2 ^ 64 ∧
      (k.device e.object).physicalBase.toNat + f.a3.toNat < 2 ^ 64 ∧
      f.a3.toNat < (k.device e.object).length.toNat ∧ e.rights.read = true ∧ f.a5 &&& 2 ≠ 0 := by
  obtain ⟨hwrite, hlow, hhigh, hoff, hva, hoa, hlen, k', hloop, hspace⟩ :=
    handleMapMmio_success hcap he hok
  rw [forall_wroteLeaf_mapPages hloop hspace]
  have hwin := window_iff hlow hhigh hva (by omega)
  have hoffset := f.a3.toNat_lt
  have hpa : add64 ((k.device e.object).physicalBase + f.a3).toNat (0 * pageSize) =
      ((k.device e.object).physicalBase.toNat + f.a3.toNat) % 2 ^ 64 := by
    simp [add64, UInt64.toNat_add]
  have hone : f.a4.toNat / pageSize = 1 := by rw [hlen]; rfl
  constructor
  · intro hall
    have h₀ := hall 0 (by omega)
    have hreg := h₀.region
    dsimp only at hreg
    refine ⟨hwin.mp fun j hj => (hall j hj).window, by omega, by omega, h₀.read rfl, (h₀.write rfl).2⟩
  · rintro ⟨hno, hphys, hlt, hread, hflag⟩ j hj
    obtain rfl : j = 0 := by omega
    refine ⟨hwin.mpr hno 0 (by omega), ?_, fun _ => hread, fun _ => ⟨hwrite hflag, hflag⟩⟩
    dsimp only
    omega

/-- Init with a device region of two pages at 0x1000_0000, behind handle 3. -/
def oneDevice : State :=
  (boot smallMachine).handleIoMap initThread ⟨1, 0x10000000, 0x2000, u64Last, 0, 0⟩

/-- The region's entry, and the one that `cap_mint` derives from it with Read and Map only. -/
def deviceEntry : CapEntry := ⟨true, .mmioObject, 42, mmioDeviceRights, 0⟩
def readOnlyEntry : CapEntry := ⟨true, .mmioObject, 42, { read := true, map := true }, 0⟩

/-- A read-write request for the second page of the region. -/
def mmioRequest : TrapFrame := ⟨255, 3, 0x40000000, 0x1000, 4096, 3⟩

/-- The read-write request is confined. -/
theorem handleMapMmio_confined_at_window :
    ((oneDevice.handleMapMmio initThread mmioRequest).tcb initThread).savedA0 = 0 ∧
    ∀ r i₂ i₁ i₀ l, WroteLeaf oneDevice (oneDevice.handleMapMmio initThread mmioRequest) r i₂ i₁ i₀ l →
      MmioConfined (oneDevice.device 42) deviceEntry 3 i₂ i₁ i₀ l := by
  refine ⟨by decide +kernel, ?_⟩
  exact (handleMapMmio_confined_iff oneDevice initThread 3 mmioRequest deviceEntry (by decide)
    (by decide +kernel) (by decide +kernel)).mpr
    ⟨by decide, by decide +kernel, by decide +kernel, by decide, by decide⟩

/-- The device with a second, read-only cap on it, behind handle 4. -/
def readOnlyDevice : State := oneDevice.handleCapMint initThread ⟨3, 9, 0, 0, 0, 0⟩

/-- **A read-only cap maps its page writable.**  The flags ask for read access and the cap grants
    nothing else, but the leaf can be written. -/
theorem handleMapMmio_read_only_escapes :
    readOnlyDevice.lookupCap initThread 4 = some readOnlyEntry ∧
    ((readOnlyDevice.handleMapMmio initThread ⟨255, 4, 0x40000000, 0, 4096, 1⟩).tcb
      initThread).savedA0 = 0 ∧
    ¬ ∀ r i₂ i₁ i₀ l, WroteLeaf readOnlyDevice
        (readOnlyDevice.handleMapMmio initThread ⟨255, 4, 0x40000000, 0, 4096, 1⟩) r i₂ i₁ i₀ l →
      MmioConfined (readOnlyDevice.device 42) readOnlyEntry 1 i₂ i₁ i₀ l := by
  refine ⟨by decide +kernel, by decide +kernel, fun hall => ?_⟩
  have hwrote : WroteLeaf readOnlyDevice
      (readOnlyDevice.handleMapMmio initThread ⟨255, 4, 0x40000000, 0, 4096, 1⟩) 0x80400000 1 0 0
      ⟨0x10000000, userRW, true⟩ := ⟨by decide +kernel, by decide +kernel⟩
  exact absurd ((hall _ _ _ _ _ hwrote).write rfl).1 (by decide)

end State

end Aegir.Kernel
