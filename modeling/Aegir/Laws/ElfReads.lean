/-
  What the ELF loader looks at.

  The loader checks that a program header and a segment END inside the image, with sums that wrap.  So it stays
  inside the image when the sums of the header words do not wrap into it (`HeadersFit`), and it examines
  exactly the headers that the image announces unless the image announces none: then the loop runs 65536 times.

  What is read while the loader runs is said first of the states it goes through (`HeadersInside`).  The image does
  not lie in free frames, so the words of its headers stay what they were: that leaves a condition on the words.
-/
import Aegir.Laws.Freshness

namespace Aegir.Kernel

open Aegir.Arch Aegir.Lib List

variable {a n : Nat}

/-- A byte that is looked at lies inside the image. -/
def Touch.Inside (size : Nat) : Touch → Prop
  | .byte offset => offset < size
  | .header _ => True

theorem range_inside_iff {size : Nat} (ha : a < 2 ^ 64) (hsize : size < 2 ^ 64) (hn : n ≠ 0) :
    (∀ i < n, add64 a i < size) ↔ a + n ≤ size := by
  unfold add64
  constructor
  · intro h
    by_contra hlong
    -- the byte at the end of the image is read
    have hend := h (size - a) (by omega)
    omega
  · intro h i hi
    omega

namespace State

variable {k : State} {src : ImageSource} {size root : Nat}

theorem byteAt_lt (k : State) (pa : Nat) : k.byteAt pa < 256 := Nat.mod_lt _ (by decide)

theorem readByte_lt (k : State) (src : ImageSource) (offset : Nat) : k.readByte src offset < 256 := by
  unfold readByte
  split
  · exact byteAt_lt _ _
  · dsimp only
    split
    · decide
    · exact byteAt_lt _ _

theorem readLE_lt (k : State) (src : ImageSource) (offset n : Nat) : k.readLE src offset n < 256 ^ n := by
  induction n generalizing offset with
  | zero => exact Nat.one_pos
  | succ n ih =>
    have hbyte := readByte_lt k src offset
    have hrest := ih (add64 offset 1)
    show k.readByte src offset + 256 * k.readLE src (add64 offset 1) n < 256 ^ (n + 1)
    omega

theorem add64_lt (a b : Nat) : add64 a b < 2 ^ 64 := Nat.mod_lt _ (by decide)

/-! ## Header fields -/

variable {offset : Nat}

theorem every_peek : (k.peek src offset).Every (Touch.Inside size) ↔ offset < size := Traced.every_look

/-- **Reading a field** stays inside when the field does. -/
theorem every_peekLE (ha : a < 2 ^ 64) (hsize : size < 2 ^ 64) (hn : n ≠ 0) :
    (k.peekLE src a n).Every (Touch.Inside size) ↔ a + n ≤ size := by
  induction n generalizing a with
  | zero => exact absurd rfl hn
  | succ n ih =>
    unfold peekLE
    rw [Traced.every_bind, every_peek]
    by_cases h0 : n = 0
    · subst h0
      constructor
      · rintro ⟨h, -⟩
        exact h
      · intro h
        refine ⟨h, Traced.every_bind.mpr ⟨Traced.every_pure _, Traced.every_pure _⟩⟩
    · rw [Traced.every_bind, ih (add64_lt _ _) h0]
      constructor
      · rintro ⟨h, hrest, -⟩
        unfold add64 at hrest
        omega
      · intro h
        refine ⟨by omega, ?_, Traced.every_pure _⟩
        unfold add64
        omega

/-! ## Segments -/

variable {filesz pageVA vaddr : Nat} {flags : PageFlags}

/-- How many pages of a segment get a frame. -/
def pagesCopied (k : State) (src : ImageSource) (root vaddr offset filesz : Nat) (flags : PageFlags) :
    Nat → Nat → Nat
  | _, 0 => 0
  | pageVA, n + 1 =>
    match k.pmm.allocateFrame with
    | (.error _, _) => 0
    | (.ok frame, p) =>
      let k₁ := { k with
        pmm := p
        memory := Function.update k.memory frame (k.segmentPage src pageVA vaddr offset filesz) }
      match k₁.mapPage root pageVA frame flags false with
      | (.ok, k₂) => pagesCopied k₂ src root vaddr offset filesz flags (pageVA + pageSize) n + 1
      | _ => 1

/-- **The bytes that are read for one page**: those of the file part of the segment that fall into it. -/
theorem mem_pageReads (hpage : pageVA + pageSize < 2 ^ 64)
    (hfile : vaddr + filesz < 2 ^ 64) (b : Touch) : b ∈ pageReads pageVA vaddr offset filesz ↔
      ∃ va, pageVA ≤ va ∧ va < pageVA + pageSize ∧ vaddr ≤ va ∧ va < vaddr + filesz ∧
        b = .byte (add64 offset (va - vaddr)) := by
  have hend : min (add64 pageVA pageSize) (add64 vaddr filesz) = min (pageVA + pageSize) (vaddr + filesz) := by
    unfold add64
    rw [Nat.mod_eq_of_lt hpage, Nat.mod_eq_of_lt hfile]
  have hoff : ∀ i, add64 (add64 offset (max pageVA vaddr - vaddr)) i =
      add64 offset (max pageVA vaddr + i - vaddr) := by
    intro i
    unfold add64
    have hsum : offset + (max pageVA vaddr - vaddr) + i = offset + (max pageVA vaddr + i - vaddr) := by omega
    rw [Nat.mod_add_mod, hsum]
  constructor
  · intro hb
    obtain ⟨i, hi, rfl⟩ := mem_map.mp hb
    have hi := mem_range.mp hi
    refine ⟨max pageVA vaddr + i, by omega, by omega, by omega, by omega, ?_⟩
    rw [hoff]
  · rintro ⟨va, h1, h2, h3, h4, rfl⟩
    refine mem_map.mpr ⟨va - max pageVA vaddr, mem_range.mpr (by omega), ?_⟩
    have hva : max pageVA vaddr + (va - max pageVA vaddr) = va := by omega
    rw [hoff, hva]

theorem every_copyPage (hpage : pageVA + pageSize < 2 ^ 64) (hfile : vaddr + filesz < 2 ^ 64) :
    (k.copyPage src pageVA vaddr offset filesz).Every (Touch.Inside size) ↔
      ∀ va, pageVA ≤ va → va < pageVA + pageSize → vaddr ≤ va → va < vaddr + filesz →
        add64 offset (va - vaddr) < size := by
  constructor
  · intro h va h1 h2 h3 h4
    exact h _ ((mem_pageReads hpage hfile _).mpr ⟨va, h1, h2, h3, h4, rfl⟩)
  · intro h b hb
    obtain ⟨va, h1, h2, h3, h4, rfl⟩ := (mem_pageReads hpage hfile b).mp hb
    exact h va h1 h2 h3 h4

/-- **The page loop** reads what falls into the pages that get a frame. -/
theorem every_loadPages (hpage : pageVA + pageSize * n < 2 ^ 64) (hfile : vaddr + filesz < 2 ^ 64) :
    (k.loadPagesTraced src root vaddr offset filesz flags pageVA n).Every (Touch.Inside size) ↔
      ∀ va, pageVA ≤ va → va < pageVA + pageSize * k.pagesCopied src root vaddr offset filesz flags pageVA n →
        vaddr ≤ va → va < vaddr + filesz → add64 offset (va - vaddr) < size := by
  induction n generalizing k pageVA with
  | zero =>
    refine iff_of_true (Traced.every_pure _) fun va h1 h2 => ?_
    rw [pagesCopied, Nat.mul_zero] at h2
    omega
  | succ n ih =>
    have hstep : pageSize * (n + 1) = pageSize * n + pageSize := Nat.mul_succ _ _
    have hcopy : (k.copyPage src pageVA vaddr offset filesz).Every (Touch.Inside size) ↔ _ :=
      every_copyPage (by omega) hfile
    unfold loadPagesTraced pagesCopied
    cases k.pmm.allocateFrame with
    | mk r p =>
      cases r with
      | error e =>
        refine iff_of_true (Traced.every_pure _) fun va h1 h2 => ?_
        rw [Nat.mul_zero] at h2
        omega
      | ok frame =>
        dsimp only
        rw [Traced.every_bind, copyPage_value, hcopy]
        generalize State.mapPage _ root pageVA frame flags false = r
        obtain ⟨status, k₂⟩ := r
        cases status with
        | ok =>
          dsimp only
          rw [ih (by omega)]
          generalize k₂.pagesCopied src root vaddr offset filesz flags (pageVA + pageSize) n = m
          have hm : pageSize * (m + 1) = pageSize * m + pageSize := Nat.mul_succ _ _
          constructor
          · rintro ⟨hhere, hrest⟩ va h1 h2 h3 h4
            by_cases hva : va < pageVA + pageSize
            · exact hhere va h1 hva h3 h4
            · exact hrest va (by omega) (by omega) h3 h4
          · intro h
            refine ⟨fun va h1 h2 h3 h4 => h va h1 (by omega) h3 h4, fun va h1 h2 h3 h4 => ?_⟩
            exact h va (by omega) (by omega) h3 h4
        | _ =>
          exact ⟨fun h => h.1, fun h => ⟨h, Traced.every_pure _⟩⟩

/-! ## Program headers -/

variable {ph : Nat}

/-- How many bytes of the file part are copied before the loader runs out of frames or cannot map a page. -/
def bytesCopied (k : State) (src : ImageSource) (root : Nat) (h : ProgramHeader) : Nat :=
  min (h.first + pageSize * k.pagesCopied src root h.vaddr h.offset h.filesz h.pageFlags h.first h.pages)
    (h.vaddr + h.filesz) - h.vaddr

/-- **What the loader looks at for one header lies inside the image**, in sums that do not wrap. -/
def LooksInside (k : State) (src : ImageSource) (size root ph : Nat) : Prop :=
  add64 ph 56 ≤ size →
    ph + 4 ≤ size ∧
    ((k.programHeader src ph).kind = 1 → ph + 24 ≤ size ∧ add64 ph 32 + 16 ≤ size ∧
      ((k.programHeader src ph).Accepted size → k.bytesCopied src root (k.programHeader src ph) = 0 ∨
        (k.programHeader src ph).offset + k.bytesCopied src root (k.programHeader src ph) ≤ size))

theorem every_segment {h : ProgramHeader} (hacc : h.Accepted size) (hoff : h.offset < 2 ^ 64) (hsize : size < 2 ^ 64) :
    (k.loadPagesTraced src root h.vaddr h.offset h.filesz h.pageFlags h.first h.pages).Every (Touch.Inside size) ↔
      k.bytesCopied src root h = 0 ∨ h.offset + k.bytesCopied src root h ≤ size := by
  obtain ⟨hfile, hwindow, hlast⟩ := hacc
  have htop : userStackTop = 2 ^ 31 := by decide
  have hfirst : h.first ≤ h.vaddr := Nat.sub_le _ _
  have hspan : h.first + pageSize * h.pages ≤ max h.first h.last := by
    have hdiv := Nat.mul_div_le (h.last - h.first) pageSize
    unfold ProgramHeader.pages
    omega
  rw [every_loadPages (by omega) (by omega)]
  unfold bytesCopied
  generalize k.pagesCopied src root h.vaddr h.offset h.filesz h.pageFlags h.first h.pages = m
  by_cases h0 : min (h.first + pageSize * m) (h.vaddr + h.filesz) - h.vaddr = 0
  · refine iff_of_true (fun va h1 h2 h3 h4 => ?_) (.inl h0)
    omega
  · rw [← range_inside_iff hoff hsize h0]
    constructor
    · intro hall
      refine .inr fun i hi => ?_
      have hva := hall (h.vaddr + i) (by omega) (by omega) (by omega) (by omega)
      rwa [Nat.add_sub_cancel_left] at hva
    · rintro (hz | hall) va h1 h2 h3 h4
      · exact absurd hz h0
      · exact hall (va - h.vaddr) (by omega)

/-- What the loader does with the fields of a loadable segment. -/
def loadChecked (k : State) (src : ImageSource) (size root : Nat) (h : ProgramHeader) : Traced Touch (Bool × State) :=
  if add64 h.offset h.filesz > size ∨ h.filesz > h.memsz then pure (false, k)
  else if h.vaddr < 0x40000000 ∨ userStackTop ≤ h.vaddr ∨ h.memsz > userStackTop - h.vaddr then pure (false, k)
  else if h.last > userStackTop - userStackPages * pageSize then pure (false, k)
  else k.loadPagesTraced src root h.vaddr h.offset h.filesz h.pageFlags h.first h.pages

theorem every_loadChecked {h : ProgramHeader} (hoff : h.offset < 2 ^ 64) (hsize : size < 2 ^ 64) :
    (k.loadChecked src size root h).Every (Touch.Inside size) ↔ (h.Accepted size →
      k.bytesCopied src root h = 0 ∨ h.offset + k.bytesCopied src root h ≤ size) := by
  unfold loadChecked
  by_cases h1 : add64 h.offset h.filesz > size ∨ h.filesz > h.memsz
  · rw [if_pos h1]
    exact iff_of_true (Traced.every_pure _) fun hacc => absurd h1 hacc.1
  by_cases h2 : h.vaddr < 0x40000000 ∨ userStackTop ≤ h.vaddr ∨ h.memsz > userStackTop - h.vaddr
  · rw [if_neg h1, if_pos h2]
    exact iff_of_true (Traced.every_pure _) fun hacc => absurd h2 hacc.2.1
  by_cases h3 : h.last > userStackTop - userStackPages * pageSize
  · rw [if_neg h1, if_neg h2, if_pos h3]
    exact iff_of_true (Traced.every_pure _) fun hacc => absurd h3 hacc.2.2
  · have hacc : h.Accepted size := ⟨h1, h2, h3⟩
    rw [if_neg h1, if_neg h2, if_neg h3, every_segment hacc hoff hsize]
    exact ⟨fun hin _ => hin, fun hin => hin hacc⟩

theorem fields_inside_iff (hsize : size < 2 ^ 64) (hkind : ph + 4 ≤ size) :
    (add64 ph 4 + 4 ≤ size ∧ add64 ph 8 + 8 ≤ size ∧ add64 ph 16 + 8 ≤ size ∧ add64 ph 32 + 8 ≤ size ∧
      add64 ph 40 + 8 ≤ size) ↔ ph + 24 ≤ size ∧ add64 ph 32 + 16 ≤ size := by
  unfold add64
  omega

/-- **One program header.** -/
theorem every_loadSegment (hph : ph < 2 ^ 64) (hsize : size < 2 ^ 64) :
    (k.loadSegmentTraced src size root ph).Every (Touch.Inside size) ↔ k.LooksInside src size root ph := by
  have hfield : ∀ d n : Nat, n ≠ 0 →
      ((k.peekLE src (add64 ph d) n).Every (Touch.Inside size) ↔ add64 ph d + n ≤ size) :=
    fun d n hn => every_peekLE (add64_lt _ _) hsize hn
  unfold LooksInside loadSegmentTraced
  by_cases hpast : add64 ph 56 > size
  · rw [if_pos hpast]
    exact iff_of_true (Traced.every_pure _) fun h => absurd h (Nat.not_le.mpr hpast)
  rw [if_neg hpast, Traced.every_bind, every_peekLE hph hsize (by decide), peekLE_value]
  have hle : add64 ph 56 ≤ size := Nat.not_lt.mp hpast
  by_cases hkind : k.readLE src ph 4 ≠ 1
  · rw [if_pos hkind]
    exact ⟨fun h _ => ⟨h.1, fun hk => absurd hk hkind⟩, fun h => ⟨(h hle).1, Traced.every_pure _⟩⟩
  rw [if_neg hkind]
  have hkind : (k.programHeader src ph).kind = 1 := not_not.mp hkind
  simp only [Traced.every_bind, peekLE_value, hfield 4 4 (by decide), hfield 8 8 (by decide),
    hfield 16 8 (by decide), hfield 32 8 (by decide), hfield 40 8 (by decide)]
  -- what comes after the fields
  have hoff : (k.programHeader src ph).offset < 2 ^ 64 := readLE_lt k src _ 8
  have hrest : (k.loadChecked src size root (k.programHeader src ph)).Every (Touch.Inside size) ↔ _ :=
    every_loadChecked hoff hsize
  rw [← hrest]
  constructor
  · rintro ⟨h0, h4, h8, h16, h32, h40, hseg⟩ -
    obtain ⟨h24, h48⟩ := (fields_inside_iff hsize h0).mp ⟨h4, h8, h16, h32, h40⟩
    exact ⟨h0, fun _ => ⟨h24, h48, hseg⟩⟩
  · intro h
    obtain ⟨h0, hload⟩ := h hle
    obtain ⟨h24, h48, hseg⟩ := hload hkind
    obtain ⟨h4, h8, h16, h32, h40⟩ := (fields_inside_iff hsize h0).mpr ⟨h24, h48⟩
    exact ⟨h0, h4, h8, h16, h32, h40, hseg⟩

/-! ## The loop -/

/-- **The loop** stays inside when every header that it gets to does. -/
theorem every_loadSegments {phOffset entrySize index : Nat} (hsize : size < 2 ^ 64) :
    (k.loadSegmentsTraced src size root phOffset entrySize index n).Every (Touch.Inside size) ↔
      ∀ j < n, ∀ k', k.loadSegments src size root phOffset entrySize index j = (true, k') →
        k'.LooksInside src size root (add64 phOffset ((index + j) * entrySize)) := by
  induction n generalizing k index with
  | zero => exact iff_of_true (Traced.every_pure _) fun j hj => absurd hj (Nat.not_lt_zero j)
  | succ n ih =>
    have hhead : (k.loadSegmentTraced src size root (add64 phOffset (index * entrySize))).Every (Touch.Inside size) ↔ _ :=
      every_loadSegment (add64_lt _ _) hsize
    have hindex : (Traced.look (.header index) () : Traced Touch Unit).Every (Touch.Inside size) :=
      Traced.every_look.mpr trivial
    unfold loadSegmentsTraced
    rw [Traced.every_bind, Traced.every_bind, hhead, loadSegmentTraced_value]
    cases hr : k.loadSegment src size root (add64 phOffset (index * entrySize)) with
    | mk done k₁ =>
      cases done with
      | true =>
        have hnext : ∀ j, k.loadSegments src size root phOffset entrySize index (j + 1) =
            k₁.loadSegments src size root phOffset entrySize (index + 1) j := by
          intro j
          rw [loadSegments, hr]
        rw [ih]
        constructor
        · rintro ⟨-, hfirst, hrest⟩ j hj k' hk'
          cases j with
          | zero =>
            cases hk'
            exact hfirst
          | succ j =>
            rw [hnext] at hk'
            have hin := hrest j (Nat.lt_of_succ_lt_succ hj) k' hk'
            rwa [Nat.add_assoc, Nat.add_comm 1 j] at hin
        · intro h
          refine ⟨hindex, h 0 (Nat.succ_pos n) k rfl, fun j hj k' hk' => ?_⟩
          have hin := h (j + 1) (Nat.succ_lt_succ hj) k' ((hnext j).trans hk')
          rwa [Nat.add_assoc, Nat.add_comm 1 j]
      | false =>
        constructor
        · rintro ⟨-, hfirst, -⟩ j hj k' hk'
          cases j with
          | zero =>
            cases hk'
            exact hfirst
          | succ j =>
            rw [loadSegments, hr] at hk'
            cases hk'
        · intro h
          exact ⟨hindex, h 0 (Nat.succ_pos n) k rfl, Traced.every_pure _⟩

/-- Below the loop, only bytes are looked at. -/
def IsByte (b : Touch) : Prop := b.index = none

theorem bytes_peekLE (a n : Nat) : (k.peekLE src a n).Every IsByte := by
  induction n generalizing a with
  | zero => exact Traced.every_pure _
  | succ n ih =>
    unfold peekLE
    rw [Traced.every_bind, Traced.every_bind]
    exact ⟨Traced.every_look.mpr rfl, ih _, Traced.every_pure _⟩

theorem bytes_loadPages :
    (k.loadPagesTraced src root vaddr offset filesz flags pageVA n).Every IsByte := by
  induction n generalizing k pageVA with
  | zero => exact Traced.every_pure _
  | succ n ih =>
    have hcopy : (k.copyPage src pageVA vaddr offset filesz).Every IsByte := by
      intro b hb
      obtain ⟨i, -, rfl⟩ := mem_map.mp hb
      rfl
    unfold loadPagesTraced
    split
    · exact Traced.every_pure _
    · dsimp only
      rw [Traced.every_bind]
      refine ⟨hcopy, ?_⟩
      split
      · exact ih
      · exact Traced.every_pure _

theorem bytes_loadSegment (ph : Nat) : (k.loadSegmentTraced src size root ph).Every IsByte := by
  have hif : ∀ (c : Prop) [Decidable c] (x y : Traced Touch (Bool × State)), x.Every IsByte → y.Every IsByte →
      (if c then x else y).Every IsByte := by
    intro c _ x y hx hy
    split
    · exact hx
    · exact hy
  refine hif _ _ _ (Traced.every_pure _) ?_
  refine Traced.every_bind.mpr ⟨bytes_peekLE _ _, ?_⟩
  refine hif _ _ _ (Traced.every_pure _) ?_
  refine Traced.every_bind.mpr ⟨bytes_peekLE _ _, Traced.every_bind.mpr ⟨bytes_peekLE _ _, ?_⟩⟩
  refine Traced.every_bind.mpr ⟨bytes_peekLE _ _, Traced.every_bind.mpr ⟨bytes_peekLE _ _, ?_⟩⟩
  refine Traced.every_bind.mpr ⟨bytes_peekLE _ _, ?_⟩
  exact hif _ _ _ (Traced.every_pure _) (hif _ _ _ (Traced.every_pure _) (hif _ _ _ (Traced.every_pure _) bytes_loadPages))

/-- The indices of the headers that are examined. -/
def examined (log : List Touch) : List Nat := log.filterMap Touch.index

theorem examined_bytes {log : List Touch} (h : ∀ b ∈ log, IsByte b) : examined log = [] :=
  filterMap_eq_nil_iff.mpr h

/-- **The loop examines headers in order**, from `index` on, all of them unless it is stopped. -/
theorem examined_loadSegments (k : State) (src : ImageSource) (size root phOffset entrySize index n : Nat) :
    ∃ m ≤ n, examined (k.loadSegmentsTraced src size root phOffset entrySize index n).log = range' index m ∧
      ((k.loadSegments src size root phOffset entrySize index n).1 = true → m = n) ∧ (n ≠ 0 → m ≠ 0) := by
  induction n generalizing k index with
  | zero => exact ⟨0, Nat.le_refl 0, rfl, fun _ => rfl, fun h => h⟩
  | succ n ih =>
    have hbytes : examined (k.loadSegmentTraced src size root (add64 phOffset (index * entrySize))).log = [] :=
      examined_bytes (bytes_loadSegment _)
    unfold loadSegmentsTraced loadSegments
    rw [Traced.bind_log, Traced.bind_log, loadSegmentTraced_value]
    generalize k.loadSegment src size root (add64 phOffset (index * entrySize)) = r
    obtain ⟨done, k₁⟩ := r
    have hlog : ∀ rest : List Touch, examined ((Traced.look (.header index) () : Traced Touch Unit).log ++
        ((k.loadSegmentTraced src size root (add64 phOffset (index * entrySize))).log ++ rest)) =
          index :: examined rest := by
      intro rest
      unfold examined at hbytes ⊢
      rw [filterMap_append, filterMap_append, hbytes]
      rfl
    rw [hlog]
    cases done with
    | true =>
      obtain ⟨m, hm, hlist, hall, -⟩ := ih k₁ (index + 1)
      refine ⟨m + 1, by omega, ?_, fun h => ?_, fun _ => Nat.succ_ne_zero m⟩
      · rw [range'_succ]
        exact congrArg _ hlist
      · rw [hall h]
    | false => exact ⟨1, by omega, rfl, (fun h => by cases h), fun _ => Nat.one_ne_zero⟩

/-! ## The whole load -/

/-- `e_phnum`. -/
def headerCount (k : State) (src : ImageSource) : Nat := k.readLE src 56 2

/-- The image passes the checks before the loop. -/
def Identified (k : State) (src : ImageSource) (size : Nat) : Prop :=
  64 ≤ size ∧ (k.agrees src 0 [0x7f, 69, 76, 70]).value = true ∧ (k.agrees src 4 [2, 1]).value = true ∧
    k.readLE src 18 2 = 243 ∧ 56 ≤ k.readLE src 54 2

instance (k : State) (src : ImageSource) (size : Nat) : Decidable (k.Identified src size) :=
  inferInstanceAs (Decidable (_ ∧ _ ∧ _ ∧ _ ∧ _))

/-- **The loader stays inside the image**: every byte it reads is one of the image, it examines headers from the
    first on, and if it succeeds those that the image announces. -/
def StaysInside (k : State) (src : ImageSource) (size root : Nat) : Prop :=
  (k.loadTraced src size root).Every (Touch.Inside size) ∧
  ∃ m ≤ k.headerCount src, examined (k.loadTraced src size root).log = range m ∧
    ((k.loadIntoAddressSpace src size root).1 = true → m = k.headerCount src)

/-- Where header `i` is. -/
def headerAt (k : State) (src : ImageSource) (i : Nat) : Nat := add64 (k.readLE src 32 8) (i * k.readLE src 54 2)

/-- The state before header `i`, if the loop gets there. -/
def Reaches (k : State) (src : ImageSource) (size root i : Nat) (k' : State) : Prop :=
  k.loadSegments src size root (k.readLE src 32 8) (k.readLE src 54 2) 0 i = (true, k')

/-- The image announces a header, and everything that is looked at for the headers the loop gets to lies inside
    the image in sums that do not wrap. -/
def HeadersInside (k : State) (src : ImageSource) (size root : Nat) : Prop :=
  k.Identified src size → k.headerCount src ≠ 0 ∧
    ∀ i < k.headerCount src, ∀ k', k.Reaches src size root i k' → k'.LooksInside src size root (k.headerAt src i)

/-- A byte of the image, and not a header. -/
def Plain (size : Nat) (b : Touch) : Prop := b.Inside size ∧ IsByte b

theorem plain_agrees {bs : List Nat} (h : offset + bs.length ≤ size) :
    (k.agrees src offset bs).Every (Plain size) := by
  induction bs generalizing offset with
  | nil => exact Traced.every_pure _
  | cons b bs ih =>
    rw [length_cons] at h
    have hfirst : offset < size := by omega
    refine Traced.every_bind.mpr ⟨Traced.every_look.mpr ⟨hfirst, rfl⟩, ?_⟩
    split
    · exact Traced.every_pure _
    · exact ih (by omega)

theorem plain_peekLE (hsize : size < 2 ^ 64) (hn : n ≠ 0) (h : a + n ≤ size) :
    (k.peekLE src a n).Every (Plain size) :=
  fun b hb => ⟨(every_peekLE (by omega) hsize hn).mpr h b hb, bytes_peekLE a n b hb⟩

/-- After looking at bytes of the image, `m` does what `rest` does. -/
def Leads (size : Nat) (m rest : Traced Touch (Bool × State)) : Prop :=
  m.value = rest.value ∧ ∃ pre : List Touch, (∀ b ∈ pre, Plain size b) ∧ m.log = pre ++ rest.log

theorem Leads.refl (m : Traced Touch (Bool × State)) : Leads size m m :=
  ⟨rfl, [], fun _ hb => absurd hb not_mem_nil, rfl⟩

theorem Leads.bind {α : Type} {m : Traced Touch α} {f : α → Traced Touch (Bool × State)}
    {rest : Traced Touch (Bool × State)} (hm : m.Every (Plain size)) (hf : Leads size (f m.value) rest) :
    Leads size (m >>= f) rest := by
  obtain ⟨hvalue, pre, hpre, hlog⟩ := hf
  refine ⟨hvalue, m.log ++ pre, fun b hb => ?_, ?_⟩
  · rcases mem_append.mp hb with hb | hb
    · exact hm b hb
    · exact hpre b hb
  · rw [Traced.bind_log, hlog, append_assoc]

/-- **The checks before the loop** look at the file header only, and lead to the loop or to a refusal. -/
theorem load_leads (k : State) (src : ImageSource) (root : Nat) (hsize : size < 2 ^ 64) :
    Leads size (k.loadTraced src size root)
    (if k.Identified src size then k.loadSegmentsTraced src size root (k.readLE src 32 8) (k.readLE src 54 2) 0
      (if k.headerCount src = 0 then 65536 else k.headerCount src) else pure (false, k)) := by
  unfold loadTraced
  by_cases h0 : size < 64
  · rw [if_pos h0, if_neg fun h => absurd h.1 (Nat.not_le.mpr h0)]
    exact .refl _
  have hle : 64 ≤ size := Nat.not_lt.mp h0
  have hread : ∀ a n, n ≠ 0 → a + n ≤ 64 → (k.peekLE src a n).Every (Plain size) :=
    fun a n hn ha => plain_peekLE hsize hn (by omega)
  have hagrees : ∀ (a : Nat) (bs : List Nat), a + bs.length ≤ 64 → (k.agrees src a bs).Every (Plain size) :=
    fun a bs ha => plain_agrees (by omega)
  rw [if_neg h0]
  refine .bind (hagrees _ _ (by decide)) ?_
  by_cases h1 : (k.agrees src 0 [0x7f, 69, 76, 70]).value = false
  · rw [if_pos h1, if_neg fun h => absurd (h1.symm.trans h.2.1) (by decide)]
    exact .refl _
  rw [if_neg h1]
  refine .bind (hagrees _ _ (by decide)) ?_
  by_cases h2 : (k.agrees src 4 [2, 1]).value = false
  · rw [if_pos h2, if_neg fun h => absurd (h2.symm.trans h.2.2.1) (by decide)]
    exact .refl _
  rw [if_neg h2]
  refine .bind (hread _ _ (by decide) (by decide)) ?_
  rw [peekLE_value]
  by_cases h3 : k.readLE src 18 2 ≠ 243
  · rw [if_pos h3, if_neg fun h => h3 h.2.2.2.1]
    exact .refl _
  rw [if_neg h3]
  refine .bind (hread _ _ (by decide) (by decide)) (.bind (hread _ _ (by decide) (by decide)) ?_)
  refine .bind (hread _ _ (by decide) (by decide)) (.bind (hread _ _ (by decide) (by decide)) ?_)
  simp only [peekLE_value]
  by_cases h4 : k.readLE src 54 2 < 56
  · rw [if_pos h4, if_neg fun h => absurd h.2.2.2.2 (Nat.not_le.mpr h4)]
    exact .refl _
  · have hid : k.Identified src size :=
      ⟨hle, Bool.of_not_eq_false h1, Bool.of_not_eq_false h2, not_not.mp h3, Nat.not_lt.mp h4⟩
    rw [if_neg h4, if_pos hid]
    exact .refl _

theorem staysInside_iff (hsize : size < 2 ^ 64) : k.StaysInside src size root ↔ k.HeadersInside src size root := by
  obtain ⟨hvalue, pre, hpre, hlog⟩ := load_leads k src root hsize
  rw [loadTraced_value] at hvalue
  -- the bytes before the loop are inside, and no header is among them
  have hevery : ∀ m : Traced Touch (Bool × State), (k.loadTraced src size root).log = pre ++ m.log →
      ((k.loadTraced src size root).Every (Touch.Inside size) ↔ m.Every (Touch.Inside size)) := by
    intro m hm
    unfold Traced.Every
    rw [hm]
    constructor
    · exact fun h b hb => h b (mem_append_right _ hb)
    · intro h b hb
      rcases mem_append.mp hb with hb | hb
      · exact (hpre b hb).1
      · exact h b hb
  have hexamined : ∀ m : Traced Touch (Bool × State), (k.loadTraced src size root).log = pre ++ m.log →
      examined (k.loadTraced src size root).log = examined m.log := by
    intro m hm
    have hnone := examined_bytes fun b hb => (hpre b hb).2
    unfold examined at hnone ⊢
    rw [hm, filterMap_append, hnone]
    rfl
  unfold StaysInside HeadersInside
  rw [hevery _ hlog, hexamined _ hlog, hvalue]
  by_cases hid : k.Identified src size
  · rw [if_pos hid]
    generalize hn : (if k.headerCount src = 0 then 65536 else k.headerCount src) = n
    obtain ⟨m, hm, hlist, hall, hone⟩ :=
      examined_loadSegments k src size root (k.readLE src 32 8) (k.readLE src 54 2) 0 n
    rw [every_loadSegments hsize, hlist, loadSegmentsTraced_value, ← range_eq_range']
    by_cases h0 : k.headerCount src = 0
    · -- the loop examines a header that the image does not announce
      rw [h0] at hn ⊢
      have hn : n = 65536 := hn.symm
      refine iff_of_false ?_ fun h => (h hid).1 rfl
      rintro ⟨-, m', hm', heq, -⟩
      have hlen := congrArg length heq
      rw [length_range, length_range] at hlen
      omega
    · rw [if_neg h0] at hn
      subst hn
      constructor
      · rintro ⟨hin, -⟩ -
        refine ⟨h0, fun i hi k' hk' => ?_⟩
        have hi := hin i hi k' hk'
        rwa [Nat.zero_add] at hi
      · intro h
        refine ⟨fun i hi k' hk' => ?_, m, hm, rfl, hall⟩
        rw [Nat.zero_add]
        exact (h hid).2 i hi k' hk'
  · rw [if_neg hid]
    refine iff_of_true ⟨Traced.every_pure _, 0, Nat.zero_le _, rfl, fun hok => ?_⟩ fun h => absurd h hid
    cases hok

/-! ## The words of the headers -/

/-- **The condition on the image**: it announces a header, and each header that the headers before it let the loop
    come to makes the loader read inside the image only. -/
def HeadersFit (k : State) (src : ImageSource) (size : Nat) : Prop :=
  k.Identified src size → k.headerCount src ≠ 0 ∧
    ∀ i < k.headerCount src, (∀ j < i, k.Passes src size (k.headerAt src j)) →
      k.HeaderFits src size (k.headerAt src i)

/-- Every segment that passes its checks gets its frames and its mappings. -/
def Provided (k : State) (src : ImageSource) (size root : Nat) : Prop :=
  ∀ i < k.headerCount src, ∀ k', k.Reaches src size root i k' → k.Passes src size (k.headerAt src i) →
    (k'.loadSegment src size root (k.headerAt src i)).1 = true

theorem pagesCopied_of_loaded (h : (k.loadPages src root vaddr offset filesz flags pageVA n).1 = true) :
    k.pagesCopied src root vaddr offset filesz flags pageVA n = n := by
  induction n generalizing k pageVA with
  | zero => rfl
  | succ n ih =>
    unfold loadPages at h
    unfold pagesCopied
    cases halloc : k.pmm.allocateFrame with
    | mk r p =>
      rw [halloc] at h
      cases r with
      | error e => cases h
      | ok frame =>
        dsimp only at h ⊢
        generalize State.mapPage _ root pageVA frame flags false = r at h ⊢
        obtain ⟨status, k₂⟩ := r
        cases status with
        | ok => exact congrArg (· + 1) (ih h)
        | _ => cases h

/-- The pages of a segment hold its file part. -/
theorem file_in_pages {h : ProgramHeader} (hacc : h.Accepted size) : h.vaddr + h.filesz ≤ h.first + pageSize * h.pages := by
  obtain ⟨hfile, hwindow, -⟩ := hacc
  have htop : userStackTop = 2 ^ 31 := by decide
  unfold ProgramHeader.pages ProgramHeader.last ProgramHeader.first Pmm.alignUp sub64 add64 pageSize
  omega

theorem bytesCopied_of_loaded {h : ProgramHeader} (hacc : h.Accepted size)
    (hload : (k.loadPages src root h.vaddr h.offset h.filesz h.pageFlags h.first h.pages).1 = true) :
    k.bytesCopied src root h = h.filesz := by
  have hpages := file_in_pages hacc
  unfold bytesCopied
  rw [pagesCopied_of_loaded hload]
  omega

theorem loadSegments_head {k' : State} {phOffset entrySize index : Nat} :
    k.loadSegments src size root phOffset entrySize index (n + 1) = (true, k') ↔
      ∃ k₁, k.loadSegment src size root (add64 phOffset (index * entrySize)) = (true, k₁) ∧
        k₁.loadSegments src size root phOffset entrySize (index + 1) n = (true, k') := by
  rw [loadSegments]
  constructor
  · intro h
    split at h
    · rename_i k₁ hfirst
      exact ⟨k₁, hfirst, h⟩
    · cases h
  · rintro ⟨k₁, hfirst, hrest⟩
    rw [hfirst]
    exact hrest

theorem loadSegments_succ {k' : State} {phOffset entrySize index : Nat} :
    k.loadSegments src size root phOffset entrySize index (n + 1) = (true, k') ↔
      ∃ k₁, k.loadSegments src size root phOffset entrySize index n = (true, k₁) ∧
        k₁.loadSegment src size root (add64 phOffset ((index + n) * entrySize)) = (true, k') := by
  induction n generalizing k index with
  | zero =>
    rw [loadSegments_head]
    simp [loadSegments]
  | succ n ih =>
    have hidx : index + 1 + n = index + (n + 1) := by omega
    rw [loadSegments_head]
    constructor
    · rintro ⟨k₁, hfirst, hrest⟩
      obtain ⟨k₂, hmid, hlast⟩ := ih.mp hrest
      exact ⟨k₂, loadSegments_head.mpr ⟨k₁, hfirst, hmid⟩, hidx ▸ hlast⟩
    · rintro ⟨k₂, hmid, hlast⟩
      obtain ⟨k₁, hfirst, hrest⟩ := loadSegments_head.mp hmid
      exact ⟨k₁, hfirst, ih.mpr ⟨k₂, hrest, hidx.symm ▸ hlast⟩⟩

section Words

variable {k' : State} {m : Nat → Page}
  (himage : ∀ offset, offset < size → ¬ k.pmm.Available (k.imageFrame src offset))

/-- A pair whose memories are the same. -/
theorem Pair.start (hwf : k.pmm.Wf) : Pair k k.memory root [] k k.memory where
  paged := .refl k
  wf := hwf
  avail := fun _ h => h
  fresh := fun _ _ => ⟨rfl, rfl⟩
  held := fun _ _ => ⟨rfl, rfl⟩
  taken := nofun
  found := nofun
  mapped := nofun
  leaves := fun _ _ _ _ => .inr fun _ _ => rfl

include himage

section

variable (h : Pair k k.memory root [] k' m)

include h

theorem Pair.looksInside (hfit : k.HeaderFits src size ph) :
    k'.LooksInside src size root ph := by
  intro hle
  obtain ⟨h4, hload⟩ := hfit hle
  have hkind : (k'.programHeader src ph).kind = (k.programHeader src ph).kind :=
    (h.readLE (fun _ _ => rfl) himage 4 ph h4).1
  refine ⟨h4, fun hk => ?_⟩
  obtain ⟨h24, h48, hfile⟩ := hload (hkind.symm.trans hk)
  rw [(h.programHeader (fun _ _ => rfl) himage h24 h48).1]
  refine ⟨h24, h48, fun hacc => ?_⟩
  have hle : k'.bytesCopied src root (k.programHeader src ph) ≤ (k.programHeader src ph).filesz := by
    unfold bytesCopied
    omega
  have hfile := hfile hacc
  omega

theorem Pair.headerFits (hin : k'.LooksInside src size root ph)
    (hload : k.Passes src size ph → (k'.loadSegment src size root ph).1 = true) : k.HeaderFits src size ph := by
  intro hle
  obtain ⟨h4, hfields⟩ := hin hle
  have hkind : (k'.programHeader src ph).kind = (k.programHeader src ph).kind :=
    (h.readLE (fun _ _ => rfl) himage 4 ph h4).1
  refine ⟨h4, fun hk => ?_⟩
  obtain ⟨h24, h48, hbytes⟩ := hfields (hkind.trans hk)
  have hsame := (h.programHeader (fun _ _ => rfl) himage h24 h48).1
  refine ⟨h24, h48, fun hacc => ?_⟩
  -- the segment is loaded, so its whole file part is read
  have hload := hload ⟨hle, fun _ => hacc⟩
  rw [loadSegment_eq, hsame, if_neg (Nat.not_lt.mpr hle), if_neg (not_not.mpr hk), if_pos hacc] at hload
  rw [hsame, bytesCopied_of_loaded hacc hload] at hbytes
  exact hbytes hacc

theorem Pair.passes (hfit : k.HeaderFits src size ph)
    (hload : (k'.loadSegment src size root ph).1 = true) : k.Passes src size ph := by
  rw [loadSegment_eq] at hload
  dsimp only at hload
  split at hload
  · cases hload
  rename_i hpast
  have hle : add64 ph 56 ≤ size := Nat.not_lt.mp hpast
  obtain ⟨h4, hfields⟩ := hfit hle
  have hkind : (k'.programHeader src ph).kind = (k.programHeader src ph).kind :=
    (h.readLE (fun _ _ => rfl) himage 4 ph h4).1
  refine ⟨hle, fun hk => ?_⟩
  obtain ⟨h24, h48, -⟩ := hfields hk
  rw [(h.programHeader (fun _ _ => rfl) himage h24 h48).1, if_neg (not_not.mpr hk)] at hload
  by_contra hacc
  rw [if_neg hacc] at hload
  cases hload

end

/-- While the headers fit, the image stays as it was. -/
theorem Pair.reaches (hwf : k.pmm.Wf) {i : Nat} (hfit : ∀ j < i, k.HeaderFits src size (k.headerAt src j))
    (hrun : k.Reaches src size root i k') : ∃ m, Pair k k.memory root [] k' m := by
  obtain ⟨m, -, h⟩ := Pair.loadSegments (fun _ _ => rfl) himage (k.readLE src 32 8) (k.readLE src 54 2) i 0
    (fun j _ hj => hfit j (by omega)) k k.memory (.start hwf) hrun
  exact ⟨m, h⟩

/-- **The headers that the loop has gone past** fit, and pass their checks. -/
theorem reaches_passes (hwf : k.pmm.Wf)
    (hfit : ∀ i < k.headerCount src, (∀ j < i, k.Passes src size (k.headerAt src j)) →
      k.HeaderFits src size (k.headerAt src i)) {i : Nat} (hi : i ≤ k.headerCount src)
    (hrun : k.Reaches src size root i k') :
    ∀ j < i, k.HeaderFits src size (k.headerAt src j) ∧ k.Passes src size (k.headerAt src j) := by
  induction i generalizing k' with
  | zero => exact fun j hj => absurd hj (Nat.not_lt_zero j)
  | succ i ih =>
    obtain ⟨k₁, hbefore, hstep⟩ := loadSegments_succ.mp hrun
    rw [Nat.zero_add] at hstep
    have hearlier := ih (Nat.le_of_succ_le hi) hbefore
    obtain ⟨m, hpair⟩ := Pair.reaches himage hwf (fun j hj => (hearlier j hj).1) hbefore
    have hhere := hfit i hi fun j hj => (hearlier j hj).2
    intro j hj
    rcases Nat.lt_succ_iff_lt_or_eq.mp hj with hlt | rfl
    · exact hearlier j hlt
    · exact ⟨hhere, hpair.passes himage hhere (by rw [headerAt, hstep])⟩

/-- **What passes its checks is reached**, when the segments are provided for. -/
theorem reaches_of_passes (hwf : k.pmm.Wf) (hgiven : k.Provided src size root)
    (hin : ∀ i < k.headerCount src, ∀ k', k.Reaches src size root i k' →
      k'.LooksInside src size root (k.headerAt src i)) {i : Nat} (hi : i ≤ k.headerCount src)
    (hpass : ∀ j < i, k.Passes src size (k.headerAt src j)) :
    (∃ k', k.Reaches src size root i k') ∧ ∀ j < i, k.HeaderFits src size (k.headerAt src j) := by
  induction i with
  | zero => exact ⟨⟨k, rfl⟩, fun j hj => absurd hj (Nat.not_lt_zero j)⟩
  | succ i ih =>
    obtain ⟨⟨k₁, hrun⟩, hfits⟩ := ih (Nat.le_of_succ_le hi) fun j hj => hpass j (by omega)
    obtain ⟨m, hpair⟩ := Pair.reaches himage hwf hfits hrun
    have hload := hgiven i hi k₁ hrun
    refine ⟨⟨(k₁.loadSegment src size root (k.headerAt src i)).2, loadSegments_succ.mpr ⟨k₁, hrun, ?_⟩⟩, fun j hj => ?_⟩
    · rw [Nat.zero_add]
      exact Prod.ext (hload (hpass i (Nat.lt_succ_self i))) rfl
    · rcases Nat.lt_succ_iff_lt_or_eq.mp hj with hlt | rfl
      · exact hfits j hlt
      · exact hpair.headerFits himage (hin j hi k₁ hrun) hload

end Words

/-- An image of 64 bytes whose one program header begins 8 bytes before the top of the address space. -/
def wrappingPage : Page := fun w => if w = 32 then 0xFFFFFFFFFFFFFFF8 else headerPage w

def wrappingMachine : BootConfig :=
  { imageMachine with memory := fun frame => if frame = 0x80404000 then wrappingPage else fun _ => 0 }

end State

end Aegir.Kernel
