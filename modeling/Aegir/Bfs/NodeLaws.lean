/-
  The node codec reads back what it wrote.

  The areas of an encoded node do not overlap: the header below 28, the keys below `lens`, the lengths
  below the values, the values below the end of the block.  Each writer is therefore described by what
  it lays down (`KeysLaid`, `ValsLaid`) and by the bytes it leaves alone, and decoding only needs the
  two descriptions.  The links stand below the header fields that decoding reads, so that restoring
  them after `Leaf_Encode` does not disturb the entries.
-/
import Aegir.Bfs.Node

namespace Aegir.Bfs

open Aegir.Lib List

/-! ## Runs of bytes -/

theorem slice_congr (b b' : Block) (pos n : Nat) (h : ∀ i, pos ≤ i → i < pos + n → b i = b' i) :
    slice b pos n = slice b' pos n := by
  induction n generalizing pos with
  | zero => rfl
  | succ n ih =>
    rw [slice, slice, h pos (Nat.le_refl _) (by omega), ih (pos + 1) fun i h1 h2 => h i (by omega) (by omega)]

@[simp]
theorem slice_length (b : Block) (pos n : Nat) : (slice b pos n).length = n := by
  induction n generalizing pos with
  | zero => rfl
  | succ n ih => rw [slice, length_cons, ih]

theorem putBytes_outside (b : Block) (pos : Nat) (xs : List UInt8) (i : Nat)
    (h : i < pos ∨ pos + xs.length ≤ i) : putBytes b pos xs i = b i := by
  induction xs generalizing b pos with
  | nil => rfl
  | cons x xs ih =>
    rw [length_cons] at h
    rw [putBytes, ih _ (pos + 1) (by omega)]
    exact Function.update_of_ne (by omega) _ _

theorem slice_putBytes (b : Block) (pos : Nat) (xs : List UInt8) :
    slice (putBytes b pos xs) pos xs.length = xs := by
  induction xs generalizing b pos with
  | nil => rfl
  | cons x xs ih =>
    rw [putBytes, length_cons, slice, ih, putBytes_outside _ _ _ _ (by omega), Function.update_self]

/-! ## What a node's areas hold -/

variable {es : List Entry} {b : Block}

/-- The keys of `es`, the first at `pos`, and their lengths, the first in slot `i`. -/
def KeysLaid (b : Block) (lens : Nat) : Nat → Nat → List Entry → Prop
  | _, _, [] => True
  | i, pos, e :: es =>
    le b (lens + 2 * i) 2 = e.key.length ∧ slice b pos e.key.length = e.key ∧
      KeysLaid b lens (i + 1) (pos + e.key.length) es

/-- The values of `es`, the first at `pos`. -/
def ValsLaid (b : Block) : Nat → List Entry → Prop
  | _, [] => True
  | pos, e :: es => le b pos 8 = e.val ∧ ValsLaid b (pos + 8) es

@[simp]
theorem keyTotal_nil : keyTotal [] = 0 := rfl

@[simp]
theorem keyTotal_cons (e : Entry) (es : List Entry) : keyTotal (e :: es) = e.key.length + keyTotal es := rfl

@[simp]
theorem keyTotal_append (es es' : List Entry) : keyTotal (es ++ es') = keyTotal es + keyTotal es' := by
  simp [keyTotal]

theorem KeysLaid.congr {b' : Block} {lens i pos : Nat} (h : KeysLaid b lens i pos es)
    (hb : ∀ j, (pos ≤ j ∧ j < pos + keyTotal es) ∨ (lens + 2 * i ≤ j ∧ j < lens + 2 * (i + es.length)) →
      b' j = b j) : KeysLaid b' lens i pos es := by
  induction es generalizing i pos with
  | nil => trivial
  | cons e es ih =>
    simp only [keyTotal_cons, length_cons] at hb
    obtain ⟨hlen, hkey, hrest⟩ := h
    refine ⟨?_, ?_, ih hrest fun j hj => hb j (by omega)⟩
    · rw [← hlen]
      exact le_congr _ _ _ _ fun j h1 h2 => hb j (by omega)
    · have hsame := slice_congr b' b pos e.key.length fun j h1 h2 => hb j (by omega)
      rw [hsame, hkey]

theorem putKeys_outside (lens : Nat) (b : Block) (i pos : Nat) (es : List Entry) (j : Nat)
    (hkey : j < pos ∨ pos + keyTotal es ≤ j)
    (hlen : j < lens + 2 * i ∨ lens + 2 * (i + es.length) ≤ j) : putKeys lens b i pos es j = b j := by
  induction es generalizing b i pos with
  | nil => rfl
  | cons e es ih =>
    simp only [keyTotal_cons, length_cons] at hkey hlen
    rw [putKeys, ih _ _ _ (by omega) (by omega), putLe_outside _ _ _ _ _ (by omega),
      putBytes_outside _ _ _ _ (by omega)]

theorem putKeys_laid (lens : Nat) (b : Block) (i pos : Nat) (es : List Entry)
    (hfit : pos + keyTotal es ≤ lens) (hkeys : ∀ e ∈ es, e.key.length ≤ leafKeyMax) :
    KeysLaid (putKeys lens b i pos es) lens i pos es := by
  induction es generalizing b i pos with
  | nil => trivial
  | cons e es ih =>
    rw [keyTotal_cons] at hfit
    have hle : e.key.length ≤ 64 := hkeys e mem_cons_self
    refine ⟨?_, ?_, ih _ _ _ (by omega) fun e' he' => hkeys e' (mem_cons_of_mem _ he')⟩
    · have hsame := le_congr (putKeys lens b i pos (e :: es))
        (putLe (putBytes b pos e.key) (lens + 2 * i) 2 e.key.length) (lens + 2 * i) 2
        fun j h1 h2 => by rw [putKeys, putKeys_outside _ _ _ _ _ _ (by omega) (by omega)]
      rw [hsame, le_putLe]
      omega
    · have hsame := slice_congr (putKeys lens b i pos (e :: es)) (putBytes b pos e.key) pos e.key.length
        fun j h1 h2 => by
          rw [putKeys, putKeys_outside _ _ _ _ _ _ (by omega) (by omega), putLe_outside _ _ _ _ _ (by omega)]
      rw [hsame, slice_putBytes]

theorem putVals_outside (b : Block) (pos : Nat) (es : List Entry) (j : Nat)
    (h : j < pos ∨ pos + 8 * es.length ≤ j) : putVals b pos es j = b j := by
  induction es generalizing b pos with
  | nil => rfl
  | cons e es ih =>
    rw [length_cons] at h
    rw [putVals, ih _ _ (by omega), putLe_outside _ _ _ _ _ (by omega)]

theorem putVals_laid (b : Block) (pos : Nat) (es : List Entry) (hvals : ∀ e ∈ es, e.val < 2 ^ 64) :
    ValsLaid (putVals b pos es) pos es := by
  induction es generalizing b pos with
  | nil => trivial
  | cons e es ih =>
    have hval : e.val < 2 ^ 64 := hvals e mem_cons_self
    refine ⟨?_, ih _ _ fun e' he' => hvals e' (mem_cons_of_mem _ he')⟩
    have hsame := le_congr (putVals b pos (e :: es)) (putLe b pos 8 e.val) pos 8
      fun j h1 h2 => by rw [putVals, putVals_outside _ _ _ _ (by omega)]
    rw [hsame, le_putLe]
    omega

/-! ## Decoding -/

theorem decodeFrom_laid (b : Block) (lens count i pos : Nat) (es : List Entry)
    (hk : KeysLaid b lens i pos es) (hv : ValsLaid b (lens + 2 * count + 8 * i) es)
    (hkeys : ∀ e ∈ es, e.key.length ≤ leafKeyMax) (hmax : i + es.length ≤ leafMax) :
    decodeFrom b lens count es.length i pos = es := by
  induction es generalizing i pos with
  | nil => rfl
  | cons e es ih =>
    obtain ⟨hlen, hkey, hkrest⟩ := hk
    obtain ⟨hval, hvrest⟩ := hv
    have hle : ¬ e.key.length > leafKeyMax := by
      have := hkeys e mem_cons_self
      omega
    have hi : i ≠ leafMax := by
      rw [length_cons] at hmax
      omega
    rw [length_cons, decodeFrom, if_neg hi]
    rw [hlen, if_neg hle, hkey, hval, ih (i + 1) (pos + e.key.length) hkrest ?_ ?_ ?_]
    · exact hvrest
    · intro e' he'
      exact hkeys e' (mem_cons_of_mem _ he')
    · rw [length_cons] at hmax
      omega

theorem decodeFrom_congr (b b' : Block) (lens count n i pos : Nat) (hlens : 28 ≤ lens) (hpos : 28 ≤ pos)
    (h : ∀ j, 28 ≤ j → b j = b' j) :
    decodeFrom b lens count n i pos = decodeFrom b' lens count n i pos := by
  induction n generalizing i pos with
  | zero => rfl
  | succ n ih =>
    have hlen : le b (lens + 2 * i) 2 = le b' (lens + 2 * i) 2 :=
      le_congr _ _ _ _ fun j h1 _ => h j (by omega)
    have hval : le b (lens + 2 * count + 8 * i) 8 = le b' (lens + 2 * count + 8 * i) 8 :=
      le_congr _ _ _ _ fun j h1 _ => h j (by omega)
    rw [decodeFrom, decodeFrom]
    simp only []
    rw [hlen, hval, ih (i + 1) (pos + le b' (lens + 2 * i) 2) (by omega),
      slice_congr b b' pos _ fun j h1 _ => h j (by omega)]

theorem lensOff_ge (k : Nat) : 28 + k ≤ lensOff k := by
  unfold lensOff
  omega

/-- **The links are not part of the entries.** -/
theorem leafDecode_congr (b b' : Block) (h : ∀ j, 24 ≤ j → b j = b' j) : leafDecode b = leafDecode b' := by
  have hcount : le b 24 2 = le b' 24 2 := le_congr _ _ _ _ fun j h1 _ => h j (by omega)
  have hkeys : le b 26 2 = le b' 26 2 := le_congr _ _ _ _ fun j h1 _ => h j (by omega)
  rw [leafDecode, leafDecode, hcount, hkeys]
  refine decodeFrom_congr _ _ _ _ _ _ _ ?_ (Nat.le_refl _) fun j hj => h j (by omega)
  have := lensOff_ge (le b' 26 2)
  omega

theorem setLinks_outside (b : Block) (l r o j : Nat) (h : 24 ≤ j) : setLinks b l r o j = b j := by
  rw [setLinks, putLe_outside _ _ _ _ _ (by omega), putLe_outside _ _ _ _ _ (by omega),
    putLe_outside _ _ _ _ _ (by omega)]

theorem setLinks_left (b : Block) (l r o : Nat) : le (setLinks b l r o) 0 8 = l % 256 ^ 8 := by
  rw [setLinks, le_putLe_disjoint _ _ _ _ _ _ (by omega), le_putLe_disjoint _ _ _ _ _ _ (by omega), le_putLe]

theorem setLinks_right (b : Block) (l r o : Nat) : le (setLinks b l r o) 8 8 = r % 256 ^ 8 := by
  rw [setLinks, le_putLe_disjoint _ _ _ _ _ _ (by omega), le_putLe]

theorem setLinks_overflow (b : Block) (l r o : Nat) : le (setLinks b l r o) 16 8 = o % 256 ^ 8 := by
  rw [setLinks, le_putLe]

/-! ## Round trip -/

/-- An entry a node can hold. -/
structure Entry.Ok (e : Entry) : Prop where
  pos : 1 ≤ e.key.length
  le_max : e.key.length ≤ leafKeyMax
  val_lt : e.val < 2 ^ 64

theorem length_lt_of_nodeBytes (es : List Entry) (hb : nodeBytes es ≤ blockSize) :
    es.length < leafMax ∧ keyTotal es < 256 ^ 2 := by
  have hoff := lensOff_ge (keyTotal es)
  unfold nodeBytes blockSize at hb
  unfold leafMax blockSize
  omega

theorem leafEncode_isSome (es : List Entry) : (leafEncode es).isSome ↔ nodeBytes es ≤ blockSize := by
  unfold leafEncode
  split_ifs with h
  · constructor
    · intro hsome
      cases hsome
    · intro hle
      omega
  · exact ⟨fun _ => Nat.le_of_not_lt h, fun _ => rfl⟩

theorem leafEncode_spec (h : leafEncode es = some b) (hok : ∀ e ∈ es, e.Ok) :
    leafDecode b = es ∧ le b 24 2 = es.length := by
  unfold leafEncode at h
  by_cases hb : nodeBytes es > blockSize
  · rw [if_pos hb] at h
    cases h
  rw [if_neg hb] at h
  obtain ⟨hmax, hkt⟩ := length_lt_of_nodeBytes es (by omega)
  have hlens := lensOff_ge (keyTotal es)
  simp only [] at h
  generalize hb0 : putLe (putLe (setLinks (fun _ => 0) btreeNull btreeNull btreeNull) 24 2 es.length) 26 2
    (keyTotal es) = b0 at h
  generalize hl : lensOff (keyTotal es) = lens at h hlens
  injection h with h
  -- the header fields lie below the three areas
  have hhead : ∀ j, j < 28 → b j = b0 j := by
    intro j hj
    rw [← h, putVals_outside _ _ _ _ (by omega), putKeys_outside _ _ _ _ _ _ (by omega) (by omega)]
  have hcount : le b 24 2 = es.length := by
    rw [le_congr b b0 24 2 fun j _ h2 => hhead j (by omega), ← hb0, le_putLe_disjoint _ _ _ _ _ _ (by omega),
      le_putLe]
    unfold leafMax blockSize at hmax
    omega
  have hkeys : le b 26 2 = keyTotal es := by
    rw [le_congr b b0 26 2 fun j _ h2 => hhead j (by omega), ← hb0, le_putLe]
    omega
  refine ⟨?_, hcount⟩
  rw [leafDecode, hcount, hkeys, hl]
  refine decodeFrom_laid _ _ _ _ _ _ ?_ ?_ (fun e he => (hok e he).le_max) (by omega)
  · have hlaid := putKeys_laid lens b0 0 28 es (by omega) fun e he => (hok e he).le_max
    refine hlaid.congr fun j hj => ?_
    rw [← h, putVals_outside _ _ _ _ (by omega)]
  · rw [← h, Nat.mul_zero, Nat.add_zero]
    exact putVals_laid _ _ _ fun e he => (hok e he).val_lt

/-- **Round trip.**  The entries come back from the stored node, its links restored. -/
theorem leafDecode_setLinks (h : leafEncode es = some b) (hok : ∀ e ∈ es, e.Ok) (l r o : Nat) :
    leafDecode (setLinks b l r o) = es ∧ le (setLinks b l r o) 24 2 = es.length := by
  obtain ⟨hdec, hcount⟩ := leafEncode_spec h hok
  constructor
  · rw [leafDecode_congr _ b fun j hj => setLinks_outside b l r o j hj, hdec]
  · rw [le_congr _ b 24 2 fun j h1 _ => setLinks_outside b l r o j (by omega), hcount]

/-! ## One entry more -/

variable {pos v : Nat} {k : SearchKey}

theorem mem_entryInsertAt {e : Entry} (he : e ∈ entryInsertAt es pos k v) : e ∈ es ∨ e = ⟨k.bytes, v⟩ := by
  rw [entryInsertAt, mem_append, mem_cons] at he
  rcases he with he | rfl | he
  · exact .inl (mem_of_mem_take he)
  · exact .inr rfl
  · exact .inl (mem_of_mem_drop he)

theorem length_entryInsertAt : (entryInsertAt es pos k v).length = es.length + 1 := by
  rw [entryInsertAt, length_append, length_cons, length_take, length_drop]
  omega

/-- An empty node has room for every key. -/
theorem two_le_of_not_fits (hk : k.bytes.length ≤ leafKeyMax)
    (h : ¬ nodeFits es k.bytes.length = true) : 2 ≤ (entryInsertAt es pos k v).length := by
  rw [length_entryInsertAt]
  cases es with
  | nil =>
    refine absurd (decide_eq_true ⟨by decide, ?_⟩) h
    simp only [keyTotal_nil, length_nil]
    unfold leafKeyMax at hk
    unfold lensOff blockSize
    omega
  | cons e es =>
    rw [length_cons]
    omega

/-! ## Where a node is split -/

theorem greedyFill_bounds (c : List Entry) (fuel m : Nat) (hm : 1 ≤ m) (hlt : m < c.length) :
    1 ≤ greedyFill c fuel m ∧ greedyFill c fuel m < c.length := by
  induction fuel generalizing m with
  | zero => exact ⟨hm, hlt⟩
  | succ fuel ih =>
    rw [greedyFill]
    split
    · exact ih (m + 1) (by omega) (by omega)
    · exact ⟨hm, hlt⟩

theorem splitPoint_bounds {c : List Entry} (h : splitPoint c ≠ 0) (hlen : 2 ≤ c.length) :
    1 ≤ splitPoint c ∧ splitPoint c < c.length := by
  unfold splitPoint at h ⊢
  by_cases hg : LegalSplit c (greedyFill c c.length 1)
  · rw [if_pos hg]
    exact greedyFill_bounds c _ 1 (Nat.le_refl _) hlen
  · rw [if_neg hg] at h ⊢
    cases hf : (range' 1 (c.length - 1)).find? fun m => LegalSplit c m with
    | none =>
      rw [hf] at h
      exact absurd rfl h
    | some m =>
      have hmem := mem_of_find?_eq_some hf
      rw [mem_range'_1] at hmem
      show 1 ≤ m ∧ m < c.length
      omega

/-- A node's keys are at least one byte and at most `Leaf_Key_Max` bytes each. -/
theorem keyTotal_bounds (es : List Entry) (h : ∀ e ∈ es, 1 ≤ e.key.length ∧ e.key.length ≤ leafKeyMax) :
    es.length ≤ keyTotal es ∧ keyTotal es ≤ leafKeyMax * es.length := by
  induction es with
  | nil => exact ⟨Nat.le_refl _, Nat.le_refl _⟩
  | cons e es ih =>
    have h1 := h e mem_cons_self
    have h2 := ih fun e' he' => h e' (mem_cons_of_mem _ he')
    rw [length_cons, keyTotal_cons]
    unfold leafKeyMax at *
    omega

theorem keyTotal_split (c : List Entry) (m : Nat) : keyTotal (c.take m) + keyTotal (c.drop m) = keyTotal c := by
  rw [← keyTotal_append, take_append_drop]

/-- Where the greedy fill stops: half a block is full or one entry is left, and before its last step
    half a block was not. -/
theorem greedyFill_stops (c : List Entry) (fuel m : Nat) (hfuel : c.length ≤ m + fuel)
    (hm : m = 1 ∨ nodeBytes (c.take (m - 1)) < blockSize / 2) :
    (c.length ≤ greedyFill c fuel m + 1 ∨ blockSize / 2 ≤ nodeBytes (c.take (greedyFill c fuel m))) ∧
      (greedyFill c fuel m = 1 ∨ nodeBytes (c.take (greedyFill c fuel m - 1)) < blockSize / 2) := by
  induction fuel generalizing m with
  | zero => exact ⟨Or.inl (by rw [greedyFill]; omega), hm⟩
  | succ fuel ih =>
    rw [greedyFill]
    split_ifs with hgo
    · apply ih (m + 1) (by omega)
      exact Or.inr (by rw [Nat.add_sub_cancel]; exact hgo.2)
    · refine ⟨?_, hm⟩
      by_cases hlast : m < c.length - 1
      · exact Or.inr (Nat.le_of_not_lt fun h => hgo ⟨hlast, h⟩)
      · exact Or.inl (by omega)

/-- One entry more costs at most 82 bytes: its key, its length and value, and the alignment. -/
theorem nodeBytes_take_le (es : List Entry) (m : Nat)
    (h : ∀ e ∈ es, 1 ≤ e.key.length ∧ e.key.length ≤ leafKeyMax) (hm : 1 ≤ m) :
    nodeBytes (es.take m) ≤ nodeBytes (es.take (m - 1)) + 82 := by
  obtain ⟨j, rfl⟩ : ∃ j, m = j + 1 := ⟨m - 1, by omega⟩
  rw [Nat.add_sub_cancel, take_add_one]
  have hone := keyTotal_bounds es[j]?.toList fun e he => h e (mem_of_getElem? (Option.mem_toList.mp he))
  have hlen : es[j]?.toList.length ≤ 1 := by
    cases es[j]? with
    | none => exact Nat.zero_le _
    | some e => exact Nat.le_refl _
  unfold leafKeyMax at hone
  simp only [nodeBytes, lensOff, keyTotal_append, length_append]
  omega

/-- **The greedy split is legal** for every list that is at most one entry over its block. -/
theorem splitPoint_legal (c : List Entry)
    (h : ∀ e ∈ c, 1 ≤ e.key.length ∧ e.key.length ≤ leafKeyMax) (h2 : 2 ≤ c.length)
    (hsize : nodeBytes c ≤ blockSize + 82) :
    1 ≤ splitPoint c ∧ splitPoint c < c.length ∧ LegalSplit c (splitPoint c) := by
  have hb := greedyFill_bounds c c.length 1 (Nat.le_refl _) h2
  have hstop := greedyFill_stops c c.length 1 (by omega) (Or.inl rfl)
  generalize hg : greedyFill c c.length 1 = m at hb hstop
  have hstep := nodeBytes_take_le c m h hb.1
  have hsum := keyTotal_split c m
  have hleft := keyTotal_bounds (c.take m) fun e he => h e (mem_of_mem_take he)
  have hright := keyTotal_bounds (c.drop m) fun e he => h e (mem_of_mem_drop he)
  rw [length_take, Nat.min_eq_left (by omega)] at hleft
  rw [length_drop] at hright
  have hlegal : LegalSplit c m := by
    unfold LegalSplit
    unfold leafKeyMax at hleft hright
    simp only [nodeBytes, lensOff, length_take, length_drop, leafMax, blockSize] at *
    obtain ⟨hend, hbefore⟩ := hstop
    rcases hbefore with rfl | hbefore
    · -- one key leaves half the block free
      omega
    · omega
  have hpoint : splitPoint c = m := by
    rw [splitPoint, hg]
    exact if_pos hlegal
  rw [hpoint]
  exact ⟨hb.1, hb.2, hlegal⟩

/-- **The codec and the split agree on what a node holds.**  A list of legal entries encodes exactly when
    its `Entries_Bytes` fit a block, and then reads back; and a node that the next entry overflows is
    split into two non-empty halves that both encode. -/
theorem node_codec_and_split :
    (∀ es : List Entry, es.length ≤ leafMax → (∀ e ∈ es, e.Ok) →
      ((leafEncode es).isSome ↔ nodeBytes es ≤ blockSize) ∧ ∀ b, leafEncode es = some b → leafDecode b = es) ∧
    ∀ (es : List Entry) (pos : Nat) (k : SearchKey) (v : Nat), es.length ≤ leafMax → (∀ e ∈ es, e.Ok) →
      (⟨k.bytes, v⟩ : Entry).Ok → nodeBytes es ≤ blockSize → nodeFits es k.bytes.length = false →
      let c := entryInsertAt es pos k v
      splitPoint c ≠ 0 ∧ c.take (splitPoint c) ≠ [] ∧ c.drop (splitPoint c) ≠ [] ∧
        (leafEncode (c.take (splitPoint c))).isSome ∧ (leafEncode (c.drop (splitPoint c))).isSome := by
  constructor
  · intro es _ hok
    exact ⟨leafEncode_isSome es, fun b hb => (leafEncode_spec hb hok).1⟩
  · intro es pos k v _ hok hk hroom hover c
    have hc : ∀ e ∈ c, 1 ≤ e.key.length ∧ e.key.length ≤ leafKeyMax := by
      intro e he
      rcases mem_entryInsertAt he with h | rfl
      · exact ⟨(hok e h).pos, (hok e h).le_max⟩
      · exact ⟨hk.pos, hk.le_max⟩
    have hlen : c.length = es.length + 1 := length_entryInsertAt
    have htotal : keyTotal c = k.bytes.length + keyTotal es := by
      have := keyTotal_split es pos
      simp only [c, entryInsertAt, keyTotal_append, keyTotal_cons]
      omega
    have hpos := hk.pos
    have hmax := hk.le_max
    have hes := keyTotal_bounds es fun e he => ⟨(hok e he).pos, (hok e he).le_max⟩
    have hsize : nodeBytes c ≤ blockSize + 82 := by
      unfold leafKeyMax at hmax
      simp only [nodeBytes, lensOff, hlen, htotal] at *
      omega
    have h2 : 2 ≤ c.length := two_le_of_not_fits hmax (by rw [hover]; exact Bool.false_ne_true)
    obtain ⟨hone, hlt, -, -, hleft, hright⟩ := splitPoint_legal c hc h2 hsize
    refine ⟨by omega, ?_, ?_, (leafEncode_isSome _).mpr hleft, (leafEncode_isSome _).mpr hright⟩
    · intro hnil
      have := congrArg length hnil
      rw [length_take, length_nil] at this
      omega
    · intro hnil
      have := congrArg length hnil
      rw [length_drop, length_nil] at this
      omega

theorem node_codec_and_split_full :
    let es := replicate 54 (⟨replicate 64 0, 7⟩ : Entry)
    splitPoint (entryInsertAt es 0 (skStr (replicate 64 1)) 9) ≠ 0 := by
  refine (node_codec_and_split.2 _ 0 (skStr (replicate 64 1)) 9 (by decide) ?_ ⟨?_, ?_, ?_⟩ (by decide) ?_).1
  · intro e he
    rw [eq_of_mem_replicate he]
    exact ⟨by decide, by decide, by decide⟩
  all_goals decide

end Aegir.Bfs
