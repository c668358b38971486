/-
  Decoding and searching nodes of unknown content.

  The nodes of a tree are bytes from the disk, and their counts and lengths are taken as they are: no offset is
  compared with the size of the node, and a key length of 0 turns the loop over the key's bytes into one of 2^64
  rounds.  For `Leaf_Decode`, `Tree_Descend` and `Tree_Locate` this is the EXACT condition on the bytes under which
  they pass all their index checks.  Where they pass, they compute what the unchecked functions of `Tree` compute.
-/
import Aegir.Bfs.BlockChecks

namespace Aegir.Bfs

open Aegir.Lib List

/-! ## Key rows -/

theorem rowAt_decides (b : Block) (pos k n : Nat) :
    Decides (rowAt b pos k n) (n = 0 ∨ k + n ≤ leafKeyMax ∧ pos + k + n ≤ blockSize)
      fun xs => xs = slice b (pos + k) n := by
  induction n generalizing k with
  | zero => exact decides_eq [] (.inl rfl)
  | succ n ih =>
    have hrest : Decides (rowAt b pos (k + 1) n >>= fun xs => pure (b (pos + k) :: xs))
        (n = 0 ∨ k + 1 + n ≤ leafKeyMax ∧ pos + (k + 1) + n ≤ blockSize)
        fun xs => xs = slice b (pos + k) (n + 1) := by
      refine (ih (k + 1)).bind_yields fun xs hxs => ?_
      rw [hxs]
      exact yields_ok rfl
    refine ((byteAt_decides b (pos + k)).bind_eq fun _ =>
      (inRange_decides k leafKeyMax (Raised.row k)).bind_eq fun _ => hrest).congr ?_
    omega

/-! ## The wrapping loop -/

variable {n : Nat}

theorem rounds_zero : rounds 0 = 2 ^ 64 := by decide

theorem rounds_pos (hpos : 0 < n) (hlt : n < 2 ^ 64) : rounds n = n := by
  unfold rounds
  omega

theorem rounds_lt_iff (hlt : n < 2 ^ 16) : rounds n < 2 ^ 16 ↔ 0 < n := by
  unfold rounds
  omega

/-! ## One node -/

variable {i : Nat} {b : Block} {e : Entry} {es : List Entry}

/-- The length word of the `i`-th key. -/
def keyLen (b : Block) (i : Nat) : Nat := le b (lensOff (le b 26 2) + 2 * i) 2

/-- Where the `i`-th key begins. -/
def keyStart (b : Block) : Nat → Nat
  | 0 => 28
  | i + 1 => keyStart b i + keyLen b i

/-- Where the values begin. -/
def valsOff (b : Block) : Nat := lensOff (le b 26 2) + 2 * le b 24 2

/-- The `i`-th entry can be decoded: its length word lies in the node, and unless the length ends the decoding,
    the key is not empty and lies in the node, and so does the value. -/
structure EntryDecodes (b : Block) (i : Nat) : Prop where
  length : lensOff (le b 26 2) + 2 * i + 2 ≤ blockSize
  key : keyLen b i ≤ leafKeyMax → 0 < keyLen b i ∧ keyStart b i + keyLen b i ≤ blockSize
  val : keyLen b i ≤ leafKeyMax → valsOff b + 8 * i + 8 ≤ blockSize

/-- Every entry that the decoding comes to can be decoded. -/
def Decodable (b : Block) : Prop :=
  ∀ i, i < le b 24 2 → i < leafMax → (∀ j < i, keyLen b j ≤ leafKeyMax) → EntryDecodes b i

/-- The same for the entries from the `i`-th on. -/
def DecodableFrom (b : Block) (i : Nat) : Prop :=
  ∀ m, i ≤ m → m < le b 24 2 → m < leafMax → (∀ j, i ≤ j → j < m → keyLen b j ≤ leafKeyMax) → EntryDecodes b m

theorem decodableFrom_zero (b : Block) : DecodableFrom b 0 ↔ Decodable b := by
  constructor
  · intro h i hi hmax hbefore
    exact h i (Nat.zero_le i) hi hmax fun j _ hj => hbefore j hj
  · intro h m _ hm hmax hbefore
    exact h m hm hmax fun j hj => hbefore j (Nat.zero_le j) hj

theorem decodableFrom_long (hi : i < le b 24 2) (hmax : i < leafMax) (hlong : leafKeyMax < keyLen b i) :
    DecodableFrom b i ↔ lensOff (le b 26 2) + 2 * i + 2 ≤ blockSize := by
  constructor
  · intro h
    exact (h i (Nat.le_refl i) hi hmax fun j hij hji => absurd hij (by omega)).length
  · intro h m him hm hmmax hbefore
    have hmi : m = i := by
      by_contra hne
      have := hbefore i (Nat.le_refl i) (by omega)
      omega
    subst hmi
    exact ⟨h, fun hle => absurd hle (by omega), fun hle => absurd hle (by omega)⟩

theorem decodableFrom_step (hi : i < le b 24 2) (hmax : i < leafMax) (hshort : keyLen b i ≤ leafKeyMax) :
    DecodableFrom b i ↔ EntryDecodes b i ∧ DecodableFrom b (i + 1) := by
  constructor
  · intro h
    refine ⟨h i (Nat.le_refl i) hi hmax fun j hij hji => absurd hij (by omega), ?_⟩
    intro m him hm hmmax hbefore
    refine h m (by omega) hm hmmax fun j hij hjm => ?_
    rcases Nat.eq_or_lt_of_le hij with rfl | hlt
    · exact hshort
    · exact hbefore j hlt hjm
  · rintro ⟨hhere, hrest⟩ m him hm hmmax hbefore
    rcases Nat.eq_or_lt_of_le him with rfl | hlt
    · exact hhere
    · exact hrest m hlt hm hmmax fun j hij hjm => hbefore j (by omega) hjm

/-- The key of an entry is copied exactly when it is not empty and lies in the node: the loop over an empty key
    runs past its row. -/
theorem rowAt_key (b : Block) (pos : Nat) {len : Nat} (hshort : len ≤ leafKeyMax) :
    Decides (rowAt b pos 0 (rounds len)) (0 < len ∧ pos + len ≤ blockSize) fun xs => xs = slice b pos len := by
  have hmax : leafKeyMax = 64 := rfl
  rcases Nat.eq_zero_or_pos len with h0 | hpos
  · subst h0
    refine ⟨fun h => absurd h.1 (Nat.lt_irrefl 0), fun h => ?_⟩
    have hrow := (rowAt_decides b pos 0 (rounds 0)).2 h
    rw [rounds_zero] at hrow
    omega
  · rw [rounds_pos hpos (by omega)]
    refine (rowAt_decides b pos 0 len).congr ?_
    omega

theorem decodeFromChecked_decides (b : Block) (left i : Nat) (hcount : i + left = le b 24 2) (hi : i ≤ leafMax) :
    Decides (decodeFromChecked b (lensOff (le b 26 2)) (le b 24 2) left i (keyStart b i)) (DecodableFrom b i)
      fun es => es = decodeFrom b (lensOff (le b 26 2)) (le b 24 2) left i (keyStart b i) := by
  induction left generalizing i with
  | zero =>
    -- no entry is left
    refine decides_eq [] fun m him hm => ?_
    omega
  | succ left ih =>
    unfold decodeFromChecked decodeFrom
    by_cases hend : i = leafMax
    · -- the scratch arrays are full
      rw [if_pos hend, if_pos hend]
      refine decides_eq [] fun m him _ hmmax => ?_
      omega
    · rw [if_neg hend, if_neg hend]
      have hlt : i < leafMax := by omega
      have hin : i < le b 24 2 := by omega
      by_cases hlong : keyLen b i > leafKeyMax
      · -- a long key ends the loop
        have hlong' : le b (lensOff (le b 26 2) + 2 * i) 2 > leafKeyMax := hlong
        simp only [if_pos hlong']
        refine Decides.congr ((leAt_word b _ 1).bind_eq (d := True) fun _ => ?_) ?_
        · rw [if_pos hlong']
          exact decides_eq [] trivial
        · rw [decodableFrom_long hin hlt hlong, and_true]
      · -- the key, the value, and the entries behind them
        have hlong' : ¬ le b (lensOff (le b 26 2) + 2 * i) 2 > leafKeyMax := hlong
        have hshort : keyLen b i ≤ leafKeyMax := by omega
        simp only [if_neg hlong']
        refine Decides.congr ((leAt_word b _ 1).bind_eq
          (d := i < scratchCap ∧ (0 < keyLen b i ∧ keyStart b i + keyLen b i ≤ blockSize) ∧
            valsOff b + 8 * i + (7 + 1) ≤ blockSize ∧ DecodableFrom b (i + 1)) fun _ => ?_) ?_
        · rw [if_neg hlong']
          refine (inRange_decides i scratchCap _).bind_eq fun _ => ?_
          refine (rowAt_key b (keyStart b i) hshort).bind_eq fun _ => ?_
          refine (leAt_word b _ 7).bind_eq fun _ => ?_
          refine (ih (i + 1) (by omega) (by omega)).bind_yields fun rest hr => ?_
          rw [hr]
          exact yields_ok rfl
        · rw [decodableFrom_step hin hlt hshort]
          have hcap : i < scratchCap := Nat.lt_succ_of_lt hlt
          constructor
          · rintro ⟨hhere, hrest⟩
            exact ⟨hhere.length, hcap, hhere.key hshort, hhere.val hshort, hrest⟩
          · rintro ⟨hlen, -, hkey, hval, hrest⟩
            exact ⟨⟨hlen, fun _ => hkey, fun _ => hval⟩, hrest⟩

/-- **`Leaf_Decode`** passes exactly on a decodable node. -/
theorem leafDecodeChecked_decides (b : Block) :
    Decides (leafDecodeChecked b) (Decodable b) fun es => es = leafDecode b := by
  refine (leAt_yields b 24 2 (by decide)).bind_eq ?_
  refine (leAt_yields b 26 2 (by decide)).bind_eq ?_
  exact (decodeFromChecked_decides b _ 0 (Nat.zero_add _) (Nat.zero_le _)).congr (decodableFrom_zero b).symm

theorem decodeFrom_bounds (b : Block) (lens count left i pos : Nat) (hi : i ≤ leafMax) :
    (decodeFrom b lens count left i pos).length + i ≤ leafMax ∧
      ∀ e ∈ decodeFrom b lens count left i pos, e.key.length ≤ leafKeyMax := by
  induction left generalizing i pos with
  | zero => exact ⟨by rw [decodeFrom, length_nil, Nat.zero_add]; exact hi, fun e he => by cases he⟩
  | succ left ih =>
    unfold decodeFrom
    split_ifs with hend
    · exact ⟨by rw [length_nil, Nat.zero_add]; exact hi, fun e he => by cases he⟩
    · by_cases hlong : le b (lens + 2 * i) 2 > leafKeyMax
      · rw [if_pos hlong]
        exact ⟨by rw [length_nil, Nat.zero_add]; exact hi, fun e he => by cases he⟩
      · rw [if_neg hlong]
        obtain ⟨hlen, hkeys⟩ := ih (i + 1) (pos + le b (lens + 2 * i) 2) (by omega)
        constructor
        · rw [length_cons]
          omega
        · intro e he
          rcases mem_cons.mp he with rfl | he
          · show (slice b pos _).length ≤ leafKeyMax
            rw [slice_length]
            omega
          · exact hkeys e he

/-- What the scratch arrays hold fits them. -/
structure InScratch (i : Nat) (es : List Entry) : Prop where
  length : es.length + i ≤ leafMax
  keys : ∀ e ∈ es, e.key.length ≤ leafKeyMax

theorem leafDecode_inScratch (b : Block) : InScratch 0 (leafDecode b) := by
  obtain ⟨hlen, hkeys⟩ := decodeFrom_bounds b (lensOff (le b 26 2)) (le b 24 2) (le b 24 2) 0 28 (Nat.zero_le _)
  exact ⟨hlen, hkeys⟩

theorem InScratch.tail (h : InScratch i (e :: es)) : InScratch (i + 1) es := by
  refine ⟨?_, fun x hx => h.keys x (mem_cons_of_mem e hx)⟩
  have hlen := h.length
  rw [length_cons] at hlen
  omega

theorem InScratch.lt {m : Nat} (h : InScratch i es) (hm : m ≤ es.length) : m + i < scratchCap := by
  have hlen := h.length
  unfold scratchCap
  omega

/-! ## Comparing -/

theorem cmpBytesChecked_yields (j : Nat) (as bs : List UInt8) (h : j + bs.length ≤ leafKeyMax) :
    Yields (cmpBytesChecked j as bs) fun o => o = cmpBytes as bs := by
  induction as generalizing j bs with
  | nil =>
    cases bs with
    | nil => exact yields_ok rfl
    | cons b bs => exact yields_ok rfl
  | cons a as ih =>
    cases bs with
    | nil => exact yields_ok rfl
    | cons b bs =>
      rw [length_cons] at h
      have hj : j < leafKeyMax := by omega
      unfold cmpBytesChecked cmpBytes
      refine ((inRange_decides j leafKeyMax _).1 hj).bind fun _ _ => ?_
      refine Yields.ite_eq (fun _ => yields_ok rfl) fun _ => ?_
      exact Yields.ite_eq (fun _ => yields_ok rfl) fun _ => ih (j + 1) bs (by omega)

theorem skCmpChecked_yields (k : SearchKey) (hi : i < scratchCap)
    (he : e.key.length ≤ leafKeyMax) : Yields (skCmpChecked k i e) fun o => o = skCmp k e := by
  refine ((inRange_decides i scratchCap _).1 hi).bind fun _ _ => ?_
  refine Yields.ite (fun _ => yields_ok rfl) fun hnum => ?_
  unfold skCmp
  rw [if_neg hnum]
  exact cmpBytesChecked_yields 0 _ _ (by omega)

theorem passedChecked_yields (k : SearchKey) (i : Nat) (es : List Entry) (h : InScratch i es) :
    Yields (passedChecked k i es) fun n => n = passed k es := by
  induction es generalizing i with
  | nil => exact yields_ok rfl
  | cons e es ih =>
    have hi : i < scratchCap := by
      have := h.lt (m := 0) (Nat.zero_le _)
      omega
    unfold passedChecked passed
    refine (skCmpChecked_yields k hi (h.keys e (mem_cons_self ..))).bind fun o ho => ?_
    rw [ho]
    refine Yields.ite_eq (fun _ => yields_ok rfl) fun _ => ?_
    refine (ih (i + 1) h.tail).bind fun n hn => ?_
    rw [hn]
    exact yields_ok rfl

theorem findEntryChecked_yields (k : SearchKey) (value : Nat) (matchValue : Bool) (i : Nat) (es : List Entry)
    (h : InScratch i es) :
    Yields (findEntryChecked k value matchValue i es) fun o => o = findEntry k value matchValue i es := by
  induction es generalizing i with
  | nil => exact yields_ok rfl
  | cons e es ih =>
    have hi : i < scratchCap := by
      have := h.lt (m := 0) (Nat.zero_le _)
      omega
    unfold findEntryChecked findEntry
    refine (skCmpChecked_yields k hi (h.keys e (mem_cons_self ..))).bind fun o ho => ?_
    rw [ho]
    refine Yields.ite_eq (fun _ => yields_ok rfl) fun _ => ?_
    exact Yields.ite_eq (fun _ => yields_ok rfl) fun _ => ih (i + 1) h.tail

/-! ## The descent -/

/-- The inner nodes a descent decodes. -/
def descentNodes (s : Stream) (k : SearchKey) : Nat → Nat → List Block
  | 0, _ => []
  | levels + 1, off =>
    match s.nodeLoad off with
    | none => []
    | some (b, _) =>
      if le b 16 8 = btreeNull then []
      else b :: descentNodes s k levels (childOff b (passed k (leafDecode b)))

theorem passed_le (k : SearchKey) (es : List Entry) : passed k es ≤ es.length := by
  induction es with
  | nil => exact Nat.le_refl 0
  | cons e es ih =>
    unfold passed
    split_ifs with hlt
    · exact Nat.zero_le _
    · rw [length_cons]
      exact Nat.succ_le_succ ih

/-- **`Tree_Descend`** passes exactly when every inner node on its way is decodable. -/
theorem descendFromChecked_decides (s : Stream) (k : SearchKey) (levels off : Nat) (above : List PathElem)
    (hpath : above.length + levels = pathMax) :
    Decides (descendFromChecked s k levels off above) (∀ b ∈ descentNodes s k levels off, Decodable b)
      fun d => d = descendFrom s k levels off above := by
  induction levels generalizing off above with
  | zero => exact decides_nil none
  | succ levels ih =>
    unfold descendFromChecked descendFrom descentNodes
    cases hload : s.nodeLoad off with
    | none => exact decides_nil none
    | some found =>
      obtain ⟨b, blk⟩ := found
      dsimp only
      have hslot : above.length < pathMax := by omega
      have hdeeper : (above.length + 1) + levels = pathMax := by omega
      refine ((inRange_decides above.length pathMax _).1 hslot).bind_eq ?_
      refine (leAt_yields b 16 8 (by decide)).bind_eq ?_
      refine Decides.ite_nil fun _ => ?_
      have hscratch := leafDecode_inScratch b
      have hnext : ∀ next : Nat, next = childOff b (passed k (leafDecode b)) →
          Decides (descendFromChecked s k levels next (⟨off, passed k (leafDecode b)⟩ :: above))
            (∀ x ∈ descentNodes s k levels (childOff b (passed k (leafDecode b))), Decodable x)
            fun d => d = descendFrom s k levels (childOff b (passed k (leafDecode b)))
              (⟨off, passed k (leafDecode b)⟩ :: above) := by
        intro next hnext
        rw [hnext]
        exact ih _ _ hdeeper
      refine Decides.congr ((leafDecodeChecked_decides b).bind_eq fun _ => ?_) forall_mem_cons
      refine (passedChecked_yields k 0 _ hscratch).bind_eq ?_
      cases hentry : (leafDecode b)[passed k (leafDecode b)]? with
      | some e =>
        have hidx : passed k (leafDecode b) < scratchCap := hscratch.lt (passed_le k _)
        refine ((inRange_decides _ scratchCap _).1 hidx).bind_eq (hnext e.val ?_)
        rw [childOff, hentry]
      | none =>
        refine hnext (le b 16 8) ?_
        rw [childOff, hentry]

/-! ## The search -/

/-- The leaves that the left walk of a search decodes. -/
def searchNodes (s : Stream) (k : SearchKey) (value : Nat) (matchValue : Bool) (steps : Nat) (buf : Block) :
    List Block :=
  buf :: match findEntry k value matchValue 0 (leafDecode buf) with
    | some _ => []
    | none =>
      if le buf 0 8 = btreeNull then []
      else
        match steps with
        | 0 => []
        | steps + 1 =>
          match s.nodeLoad (le buf 0 8) with
          | none => []
          | some (pbuf, _) =>
            pbuf :: match (leafDecode pbuf).getLast? with
              | none => []
              | some e => if skCmp k e ≠ .eq then [] else searchNodes s k value matchValue steps pbuf

theorem locateFromChecked_decides (s : Stream) (k : SearchKey) (value : Nat) (matchValue : Bool) (steps : Nat)
    (buf : Block) (blk : Nat) :
    Decides (locateFromChecked s k value matchValue steps buf blk)
      (∀ b ∈ searchNodes s k value matchValue steps buf, Decodable b)
      fun f => f = locateFrom s k value matchValue steps buf blk := by
  induction steps generalizing buf blk with
  | zero =>
    unfold locateFromChecked searchNodes locateFrom
    refine Decides.congr ((leafDecodeChecked_decides buf).bind_eq fun _ => ?_) forall_mem_cons
    refine (findEntryChecked_yields k value matchValue 0 _ (leafDecode_inScratch buf)).bind_eq ?_
    cases findEntry k value matchValue 0 (leafDecode buf) with
    | some i => exact decides_nil _
    | none =>
      refine (leAt_yields buf 0 8 (by decide)).bind_eq ?_
      exact Decides.ite_nil fun _ => decides_nil _
  | succ steps ih =>
    unfold locateFromChecked searchNodes locateFrom
    refine Decides.congr ((leafDecodeChecked_decides buf).bind_eq fun _ => ?_) forall_mem_cons
    refine (findEntryChecked_yields k value matchValue 0 _ (leafDecode_inScratch buf)).bind_eq ?_
    cases findEntry k value matchValue 0 (leafDecode buf) with
    | some i => exact decides_nil _
    | none =>
      refine (leAt_yields buf 0 8 (by decide)).bind_eq ?_
      refine Decides.ite_nil fun _ => ?_
      cases s.nodeLoad (le buf 0 8) with
      | none => exact decides_nil _
      | some found =>
        obtain ⟨pbuf, pblk⟩ := found
        dsimp only
        have hscratch := leafDecode_inScratch pbuf
        refine Decides.congr ((leafDecodeChecked_decides pbuf).bind_eq fun _ => ?_) forall_mem_cons
        cases hlast : (leafDecode pbuf).getLast? with
        | none => exact decides_nil _
        | some e =>
          dsimp only
          have hidx : (leafDecode pbuf).length - 1 < scratchCap := by
            have hlen := hscratch.lt (Nat.le_refl _)
            omega
          have hkey : e.key.length ≤ leafKeyMax := hscratch.keys e (mem_of_getLast? hlast)
          refine (skCmpChecked_yields k hidx hkey).bind_eq ?_
          exact Decides.ite_nil fun _ => ih pbuf pblk

/-- Every node that `Tree_Locate` decodes. -/
def locateNodes (c : TreeCtx) (k : SearchKey) (value : Nat) (matchValue : Bool) : List Block :=
  descentNodes c.stream k pathMax c.root ++
    match treeDescend c k with
    | none => []
    | some d => searchNodes c.stream k value matchValue locateSteps d.buf

/-- **`Tree_Locate`** passes exactly when every node it decodes is decodable. -/
theorem treeLocateChecked_decides (c : TreeCtx) (k : SearchKey) (value : Nat) (matchValue : Bool) :
    Decides (treeLocateChecked c k value matchValue) (∀ b ∈ locateNodes c k value matchValue, Decodable b)
      fun f => f = treeLocate c k value matchValue := by
  unfold treeLocateChecked treeLocate locateNodes treeDescend
  refine Decides.congr ((descendFromChecked_decides c.stream k pathMax c.root [] (Nat.zero_add _)).bind_eq
    fun _ => ?_) forall_mem_append
  cases descendFrom c.stream k pathMax c.root [] with
  | none => exact decides_nil none
  | some d => exact locateFromChecked_decides c.stream k value matchValue locateSteps d.buf d.blk

end Aegir.Bfs
