/-
  The small_data region is an attribute map.

  `Contents` is what the region is for: the name of the entry, and for each attribute the type and the bytes it was
  last given.  The region of an inode that the engine has built, and then changed by any calls of `Attr_Write` and
  `Rename`, holds exactly the `Contents` that the calls describe.  A type has 32 bits.
-/
import Aegir.Bfs.SmallDataLaws

namespace Aegir.Bfs.SmallData

open Aegir.Lib List Function

/-! ## The region -/

variable {es post pre : List Attr} {a x : Attr} {attr : List UInt8}

/-- The name pseudo-attribute. -/
def nameAttr (name : List UInt8) : Attr := ⟨fileNameType, [fileNameName], name⟩

/-- The region holds the name entry and these user attributes, no two of one name. -/
structure Region (b : Block) (name : List UInt8) (es : List Attr) : Prop where
  holds : Holds b smallDataOff (nameAttr name :: es)
  user : ∀ a ∈ es, a.name ≠ [fileNameName]
  nodup : (es.map Attr.name).Nodup

/-- An attribute takes the place of the one of its name, or the last place. -/
def putAttr (a : Attr) : List Attr → List Attr
  | [] => [a]
  | x :: xs => if x.name = a.name then a :: xs else x :: putAttr a xs

/-- The attributes without one of them. -/
def dropAttr (attr : List UInt8) : List Attr → List Attr
  | [] => []
  | x :: xs => if x.name = attr then xs else x :: dropAttr attr xs

theorem visible_region (name : List UInt8) (huser : ∀ a ∈ es, a.name ≠ [fileNameName]) :
    visible (nameAttr name :: es) = es := by
  exact filter_eq_self.mpr fun a ha => decide_eq_true (huser a ha)

/-- Where the entry of a name is, if there is one. -/
inductive Located (attr : List UInt8) : List Attr → Prop where
  | absent {es : List Attr} (hno : ∀ a ∈ es, a.name ≠ attr) : Located attr es
  | here (pre : List Attr) (x : Attr) (post : List Attr) (hname : x.name = attr) (hno : ∀ a ∈ pre, a.name ≠ attr) :
    Located attr (pre ++ x :: post)

theorem located (attr : List UInt8) (es : List Attr) : Located attr es := by
  induction es with
  | nil => exact .absent fun a ha => by cases ha
  | cons e es ih =>
    by_cases he : e.name = attr
    · exact .here [] e es he fun a ha => by cases ha
    · cases ih with
      | absent hno =>
        refine .absent fun a ha => ?_
        rcases mem_cons.mp ha with rfl | ha
        · exact he
        · exact hno a ha
      | here pre x post hname hno =>
        refine .here (e :: pre) x post hname fun a ha => ?_
        rcases mem_cons.mp ha with rfl | ha
        · exact he
        · exact hno a ha

theorem putAttr_absent (hno : ∀ x ∈ es, x.name ≠ a.name) : putAttr a es = es ++ [a] := by
  induction es with
  | nil => rfl
  | cons x xs ih =>
    rw [putAttr, if_neg (hno x (mem_cons_self ..)), ih fun y hy => hno y (mem_cons_of_mem x hy)]
    rfl

theorem putAttr_here (hx : x.name = a.name) (hno : ∀ y ∈ pre, y.name ≠ a.name) :
    putAttr a (pre ++ x :: post) = pre ++ a :: post := by
  induction pre with
  | nil => exact if_pos hx
  | cons y ys ih =>
    rw [cons_append, putAttr, if_neg (hno y (mem_cons_self ..)), ih fun z hz => hno z (mem_cons_of_mem y hz)]
    rfl

theorem dropAttr_here (hx : x.name = attr)
    (hno : ∀ y ∈ pre, y.name ≠ attr) : dropAttr attr (pre ++ x :: post) = pre ++ post := by
  induction pre with
  | nil => exact if_pos hx
  | cons y ys ih =>
    rw [cons_append, dropAttr, if_neg (hno y (mem_cons_self ..)), ih fun z hz => hno z (mem_cons_of_mem y hz)]
    rfl

theorem hitIn_absent (pos : Nat) (hno : ∀ a ∈ es, a.name ≠ attr) : hitIn attr pos es = none := by
  induction es generalizing pos with
  | nil => rfl
  | cons e es ih =>
    rw [hitIn, if_neg fun hand => hno e (mem_cons_self ..) hand.2]
    exact ih _ fun a ha => hno a (mem_cons_of_mem e ha)

theorem hitIn_here (pos : Nat) (hx : x.name = attr)
    (huser : attr ≠ [fileNameName]) (hno : ∀ a ∈ pre, a.name ≠ attr) :
    hitIn attr pos (pre ++ x :: post) = some (pos + total pre, x.size) := by
  induction pre generalizing pos with
  | nil => exact if_pos ⟨by rw [hx]; exact huser, hx⟩
  | cons e es ih =>
    rw [cons_append, hitIn, if_neg fun hand => hno e (mem_cons_self ..) hand.2,
      ih (pos + e.size) fun a ha => hno a (mem_cons_of_mem e ha), total, Nat.add_assoc]

/-! ## One call -/

variable {data name : List UInt8} {type : Nat} {b : Block}

/-- What `Attr_Write` may do to the region. -/
inductive Written (b : Block) (name : List UInt8) (es : List Attr) (attr : List UInt8) (type : Nat)
    (data : List UInt8) : Status × Block → Prop where
  | refused {status : Status} (h : status ≠ .ok) : Written b name es attr type data (status, b)
  | removed {b' : Block} (hdata : data = []) (h : Region b' name (dropAttr attr es)) :
    Written b name es attr type data (.ok, b')
  | put {b' : Block} (hdata : data ≠ []) (h : Region b' name (putAttr ⟨type % 2 ^ 32, attr, data⟩ es)) :
    Written b name es attr type data (.ok, b')

section

variable (h : Region b name es)

include h

theorem written_of_found {old : List Attr}
    (hes : es = pre ++ old ++ post) (hattr : 0 < attr.length) (hlen : attr.length ≤ 255)
    (huser : attr ≠ [fileNameName]) (hdata : data.length ≤ blockSize)
    (hnodup : ((pre ++ post).map Attr.name).Nodup) (hout : attr ∉ (pre ++ post).map Attr.name)
    (hput : data ≠ [] → putAttr ⟨type % 2 ^ 32, attr, data⟩ es = pre ++ [⟨type % 2 ^ 32, attr, data⟩] ++ post)
    (hdrop : data = [] → dropAttr attr es = pre ++ [] ++ post) :
    ∃ out, writeAt b attr type data (smallDataOff + total (nameAttr name :: pre)) (total old)
      (smallDataOff + total (nameAttr name :: es)) = .ok out ∧ Written b name es attr type data out := by
  have htail : smallDataOff + total (nameAttr name :: es) + 8 -
      (smallDataOff + total (nameAttr name :: pre) + total old) = total post + 8 := by
    rw [hes, total, total, total_append, total_append]
    omega
  have hholds : Holds b smallDataOff ((nameAttr name :: pre) ++ old ++ post) := by
    have hh := h.holds
    rw [hes] at hh
    exact hh
  have hmem : ∀ a ∈ pre ++ post, a.name ≠ [fileNameName] := by
    intro a ha
    refine h.user a ?_
    rw [hes]
    rcases mem_append.mp ha with hm | hm
    · exact mem_append_left _ (mem_append_left _ hm)
    · exact mem_append_right _ hm
  unfold writeAt
  dsimp only
  rw [htail]
  by_cases hroom : data.length > 0 ∧
      smallDataOff + total (nameAttr name :: pre) + entryBytes attr.length data.length + (total post + 8) > blockSize
  · rw [if_pos hroom]
    exact ⟨_, rfl, .refused (by decide)⟩
  · rw [if_neg hroom]
    by_cases hempty : data.length = 0
    · -- the entry goes
      have hnil : data = [] := length_eq_zero_iff.mp hempty
      obtain ⟨b', hmove, hb'⟩ := hholds.remove
      rw [if_pos hempty, hmove]
      refine ⟨_, rfl, .removed hnil ?_⟩
      rw [hdrop hnil]
      refine ⟨hb', ?_, ?_⟩
      · rw [append_nil]
        exact hmem
      · rw [append_nil]
        exact hnodup
    · -- the entry is put
      have hne : data ≠ [] := fun hnil => hempty (by rw [hnil]; rfl)
      have hok : Attr.Ok ⟨type % 2 ^ 32, attr, data⟩ := by
        have hbs : blockSize = 4096 := rfl
        exact ⟨Nat.mod_lt _ (by decide), hattr, (by dsimp only; omega), (by dsimp only; omega)⟩
      have hfit : smallDataOff + total (nameAttr name :: pre) + (Attr.mk (type % 2 ^ 32) attr data).size +
          (total post + 8) ≤ blockSize := by
        have hsize : (Attr.mk (type % 2 ^ 32) attr data).size = entryBytes attr.length data.length := rfl
        omega
      obtain ⟨b', hmove, hb'⟩ := hholds.put hok hfit
      rw [if_neg hempty]
      refine ⟨(.ok, b'), ?_, .put hne ?_⟩
      · cases hs : shiftTail b (smallDataOff + total (nameAttr name :: pre) + total old)
            (smallDataOff + total (nameAttr name :: pre) + (Attr.mk (type % 2 ^ 32) attr data).size)
            (total post + 8) with
        | error e =>
          rw [hs] at hmove
          cases hmove
        | ok b1 =>
          rw [hs] at hmove
          have hs' : shiftTail b (smallDataOff + total (nameAttr name :: pre) + total old)
            (smallDataOff + total (nameAttr name :: pre) + entryBytes attr.length data.length)
            (total post + 8) = .ok b1 := hs
          have hp : putEntry b1 (smallDataOff + total (nameAttr name :: pre)) attr (type % 2 ^ 32) data = .ok b' := hmove
          rw [hs']
          show (putEntry b1 (smallDataOff + total (nameAttr name :: pre)) attr (type % 2 ^ 32) data >>= _) = _
          rw [hp]
          rfl
      · rw [hput hne]
        refine ⟨hb', ?_, ?_⟩
        · intro a ha
          rcases mem_append.mp ha with hm | hm
          · rcases mem_append.mp hm with hm | hm
            · exact hmem a (mem_append_left _ hm)
            · rw [mem_singleton.mp hm]
              exact huser
          · exact hmem a (mem_append_right _ hm)
        · rw [append_assoc, map_append, singleton_append, map_cons]
          rw [map_append] at hnodup hout
          exact (perm_middle.nodup_iff).mpr (nodup_cons.mpr ⟨hout, hnodup⟩)

/-- **`Attr_Write`** refuses, and leaves the block as it is, or puts or removes its attribute. -/
theorem attrWrite_spec (attr : List UInt8) (type : Nat) (data : List UInt8) :
    ∃ out, attrWrite b attr type data = .ok out ∧ Written b name es attr type data out := by
  unfold attrWrite
  by_cases hbad : attr.length = 0 ∨ attr.length > 255 ∨ attr = [fileNameName] ∨ data.length > blockSize
  · rw [if_pos hbad]
    exact ⟨_, rfl, .refused (by decide)⟩
  · rw [if_neg hbad, searchFrom_eq attr 0 none h.holds]
    have hattr : 0 < attr.length := by omega
    have huser : attr ≠ [fileNameName] := fun heq => hbad (.inr (.inr (.inl heq)))
    dsimp only [bind, Except.bind]
    rw [if_neg (by decide), show none.or (hitIn attr smallDataOff (nameAttr name :: es)) =
      hitIn attr (smallDataOff + (nameAttr name).size) es from rfl]
    cases located attr es with
    | absent hno =>
      rw [hitIn_absent _ hno]
      split_ifs with hempty
      · -- nothing to remove
        exact ⟨_, rfl, .refused (by decide)⟩
      · have hes : es = es ++ [] ++ [] := by rw [append_nil, append_nil]
        refine written_of_found h hes hattr (by omega) huser (by omega) ?_ ?_ ?_ ?_
        · rw [append_nil]
          exact h.nodup
        · rw [append_nil]
          intro hmem
          obtain ⟨a, ha, hname⟩ := mem_map.mp hmem
          exact hno a ha hname
        · intro _
          rw [append_nil]
          exact putAttr_absent hno
        · intro hnil
          exact absurd (by rw [hnil]; rfl) hempty
    | here pre x post hname hno =>
      rw [hitIn_here _ hname huser hno]
      have hat : smallDataOff + (nameAttr name).size + total pre = smallDataOff + total (nameAttr name :: pre) := by
        rw [total, Nat.add_assoc]
      have hx : x.size = total [x] := by rw [total, total, Nat.add_zero]
      have hes : pre ++ x :: post = pre ++ [x] ++ post := by rw [append_assoc]; rfl
      have hnodup := h.nodup
      rw [map_append, map_cons, perm_middle.nodup_iff, nodup_cons] at hnodup
      rw [hat, hx]
      refine written_of_found h hes hattr (by omega) huser (by omega) ?_ ?_ ?_ ?_
      · rw [map_append]
        exact hnodup.2
      · rw [map_append, ← hname]
        exact hnodup.1
      · intro _
        rw [append_assoc]
        exact putAttr_here hname hno
      · intro _
        rw [append_nil]
        exact dropAttr_here hname hno

/-- **`Rename_Name_Attr`** refuses, or changes the name and nothing else. -/
theorem renameNameAttr_spec (newName : List UInt8) (hlen : newName.length ≤ 255) :
    ∃ ok b', renameNameAttr b newName = .ok (ok, b') ∧ (ok = true → Region b' newName es) := by
  have hentry := h.holds.entries.1
  have hfits := h.holds.fits
  have hoff : smallDataOff = 232 := rfl
  have hold : total [nameAttr name] = entryBytes 1 name.length := by rw [total, total, Nat.add_zero]; rfl
  have hnew : total [nameAttr newName] = entryBytes 1 newName.length := by rw [total, total, Nat.add_zero]; rfl
  have hall : total (nameAttr name :: es) = entryBytes 1 name.length + total es := by rw [total]; rfl
  have htype : le b 232 4 = fileNameType := hentry.type
  have hnlen : le b 236 2 = 1 := hentry.nlen
  have hname : b 240 = fileNameName := (cons.inj hentry.name).1
  have hdlen : le b 238 2 = name.length := hentry.dlen
  have hend : endFrom b (232 + entryBytes 1 name.length) = .ok (232 + entryBytes 1 name.length + total es) :=
    endFrom_eq h.holds.tail
  have htail : 232 + entryBytes 1 name.length + total es + 8 - (232 + entryBytes 1 name.length) = total es + 8 := by
    omega
  unfold renameNameAttr
  rw [leAt_eq b (show 232 + 4 ≤ blockSize by decide), leAt_eq b (show 236 + 2 ≤ blockSize by decide),
    byteAt_eq b (show 240 < blockSize by decide), leAt_eq b (show 238 + 2 ≤ blockSize by decide), htype, hnlen, hname,
    hdlen]
  show ∃ ok b', (if fileNameType ≠ fileNameType ∨ (1 : Nat) ≠ 1 ∨ fileNameName ≠ fileNameName then
      Except.ok (true, b) else (endFrom b (232 + entryBytes 1 name.length) >>= fun scan =>
        if 232 + entryBytes 1 newName.length + (scan + 8 - (232 + entryBytes 1 name.length)) > blockSize then
          pure (false, b)
        else do
          let b ← shiftTail b (232 + entryBytes 1 name.length) (232 + entryBytes 1 newName.length)
            (scan + 8 - (232 + entryBytes 1 name.length))
          let b ← setLe b 238 2 newName.length
          let b ← setBytes b 244 newName
          pure (true, b))) = .ok (ok, b') ∧ (ok = true → Region b' newName es)
  rw [if_neg (by simp), hend]
  show ∃ ok b', (if 232 + entryBytes 1 newName.length +
      (232 + entryBytes 1 name.length + total es + 8 - (232 + entryBytes 1 name.length)) > blockSize then
        Except.ok (false, b) else _) = Except.ok (ok, b') ∧ _
  rw [htail]
  by_cases hroom : 232 + entryBytes 1 newName.length + (total es + 8) > blockSize
  · rw [if_pos hroom]
    exact ⟨false, b, rfl, fun hok => by cases hok⟩
  · rw [hall] at hfits
    have hsize : entryBytes 1 newName.length = 13 + newName.length := by unfold entryBytes; omega
    rw [if_neg hroom, shiftTail_eq b (by omega) (by omega)]
    generalize hmoved : moved b (232 + entryBytes 1 name.length) (232 + entryBytes 1 newName.length) (total es + 8) = b1
    show ∃ ok b', (setBytes (putLe b1 238 2 newName.length) 244 newName >>= fun b => pure (true, b)) =
      Except.ok (ok, b') ∧ (ok = true → Region b' newName es)
    rw [setBytes_eq _ _ (by omega), ← hmoved]
    refine ⟨true, _, rfl, fun _ => ⟨?_, h.user, h.nodup⟩⟩
    -- the bytes outside the data length and the name
    have hsame : ∀ i, i < 238 ∨ (240 ≤ i ∧ i < 244) →
        putBytes (putLe (moved b (232 + entryBytes 1 name.length) (232 + entryBytes 1 newName.length) (total es + 8))
          238 2 newName.length) 244 newName i = b i := by
      intro i hi
      rw [putBytes_outside _ _ _ _ (by omega), putLe_outside _ _ _ _ _ (by omega), moved_outside _ _ _ _ (by omega)]
    have hshape : Holds b smallDataOff ([] ++ [nameAttr name] ++ es) := h.holds
    refine hshape.splice [nameAttr newName] ?_ ⟨?_, trivial⟩ ?_ ?_
    · intro i hi
      rw [total] at hi
      exact hsame i (by omega)
    · refine ⟨?_, ?_, ?_, ?_, ?_, Nat.one_pos⟩
      · exact (le_congr _ _ 232 4 fun i h1 h2 => hsame i (by omega)).trans htype
      · exact (le_congr _ _ 236 2 fun i h1 h2 => hsame i (by omega)).trans hnlen
      · show le (putBytes _ 244 newName) 238 2 = newName.length
        rw [le_congr _ _ 238 2 fun i h1 h2 => putBytes_outside _ 244 newName i (by omega), le_putLe]
        exact Nat.mod_eq_of_lt (by omega)
      · show slice _ 240 1 = [fileNameName]
        rw [slice, slice, hsame 240 (by omega), hname]
      · exact slice_putBytes _ 244 newName
    · intro i hi
      rw [total, hold, hnew, hoff, putBytes_outside _ _ _ _ (by omega), putLe_outside _ _ _ _ _ (by omega)]
      exact moved_inside b _ _ _ hi
    · rw [total, hnew]
      omega

theorem Region.elsewhere (rest : Elsewhere) :
    Region (rest.write b) name es := by
  have hb : ∀ i, rest.write b (smallDataOff + i) = b (smallDataOff + i) :=
    fun i => rest.keeps b _ (Nat.le_add_right _ _)
  refine ⟨⟨h.holds.entries.shift fun i _ => hb i, ?_, h.holds.fits⟩, h.user, h.nodup⟩
  refine (le_shift fun i _ => ?_).trans h.holds.ended
  rw [Nat.add_assoc smallDataOff, Nat.add_assoc smallDataOff]
  exact hb _

end

/-- **A new inode** has the name entry and nothing else. -/
theorem buildInode_region (head : Block) (name : FileName) : Region (buildInode head name) name.1 [] := by
  have hmod : name.1.length % 256 = name.1.length := Nat.mod_eq_of_lt (by omega)
  have hsize : total [nameAttr name.1] = 13 + name.1.length := by
    show 8 + 1 + 3 + name.1.length + 1 + 0 = 13 + name.1.length
    omega
  have hoff : smallDataOff = 232 := rfl
  have hbs : blockSize = 4096 := rfl
  have hone : 1 % 256 ^ 2 = 1 := by decide
  refine ⟨⟨⟨⟨?_, ?_, ?_, ?_, ?_, Nat.one_pos⟩, trivial⟩, ?_, ?_⟩, fun a ha => (by cases ha), nodup_nil⟩
  · show le (putBytes _ 244 name.1) 232 4 = fileNameType
    rw [le_congr _ _ 232 4 fun i h1 h2 => putBytes_outside _ 244 name.1 i (by omega),
      le_update _ _ (by omega), le_putLe_disjoint _ _ _ _ _ _ (by omega), le_putLe_disjoint _ _ _ _ _ _ (by omega),
      le_putLe]
    decide
  · show le (putBytes _ 244 name.1) 236 2 = 1
    rw [le_congr _ _ 236 2 fun i h1 h2 => putBytes_outside _ 244 name.1 i (by omega),
      le_update _ _ (by omega), le_putLe_disjoint _ _ _ _ _ _ (by omega), le_putLe, hone]
  · show le (putBytes _ 244 name.1) 238 2 = name.1.length
    rw [le_congr _ _ 238 2 fun i h1 h2 => putBytes_outside _ 244 name.1 i (by omega),
      le_update _ _ (by omega), le_putLe, hmod]
    exact Nat.mod_eq_of_lt (by omega : name.1.length < 256 ^ 2)
  · show slice (putBytes _ 244 name.1) 240 1 = [fileNameName]
    rw [slice, slice, putBytes_outside _ _ _ _ (by omega), update_self]
  · exact slice_putBytes _ 244 name.1
  · rw [hsize, hoff]
    have hzero : ∀ i, 232 + (13 + name.1.length) + 4 ≤ i → i < 232 + (13 + name.1.length) + 4 + 2 →
        buildInode head name i = (fun _ => 0 : Block) i := by
      intro i h1 h2
      unfold buildInode
      rw [putBytes_outside _ _ _ _ (by omega), update_of_ne (by omega), putLe_outside _ _ _ _ _ (by omega),
        putLe_outside _ _ _ _ _ (by omega), putLe_outside _ _ _ _ _ (by omega)]
      exact if_neg (by omega)
    rw [le_congr _ _ _ 2 hzero]
    rfl
  · rw [hsize]
    omega

/-! ## The map -/

variable {m : Contents}

/-- What an inode block is to say: the entry's name, and type and bytes of each attribute. -/
structure Contents where
  name : List UInt8
  attrs : List UInt8 → Option (Nat × List UInt8)

/-- A call that takes effect. -/
def Contents.take (m : Contents) : Call → Contents
  | .write attr type data =>
    { m with attrs := update m.attrs attr (if data = [] then none else some (type % 2 ^ 32, data)) }
  | .rename name _ => { m with name := name.1 }

/-- A refused call has no effect. -/
def Contents.after (m : Contents) (call : Call) : Answer → Contents
  | .refused => m
  | .done => m.take call
  | .late => m.take call

/-- The calls with their answers, one after the other. -/
def Contents.history (m : Contents) : List (Call × Commit) → List Answer → Contents
  | (call, _) :: calls, answer :: answers => (m.after call answer).history calls answers
  | _, _ => m

/-- The entries say what `m` says. -/
structure Depicts (m : Contents) (name : List UInt8) (es : List Attr) : Prop where
  name : m.name = name
  attrs : ∀ attr, m.attrs attr = (es.find? fun a => a.name = attr).map fun a => (a.type, a.data)

theorem find_same (xs : List Attr) (h : x.name = attr) :
    ((x :: xs).find? fun a => a.name = attr) = some x := find?_cons_of_pos (by simpa using h)

theorem find_other (xs : List Attr) (h : x.name ≠ attr) :
    ((x :: xs).find? fun a => a.name = attr) = xs.find? fun a => a.name = attr :=
  find?_cons_of_neg (by simpa using h)

theorem find_putAttr (a : Attr) (es : List Attr) (attr : List UInt8) :
    (putAttr a es).find? (fun x => x.name = attr) =
      if attr = a.name then some a else es.find? fun x => x.name = attr := by
  induction es with
  | nil =>
    by_cases hattr : attr = a.name
    · rw [if_pos hattr, putAttr, find_same _ hattr.symm]
    · rw [if_neg hattr, putAttr, find_other _ (Ne.symm hattr)]
  | cons x xs ih =>
    rw [putAttr]
    by_cases hx : x.name = a.name
    · rw [if_pos hx]
      by_cases hattr : attr = a.name
      · rw [if_pos hattr, find_same _ hattr.symm]
      · have hx' : x.name ≠ attr := fun heq => hattr (by rw [← heq, hx])
        rw [if_neg hattr, find_other _ (Ne.symm hattr), find_other _ hx']
    · rw [if_neg hx]
      by_cases hx' : x.name = attr
      · have hattr : attr ≠ a.name := fun heq => hx (by rw [hx', heq])
        rw [find_same _ hx', if_neg hattr, find_same _ hx']
      · rw [find_other _ hx', ih, find_other _ hx']

theorem find_dropAttr (dropped : List UInt8) (hnodup : (es.map Attr.name).Nodup) (attr : List UInt8) :
    (dropAttr dropped es).find? (fun x => x.name = attr) =
      if attr = dropped then none else es.find? fun x => x.name = attr := by
  induction es with
  | nil => rw [dropAttr, find?_nil, ite_self]
  | cons x xs ih =>
    rw [map_cons, nodup_cons] at hnodup
    rw [dropAttr]
    by_cases hx : x.name = dropped
    · rw [if_pos hx]
      by_cases hattr : attr = dropped
      · -- no other entry has the name
        rw [if_pos hattr, find?_eq_none]
        intro y hy
        rw [decide_eq_true_eq, hattr, ← hx]
        exact fun heq => hnodup.1 (heq ▸ mem_map_of_mem hy)
      · have hx' : x.name ≠ attr := fun heq => hattr (by rw [← heq, hx])
        rw [if_neg hattr, find_other _ hx']
    · rw [if_neg hx]
      by_cases hx' : x.name = attr
      · have hattr : attr ≠ dropped := fun heq => hx (by rw [hx', heq])
        rw [find_same _ hx', if_neg hattr, find_same _ hx']
      · rw [find_other _ hx', ih hnodup.2, find_other _ hx']

theorem Depicts.put (h : Depicts m name es) (hdata : data ≠ []) :
    Depicts (m.take (.write attr type data)) name (putAttr ⟨type % 2 ^ 32, attr, data⟩ es) := by
  refine ⟨h.name, fun x => ?_⟩
  show update m.attrs attr (if data = [] then none else some (type % 2 ^ 32, data)) x = _
  rw [find_putAttr, if_neg hdata]
  split_ifs with hx
  · rw [hx, update_self]
    rfl
  · rw [update_of_ne hx, h.attrs x]

theorem Depicts.drop (h : Depicts m name es) (hnodup : (es.map Attr.name).Nodup) (hdata : data = []) :
    Depicts (m.take (.write attr type data)) name (dropAttr attr es) := by
  refine ⟨h.name, fun x => ?_⟩
  show update m.attrs attr (if data = [] then none else some (type % 2 ^ 32, data)) x = _
  rw [find_dropAttr attr hnodup, if_pos hdata]
  split_ifs with hx
  · rw [hx, update_self]
    rfl
  · rw [update_of_ne hx, h.attrs x]

/-! ## Runs -/

/-- The block says what `m` says. -/
def Says (b : Block) (m : Contents) : Prop := ∃ name es, Region b name es ∧ Depicts m name es

theorem commit_cases (old new : Block) (c : Commit) :
    (commit old new c).1 = .refused ∧ (commit old new c).2 = old ∨
      (commit old new c).1 ≠ .refused ∧ (commit old new c).2 = new := by
  cases c with
  | done => exact .inr ⟨fun h => (by cases h), rfl⟩
  | dropped => exact .inl ⟨rfl, rfl⟩
  | late => exact .inr ⟨fun h => (by cases h), rfl⟩

theorem commit_late {old new : Block} {c : Commit} (h : (commit old new c).1 = .late) : c = .late := by
  cases c with
  | done => cases h
  | dropped => cases h
  | late => rfl

theorem says_commit {b' : Block} {call : Call} (c : Commit) (h : Says b m)
    (h' : Says b' (m.take call)) : Says (commit b b' c).2 (m.after call (commit b b' c).1) := by
  cases c with
  | done => exact h'
  | dropped => exact h
  | late => exact h'

/-- **One call**: it raises nothing, the block says afterwards what the answer means, and a refused call leaves the
    block byte for byte as it was. -/
theorem step_says (h : Says b m) (call : Call) (c : Commit) :
    ∃ answer b', step b call c = .ok (answer, b') ∧ Says b' (m.after call answer) ∧
      (answer = .refused → b' = b) ∧ (answer = .late → c = .late) := by
  obtain ⟨name, es, hregion, hdepicts⟩ := h
  have hsays : Says b m := ⟨name, es, hregion, hdepicts⟩
  have hcommitted : ∀ b', Says b' (m.take call) → ∃ answer b'', (Except.ok (commit b b' c) : Except Raised _)
      = .ok (answer, b'') ∧ Says b'' (m.after call answer) ∧ (answer = .refused → b'' = b) ∧
        (answer = .late → c = .late) := by
    intro b' hb'
    refine ⟨_, _, rfl, says_commit c hsays hb', fun hrefused => ?_, fun hlate => commit_late hlate⟩
    rcases commit_cases b b' c with ⟨-, hold⟩ | ⟨hne, -⟩
    · exact hold
    · exact absurd hrefused hne
  cases call with
  | write attr type data =>
    obtain ⟨out, hout, hw⟩ := attrWrite_spec hregion attr type data
    unfold step
    dsimp only
    rw [hout]
    cases hw with
    | refused hstatus =>
      refine ⟨.refused, b, ?_, hsays, fun _ => rfl, fun hl => (by cases hl)⟩
      exact if_pos hstatus
    | removed hdata hreg => exact hcommitted _ ⟨name, _, hreg, hdepicts.drop hregion.nodup hdata⟩
    | put hdata hreg => exact hcommitted _ ⟨name, _, hreg, hdepicts.put hdata⟩
  | rename newName rest =>
    obtain ⟨ok, b', hrename, hok⟩ := renameNameAttr_spec (hregion.elsewhere rest) newName.1 newName.2
    unfold step
    dsimp only
    rw [hrename]
    cases ok with
    | false => exact ⟨.refused, b, rfl, hsays, fun _ => rfl, fun hl => (by cases hl)⟩
    | true => exact hcommitted _ ⟨newName.1, es, hok rfl, rfl, hdepicts.attrs⟩

/-- **A run** of calls. -/
theorem run_says (h : Says b m) (calls : List (Call × Commit)) :
    ∃ answers b', run b calls = .ok (answers, b') ∧ answers.length = calls.length ∧
      Says b' (m.history calls answers) := by
  induction calls generalizing b m with
  | nil => exact ⟨[], b, rfl, rfl, h⟩
  | cons call calls ih =>
    obtain ⟨call, c⟩ := call
    obtain ⟨answer, b1, hstep, hsays, -, -⟩ := step_says h call c
    obtain ⟨answers, b', hrun, hlen, hb'⟩ := ih hsays
    refine ⟨answer :: answers, b', ?_, by rw [length_cons, length_cons, hlen], hb'⟩
    rw [run, hstep]
    show (run b1 calls >>= _) = _
    rw [hrun]
    rfl

/-! ## What the readers see -/

/-- `Attr_Read`, `Attr_List` and the name pseudo-attribute show `m`. -/
structure Shows (b : Block) (m : Contents) : Prop where
  reads : ∀ attr bufLen, attrRead b attr bufLen =
    .ok ((m.attrs attr).map fun p => ⟨p.1, p.2.length, p.2.take bufLen⟩)
  lists : ∃ names : List (List UInt8), names.Nodup ∧ fileNameName :: [] ∉ names ∧
    (∀ attr, attr ∈ names ↔ (m.attrs attr).isSome) ∧
    ∀ index nameLen, attrList b index nameLen =
      .ok (names[index]?.bind fun attr => (m.attrs attr).map fun p => ⟨attr.take nameLen, p.1, p.2.length⟩)
  named : le b 232 4 = fileNameType ∧ le b 236 2 = 1 ∧ b 240 = fileNameName ∧ slice b 244 (le b 238 2) = m.name

theorem find_self (hnodup : (es.map Attr.name).Nodup) (ha : a ∈ es) :
    (es.find? fun x => x.name = a.name) = some a := by
  induction es with
  | nil => cases ha
  | cons x xs ih =>
    rw [map_cons, nodup_cons] at hnodup
    rcases mem_cons.mp ha with rfl | hmem
    · exact find_same _ rfl
    · have hne : x.name ≠ a.name := fun heq => hnodup.1 (heq ▸ mem_map_of_mem hmem)
      rw [find_other _ hne]
      exact ih hnodup.2 hmem

theorem Says.shows (h : Says b m) : Shows b m := by
  obtain ⟨name, es, hregion, hdepicts⟩ := h
  have hvisible := visible_region name hregion.user
  have hentry := hregion.holds.entries.1
  refine ⟨?_, ⟨es.map Attr.name, hregion.nodup, ?_, ?_, ?_⟩, hentry.type, hentry.nlen, ?_, ?_⟩
  · intro attr bufLen
    rw [attrRead, readFrom_eq attr bufLen hregion.holds, hvisible, hdepicts.attrs, Option.map_map]
    rfl
  · intro hmem
    obtain ⟨a, ha, hname⟩ := mem_map.mp hmem
    exact hregion.user a ha hname
  · intro attr
    rw [hdepicts.attrs, Option.isSome_map, find?_isSome, mem_map]
    simp only [decide_eq_true_eq]
  · intro index nameLen
    rw [attrList, listFrom_eq index nameLen 0 hregion.holds (Nat.zero_le _), hvisible, Nat.sub_zero, getElem?_map]
    cases hat : es[index]? with
    | none => rfl
    | some a =>
      have hfind := find_self hregion.nodup (mem_of_getElem? hat)
      show _ = Except.ok ((m.attrs a.name).map _)
      rw [hdepicts.attrs, hfind]
      rfl
  · exact (cons.inj hentry.name).1
  · rw [hdepicts.name]
    have hdlen : le b 238 2 = name.length := hentry.dlen
    rw [hdlen]
    exact hentry.data

/-- **The small_data region is a faithful attribute map.**  After any calls on an inode the engine has built, the
    readers show exactly what the calls that took effect have written, types modulo `2 ^ 32`; the next call raises
    nothing, and one that is refused leaves the block as it was.  Nothing but a commit that fails late makes an answer
    that is neither. -/
theorem small_data_faithful (head : Block) (name : FileName) (calls : List (Call × Commit)) :
    ∃ answers b, run (buildInode head name) calls = .ok (answers, b) ∧ answers.length = calls.length ∧
      Shows b (Contents.history ⟨name.1, fun _ => none⟩ calls answers) ∧
      ∀ call c, ∃ answer b', step b call c = .ok (answer, b') ∧ (answer = .refused → b' = b) ∧
        (answer = .late → c = .late) := by
  have hnew : Says (buildInode head name) ⟨name.1, fun _ => none⟩ :=
    ⟨name.1, [], buildInode_region head name, rfl, fun attr => rfl⟩
  obtain ⟨answers, b, hrun, hlen, hsays⟩ := run_says hnew calls
  refine ⟨answers, b, hrun, hlen, hsays.shows, fun call c => ?_⟩
  obtain ⟨answer, b', hstep, -, hrefused, hlate⟩ := step_says hsays call c
  exact ⟨answer, b', hstep, hrefused, hlate⟩

/-- What a call answers, and what `Attr_Read` of the attribute shows then. -/
def readAfter (b : Block) (call : Call) (c : Commit) (attr : List UInt8) (bufLen : Nat) :
    Except Raised (Answer × Option Reading) := do
  let (answer, b') ← step b call c
  let reading ← attrRead b' attr bufLen
  pure (answer, reading)

/-- **A type loses its high half, and a refusal may come late.**  In a new inode an attribute is written with type
    `2 ^ 32`; it reads back with type 0.  A write whose commit fails late is answered as an error, and the attribute
    is there. -/
theorem types_are_cut :
    readAfter (buildInode (fun _ => 0) ⟨[97], by decide⟩) (.write [120] (2 ^ 32) [1]) .done [120] 1
        = .ok (.done, some ⟨0, 1, [1]⟩) ∧
      attrRead (buildInode (fun _ => 0) ⟨[97], by decide⟩) [120] 1 = .ok none ∧
      readAfter (buildInode (fun _ => 0) ⟨[97], by decide⟩) (.write [120] 7 [1]) .late [120] 1
        = .ok (.late, some ⟨7, 1, [1]⟩) := by
  refine ⟨?_, ?_, ?_⟩
  · decide +kernel
  · decide +kernel
  · decide +kernel

end Aegir.Bfs.SmallData
