/-
  Scanning a tree of unknown content.

  For `Tree_Rewind` and `Tree_Next`, and for whole scans, the exact condition on the bytes of the nodes under which
  they survive.  `walks_survive_iff` puts it together with what `WalkSafety` says of decoding and searching.
-/
import Aegir.Bfs.WalkSafety

namespace Aegir.Bfs

open Aegir.Lib List Option

/-! ## The start of a scan -/

theorem startNodeChecked_yields (b : Block) (hops entries : Nat) :
    Yields (startNodeChecked b hops entries) fun it => it = startNode b hops entries := by
  refine (leAt_yields b 24 2 (by decide)).bind fun count hcount => ?_
  refine (leAt_yields b 26 2 (by decide)).bind fun keyBytes hkeys => ?_
  rw [hcount, hkeys]
  exact yields_ok rfl

/-- The inner nodes whose first child is followed. -/
def firstNodes (s : Stream) : Nat → Nat → List Block
  | 0, _ => []
  | levels + 1, off =>
    match s.streamRead off with
    | none => []
    | some b => if le b 16 8 = btreeNull then [] else b :: firstNodes s levels (le b (valsOff b) 8)

/-- The first child of a node can be read. -/
def FirstReads (b : Block) : Prop := valsOff b + 8 ≤ blockSize

theorem leftmostFromChecked_decides (s : Stream) (hops entries levels off : Nat) :
    Decides (leftmostFromChecked s hops entries levels off) (∀ b ∈ firstNodes s levels off, FirstReads b)
      fun it => it = (leftmostFrom s levels off).map fun b => startNode b hops entries := by
  induction levels generalizing off with
  | zero => exact decides_nil none
  | succ levels ih =>
    unfold leftmostFromChecked leftmostFrom firstNodes
    cases s.streamRead off with
    | none => exact decides_nil none
    | some b =>
      dsimp only
      refine (startNodeChecked_yields b hops entries).bind_eq ?_
      refine (leAt_yields b 16 8 (by decide)).bind_eq ?_
      by_cases hleaf : le b 16 8 = btreeNull
      · rw [if_pos hleaf, if_pos hleaf, if_pos hleaf]
        exact decides_nil _
      · rw [if_neg hleaf, if_neg hleaf, if_neg hleaf]
        exact Decides.congr ((leAt_word b (valsOff b) 7).bind_eq fun _ => ih _) forall_mem_cons

/-- The nodes whose first child `Tree_Rewind` follows. -/
def rewindNodes (s : Stream) : List Block :=
  match s.streamRead 0 with
  | none => []
  | some hdr => if le hdr 0 4 ≠ btreeMagic then [] else firstNodes s rewindLevels (le hdr 16 8)

/-- **`Tree_Rewind`** passes exactly when it can read the first child of every inner node on its way. -/
theorem treeRewindChecked_decides (s : Stream) (hops entries : Nat) :
    Decides (treeRewindChecked s hops entries) (∀ b ∈ rewindNodes s, FirstReads b)
      fun it => it = (treeRewind s).map fun it => { it with hops := hops, entries := entries } := by
  unfold treeRewindChecked rewindNodes treeRewind
  cases s.streamRead 0 with
  | none => exact decides_nil none
  | some hdr =>
    dsimp only
    refine (leAt_yields hdr 0 4 (by decide)).bind_eq ?_
    by_cases hmagic : le hdr 0 4 ≠ btreeMagic
    · rw [if_pos hmagic, if_pos hmagic, if_pos hmagic]
      exact decides_nil none
    · rw [if_neg hmagic, if_neg hmagic, if_neg hmagic]
      refine (leAt_yields hdr 16 8 (by decide)).bind_eq ?_
      rw [Option.map_map]
      exact leftmostFromChecked_decides s hops entries rewindLevels (le hdr 16 8)

/-! ## The next entry -/

theorem skipEmptyChecked_yields (s : Stream) (hops : Nat) (it : TreeIt) :
    Yields (skipEmptyChecked s hops it) fun o => o = skipEmpty s hops it := by
  induction hops generalizing it with
  | zero =>
    unfold skipEmptyChecked skipEmpty
    refine Yields.ite_eq (fun _ => yields_ok rfl) fun _ => ?_
    refine (leAt_yields it.node 8 8 (by decide)).bind fun right hr => ?_
    rw [hr]
    exact Yields.ite_eq (fun _ => yields_ok rfl) fun _ => yields_ok rfl
  | succ hops ih =>
    unfold skipEmptyChecked skipEmpty
    refine Yields.ite_eq (fun _ => yields_ok rfl) fun _ => ?_
    refine (leAt_yields it.node 8 8 (by decide)).bind fun right hr => ?_
    rw [hr]
    refine Yields.ite_eq (fun _ => yields_ok rfl) fun _ => ?_
    cases s.streamRead (le it.node 8 8) with
    | none => exact yields_ok rfl
    | some b =>
      refine (startNodeChecked_yields b (it.hops + 1) it.entries).bind fun it' hit => ?_
      rw [hit]
      exact ih (startNode b (it.hops + 1) it.entries)

/-- The length word of the entry an iterator stands at. -/
def TreeIt.len (it : TreeIt) : Nat := le it.node (it.lens + 2 * it.keyIdx) 2

/-- What `Tree_Next` answers where its checks pass. -/
def answerAt (nameLen : Nat) (it : TreeIt) : Option Yielded :=
  if it.entries + 1 > maxEntries then none
  else some ⟨(slice it.node it.keyPos (min (rounds it.len) nameLen)).take (min it.len nameLen),
    le it.node (it.vals + 8 * it.keyIdx) 8, rounds it.len, it.advance⟩

/-- The entry an iterator stands at can be read: its length word, and unless the scan gives up here its value, and
    as much of its key as the buffer takes. -/
structure EntryReads (nameLen : Nat) (it : TreeIt) : Prop where
  length : it.lens + 2 * it.keyIdx + 2 ≤ blockSize
  val : it.entries < maxEntries → it.vals + 8 * it.keyIdx + 8 ≤ blockSize
  name : it.entries < maxEntries → nameLen = 0 ∨ it.keyPos + min (rounds it.len) nameLen ≤ blockSize

theorem rounds_ne_zero (n : Nat) : rounds n ≠ 0 := Nat.succ_ne_zero _

/-- **`Tree_Next`** passes exactly when the entry it comes to can be read. -/
theorem treeNextChecked_decides (s : Stream) (nameLen : Nat) (it : TreeIt) : Decides (treeNextChecked s nameLen it)
      (∀ stand, skipEmpty s (maxHops - it.hops) it = some stand → EntryReads nameLen stand)
      fun o => o = (skipEmpty s (maxHops - it.hops) it).bind (answerAt nameLen) := by
  refine (skipEmptyChecked_yields s (maxHops - it.hops) it).bind_eq ?_
  cases skipEmpty s (maxHops - it.hops) it with
  | none => exact decides_eq none fun stand h => by cases h
  | some stand =>
    rw [bind_some]
    unfold answerAt
    split_ifs with hmany
    · refine Decides.congr ((leAt_word stand.node _ 1).bind_eq (d := True) fun _ => ?_) ?_
      · rw [if_pos hmany]
        exact decides_eq none trivial
      · constructor
        · intro h
          exact ⟨(h stand rfl).length, trivial⟩
        · rintro ⟨hlen, -⟩ x hx
          cases hx
          exact ⟨hlen, fun hlt => absurd hlt (by omega), fun hlt => absurd hlt (by omega)⟩
    · refine Decides.congr ((leAt_word stand.node _ 1).bind_eq
        (d := stand.vals + 8 * stand.keyIdx + (7 + 1) ≤ blockSize ∧
          (min (rounds stand.len) nameLen = 0 ∨ stand.keyPos + min (rounds stand.len) nameLen ≤ blockSize) ∧ True)
        fun _ => ?_) ?_
      · rw [if_neg hmany]
        refine (leAt_word stand.node _ 7).bind_eq fun _ => ?_
        exact (bytesAt_decides stand.node stand.keyPos _).bind_eq fun _ => decides_eq _ trivial
      · have hr := rounds_ne_zero stand.len
        constructor
        · intro h
          obtain ⟨hlen, hval, hname⟩ := h stand rfl
          exact ⟨hlen, hval (by omega), by omega, trivial⟩
        · rintro ⟨hlen, hval, hname, -⟩ x hx
          cases hx
          exact ⟨hlen, fun _ => hval, fun _ => by omega⟩

/-- `Tree_Next` comes to an end, and its copying loop makes no more rounds than a 16-bit length can ask for. -/
def EndsInTime (x : Except Raised (Option Yielded)) : Prop := Yields x fun o => ∀ y ∈ o, y.copied < 2 ^ 16

/-- The entry an iterator stands at is sound: it can be read, and its key is not empty. -/
structure EntrySound (nameLen : Nat) (it : TreeIt) : Prop where
  length : it.lens + 2 * it.keyIdx + 2 ≤ blockSize
  pos : it.entries < maxEntries → 0 < it.len
  val : it.entries < maxEntries → it.vals + 8 * it.keyIdx + 8 ≤ blockSize
  name : it.entries < maxEntries → nameLen = 0 ∨ it.keyPos + min it.len nameLen ≤ blockSize

theorem TreeIt.len_lt (it : TreeIt) : it.len < 2 ^ 16 := le_lt it.node _ 2

theorem entrySound_iff (nameLen : Nat) (it : TreeIt) :
    EntrySound nameLen it ↔ EntryReads nameLen it ∧ ∀ y ∈ answerAt nameLen it, y.copied < 2 ^ 16 := by
  have hlt := it.len_lt
  by_cases hmany : it.entries + 1 > maxEntries
  · -- the scan gives up here
    have hanswer : answerAt nameLen it = none := if_pos hmany
    have hno : ∀ {p : Prop}, it.entries < maxEntries → p := fun h => absurd h (by omega)
    rw [hanswer]
    constructor
    · intro h
      exact ⟨⟨h.length, hno, hno⟩, fun y hy => by cases hy⟩
    · rintro ⟨h, -⟩
      exact ⟨h.length, hno, hno, hno⟩
  · have hanswer : answerAt nameLen it = some ⟨_, _, rounds it.len, it.advance⟩ := if_neg hmany
    have hless : it.entries < maxEntries := by omega
    rw [hanswer]
    constructor
    · intro h
      have hpos := h.pos hless
      have hrounds : rounds it.len = it.len := rounds_pos hpos (by omega)
      refine ⟨⟨h.length, h.val, ?_⟩, ?_⟩
      · rw [hrounds]
        exact h.name
      · intro y hy
        rw [mem_some_iff] at hy
        rw [← hy]
        exact (rounds_lt_iff hlt).mpr hpos
    · rintro ⟨h, hcopied⟩
      have hpos : 0 < it.len := (rounds_lt_iff hlt).mp (hcopied _ rfl)
      have hrounds : rounds it.len = it.len := rounds_pos hpos (by omega)
      have hname := h.name
      rw [hrounds] at hname
      exact ⟨h.length, fun _ => hpos, h.val, hname⟩

theorem treeNext_survives_iff (s : Stream) (nameLen : Nat) (it : TreeIt) :
    EndsInTime (treeNextChecked s nameLen it) ↔
      ∀ stand, skipEmpty s (maxHops - it.hops) it = some stand → EntrySound nameLen stand := by
  refine (treeNextChecked_decides s nameLen it).yields_iff.trans ?_
  cases skipEmpty s (maxHops - it.hops) it with
  | none => exact ⟨fun _ stand h => (by cases h), fun _ => ⟨fun stand h => (by cases h), fun y hy => (by cases hy)⟩⟩
  | some here =>
    constructor
    · rintro ⟨hreads, hcopied⟩ stand hstand
      cases hstand
      exact (entrySound_iff nameLen here).mpr ⟨hreads here rfl, hcopied⟩
    · intro h
      obtain ⟨hreads, hcopied⟩ := (entrySound_iff nameLen here).mp (h here rfl)
      refine ⟨fun stand hstand => ?_, hcopied⟩
      cases hstand
      exact hreads

/-! ## Whole scans -/

/-- The entries that `calls` calls of `Tree_Next` come to. -/
def stops (s : Stream) : Nat → TreeIt → List TreeIt
  | 0, _ => []
  | calls + 1, it =>
    match skipEmpty s (maxHops - it.hops) it with
    | none => []
    | some stand => stand :: if stand.entries + 1 > maxEntries then [] else stops s calls stand.advance

/-- **A scan** survives exactly when every entry it comes to is sound. -/
theorem scan_survives_iff (s : Stream) (nameLen calls : Nat) (it : TreeIt) :
    (Yields (scanChecked s nameLen calls it) fun ys => ∀ y ∈ ys, y.copied < 2 ^ 16) ↔
      ∀ stand ∈ stops s calls it, EntrySound nameLen stand := by
  induction calls generalizing it with
  | zero => exact ⟨fun _ stand h => (by cases h), fun _ => yields_ok fun y hy => (by cases hy)⟩
  | succ calls ih =>
    unfold scanChecked stops
    refine (treeNextChecked_decides s nameLen it).bind_yields_iff.trans ?_
    cases skipEmpty s (maxHops - it.hops) it with
    | none =>
      refine ⟨fun _ stand h => (by cases h), fun _ => ⟨fun stand h => (by cases h), ?_⟩⟩
      exact yields_ok fun y hy => (by cases hy)
    | some here =>
      have hreads : (∀ stand, some here = some stand → EntryReads nameLen stand) ↔ EntryReads nameLen here :=
        ⟨fun h => h here rfl, fun h stand hstand => Option.some.inj hstand ▸ h⟩
      rw [bind_some, hreads]
      rw [forall_mem_cons, entrySound_iff]
      by_cases hmany : here.entries + 1 > maxEntries
      · have hanswer : answerAt nameLen here = none := if_pos hmany
        rw [hanswer, if_pos hmany]
        constructor
        · rintro ⟨h, -⟩
          exact ⟨⟨h, fun y hy => (by cases hy)⟩, fun stand h => (by cases h)⟩
        · rintro ⟨⟨h, -⟩, -⟩
          exact ⟨h, yields_ok fun y hy => (by cases hy)⟩
      · have hanswer : answerAt nameLen here = some ⟨_, _, rounds here.len, here.advance⟩ := if_neg hmany
        rw [hanswer, if_neg hmany, ← ih here.advance]
        rw [yields_map_iff]
        constructor
        · rintro ⟨h, ys, hys, hall⟩
          rw [forall_mem_cons] at hall
          exact ⟨⟨h, fun y hy => mem_some_iff.mp hy ▸ hall.1⟩, ys, hys, hall.2⟩
        · rintro ⟨⟨h, hcopied⟩, ys, hys, hall⟩
          exact ⟨h, ys, hys, forall_mem_cons.mpr ⟨hcopied _ rfl, hall⟩⟩

theorem skipEmpty_entries {s : Stream} {hops : Nat} {it stand : TreeIt} (h : skipEmpty s hops it = some stand) :
    stand.entries = it.entries := by
  induction hops generalizing it with
  | zero =>
    unfold skipEmpty at h
    split_ifs at h with hlt
    · cases h
      rfl
    · dsimp only at h
      split at h <;> cases h
  | succ hops ih =>
    unfold skipEmpty at h
    split_ifs at h with hlt
    · cases h
      rfl
    · dsimp only at h
      split at h
      · cases h
      · split at h
        · cases h
        · have hrest := ih h
          exact hrest

theorem treeNextChecked_counts {s : Stream} {nameLen : Nat} {it : TreeIt} {y : Yielded}
    (h : treeNextChecked s nameLen it = .ok (some y)) :
    y.it.entries = it.entries + 1 ∧ it.entries < maxEntries := by
  have hanswer := (treeNextChecked_decides s nameLen it).result h
  cases hstand : skipEmpty s (maxHops - it.hops) it with
  | none =>
    rw [hstand] at hanswer
    cases hanswer
  | some stand =>
    have hentries := skipEmpty_entries hstand
    rw [hstand, bind_some] at hanswer
    unfold answerAt at hanswer
    by_cases hmany : stand.entries + 1 > maxEntries
    · rw [if_pos hmany] at hanswer
      cases hanswer
    · rw [if_neg hmany] at hanswer
      cases hanswer
      refine ⟨?_, by omega⟩
      show stand.entries + 1 = it.entries + 1
      rw [hentries]

/-- **A scan ends by itself**: it answers False, or raises, after at most `maxEntries` entries. -/
theorem scan_ends (s : Stream) (nameLen left : Nat) (it : TreeIt) (hleft : maxEntries - it.entries ≤ left)
    (more : Nat) : scanChecked s nameLen (left + 1 + more) it = scanChecked s nameLen (left + 1) it := by
  induction left generalizing it with
  | zero =>
    have hfew : 0 + 1 + more = more + 1 := by omega
    rw [hfew]
    unfold scanChecked
    cases hnext : treeNextChecked s nameLen it with
    | error e => rfl
    | ok o =>
      cases o with
      | none => rfl
      | some y =>
        have := (treeNextChecked_counts hnext).2
        omega
  | succ left ih =>
    have hmore : left + 1 + 1 + more = (left + 1 + more) + 1 := by omega
    rw [hmore]
    unfold scanChecked
    cases hnext : treeNextChecked s nameLen it with
    | error e => rfl
    | ok o =>
      cases o with
      | none => rfl
      | some y =>
        have hcount := (treeNextChecked_counts hnext).1
        have hrest := ih y.it (by omega)
        show (scanChecked s nameLen (left + 1 + more) y.it >>= fun rest => pure (y :: rest)) =
          (scanChecked s nameLen (left + 1) y.it >>= fun rest => pure (y :: rest))
        rw [hrest]

/-! ## All walks -/

/-- **What the walks survive**, whatever the blocks of the stream hold.  `Leaf_Decode`, `Tree_Rewind` and
    `Tree_Locate` raise nothing exactly when the nodes they go through can be decoded, or their first child can be
    read; `Tree_Next` and the scans exactly when the entries they come to are sound; and every scan ends. -/
theorem walks_survive_iff (s : Stream) :
    (∀ b, Completes (leafDecodeChecked b) ↔ Decodable b) ∧
    (∀ c k value matchValue,
      Completes (treeLocateChecked c k value matchValue) ↔ ∀ b ∈ locateNodes c k value matchValue, Decodable b) ∧
    (∀ hops entries, Completes (treeRewindChecked s hops entries) ↔ ∀ b ∈ rewindNodes s, FirstReads b) ∧
    (∀ nameLen it, EndsInTime (treeNextChecked s nameLen it) ↔
      ∀ stand, skipEmpty s (maxHops - it.hops) it = some stand → EntrySound nameLen stand) ∧
    (∀ nameLen calls it, (Yields (scanChecked s nameLen calls it) fun ys => ∀ y ∈ ys, y.copied < 2 ^ 16) ↔
      ∀ stand ∈ stops s calls it, EntrySound nameLen stand) ∧
    (∀ nameLen it more, scanChecked s nameLen (maxEntries - it.entries + 1 + more) it =
      scanChecked s nameLen (maxEntries - it.entries + 1) it) := by
  refine ⟨?_, ?_, ?_, ?_, ?_, ?_⟩
  · intro b
    exact (leafDecodeChecked_decides b).completes_iff
  · intro c k value matchValue
    exact (treeLocateChecked_decides c k value matchValue).completes_iff
  · intro hops entries
    exact (treeRewindChecked_decides s hops entries).completes_iff
  · intro nameLen it
    exact treeNext_survives_iff s nameLen it
  · intro nameLen calls it
    exact scan_survives_iff s nameLen calls it
  · intro nameLen it more
    exact scan_ends s nameLen _ it (Nat.le_refl _) more

/-- A leaf whose only entry has an empty key. -/
def emptyKeyLeaf : Block := fun i => if i < 24 then 0xFF else if i = 24 then 1 else 0

/-- A leaf with one entry, whose key lengths are said to lie beyond the node. -/
def overrunLeaf : Block := fun i => if i < 24 then 0xFF else if i = 24 then 1 else if i < 28 then 0xFF else 0

/-- A tree whose root is that leaf. -/
def treeOf (leaf : Block) : Stream :=
  ⟨fun i => if i = 0 then putLe (putLe (fun _ => 0) 0 4 btreeMagic) 16 8 blockSize else leaf, 2⟩

/-- **Some walks raise.**  A key length of 0 takes `Leaf_Decode`, and `Tree_Locate` with it, out of the key row,
    and makes `Tree_Next` copy 2^64 times; where the key area is said to be longer than the node, all of them leave
    the node. -/
theorem walks_raise :
    leafDecodeChecked emptyKeyLeaf = .error (.row leafKeyMax) ∧
      ¬ Completes (treeLocateChecked ⟨treeOf emptyKeyLeaf, 1, blockSize, 2 * blockSize, 0⟩ (skStr [97]) 0 false) ∧
      ¬ EndsInTime (treeNextChecked (treeOf emptyKeyLeaf) maxPathLen (startNode emptyKeyLeaf 0 0)) ∧
      leafDecodeChecked overrunLeaf = .error (.byte 65568) ∧
      ¬ Completes (treeNextChecked (treeOf overrunLeaf) maxPathLen (startNode overrunLeaf 0 0)) := by
  have hempty : leafDecodeChecked emptyKeyLeaf = .error (.row leafKeyMax) := by decide +kernel
  have hover : leafDecodeChecked overrunLeaf = .error (.byte 65568) := by decide +kernel
  have hlocate : (treeLocateChecked ⟨treeOf emptyKeyLeaf, 1, blockSize, 2 * blockSize, 0⟩ (skStr [97]) 0 false).isOk
      = false := by decide +kernel
  have hcopied : (treeNextChecked (treeOf emptyKeyLeaf) maxPathLen (startNode emptyKeyLeaf 0 0)).map
      (Option.map Yielded.copied) = .ok (some (2 ^ 64)) := by decide +kernel
  have hnext : (treeNextChecked (treeOf overrunLeaf) maxPathLen (startNode overrunLeaf 0 0)).isOk = false := by
    decide +kernel
  refine ⟨hempty, ?_, ?_, hover, ?_⟩
  · rintro ⟨f, hf⟩
    rw [hf] at hlocate
    cases hlocate
  · rintro ⟨o, ho, hall⟩
    rw [ho] at hcopied
    have hmap : o.map Yielded.copied = some (2 ^ 64) := Except.ok.inj hcopied
    obtain ⟨y, hy, hrounds⟩ := map_eq_some_iff.mp hmap
    have hlt := hall y hy
    omega
  · rintro ⟨o, ho⟩
    rw [ho] at hnext
    cases hnext

end Aegir.Bfs
