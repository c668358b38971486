/-
  The B+tree against a sorted multimap.

  `Effect` is what a successful `Tree_Insert` or `Tree_Remove` does to the MULTISET of pairs.  `Agrees` is what
  the readers should then say: the chain scan yields exactly these pairs in key order, and the keyed search
  succeeds exactly on their keys.

  They do, exactly when the tree is `Clear`: the scan gives up after 10 000 hops and 100 000 entries, and an
  EMPTY leaf, which `Tree_Remove` leaves in the chain, ends the keyed search.
-/
import Mathlib.Data.Multiset.AddSub
import Aegir.Bfs.TreeScan

namespace Aegir.Bfs

open Aegir.Lib Aegir.Lib.BPlus List Option

/-! ## Keys as the callers give them -/

/-- A key of the wrappers: a name of 1 to `Leaf_Key_Max` bytes, or in a numeric tree a number. -/
inductive KeyArg : Bool → Type
  | str (name : List UInt8) (h : 1 ≤ name.length ∧ name.length ≤ leafKeyMax) : KeyArg false
  | int (n : UInt64) : KeyArg true

def KeyArg.search {numeric : Bool} : KeyArg numeric → SearchKey
  | .str name _ => skStr name
  | .int n => skInt n

/-- The bytes of the key as they are stored. -/
def KeyArg.bytes {numeric : Bool} (K : KeyArg numeric) : List UInt8 := K.search.bytes

theorem leBytes_length (n v : Nat) : (leBytes n v).length = n := by
  induction n generalizing v with
  | zero => rfl
  | succ n ih => rw [leBytes, length_cons, ih]

theorem keyNum_leBytes (n v : Nat) : keyNum (leBytes n v) = v % 256 ^ n := by
  induction n generalizing v with
  | zero =>
    rw [Nat.pow_zero, Nat.mod_one]
    rfl
  | succ n ih =>
    have hfirst : (UInt8.ofNat v).toNat = v % 256 := UInt8.toNat_ofNat'
    rw [leBytes, keyNum, ih, hfirst, Nat.pow_succ, Nat.mul_comm (256 ^ n) 256, Nat.mod_mul]

theorem keyNum_lt (key : List UInt8) : keyNum key < 256 ^ key.length := by
  induction key with
  | nil => exact Nat.one_pos
  | cons b bs ih =>
    have hb := b.toNat_lt
    rw [keyNum, length_cons, Nat.pow_succ]
    omega

theorem KeyArg.search_ok {numeric : Bool} (K : KeyArg numeric) : K.search.Ok numeric := by
  cases K with
  | str name h => exact ⟨rfl, ⟨h.1, h.2, fun hf => (nomatch hf)⟩, fun hf => (nomatch hf)⟩
  | int n =>
    have hlen : (skInt n).bytes.length = 8 := leBytes_length 8 n.toNat
    refine ⟨rfl, ⟨?_, ?_, fun _ => hlen⟩, fun _ => ?_⟩
    · exact hlen ▸ (by decide)
    · exact hlen ▸ (by decide)
    · have hn : n.toNat < 256 ^ 8 := n.toNat_lt
      show n.toNat = keyNum (leBytes 8 n.toNat)
      rw [keyNum_leBytes, Nat.mod_eq_of_lt hn]

theorem KeyOk.exists_arg {numeric : Bool} {key : List UInt8} (h : KeyOk numeric key) :
    ∃ K : KeyArg numeric, K.bytes = key := by
  cases numeric with
  | false => exact ⟨.str key ⟨h.pos, h.le_max⟩, rfl⟩
  | true =>
    have hlen := h.eight rfl
    have hlt : keyNum key < 2 ^ 64 := by
      have := keyNum_lt key
      rw [hlen] at this
      exact this
    refine ⟨.int (UInt64.ofNat (keyNum key)), ?_⟩
    show leBytes 8 (UInt64.ofNat (keyNum key)).toNat = key
    rw [UInt64.toNat_ofNat_of_lt' hlt]
    refine keyNum_inj ((leBytes_length _ _).trans hlen.symm) ?_
    rw [keyNum_leBytes]
    exact Nat.mod_eq_of_lt hlt

/-! ## Runs -/

variable {numeric : Bool}

/-- A call that changes the tree; `room` is how much growth the volume allows at that time. -/
inductive TreeOp (numeric : Bool)
  | insert (K : KeyArg numeric) (value : UInt64) (room : Nat)
  | remove (K : KeyArg numeric) (value : UInt64) (matchValue : Bool)

/-- The stream after a successful call. -/
def TreeOp.apply : TreeOp numeric → Stream → Option Stream
  | .insert K value room, s => (treeInsert s room K.search value.toNat).toOption
  | .remove K value matchValue, s => treeRemove s K.search value.toNat matchValue

/-- The stream after a sequence of successful calls. -/
def runOps : List (TreeOp numeric) → Stream → Option Stream
  | [], s => some s
  | op :: ops, s => (op.apply s).bind (runOps ops)

/-- What a successful call does to the pairs. -/
inductive Effect : TreeOp numeric → Multiset Entry → Multiset Entry → Prop
  | insert (K : KeyArg numeric) (value : UInt64) (room : Nat) (pairs : Multiset Entry) :
    Effect (.insert K value room) pairs (⟨K.bytes, value.toNat⟩ ::ₘ pairs)
  | remove (K : KeyArg numeric) (value : UInt64) (matchValue : Bool) (pairs : Multiset Entry) (e : Entry)
      (hmem : e ∈ pairs) (hhit : Hit K.search value.toNat matchValue e) :
    Effect (.remove K value matchValue) pairs (pairs.erase e)

def Effects : List (TreeOp numeric) → Multiset Entry → Multiset Entry → Prop
  | [], pairs, pairs' => pairs' = pairs
  | op :: ops, pairs, pairs' => ∃ between, Effect op pairs between ∧ Effects ops between pairs'

theorem TreeOp.apply_holding {s s' : Stream} {h : Nat} {t : BTree h} (hst : Holding numeric s t)
    (op : TreeOp numeric) (happ : op.apply s = some s') :
    ∃ h', ∃ t' : BTree h', Holding numeric s' t' ∧ Effect op t.items t'.items := by
  cases op with
  | insert K value room =>
    have hins : treeInsert s room K.search value.toNat = .ok s' := by
      cases hr : treeInsert s room K.search value.toNat with
      | error s'' =>
        rw [TreeOp.apply, hr] at happ
        cases happ
      | ok s'' =>
        rw [TreeOp.apply, hr] at happ
        injection happ with happ
        rw [happ]
    obtain ⟨h', t', hst', hperm⟩ := treeInsert_holding K.search_ok value.toNat_lt hst hins
    refine ⟨h', t', hst', ?_⟩
    rw [show (t'.items : Multiset Entry) = ⟨K.bytes, value.toNat⟩ ::ₘ (t.items : Multiset Entry) from
      Multiset.coe_eq_coe.mpr hperm]
    exact Effect.insert K value room _
  | remove K value matchValue =>
    obtain ⟨t', e, hst', hhit, hperm⟩ := treeRemove_holding K.search_ok hst happ
    have hitems : (t.items : Multiset Entry) = e ::ₘ (t'.items : Multiset Entry) :=
      Multiset.coe_eq_coe.mpr hperm
    refine ⟨h, t', hst', ?_⟩
    have hmem : e ∈ (t.items : Multiset Entry) := by
      rw [hitems]
      exact Multiset.mem_cons_self _ _
    have heffect := Effect.remove K value matchValue _ e hmem hhit
    rw [hitems, Multiset.erase_cons_head] at heffect
    rw [hitems]
    exact heffect

/-- **A run of successful calls** leaves a well-formed tree with the pairs inserted and not removed. -/
theorem runOps_holding {s s' : Stream} {h : Nat} {t : BTree h} (hst : Holding numeric s t)
    (ops : List (TreeOp numeric)) (hrun : runOps ops s = some s') :
    ∃ h', ∃ t' : BTree h', Holding numeric s' t' ∧ Effects ops t.items t'.items := by
  induction ops generalizing s h with
  | nil =>
    injection hrun with hrun
    exact ⟨h, t, hrun ▸ hst, rfl⟩
  | cons op ops ih =>
    obtain ⟨s₁, happ, hrest⟩ := bind_eq_some_iff.mp hrun
    obtain ⟨h1, t1, hst1, heffect⟩ := op.apply_holding hst happ
    obtain ⟨h', t', hst', heffects⟩ := ih hst1 hrest
    exact ⟨h', t', hst', t1.items, heffect, heffects⟩

/-! ## The two readers -/

/-- `Tree_Open` and `Tree_Locate` succeed. -/
def Locates (s : Stream) (k : SearchKey) (value : Nat) (matchValue : Bool) : Prop :=
  ∃ c, treeOpen s 0 = some c ∧ (treeLocate c k value matchValue).isSome = true

/-- **What the readers of a multimap with these pairs say.** -/
structure Agrees (numeric : Bool) (s : Stream) (pairs : Multiset Entry) : Prop where
  scan : ∃ l, treeScan s = some l ∧ InOrder (rank numeric) (l.map Entry.key) ∧ (l : Multiset Entry) = pairs
  locate : ∀ (K : KeyArg numeric) (value : UInt64) (matchValue : Bool),
    Locates s K.search value.toNat matchValue ↔ ∃ e ∈ pairs, Hit K.search value.toNat matchValue e
  find : ∀ K : KeyArg numeric, (treeFind s K.search).isSome = true ↔ ∃ e ∈ pairs, e.key = K.bytes
  lookup : ∀ K : KeyArg numeric, (treeFind s K.search).isSome = (lookupIn s K.bytes).isSome

/-- What the left walk for the pair `e` meets. -/
def FoundFrom (numeric : Bool) {h : Nat} (t : BTree h) (e : Entry) : Prop :=
  e ∈ (searched numeric (skEntry e numeric) t).items ∨
    ∃ between p further, (leftLeaves numeric (skEntry e numeric) t).reverse = between ++ p :: further ∧
      between.length < locateSteps ∧ (∀ q ∈ between, q.items ≠ []) ∧ e ∈ p.items

/-- The tree is within the bounds of the scan and of the left walk, and no empty leaf hides a pair:
    from the leaf a search for its key ends in, each pair is at most 40 leaves to the left, the ones
    between not empty. -/
structure Clear (numeric : Bool) {h : Nat} (t : BTree h) : Prop where
  few : t.items.length ≤ maxEntries
  near : ∀ l ∈ t.leaves.drop (maxHops + 1), l.items = []
  found : ∀ e ∈ t.items, FoundFrom numeric t e

section Readers

variable {s : Stream} {h : Nat} {t : BTree h}

theorem Holding.stands (hst : Holding numeric s t) : ∃ c, treeOpen s 0 = some c ∧ c.stream = s ∧ Stands numeric c t := by
  obtain ⟨c, hopen, hc⟩ := hst 0
  refine ⟨c, hopen, ?_, hc⟩
  rw [(treeOpen_eq_some.mp hopen).2.2]

theorem Holding.keys_ok (hst : Holding numeric s t) : ∀ e ∈ t.items, KeyOk numeric e.key ∧ e.val < 2 ^ 64 := by
  obtain ⟨c, -, -, hc⟩ := hst.stands
  intro e he
  rw [t.items_eq] at he
  obtain ⟨l, hl, hel⟩ := mem_flatMap.mp he
  have hleaf := hc.rep.leaf hl
  exact ⟨hleaf.keys e hel, hleaf.vals e hel⟩

theorem Holding.scan (hst : Holding numeric s t) : treeScan s = some (scanned t) := by
  obtain ⟨c, -, rfl, hc⟩ := hst.stands
  exact treeScan_eq hc

theorem inReach_iff {K : SearchKey} {e : Entry} (hK : K.bytes = e.key) :
    InReach K e.val true locateSteps (searched numeric K t) (leftLeaves numeric K t).reverse ↔
      FoundFrom numeric t e := by
  have hsearched : searched numeric K t = searched numeric (skEntry e numeric) t := by
    unfold searched
    rw [hK]
    rfl
  have hleft : leftLeaves numeric K t = leftLeaves numeric (skEntry e numeric) t := by
    unfold leftLeaves
    rw [hK]
    rfl
  have hhit : ∀ e', Hit K e.val true e' ↔ e' = e := by
    intro e'
    unfold Hit
    rw [hK]
    constructor
    · intro h
      cases e'
      cases e
      rcases h.2 with hf | hv
      · cases hf
      · exact congr (congrArg Entry.mk h.1) hv
    · intro h
      exact h ▸ ⟨rfl, .inr rfl⟩
  unfold InReach FoundFrom
  rw [hsearched, hleft]
  simp only [hhit, exists_eq_right]

theorem inReach_mono {k : SearchKey} {v v' n : Nat} {mv mv' : Bool} {y : Leaf Entry} {ps : List (Leaf Entry)}
    (hhit : ∀ e, Hit k v mv e → Hit k v' mv' e) (hr : InReach k v mv n y ps) : InReach k v' mv' n y ps := by
  rcases hr with ⟨e, he, hh⟩ | ⟨between, p, further, hps, hlen, hbet, e, he, hh⟩
  · exact .inl ⟨e, he, hhit e hh⟩
  · exact .inr ⟨between, p, further, hps, hlen, hbet, e, he, hhit e hh⟩

theorem inReach_mem {k : SearchKey} {v n : Nat} {mv : Bool}
    (hr : InReach k v mv n (searched numeric k t) (leftLeaves numeric k t).reverse) :
    ∃ e ∈ t.items, Hit k v mv e := by
  rw [t.items_eq]
  rcases hr with ⟨e, he, hh⟩ | ⟨between, p, further, hps, -, -, e, he, hh⟩
  · exact ⟨e, mem_flatMap.mpr ⟨_, searched_mem, he⟩, hh⟩
  · have hp : p ∈ (leftLeaves numeric k t).reverse := hps ▸ mem_append_right _ mem_cons_self
    exact ⟨e, mem_flatMap.mpr ⟨p, leftLeaves_subset p (mem_reverse.mp hp), he⟩, hh⟩

theorem Holding.locates_iff (hst : Holding numeric s t) (K : KeyArg numeric) (v : Nat) (mv : Bool) :
    Locates s K.search v mv ↔
      InReach K.search v mv locateSteps (searched numeric K.search t) (leftLeaves numeric K.search t).reverse := by
  obtain ⟨c, hopen, -, hc⟩ := hst.stands
  rw [← treeLocate_isSome hc K.search_ok]
  constructor
  · rintro ⟨c', hopen', hsome⟩
    rw [hopen] at hopen'
    injection hopen' with heq
    rw [heq]
    exact hsome
  · intro hsome
    exact ⟨c, hopen, hsome⟩

theorem Holding.find_iff (hst : Holding numeric s t) (K : KeyArg numeric) :
    (treeFind s K.search).isSome = true ↔ Locates s K.search 0 false := by
  obtain ⟨c, hopen, -, hc⟩ := hst.stands
  have hloc : Locates s K.search 0 false ↔ (treeLocate c K.search 0 false).isSome = true := by
    rw [hst.locates_iff, treeLocate_isSome hc K.search_ok]
  rw [hloc, treeFind, hopen]
  simp only []
  cases hf : treeLocate c K.search 0 false with
  | none => exact Iff.rfl
  | some f =>
    obtain ⟨y, hy, e, hget, -, hbuf, -⟩ := treeLocate_spec hc K.search_ok hf
    simp only []
    rw [hbuf, (hc.rep.leaf hy).holds.entries, hget]
    exact Iff.rfl

theorem scanned_perm_iff : ((scanned t : List Entry) : Multiset Entry) = t.items ↔
    t.items.length ≤ maxEntries ∧ ∀ l ∈ t.leaves.drop (maxHops + 1), l.items = [] := by
  have hsplit : t.items = (t.leaves.take (maxHops + 1)).flatMap Leaf.items
      ++ (t.leaves.drop (maxHops + 1)).flatMap Leaf.items := by
    rw [← flatMap_append, take_append_drop, t.items_eq]
  unfold scanned
  constructor
  · intro heq
    have hlen := (Multiset.coe_eq_coe.mp heq).length_eq
    rw [length_take, hsplit, length_append] at hlen
    have hnone : ((t.leaves.drop (maxHops + 1)).flatMap Leaf.items) = [] := eq_nil_of_length_eq_zero (by omega)
    refine ⟨?_, flatMap_eq_nil_iff.mp hnone⟩
    rw [hsplit, hnone, append_nil]
    omega
  · rintro ⟨hfew, hnear⟩
    rw [flatMap_eq_nil_iff.mpr hnear, append_nil] at hsplit
    rw [hsplit] at hfew ⊢
    rw [take_of_length_le hfew]

theorem Holding.agrees_iff (hst : Holding numeric s t) : Agrees numeric s t.items ↔ Clear numeric t := by
  constructor
  · intro hag
    obtain ⟨l, hl, -, hpairs⟩ := hag.scan
    rw [hst.scan] at hl
    injection hl with hl
    rw [← hl] at hpairs
    obtain ⟨hfew, hnear⟩ := scanned_perm_iff.mp hpairs
    refine ⟨hfew, hnear, ?_⟩
    intro e he
    obtain ⟨hkey, hval⟩ := hst.keys_ok e he
    obtain ⟨K, hK⟩ := hkey.exists_arg
    have hv : (UInt64.ofNat e.val).toNat = e.val := UInt64.toNat_ofNat_of_lt' hval
    have hloc := (hag.locate K (UInt64.ofNat e.val) true).mpr ⟨e, he, hK.symm, .inr hv.symm⟩
    rw [hst.locates_iff, hv] at hloc
    exact (inReach_iff hK).mp hloc
  · intro hclear
    have hscan : ((scanned t : List Entry) : Multiset Entry) = t.items :=
      scanned_perm_iff.mpr ⟨hclear.few, hclear.near⟩
    have hlocate : ∀ (K : KeyArg numeric) (v : Nat) (mv : Bool),
        Locates s K.search v mv ↔ ∃ e ∈ t.items, Hit K.search v mv e := by
      intro K v mv
      rw [hst.locates_iff]
      constructor
      · exact inReach_mem
      · rintro ⟨e, he, hhit⟩
        refine inReach_mono ?_ ((inReach_iff hhit.1.symm).mpr (hclear.found e he))
        intro e' hhit'
        refine ⟨hhit'.1, ?_⟩
        rcases hhit'.2 with hf | hv
        · cases hf
        · rw [hv]
          exact hhit.2
    have hfind : ∀ K : KeyArg numeric, (treeFind s K.search).isSome = true ↔ ∃ e ∈ t.items, e.key = K.bytes := by
      intro K
      rw [hst.find_iff, hlocate]
      constructor
      · rintro ⟨e, he, hhit⟩
        exact ⟨e, he, hhit.1⟩
      · rintro ⟨e, he, hkey⟩
        exact ⟨e, he, hkey, .inl rfl⟩
    refine ⟨⟨_, hst.scan, ?_, hscan⟩, fun K v mv => hlocate K v.toNat mv, hfind, ?_⟩
    · obtain ⟨c, -, -, hc⟩ := hst.stands
      refine List.Pairwise.sublist (List.Sublist.map _ ?_) hc.items_ordered
      refine (take_sublist _ _).trans ?_
      rw [t.items_eq]
      conv => rhs; rw [← take_append_drop (maxHops + 1) t.leaves, flatMap_append]
      exact sublist_append_left _ _
    · intro K
      have hlook : (lookupIn s K.bytes).isSome = true ↔ ∃ e ∈ t.items, e.key = K.bytes := by
        rw [lookupIn, hst.scan]
        simp only [isSome_map, find?_isSome, decide_eq_true_eq]
        have hmem : ∀ e, e ∈ scanned t ↔ e ∈ t.items := fun e => by
          rw [← Multiset.mem_coe, hscan, Multiset.mem_coe]
        simp only [hmem]
      rw [Bool.eq_iff_iff, hfind, hlook]

end Readers

/-- **The multimap.**  Every run of successful calls from a well-formed tree leaves a well-formed tree
    whose chain holds the pairs inserted and not removed, and the readers agree with them exactly when
    that tree is clear. -/
theorem tree_refines_multimap {numeric : Bool} {s₀ s : Stream} {h₀ : Nat} {t₀ : BTree h₀}
    (hst : Holding numeric s₀ t₀) (ops : List (TreeOp numeric)) (hrun : runOps ops s₀ = some s) :
    ∃ h, ∃ t : BTree h, Holding numeric s t ∧ Effects ops t₀.items t.items ∧
      (Agrees numeric s t.items ↔ Clear numeric t) := by
  obtain ⟨h, t, hst', heffects⟩ := runOps_holding hst ops hrun
  exact ⟨h, t, hst', heffects, hst'.agrees_iff⟩

/-! ## An empty leaf hides a pair -/

/-- A leaf with one pair of the name `a`. -/
def pairLeaf (value left right : Nat) : Block :=
  setLinks ((leafEncode [⟨[97], value⟩]).getD fun _ => 0) left right btreeNull

/-- Three leaves under one root, each with one pair of the same name. -/
def threeLeaves : Stream where
  size := 5
  block
    | 0 => putLe (putLe (putLe (putLe (fun _ => 0) 0 4 btreeMagic) 8 4 2) 16 8 16384) 32 8 20480
    | 1 => pairLeaf 1 btreeNull 8192
    | 2 => pairLeaf 2 4096 12288
    | 3 => pairLeaf 3 8192 btreeNull
    | 4 => setLinks ((leafEncode [⟨[97], 4096⟩, ⟨[97], 8192⟩]).getD fun _ => 0) btreeNull btreeNull 12288
    | _ => fun _ => 0

def threeLeavesTree : BTree 1 :=
  (⟨16384, [([97], ⟨4096, [⟨[97], 1⟩]⟩), ([97], ⟨8192, [⟨[97], 2⟩]⟩)], ⟨12288, [⟨[97], 3⟩]⟩⟩ :
    Branch (List UInt8) (Leaf Entry))

theorem nameA_ok : KeyOk false [97] := ⟨by decide, by decide, fun hf => (nomatch hf)⟩

theorem pairLeaf_stored {off value : Nat} (hv : value < 2 ^ 64)
    (h : le (threeLeaves.node off) 16 8 = btreeNull ∧ leafDecode (threeLeaves.node off) = [⟨[97], value⟩] ∧
      le (threeLeaves.node off) 24 2 = 1) : LeafStored false threeLeaves ⟨off, [⟨[97], value⟩]⟩ := by
  refine ⟨⟨h.1, h.2.1, h.2.2⟩, ?_, ?_⟩
  · intro e he
    rw [mem_singleton.mp he]
    exact nameA_ok
  · intro e he
    rw [mem_singleton.mp he]
    exact hv

theorem threeLeaves_holding : Holding false threeLeaves threeLeavesTree := by
  have hhdr : le (threeLeaves.node 0) 0 4 = btreeMagic ∧ le (threeLeaves.node 0) 8 4 = 2 ∧
      le (threeLeaves.node 0) 16 8 = 16384 ∧ le (threeLeaves.node 0) 32 8 = 20480 := by decide +kernel
  have hopen : treeOpen threeLeaves 0 = some ⟨threeLeaves, 2, 16384, 20480, 0⟩ := by
    refine treeOpen_eq_some.mpr ⟨by decide, hhdr.1, ?_⟩
    rw [hhdr.2.1, hhdr.2.2.1, hhdr.2.2.2]
  have hin : ∀ o ∈ threeLeavesTree.offs, InFile 20480 o := by
    have hoffs : threeLeavesTree.offs = [16384, 4096, 8192, 12288] := rfl
    rw [hoffs]
    intro o ho
    simp only [mem_cons, not_mem_nil, or_false] at ho
    rcases ho with rfl | rfl | rfl | rfl <;> exact ⟨by decide, by decide, by decide⟩
  refine Stands.holding (c := ⟨threeLeaves, 2, 16384, 20480, 0⟩)
    ⟨⟨hopen, by decide, by decide, by decide, by decide⟩, ⟨⟨⟨?_, ?_, ?_⟩, ?_⟩, ?_⟩, rfl, rfl, by decide, ?_, ?_, hin, ?_, ?_⟩
  · decide +kernel
  · decide +kernel
  · decide +kernel
  · intro p hp
    have hkey : p.1 = [97] := by
      rcases mem_cons.mp hp with rfl | hp
      · rfl
      · rw [mem_singleton.mp hp]
    rw [hkey]
    exact nameA_ok
  · intro u hu
    have hu' : u = ⟨4096, [⟨[97], 1⟩]⟩ ∨ u = ⟨8192, [⟨[97], 2⟩]⟩ ∨ u = ⟨12288, [⟨[97], 3⟩]⟩ := by
      rcases Branch.mem_trees.mp hu with ⟨p, hp, rfl⟩ | rfl
      · rcases mem_cons.mp hp with rfl | hp
        · exact .inl rfl
        · rw [mem_singleton.mp hp]
          exact .inr (.inl rfl)
      · exact .inr (.inr rfl)
    rcases hu' with rfl | rfl | rfl
    · exact pairLeaf_stored (by decide) (by decide +kernel)
    · exact pairLeaf_stored (by decide) (by decide +kernel)
    · exact pairLeaf_stored (by decide) (by decide +kernel)
  · have hmarks : threeLeavesTree.marks Entry.key = replicate 5 [97] := rfl
    rw [hmarks]
    exact pairwise_replicate.mpr (.inr (le_refl _))
  · exact (by decide : [16384, 4096, 8192, 12288].Nodup)
  · exact ⟨_, rfl, trivial⟩
  · refine ⟨?_, ?_, ?_, ?_, ?_, ?_, ?_, ?_⟩ <;> decide +kernel

theorem nameA_len : 1 ≤ [(97 : UInt8)].length ∧ [(97 : UInt8)].length ≤ leafKeyMax := by decide

/-- The pair in the middle leaf and the one in the last are removed. -/
def hidingOps : List (TreeOp false) := [.remove (.str [97] nameA_len) 2 true, .remove (.str [97] nameA_len) 3 true]

theorem hidingOps_run : (runOps hidingOps threeLeaves).isSome = true ∧
    (runOps hidingOps threeLeaves).bind treeScan = some [⟨[97], 1⟩] ∧
    (runOps hidingOps threeLeaves).bind (fun s => treeFind s (skStr [97])) = none := by decide +kernel

theorem tree_refines_multimap_hiding : ∃ s, runOps hidingOps threeLeaves = some s ∧
    ∃ h, ∃ t : BTree h, Holding false s t ∧ Effects hidingOps threeLeavesTree.items t.items ∧
      (Agrees false s t.items ↔ Clear false t) := by
  obtain ⟨s, hs⟩ := isSome_iff_exists.mp hidingOps_run.1
  exact ⟨s, hs, tree_refines_multimap threeLeaves_holding hidingOps hs⟩

/-- **The scan still yields the first leaf's pair; the keyed search does not find it**: it ends in the
    last leaf, and the empty one to the left stops its walk. -/
theorem hidden_pair : ¬ ∀ (numeric : Bool) (s₀ s : Stream) (h₀ : Nat) (t₀ : BTree h₀)
    (ops : List (TreeOp numeric)), Holding numeric s₀ t₀ → runOps ops s₀ = some s →
      ∃ pairs, Effects ops t₀.items pairs ∧ Agrees numeric s pairs := by
  intro hall
  obtain ⟨hsome, hscan, hfind⟩ := hidingOps_run
  obtain ⟨s, hs⟩ := isSome_iff_exists.mp hsome
  obtain ⟨pairs, -, hag⟩ := hall false _ s 1 threeLeavesTree hidingOps threeLeaves_holding hs
  rw [hs, bind_some] at hscan hfind
  obtain ⟨l, hl, -, hpairs⟩ := hag.scan
  rw [hscan] at hl
  injection hl with hl
  have hmem : (⟨[97], 1⟩ : Entry) ∈ pairs := by
    rw [← hpairs, ← hl]
    exact Multiset.mem_coe.mpr (mem_singleton_self _)
  have hfound : (treeFind s (skStr [97])).isSome = true := (hag.find (.str [97] nameA_len)).mpr ⟨_, hmem, rfl⟩
  rw [hfind] at hfound
  cases hfound

end Aegir.Bfs
