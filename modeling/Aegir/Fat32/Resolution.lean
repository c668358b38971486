/-
  When path resolution is exact.

  The scan compares a component with an entry's long name laid over what the buffer held: nothing after an
  entry that was skipped, but at the start of a directory what the last lookup left.  `Confuses` lists how the
  comparison can go wrong, `ClearFrom` asks that it does not; a directory of too many clusters and the ".." of
  a child of the root are the other two ways to fail.
-/
import Aegir.Fat32.Seek
import Mathlib.Data.List.Nodup

namespace Aegir.Fat32

open Aegir.Lib List

/-! ## One comparison -/

variable {e : Entry} {held : Lfn}

/-- How the comparison with an entry goes wrong when the buffer holds `held`. -/
inductive Confuses (v : Volume) (held : Lfn) (e : Entry) (comp : List UInt8) : Prop
  /-- The buffer's name is the component, but none of the entry's names is. -/
  | borrowed (hheld : 0 < held.len ∧ comp.length = held.len)
      (heq : comp.map upper = held.text.map upper) (hno : ¬ e.Named v comp)
  /-- The buffer's name has the component's length, and so hides the name of the entry that it is. -/
  | hidden (hheld : 0 < held.len ∧ comp.length = held.len)
      (hne : comp.map upper ≠ held.text.map upper) (hnamed : e.Named v comp)
  /-- The component is the entry's long name, but the buffer's name has another length. -/
  | lost (hheld : ¬ (0 < held.len ∧ comp.length = held.len))
      (hne : comp.map upper ≠ (e.shortName v).map upper) (hnamed : e.Named v comp)

theorem Entry.named_of_short {v : Volume} {comp : List UInt8}
    (h : comp.map upper = (e.shortName v).map upper) : e.Named v comp := by
  have hf : folded comp = folded (e.shortName v) := by
    simpa [folded, map_map, Function.comp_def] using congrArg (map UInt8.toUInt16) h
  rw [Entry.Named, hf]
  exact e.named_shortName v

theorem matchComponent_iff {v : Volume} {comp : List UInt8} (h : ¬ Confuses v held e comp) :
    matchComponent comp (v.slot e.place) held = true ↔ e.Named v comp := by
  by_cases hheld : 0 < held.len ∧ comp.length = held.len
  · rw [matchComponent, if_pos hheld, decide_eq_true_iff]
    constructor
    · intro heq
      by_contra hno
      exact h (.borrowed hheld heq hno)
    · intro hnamed
      by_contra hne
      exact h (.hidden hheld hne hnamed)
  · rw [matchComponent, if_neg hheld, decide_eq_true_iff]
    constructor
    · exact Entry.named_of_short
    · intro hnamed
      by_contra hne
      exact h (.lost hheld hne hnamed)

theorem Confuses.differ {v : Volume} {comp : List UInt8} (h : Confuses v held e comp) :
    ¬ (matchComponent comp (v.slot e.place) held = true ↔ e.Named v comp) := by
  intro hiff
  cases h with
  | borrowed hheld heq hno =>
    rw [matchComponent, if_pos hheld, decide_eq_true_iff] at hiff
    exact hno (hiff.mp heq)
  | hidden hheld hne hnamed =>
    rw [matchComponent, if_pos hheld, decide_eq_true_iff] at hiff
    exact hne (hiff.mpr hnamed)
  | lost hheld hne hnamed =>
    rw [matchComponent, if_neg hheld, decide_eq_true_iff] at hiff
    exact hne (hiff.mpr hnamed)

/-! ## One directory -/

/-- In a directory: no entry is confused, up to the one the component names, and the driver gets that far. -/
def ClearIn (v : Volume) (comp : List UInt8) : Nat → Lfn → List Item → Prop
  | _, _, [] => True
  | room, t, .live e :: items =>
    if room ≤ e.run.length then lookup v (.live e :: items) comp = none
    else
      ¬ Confuses v (overlay e.long t) e comp ∧
      (¬ e.Named v comp → ClearIn v comp (room - (e.run.length + 1)) (overlay e.long t).reset items)
  | room, t, _ :: items =>
    if room = 0 then lookup v items comp = none else ClearIn v comp (room - 1) t.reset items

/-- The entry the component names, and what the buffer holds when a scan gets there. -/
def arrive (v : Volume) (comp : List UInt8) : Lfn → List Item → Option (Lfn × Entry)
  | _, [] => none
  | t, .live e :: items =>
    if e.Named v comp then some (overlay e.long t, e) else arrive v comp (overlay e.long t).reset items
  | t, _ :: items => arrive v comp t.reset items

section OneDirectory

variable {v : Volume} {comp : List UInt8}

theorem accepted_live (room : Nat) (t : Lfn) (e : Entry) (items : List Item) :
    accepted v comp room t (.live e :: items) =
      if room ≤ e.run.length then none
      else if matchComponent comp (v.slot e.place) (overlay e.long t) then some (overlay e.long t, e)
      else accepted v comp (room - (e.run.length + 1)) (overlay e.long t).reset items := by
  rw [accepted, walkItems, tries]
  by_cases hm : matchComponent comp (v.slot e.place) (overlay e.long t) = true
  · rw [if_pos hm, if_pos hm]
  · rw [if_neg hm, if_neg hm]
    rfl

theorem lookup_live_cons (e : Entry) (items : List Item) :
    lookup v (.live e :: items) comp = if e.Named v comp then some e else lookup v items comp := by
  rw [lookup, lookup, show liveEntries (.live e :: items) = e :: liveEntries items from rfl, find?_cons]
  by_cases h : e.Named v comp <;> simp [h]

theorem lookup_skip_cons {i : Item} (hi : i.entry? = none) (items : List Item) :
    lookup v (i :: items) comp = lookup v items comp := by
  rw [lookup, lookup, liveEntries, filterMap_cons_none hi]
  rfl

theorem lookup_eq_arrive (items : List Item) : ∀ t : Lfn,
    lookup v items comp = (arrive v comp t items).map Prod.snd := by
  induction items with
  | nil => intro t; rfl
  | cons i items ih =>
    intro t
    cases i with
    | free p => rw [lookup_skip_cons rfl, ih t.reset]; rfl
    | label p => rw [lookup_skip_cons rfl, ih t.reset]; rfl
    | live e =>
      rw [lookup_live_cons, arrive]
      by_cases h : e.Named v comp
      · rw [if_pos h, if_pos h]; rfl
      · rw [if_neg h, if_neg h, ih]

theorem mem_of_arrive {items : List Item} {t : Lfn} {r : Lfn × Entry}
    (h : arrive v comp t items = some r) : r.2 ∈ liveEntries items := by
  have hl : lookup v items comp = some r.2 := by rw [lookup_eq_arrive items t, h]; rfl
  exact mem_of_find?_eq_some hl

theorem accepted_of_clear (items : List Item) : ∀ (room : Nat) (t : Lfn), ClearIn v comp room t items →
    accepted v comp room t items = arrive v comp t items := by
  have hnone : ∀ (items : List Item) (t : Lfn), lookup v items comp = none → arrive v comp t items = none := by
    intro items t h
    rw [lookup_eq_arrive items t] at h
    simpa using h
  induction items with
  | nil => intro room t _; rfl
  | cons i items ih =>
    intro room t hclear
    have hskip : (if room = 0 then lookup v items comp = none else ClearIn v comp (room - 1) t.reset items) →
        (if room = 0 then none else accepted v comp (room - 1) t.reset items) = arrive v comp t.reset items := by
      intro h
      by_cases hroom : room = 0
      · rw [if_pos hroom] at h ⊢
        exact (hnone items t.reset h).symm
      · rw [if_neg hroom] at h ⊢
        exact ih _ _ h
    cases i with
    | free p => exact hskip hclear
    | label p => exact hskip hclear
    | live e =>
      rw [ClearIn] at hclear
      split_ifs at hclear with hroom
      · rw [accepted_live, if_pos hroom, hnone _ t hclear]
      · rw [accepted_live, if_neg hroom, arrive]
        by_cases hnamed : e.Named v comp
        · rw [if_pos hnamed, if_pos ((matchComponent_iff hclear.1).mpr hnamed)]
        · rw [if_neg hnamed, if_neg fun hm => hnamed ((matchComponent_iff hclear.1).mp hm)]
          exact ih _ _ (hclear.2 hnamed)

theorem mem_of_accepted (items : List Item) : ∀ (room : Nat) (t : Lfn) (r : Lfn × Entry),
    accepted v comp room t items = some r → r.2 ∈ liveEntries items := by
  induction items with
  | nil => intro room t r h; cases h
  | cons i items ih =>
    intro room t r h
    have hskip : (if room = 0 then none else accepted v comp (room - 1) t.reset items) = some r →
        r.2 ∈ liveEntries items := by
      intro h
      split at h
      · cases h
      · exact ih _ _ r h
    cases i with
    | free p => exact hskip h
    | label p => exact hskip h
    | live e =>
      rw [accepted_live] at h
      split at h
      · cases h
      · split at h
        · cases h
          exact mem_cons_self
        · exact mem_cons_of_mem e (ih _ _ r h)

/-- **One directory**: the scan finds the entry that is named if and only if it is clear. -/
theorem accepted_eq_lookup_iff (items : List Item)
    (hdistinct : (liveEntries items).Pairwise fun e f => (e.names v).Disjoint (f.names v)) :
    ∀ (room : Nat) (t : Lfn),
      (accepted v comp room t items).map Prod.snd = lookup v items comp ↔ ClearIn v comp room t items := by
  induction items with
  | nil => intro room t; exact ⟨fun _ => trivial, fun _ => rfl⟩
  | cons i items ih =>
    intro room t
    have hskip : (liveEntries items).Pairwise (fun e f => (e.names v).Disjoint (f.names v)) →
        (((if room = 0 then none else accepted v comp (room - 1) t.reset items).map Prod.snd
          = lookup v items comp) ↔
        if room = 0 then lookup v items comp = none else ClearIn v comp (room - 1) t.reset items) := by
      intro hd
      by_cases hroom : room = 0
      · rw [if_pos hroom, if_pos hroom]
        exact eq_comm
      · rw [if_neg hroom, if_neg hroom]
        exact ih hd _ _
    cases i with
    | free p =>
      exact hskip hdistinct
    | label p =>
      exact hskip hdistinct
    | live e =>
      obtain ⟨hapart, hrest⟩ := pairwise_cons.mp (show (e :: liveEntries items).Pairwise _ from hdistinct)
      rw [accepted_live, ClearIn]
      by_cases hroom : room ≤ e.run.length
      · rw [if_pos hroom, if_pos hroom]
        exact eq_comm
      rw [if_neg hroom, if_neg hroom, lookup_live_cons]
      by_cases hm : matchComponent comp (v.slot e.place) (overlay e.long t) = true
      · rw [if_pos hm]
        split_ifs with hnamed
        · exact ⟨fun _ => ⟨fun hc => hc.differ ⟨fun _ => hnamed, fun _ => hm⟩, fun h => absurd hnamed h⟩,
            fun _ => rfl⟩
        · -- another entry is taken for the one that is named
          constructor
          · intro heq
            have hfound : e.Named v comp := by simpa using find?_some heq.symm
            exact absurd hfound hnamed
          · intro hclear
            exact absurd ((matchComponent_iff hclear.1).mp hm) hnamed
      · rw [if_neg hm]
        split_ifs with hnamed
        · -- the entry is passed over, and it is not found behind itself
          constructor
          · intro heq
            obtain ⟨r, hr, hre⟩ := Option.map_eq_some_iff.mp heq
            have hmem := mem_of_accepted items _ _ r hr
            rw [hre] at hmem
            exact absurd (hapart e hmem (e.named_shortName v) (e.named_shortName v)) id
          · intro hclear
            exact absurd ((matchComponent_iff hclear.1).mpr hnamed) hm
        · rw [ih hrest]
          constructor
          · intro h
            exact ⟨fun hc => hc.differ ⟨fun h => absurd h hm, fun h => absurd h hnamed⟩, fun _ => h⟩
          · intro h
            exact h.2 hnamed

end OneDirectory

/-! ## Places tell entries apart -/

section Places

variable {v : Volume} {c : Nat} (d : Directory v c)

theorem Directory.places_nodup : (d.items.flatMap Item.places).Nodup := by
  have hpos : (d.chain.flatMap v.positions).Nodup := by
    refine nodup_flatMap.mpr ⟨fun x _ => ?_, ?_⟩
    · exact (nodup_range).map fun a b h => congrArg Prod.snd h
    · refine d.nodup.imp fun {x y} hxy p hp hq => hxy ?_
      obtain ⟨a, -, rfl⟩ := mem_map.mp hp
      obtain ⟨b, -, hb⟩ := mem_map.mp hq
      exact (congrArg Prod.fst hb).symm
  rw [d.laid] at hpos
  exact hpos.of_append_left

theorem mem_liveEntries {items : List Item} : e ∈ liveEntries items ↔ .live e ∈ items := by
  rw [liveEntries, mem_filterMap]
  constructor
  · rintro ⟨i, hi, he⟩
    cases i with
    | free p => cases he
    | label p => cases he
    | live f =>
      cases he
      exact hi
  · intro h
    exact ⟨_, h, rfl⟩

theorem Directory.place_injective {f : Entry} (he : e ∈ liveEntries d.items)
    (hf : f ∈ liveEntries d.items) (h : e.place = f.place) : e = f := by
  by_contra hne
  have hitems : Item.live e ≠ Item.live f := by
    intro heq
    cases heq
    exact hne rfl
  have : Std.Symm (Function.onFun List.Disjoint Item.places) :=
    ⟨fun a b hab => disjoint_comm.mp hab⟩
  have hdis := (nodup_flatMap.mp d.places_nodup).2.forall (mem_liveEntries.mp he) (mem_liveEntries.mp hf) hitems
  have hmem : ∀ g : Entry, g.place ∈ (Item.live g).places := fun g =>
    mem_append_right _ (mem_singleton_self _)
  exact hdis (hmem e) (h ▸ hmem f)

theorem found_injective {p q : Pos} (h : v.found p.1 p.2 = v.found q.1 q.2) : p = q :=
  Prod.ext (congrArg Found.foundClus h) (congrArg Found.foundEnt h)

end Places

/-! ## Paths -/

/-- What of a result the tree speaks about. -/
def Resolved.found? : Resolved → Option Found
  | .hit h => some h.found
  | _ => none

/-- **Along a path** from directory `cur`: in each directory that is reached the component is clear, and the
entry it names does not stand for the root by a cluster number 0.  `t` is the buffer on arrival. -/
def ClearFrom {v : Volume} (C : Consistent v) : List (List UInt8) → Nat → Lfn → Prop
  | [], _, _ => True
  | comp :: rest, cur, t =>
    comp = [] ∨ ∀ d, C.dir cur = some d →
      ClearIn v comp v.room t d.items ∧
      ∀ r, arrive v comp t d.items = some r →
        ¬ ((r.2.found v).isDir ∧ (r.2.found v).clus = 0) ∧
        ((r.2.found v).isDir → ClearFrom C rest (r.2.found v).clus r.1)

section Paths

variable {v : Volume} (C : Consistent v) {cur : Nat}

theorem resolveFrom_last {comp : List UInt8} (hne : comp ≠ []) (cur pos : Nat) (t : Lfn) :
    (resolveFrom v [comp] cur pos t).2.found? = (findInDir v cur comp t).2.1.map Hit.found := by
  unfold resolveFrom
  rw [if_neg hne]
  generalize findInDir v cur comp t = q
  obtain ⟨t', h, last⟩ := q
  cases h <;> rfl

theorem resolveFrom_through {comp : List UInt8} (hne : comp ≠ []) (next : List UInt8)
    (rest : List (List UInt8)) (cur pos : Nat) (t : Lfn) :
    (resolveFrom v (comp :: next :: rest) cur pos t).2.found? =
      match (findInDir v cur comp t).2.1.map Hit.found with
      | some f =>
        if f.isDir then
          (resolveFrom v (next :: rest) f.clus (pos + comp.length + 1) (findInDir v cur comp t).1).2.found?
        else none
      | none => none := by
  conv_lhs => unfold resolveFrom
  rw [if_neg hne]
  generalize findInDir v cur comp t = q
  obtain ⟨t', h, last⟩ := q
  cases h with
  | none => rfl
  | some h =>
    show (if h.found.isDir = true then _ else (t', Resolved.refused) : Lfn × Resolved).2.found?
      = if h.found.isDir = true then _ else none
    by_cases hdir : h.found.isDir = true
    · rw [if_pos hdir, if_pos hdir]
    · rw [if_neg hdir, if_neg hdir]
      rfl

theorem expectedFrom_last {comp : List UInt8} (hne : comp ≠ []) {d : Directory v cur} (hd : C.dir cur = some d) :
    expectedFrom C [comp] cur = (lookup v d.items comp).map (Entry.answer v) := by
  simp only [expectedFrom, if_neg hne, hd, Option.bind_some]
  cases lookup v d.items comp <;> rfl

theorem expectedFrom_way {comp : List UInt8} (hne : comp ≠ []) {d : Directory v cur}
    (hd : C.dir cur = some d) (next : List UInt8) (rest : List (List UInt8)) :
    expectedFrom C (comp :: next :: rest) cur =
      match lookup v d.items comp with
      | some e => if (e.found v).isDir then expectedFrom C (next :: rest) (e.target v) else none
      | none => none := by
  conv_lhs => unfold expectedFrom
  rw [if_neg hne, hd, Option.bind_some]
  cases lookup v d.items comp <;> rfl

/-- **The last component** is resolved as it should be if and only if it is clear and the entry is not a
".." that stands for the root. -/
theorem last_exact_iff {comp : List UInt8} (hne : comp ≠ []) {d : Directory v cur}
    (hd : C.dir cur = some d) (pos : Nat) (t : Lfn) :
    (resolveFrom v [comp] cur pos t).2.found? = expectedFrom C [comp] cur ↔ ClearIn v comp v.room t d.items ∧
      ∀ r, arrive v comp t d.items = some r → ¬ ((r.2.found v).isDir ∧ (r.2.found v).clus = 0) := by
  have hroot : v.rootClus ≠ 0 := by
    intro h
    have := C.root
    rw [h, C.real] at this
    cases this
  rw [resolveFrom_last hne, expectedFrom_last C hne hd, (findInDir_found d comp t).1]
  have hanswer : ∀ e : Entry, e.answer v = e.found v ↔ ¬ ((e.found v).isDir ∧ (e.found v).clus = 0) := by
    intro e
    constructor
    · rintro h ⟨hdir, hz⟩
      have hclus : e.target v = (e.found v).clus := congrArg Found.clus h
      rw [Entry.target, if_pos ⟨hdir, hz⟩, hz] at hclus
      exact hroot hclus
    · intro h
      rw [Entry.answer, Entry.target, if_neg h]
  constructor
  · intro heq
    have hclear : ClearIn v comp v.room t d.items := by
      refine (accepted_eq_lookup_iff d.items d.distinct v.room t).mp ?_
      cases ha : accepted v comp v.room t d.items with
      | none =>
        rw [ha] at heq
        cases hl : lookup v d.items comp with
        | none => rfl
        | some e =>
          rw [hl] at heq
          cases heq
      | some r =>
        rw [ha] at heq
        cases hl : lookup v d.items comp with
        | none =>
          rw [hl] at heq
          cases heq
        | some e =>
          rw [hl] at heq
          have hf : r.2.found v = e.answer v := Option.some.inj heq
          have hplace : r.2.place = e.place :=
            Prod.ext (congrArg Found.foundClus hf) (congrArg Found.foundEnt hf)
          have hmem : e ∈ liveEntries d.items := mem_of_find?_eq_some hl
          exact congrArg some (d.place_injective (mem_of_accepted _ _ _ r ha) hmem hplace)
    refine ⟨hclear, fun r hr => (hanswer r.2).mp ?_⟩
    rw [lookup_eq_arrive d.items t, accepted_of_clear d.items v.room t hclear, hr] at heq
    exact (Option.some.inj heq).symm
  · rintro ⟨hclear, hreal⟩
    rw [lookup_eq_arrive d.items t, accepted_of_clear d.items v.room t hclear]
    cases hr : arrive v comp t d.items with
    | none => rfl
    | some r => exact congrArg some ((hanswer r.2).mpr (hreal r hr)).symm

/-- **Every prefix of a path is resolved as it should be if and only if the path is clear.** -/
theorem path_exact_iff (comps : List (List UInt8)) : ∀ (cur pos : Nat) (t : Lfn), (C.dir cur).isSome →
    ((∀ pre, pre <+: comps → (resolveFrom v pre cur pos t).2.found? = expectedFrom C pre cur) ↔
      ClearFrom C comps cur t) := by
  induction comps with
  | nil =>
    intro cur pos t _
    refine ⟨fun _ => trivial, fun _ pre hpre => ?_⟩
    rw [prefix_nil.mp hpre]
    rfl
  | cons comp rest ih =>
    intro cur pos t hcur
    by_cases hne : comp = []
    · -- the driver refuses an empty component, and nothing is named so
      refine ⟨fun _ => Or.inl hne, fun _ pre hpre => ?_⟩
      rcases prefix_cons_iff.mp hpre with rfl | ⟨tl, rfl, -⟩
      · rfl
      · unfold resolveFrom expectedFrom
        rw [if_pos hne, if_pos hne]
        rfl
    obtain ⟨d, hd⟩ := Option.isSome_iff_exists.mp hcur
    have hlast := last_exact_iff C hne hd pos t
    have hdef : ClearFrom C (comp :: rest) cur t ↔ (ClearIn v comp v.room t d.items ∧
          ∀ r, arrive v comp t d.items = some r → ¬ ((r.2.found v).isDir ∧ (r.2.found v).clus = 0)) ∧
        ∀ r, arrive v comp t d.items = some r → (r.2.found v).isDir →
          ClearFrom C rest (r.2.found v).clus r.1 := by
      constructor
      · intro h
        obtain ⟨h1, h2⟩ := h.resolve_left hne d hd
        exact ⟨⟨h1, fun r hr => (h2 r hr).1⟩, fun r hr => (h2 r hr).2⟩
      · rintro ⟨⟨h1, h2⟩, h3⟩
        refine Or.inr fun d' hd' => ?_
        have hdd : d' = d := Option.some.inj (hd'.symm.trans hd)
        subst hdd
        exact ⟨h1, fun r hr => ⟨h2 r hr, h3 r hr⟩⟩
    -- what a longer prefix resolves to, once the first component is exact
    have hthrough : (ClearIn v comp v.room t d.items ∧ ∀ r, arrive v comp t d.items = some r →
            ¬ ((r.2.found v).isDir ∧ (r.2.found v).clus = 0)) → ∀ next tl,
        ((resolveFrom v (comp :: next :: tl) cur pos t).2.found? = expectedFrom C (comp :: next :: tl) cur ↔
          ∀ r, arrive v comp t d.items = some r → (r.2.found v).isDir →
            (resolveFrom v (next :: tl) (r.2.found v).clus (pos + comp.length + 1) r.1).2.found?
              = expectedFrom C (next :: tl) (r.2.found v).clus) := by
      rintro ⟨hclear, hreal⟩ next tl
      obtain ⟨hfound, hbuf⟩ := findInDir_found d comp t
      rw [accepted_of_clear d.items v.room t hclear] at hfound hbuf
      rw [resolveFrom_through hne, hfound, expectedFrom_way C hne hd, lookup_eq_arrive d.items t]
      cases hr : arrive v comp t d.items with
      | none => exact ⟨fun _ r h => (nomatch h), fun _ => rfl⟩
      | some r =>
        have htarget : r.2.target v = (r.2.found v).clus := by
          rw [Entry.target, if_neg (hreal r hr)]
        rw [hbuf r (by rw [hr]; rfl)]
        simp only [Option.map_some, htarget]
        by_cases hdir : (r.2.found v).isDir = true
        · rw [if_pos hdir, if_pos hdir]
          constructor
          · intro h r' hr' _
            cases hr'
            exact h
          · intro h
            exact h r rfl hdir
        · rw [if_neg hdir, if_neg hdir]
          refine ⟨fun _ r' hr' hdir' => ?_, fun _ => rfl⟩
          cases hr'
          exact absurd hdir' hdir
    rw [hdef]
    constructor
    · intro hall
      have hfirst := hlast.mp (hall [comp] (prefix_append [comp] rest))
      refine ⟨hfirst, fun r hr hdir => ?_⟩
      have hmem : r.2 ∈ liveEntries d.items := mem_of_arrive hr
      have htarget : r.2.target v = (r.2.found v).clus := by
        rw [Entry.target, if_neg (hfirst.2 r hr)]
      have hsome : (C.dir (r.2.found v).clus).isSome := htarget ▸ C.target_isSome hd hmem hdir
      refine (ih _ (pos + comp.length + 1) r.1 hsome).mp fun pre hpre => ?_
      cases pre with
      | nil => rfl
      | cons next tl =>
        exact (hthrough hfirst next tl).mp (hall _ ((prefix_cons_inj comp).mpr hpre)) r hr hdir
    · rintro ⟨hfirst, hrest⟩ pre hpre
      rcases prefix_cons_iff.mp hpre with rfl | ⟨tl, rfl, htl⟩
      · rfl
      · cases tl with
        | nil => exact hlast.mpr hfirst
        | cons next tl =>
          refine (hthrough hfirst next tl).mpr fun r hr hdir => ?_
          have hmem : r.2 ∈ liveEntries d.items := mem_of_arrive hr
          have htarget : r.2.target v = (r.2.found v).clus := by
            rw [Entry.target, if_neg (hfirst.2 r hr)]
          have hsome : (C.dir (r.2.found v).clus).isSome := htarget ▸ C.target_isSome hd hmem hdir
          exact (ih _ (pos + comp.length + 1) r.1 hsome).mpr (hrest r hr hdir) _ htl

end Paths

end Aegir.Fat32
