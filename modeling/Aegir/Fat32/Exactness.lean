/-
  Path resolution is exact on clear paths, and only there.

  The result is about every consistent volume and every buffer an earlier request may have left.  A second
  lookup of one long name shows that the buffer matters: the first leaves the name in it, and the scan of the
  second meets another entry first.
-/
import Aegir.Fat32.Resolution

namespace Aegir.Fat32

open Aegir.Lib List Option

/-! ## Listed names -/

/-- What a listing counts: everything but "." and "..". -/
def listing (v : Volume) (items : List Item) : List Entry :=
  (liveEntries items).filter fun e => !e.dots v

/-- The comparison accepts the component at entry `e` and at none before it. -/
def Admits (v : Volume) (comp : List UInt8) (e : Entry) : Lfn → List Item → Prop
  | _, [] => False
  | t, .live f :: items =>
    if f = e then matchComponent comp (v.slot f.place) (overlay f.long t) = true
    else matchComponent comp (v.slot f.place) (overlay f.long t) = false ∧
      Admits v comp e (overlay f.long t).reset items
  | t, _ :: items => Admits v comp e t.reset items

section Listed

variable {v : Volume}

theorem walkItems_counts_live (index room n : Nat) (t : Lfn) (e : Entry) (items : List Item) :
    walkItems (counts v index) room t n (.live e :: items) =
      if room ≤ e.run.length then none
      else if e.dots v then
        walkItems (counts v index) (room - (e.run.length + 1)) (overlay e.long t).reset n items
      else if n = index then some (overlay e.long t, e)
      else walkItems (counts v index) (room - (e.run.length + 1)) (overlay e.long t).reset (n + 1) items := by
  rw [walkItems, counts, show isDots (v.slot e.place) = e.dots v from rfl]
  by_cases hdots : e.dots v = true
  · rw [if_pos hdots, if_pos hdots]
  · rw [if_neg hdots, if_neg hdots]
    by_cases hn : n = index
    · rw [if_pos hn, if_pos hn]
    · rw [if_neg hn, if_neg hn]

theorem listing_of_counted (index : Nat) (items : List Item) : ∀ (room : Nat) (t : Lfn) (n : Nat)
    (r : Lfn × Entry), n ≤ index → walkItems (counts v index) room t n items = some r →
      (listing v items)[index - n]? = some r.2 := by
  induction items with
  | nil => intro room t n r _ h; cases h
  | cons i items ih =>
    intro room t n r hn h
    have hskip : (if room = 0 then none else walkItems (counts v index) (room - 1) t.reset n items) = some r →
        (listing v items)[index - n]? = some r.2 := by
      intro h
      split at h
      · cases h
      · exact ih _ _ n r hn h
    cases i with
    | free p => exact hskip h
    | label p => exact hskip h
    | live e =>
      rw [walkItems_counts_live] at h
      have hdef : listing v (.live e :: items) = if e.dots v then listing v items else e :: listing v items := by
        rw [listing, show liveEntries (.live e :: items) = e :: liveEntries items from rfl, filter_cons]
        cases e.dots v <;> rfl
      rw [hdef]
      split at h
      · cases h
      · by_cases hdots : e.dots v = true
        · rw [if_pos hdots] at h ⊢
          exact ih _ _ n r hn h
        · rw [if_neg hdots] at h ⊢
          split_ifs at h with heq
          · cases h
            rw [heq, Nat.sub_self]
            rfl
          · have hrest := ih _ _ (n + 1) r (by omega) h
            rw [show index - n = (index - (n + 1)) + 1 by omega, getElem?_cons_succ]
            exact hrest

theorem accepted_iff_admits (index : Nat) (comp : List UInt8) (e : Entry) (items : List Item)
    (hnodup : (liveEntries items).Nodup) : ∀ (room : Nat) (s t : Lfn) (n : Nat) (h : Lfn),
    walkItems (counts v index) room s n items = some (h, e) →
      ((accepted v comp room t items).map Prod.snd = some e ↔ Admits v comp e t items) := by
  induction items with
  | nil => intro room s t n h hlist; cases hlist
  | cons i items ih =>
    intro room s t n h hlist
    have hskip : (liveEntries items).Nodup →
        (if room = 0 then none else walkItems (counts v index) (room - 1) s.reset n items) = some (h, e) →
        ((if room = 0 then none else accepted v comp (room - 1) t.reset items).map Prod.snd = some e ↔
          Admits v comp e t.reset items) := by
      intro hnd hlist
      split at hlist
      · cases hlist
      · rename_i hroom
        rw [if_neg hroom]
        exact ih hnd _ _ _ n h hlist
    cases i with
    | free p => exact hskip hnodup hlist
    | label p => exact hskip hnodup hlist
    | live f =>
      obtain ⟨hfresh, hnd⟩ := nodup_cons.mp (show (f :: liveEntries items).Nodup from hnodup)
      rw [walkItems_counts_live] at hlist
      rw [accepted_live, Admits]
      by_cases hroom : room ≤ f.run.length
      · rw [if_pos hroom] at hlist
        cases hlist
      rw [if_neg hroom] at hlist ⊢
      by_cases hfe : f = e
      · subst hfe
        rw [if_pos rfl]
        split_ifs with hm
        · exact ⟨fun _ => hm, fun _ => rfl⟩
        · refine ⟨fun h => ?_, fun h => absurd h hm⟩
          -- it is not listed a second time
          obtain ⟨r, hr, hrf⟩ := map_eq_some_iff.mp h
          exact absurd (hrf ▸ mem_of_accepted items _ _ r hr) hfresh
      · rw [if_neg hfe]
        have hrest : ∃ n', walkItems (counts v index) (room - (f.run.length + 1)) (overlay f.long s).reset n'
            items = some (h, e) := by
          split_ifs at hlist with hdots hn
          · exact ⟨n, hlist⟩
          · cases hlist
            exact absurd rfl hfe
          · exact ⟨n + 1, hlist⟩
        obtain ⟨n', hn'⟩ := hrest
        split_ifs with hm
        · refine ⟨fun h => absurd (Option.some.inj h) hfe, fun h => ?_⟩
          rw [hm] at h
          exact absurd h.1 (by decide)
        · rw [ih hnd _ _ _ n' h hn']
          exact ⟨fun h => ⟨by simpa using hm, h⟩, fun h => h.2⟩

theorem Directory.liveEntries_nodup {c : Nat} (d : Directory v c) : (liveEntries d.items).Nodup := by
  refine d.distinct.imp fun {e f} h hef => ?_
  subst hef
  exact h (e.named_shortName v) (e.named_shortName v)

/-- **A listed name** leads back to its entry if and only if the comparison admits it. -/
theorem listed_exact_iff {c : Nat} (d : Directory v c) (index cap : Nat) (t0 : Lfn) (l : Listed)
    (hl : (dirEntryAt v c index cap t0).2 = some l) :
    ∃ e, (listing v d.items)[index]? = some e ∧ ∀ (pos : Nat) (t : Lfn),
      ((resolveFrom v [l.name] c pos t).2.found? = some (e.found v) ↔
        l.name ≠ [] ∧ Admits v l.name e t d.items) := by
  rw [dirEntryAt_listed] at hl
  obtain ⟨⟨h, e⟩, hr, -⟩ := map_eq_some_iff.mp hl
  have he : (listing v d.items)[index]? = some e :=
    listing_of_counted index d.items _ _ 0 (h, e) (Nat.zero_le _) hr
  have hmem : e ∈ liveEntries d.items := mem_of_mem_filter (mem_of_getElem? he)
  refine ⟨e, he, fun pos t => ?_⟩
  by_cases hne : l.name = []
  · refine ⟨fun h => ?_, fun h => absurd hne h.1⟩
    rw [hne] at h
    cases h
  rw [resolveFrom_last hne, (findInDir_found d l.name t).1,
    ← accepted_iff_admits index l.name e d.items d.liveEntries_nodup v.room _ t 0 h hr]
  constructor
  · intro heq
    obtain ⟨r, hr, hrf⟩ := map_eq_some_iff.mp heq
    have hplace : r.2.place = e.place := found_injective hrf
    rw [hr]
    exact ⟨hne, congrArg some (d.place_injective (mem_of_accepted _ _ _ r hr) hmem hplace)⟩
  · rintro ⟨-, heq⟩
    obtain ⟨r, hr, hre⟩ := map_eq_some_iff.mp heq
    rw [hr, ← hre]
    rfl

end Listed

/-! ## Exactness -/

section Exact

variable {v : Volume} (C : Consistent v)

/-- These components are resolved from the root as they should be, with `t` left in the buffer. -/
def Exact (t : Lfn) (comps : List (List UInt8)) : Prop :=
  (resolveFrom v comps v.rootClus 1 t).2.found? = expectedFrom C comps v.rootClus

/-- A path and all its prefixes are. -/
def ExactAlong (t : Lfn) (path : List UInt8) : Prop :=
  ∀ pre, pre <+: components path → Exact C t pre

def Clear (t : Lfn) (path : List UInt8) : Prop := ClearFrom C (components path) v.rootClus t

/-- **Resolution is exact exactly on clear paths**, whatever earlier lookups left in the buffer; and a listed
name leads back to its entry exactly if the comparison admits it. -/
theorem resolution_exact_iff :
    (∀ (t : Lfn) (path : List UInt8), ExactAlong C t path ↔ Clear C t path) ∧
    ∀ (c : Nat) (d : Directory v c), C.dir c = some d →
      ∀ (index cap : Nat) (t₀ : Lfn) (l : Listed), (dirEntryAt v c index cap t₀).2 = some l →
        ∃ e, (listing v d.items)[index]? = some e ∧ ∀ (pos : Nat) (t : Lfn),
          ((resolveFrom v [l.name] c pos t).2.found? = some (e.found v) ↔
            l.name ≠ [] ∧ Admits v l.name e t d.items) :=
  ⟨fun t path => path_exact_iff C (components path) v.rootClus 1 t C.root,
    fun _ d _ index cap t₀ l hl => listed_exact_iff d index cap t₀ l hl⟩

end Exact

/-! ## A name looked up twice -/

/-- The characters of a text. -/
def latin1 (text : String) : List UInt8 := text.toList.map fun c => UInt8.ofNat c.toNat

/-- FOO.TXT at cluster 3, then "two words.txt", alias TWOWOR~1.TXT, at cluster 4. -/
def twoNames : List UInt8 :=
  latin1 "FOO     TXT" ++ [0x20] ++ replicate 14 0 ++ [3, 0, 5, 0, 0, 0] ++
  [0x41] ++ (latin1 "two w").flatMap (fun c => [c, 0]) ++ [0x0F, 0, 0x53] ++
    (latin1 "ords.t").flatMap (fun c => [c, 0]) ++ [0, 0] ++ (latin1 "xt").flatMap (fun c => [c, 0]) ++
  latin1 "TWOWOR~1TXT" ++ [0x20] ++ replicate 14 0 ++ [4, 0, 7, 0, 0, 0]

/-- One FAT sector and a root of one cluster. -/
def twoNamesVolume : Volume where
  disk := fun sector i =>
    if sector = 1 ∧ 8 ≤ i ∧ i < 11 then 0xFF
    else if sector = 1 ∧ i = 11 then 0x0F
    else if sector = 2 then twoNames.getD i 0
    else 0
  secPerClus := 1
  fatStart := 1
  dataStart := 2
  rootClus := 2

def fooTxt : Entry := { long := [], run := [], place := (2, 0) }

def twoWords : Entry where
  long := (latin1 "two words.txt").map UInt8.toUInt16
  run := [(2, 1)]
  place := (2, 2)

def twoNamesRoot : Directory twoNamesVolume 2 where
  chain := [2]
  linked := ⟨rfl, by rw [if_pos (by decide +kernel)]⟩
  nodup := by decide
  items := [.live fooTxt, .live twoWords]
  tail := (range' 3 13).map fun ent => (2, ent)
  laid := by decide +kernel
  ended := by decide +kernel
  sound := by
    intro i hi
    rcases mem_pair.mp hi with rfl | rfl
    · exact ⟨by decide, rfl, by decide +kernel, by decide +kernel⟩
    · exact ⟨by decide +kernel, ⟨by decide +kernel, by decide +kernel, by decide +kernel, rfl⟩,
        by decide +kernel, by decide +kernel⟩
  distinct := by
    have hapart : ∀ a ∈ fooTxt.names twoNamesVolume, a ∉ twoWords.names twoNamesVolume := by
      decide +kernel
    exact pairwise_pair.mpr fun {a} ha hb => hapart a ha hb

/-- The root is the only directory. -/
def twoNamesDir : (c : Nat) → Option (Directory twoNamesVolume c)
  | 2 => some twoNamesRoot
  | _ => none

theorem twoNamesDir_some {c : Nat} {d : Directory twoNamesVolume c} (h : twoNamesDir c = some d) :
    c = 2 ∧ liveEntries d.items = [fooTxt, twoWords] := by
  unfold twoNamesDir at h
  split at h
  · cases h
    exact ⟨rfl, rfl⟩
  · cases h

def twoNamesTree : Consistent twoNamesVolume where
  dir := twoNamesDir
  parent := id
  real := rfl
  root := rfl
  up := fun c h => h
  child := by
    intro c d hd e he hdir
    rw [(twoNamesDir_some hd).2] at he
    rcases mem_pair.mp he with rfl | rfl
    · exact absurd hdir (by decide +kernel)
    · exact absurd hdir (by decide +kernel)
  dots := by
    intro c d hd e he hdots
    rw [(twoNamesDir_some hd).2] at he
    rcases mem_pair.mp he with rfl | rfl
    · exact absurd hdots (by decide +kernel)
    · exact absurd hdots (by decide +kernel)
  hasDots := by
    intro c d hd hc
    exact absurd (twoNamesDir_some hd).1 hc

def noName : Lfn := { buf := fun _ => 0x20, len := 0 }

/-- The first lookup of "two words.txt" finds it, the second finds FOO.TXT. -/
theorem second_lookup_differs :
    Exact twoNamesTree noName (components (latin1 "two words.txt")) ∧
    ¬ Exact twoNamesTree (resolvePath twoNamesVolume (latin1 "two words.txt") noName).1
      (components (latin1 "two words.txt")) ∧
    (resolvePath twoNamesVolume (latin1 "two words.txt")
      (resolvePath twoNamesVolume (latin1 "two words.txt") noName).1).2.found?
        = some (fooTxt.found twoNamesVolume) := by
  unfold Exact
  decide +kernel

/-- From a fresh start the path is clear, and the listed name leads back. -/
theorem resolution_exact_fresh :
    Clear twoNamesTree noName (latin1 "Two Words.txt") ∧
    ∃ e, (listing twoNamesVolume twoNamesRoot.items)[1]? = some e ∧ ∀ (pos : Nat) (t : Lfn),
      ((resolveFrom twoNamesVolume [latin1 "two words.txt"] 2 pos t).2.found? = some (e.found twoNamesVolume) ↔
        latin1 "two words.txt" ≠ [] ∧
          Admits twoNamesVolume (latin1 "two words.txt") e t twoNamesRoot.items) := by
  refine ⟨((resolution_exact_iff twoNamesTree).1 noName _).mp fun pre hpre => ?_,
    (resolution_exact_iff twoNamesTree).2 2 twoNamesRoot rfl 1 24 noName
      { name := latin1 "two words.txt", size := 7, isDir := false, modified := 0 } (by decide +kernel)⟩
  rcases prefix_cons_iff.mp (show pre <+: [latin1 "Two Words.txt"] from hpre) with rfl | ⟨tl, rfl, htl⟩
  · rfl
  · rw [prefix_nil.mp htl]
    unfold Exact
    decide +kernel

end Aegir.Fat32
