/-
  The driver's scans over a directory, item by item.

  `findInDir` and `dirEntryAt` run the same loop: deleted entries and labels clear the buffer, long-name
  entries fill it, and a live entry is visited.  `walk` is that loop over a list of places, with the visit as
  a parameter and without the bookkeeping of the run.  Over the places of a directory it goes from item to
  item: a live entry's run lays its name over the buffer, then the entry is visited.
-/
import Aegir.Fat32.Layout
import Mathlib.Tactic.SplitIfs

namespace Aegir.Fat32

open Aegir.Lib List

/-! ## Over places -/

/-- Scans the places, `visit`ing the live entries: it goes on with another state or stops there.  The result
is the place where it stops, and the buffer there. -/
def walk {σ : Type} (v : Volume) (visit : σ → Lfn → Pos → Option σ) :
    List Pos → Lfn → σ → Option (Lfn × Pos)
  | [], _, _ => none
  | p :: ps, t, s =>
    let b := v.slot p
    if b 0 = 0 then none
    else if b 0 = 0xE5 then walk v visit ps t.reset s
    else if b 11 = 0x0F then walk v visit ps (collectLfn b t) s
    else if b 11 &&& 0x08 ≠ 0 then walk v visit ps t.reset s
    else
      match visit s t p with
      | some s' => walk v visit ps t.reset s'
      | none => some (t, p)

/-- At most this many entries of a directory are scanned. -/
def Volume.room (v : Volume) : Nat := maxDirClusters * v.entries

theorem flatMap_take (v : Volume) (chain : List Nat) : ∀ n : Nat,
    (chain.take n).flatMap v.positions = (chain.flatMap v.positions).take (n * v.entries) := by
  induction chain with
  | nil => intro n; simp
  | cons c cs ih =>
    intro n
    have hlen : (v.positions c).length = v.entries := by simp [Volume.positions]
    cases n with
    | zero => simp
    | succ n =>
      have hfirst : (v.positions c).take (n * v.entries + v.entries) = v.positions c :=
        take_of_length_le (by omega)
      rw [take_succ_cons, flatMap_cons, flatMap_cons, ih n, Nat.succ_mul,
        take_append, hlen, hfirst, Nat.add_sub_cancel]

/-! ## `Find_In_Dir` -/

/-- The visit of `Find_In_Dir`. -/
def tries (v : Volume) (comp : List UInt8) (_ : Unit) (t : Lfn) (p : Pos) : Option Unit :=
  if matchComponent comp (v.slot p) t then none else some ()

/-- What is left to scan after a verdict. -/
def Verdict.resume (v : Volume) (comp : List UInt8) (ps : List Pos) : Verdict → Option (Lfn × Pos)
  | .hit t h => some (t, h.found.foundClus, h.found.foundEnt)
  | .ended _ => none
  | .more r => walk v (tries v comp) ps r.lfn ()

/-- A hit carries the fields of the entry at its place. -/
def Verdict.Faithful (v : Volume) : Verdict → Prop
  | .hit _ h => h.found = v.found h.found.foundClus h.found.foundEnt
  | _ => True

theorem walk_tries_cons (v : Volume) (comp : List UInt8) (c ent : Nat) (ps : List Pos) (r : Scan) :
    walk v (tries v comp) ((c, ent) :: ps) r.lfn () = (scanEntry v comp c ent r).resume v comp ps := by
  simp only [walk, scanEntry, apply_ite (Verdict.resume v comp ps)]
  by_cases hm : matchComponent comp (v.slot (c, ent)) r.lfn = true
  · have hm' : matchComponent comp (v.entry c ent) r.lfn = true := hm
    rw [tries, if_pos hm, if_pos hm']
    rfl
  · have hm' : ¬ matchComponent comp (v.entry c ent) r.lfn = true := hm
    rw [tries, if_neg hm, if_neg hm']
    rfl

theorem walk_tries_cluster (v : Volume) (comp : List UInt8) (c : Nat) (ps : List Pos) (ents : List Nat) :
    ∀ r : Scan, walk v (tries v comp) (ents.map (fun ent => (c, ent)) ++ ps) r.lfn ()
      = (scanCluster v comp c ents r).resume v comp ps := by
  induction ents with
  | nil => intro r; rfl
  | cons ent ents ih =>
    intro r
    rw [map_cons, cons_append, walk_tries_cons, scanCluster]
    cases he : scanEntry v comp c ent r with
    | hit t h => rfl
    | ended t => rfl
    | more r' => exact ih r'

theorem scanCluster_faithful (v : Volume) (comp : List UInt8) (c : Nat) (ents : List Nat) :
    ∀ r : Scan, (scanCluster v comp c ents r).Faithful v := by
  induction ents with
  | nil => intro r; trivial
  | cons ent ents ih =>
    intro r
    rw [scanCluster]
    cases he : scanEntry v comp c ent r with
    | hit t h =>
      simp only [scanEntry] at he
      split_ifs at he <;> cases he
      rfl
    | ended t => trivial
    | more r' => exact ih r'

theorem findLoop_eq_walk (v : Volume) (comp : List UInt8) (guard : Nat) :
    ∀ (c last : Nat) (chain : List Nat) (r : Scan), v.Linked c chain →
      (findLoop v comp guard c last r).2.1.map Hit.found
        = (walk v (tries v comp) ((chain.take guard).flatMap v.positions) r.lfn ()).map
          (fun q => v.found q.2.1 q.2.2) ∧
      ∀ q ∈ walk v (tries v comp) ((chain.take guard).flatMap v.positions) r.lfn (),
        (findLoop v comp guard c last r).1 = q.1 := by
  induction guard with
  | zero => intro c last chain r _; exact ⟨rfl, fun q hq => nomatch hq⟩
  | succ guard ih =>
    intro c last chain r hlinked
    cases chain with
    | nil => exact hlinked.elim
    | cons x cs =>
      obtain ⟨rfl, hrest⟩ := hlinked
      have hlfn : (r.enter v x).lfn = r.lfn := by
        rw [Scan.enter]
        split <;> rfl
      have hwalk := walk_tries_cluster v comp x ((cs.take guard).flatMap v.positions)
        (range v.entries) (r.enter v x)
      have hok := scanCluster_faithful v comp x (range v.entries) (r.enter v x)
      rw [hlfn] at hwalk
      rw [take_succ_cons, flatMap_cons, Volume.positions, hwalk, findLoop]
      cases hv : scanCluster v comp x (range v.entries) (r.enter v x) with
      | hit t h =>
        rw [hv] at hok
        refine ⟨congrArg some hok, fun q hq => ?_⟩
        cases hq
        rfl
      | ended t => exact ⟨rfl, fun q hq => nomatch hq⟩
      | more r' =>
        simp only []
        by_cases hnext : v.nextCluster x = 0
        · rw [if_pos hnext] at hrest
          subst hrest
          rw [if_pos hnext, take_nil]
          exact ⟨rfl, fun q hq => nomatch hq⟩
        · rw [if_neg hnext] at hrest
          rw [if_neg hnext]
          exact ih _ x cs r' hrest

/-! ## `Dir_Entry_At` -/

/-- The visit of `Dir_Entry_At`, with the number of entries counted. -/
def counts (v : Volume) (index : Nat) (n : Nat) (_ : Lfn) (p : Pos) : Option Nat :=
  if isDots (v.slot p) then some n else if n = index then none else some (n + 1)

def Listing.resume (v : Volume) (cap index : Nat) (ps : List Pos) : Listing → Option Listed
  | .answer _ l => some l
  | .ended _ => none
  | .more t n => (walk v (counts v index) ps t n).map fun q => listedAt (v.slot q.2) cap q.1

theorem walk_counts_cons (v : Volume) (cap index c ent : Nat) (ps : List Pos) (t : Lfn) (n : Nat) :
    (walk v (counts v index) ((c, ent) :: ps) t n).map (fun q => listedAt (v.slot q.2) cap q.1)
      = (listEntry v cap index c ent t n).resume v cap index ps := by
  simp only [walk, listEntry, apply_ite (Listing.resume v cap index ps),
    apply_ite (Option.map fun q : Lfn × Pos => listedAt (v.slot q.2) cap q.1)]
  by_cases hdots : isDots (v.slot (c, ent)) = true
  · have hdots' : isDots (v.entry c ent) = true := hdots
    rw [counts, if_pos hdots, if_pos hdots']
    rfl
  · have hdots' : ¬ isDots (v.entry c ent) = true := hdots
    rw [counts, if_neg hdots, if_neg hdots']
    by_cases hn : n = index
    · rw [if_pos hn, if_pos hn]
      rfl
    · rw [if_neg hn, if_neg hn]
      rfl

theorem walk_counts_cluster (v : Volume) (cap index c : Nat) (ps : List Pos) (ents : List Nat) :
    ∀ (t : Lfn) (n : Nat), (walk v (counts v index) (ents.map (fun ent => (c, ent)) ++ ps) t n).map
          (fun q => listedAt (v.slot q.2) cap q.1)
        = (listCluster v cap index c ents t n).resume v cap index ps := by
  induction ents with
  | nil => intro t n; rfl
  | cons ent ents ih =>
    intro t n
    rw [map_cons, cons_append, walk_counts_cons, listCluster]
    cases he : listEntry v cap index c ent t n with
    | answer t l => rfl
    | ended t => rfl
    | more t' n' => exact ih t' n'

theorem listLoop_eq_walk (v : Volume) (cap index guard : Nat) :
    ∀ (c : Nat) (chain : List Nat) (t : Lfn) (n : Nat), v.Linked c chain → (listLoop v cap index guard c t n).2
        = (walk v (counts v index) ((chain.take guard).flatMap v.positions) t n).map
          fun q => listedAt (v.slot q.2) cap q.1 := by
  induction guard with
  | zero => intro c chain t n _; rfl
  | succ guard ih =>
    intro c chain t n hlinked
    cases chain with
    | nil => exact hlinked.elim
    | cons x cs =>
      obtain ⟨rfl, hrest⟩ := hlinked
      rw [take_succ_cons, flatMap_cons, Volume.positions,
        walk_counts_cluster v cap index x ((cs.take guard).flatMap v.positions), listLoop]
      cases hv : listCluster v cap index x (range v.entries) t n with
      | answer t l => rfl
      | ended t => rfl
      | more t' n' =>
        simp only []
        split_ifs at hrest with hnext
        · subst hrest
          rw [if_pos hnext, take_nil]
          rfl
        · rw [if_neg hnext]
          exact ih _ cs t' n' hrest

/-! ## From item to item -/

section Items

variable {σ : Type} {v : Volume} {visit : σ → Lfn → Pos → Option σ} {long : List UInt16}

theorem piece_number {b : UInt8} {n : Nat} (hn : n < 20)
    (hb : b = UInt8.ofNat (n + 1) ∨ b = UInt8.ofNat (0x40 + (n + 1))) :
    b ≠ 0 ∧ b ≠ 0xE5 ∧ (b &&& 0x1F).toNat = n + 1 := by
  rcases hb with rfl | rfl
  · interval_cases n <;> decide
  · interval_cases n <;> decide

theorem spells_cons {q : Nat} {ps : List Pos} (h : Spells v long (q + 1) ps)
    (hq : q < pieces long) (hshort : long.length ≤ 255) :
    ∃ p qs, ps = p :: qs ∧ v.slot p 0 ≠ 0 ∧ v.slot p 0 ≠ 0xE5 ∧ v.slot p 11 = 0x0F ∧
      (∀ t, collectLfn (v.slot p) t = lay t (q * 13) (legible (piece long q))) ∧ Spells v long q qs := by
  cases ps with
  | nil => exact h.elim
  | cons p qs =>
    obtain ⟨hseq, hattr, hunits, hrest⟩ := h
    have hq20 : q < 20 := by rw [pieces] at hq; omega
    have hbyte : v.slot p 0 = UInt8.ofNat (q + 1) ∨ v.slot p 0 = UInt8.ofNat (0x40 + (q + 1)) := by
      rw [hseq]
      split <;> simp
    obtain ⟨h0, h5, hnum⟩ := piece_number hq20 hbyte
    refine ⟨p, qs, rfl, h0, h5, hattr, fun t => ?_, hrest⟩
    have hlen : (piece long q).length ≤ 13 := by simp [piece]
    rw [collectLfn_eq_lay _ t _ hunits hlen, seqOf, hnum, Nat.add_sub_cancel]

/-- **A run lays its name**: after it the buffer holds the pieces over what it held. -/
theorem walk_run (hshort : long.length ≤ 255) (ps : List Pos) (s : σ) :
    ∀ (q : Nat) (run : List Pos) (t : Lfn), q ≤ pieces long → Spells v long q run →
      walk v visit (run ++ ps) t s = walk v visit ps (overlayFrom long q t) s := by
  intro q
  induction q with
  | zero =>
    intro run t _ hrun
    rw [show run = [] from hrun]
    rfl
  | succ q ih =>
    intro run t hq hrun
    obtain ⟨p, qs, rfl, h0, h5, hattr, hcollect, hrest⟩ := spells_cons hrun hq hshort
    rw [cons_append, walk]
    simp only [if_neg h0, if_neg h5, if_pos hattr, hcollect]
    exact ih qs _ (by omega) hrest

theorem walk_cut_run (hshort : long.length ≤ 255) (s : σ) :
    ∀ (q : Nat) (run : List Pos) (n : Nat) (t : Lfn), q ≤ pieces long → Spells v long q run →
      walk v visit (run.take n) t s = none := by
  intro q
  induction q with
  | zero =>
    intro run n t _ hrun
    rw [show run = [] from hrun, take_nil]
    rfl
  | succ q ih =>
    intro run n t hq hrun
    obtain ⟨p, qs, rfl, h0, h5, hattr, -, hrest⟩ := spells_cons hrun hq hshort
    cases n with
    | zero => rfl
    | succ n =>
      rw [take_succ_cons, walk]
      simp only [if_neg h0, if_neg h5, if_pos hattr]
      exact ih qs n _ (by omega) hrest

theorem walk_skip {p : Pos} (hp : v.slot p 0 = 0xE5 ∨ (v.slot p 0 ≠ 0 ∧ v.slot p 0 ≠ 0xE5) ∧
    v.slot p 11 ≠ 0x0F ∧ v.slot p 11 &&& 0x08 ≠ 0) (ps : List Pos) (t : Lfn) (s : σ) :
    walk v visit (p :: ps) t s = walk v visit ps t.reset s := by
  rw [walk]
  rcases hp with h5 | ⟨⟨h0, h5⟩, hf, h8⟩
  · have h0 : v.slot p 0 ≠ 0 := by rw [h5]; decide
    simp only [if_neg h0, if_pos h5]
  · simp only [if_neg h0, if_neg h5, if_neg hf, if_pos h8]

/-- The scan over items, as far as `room` places reach. -/
def walkItems (visit : σ → Lfn → Pos → Option σ) : Nat → Lfn → σ → List Item → Option (Lfn × Entry)
  | _, _, _, [] => none
  | room, t, s, .live e :: items =>
    if room ≤ e.run.length then none
    else
      match visit s (overlay e.long t) e.place with
      | some s' => walkItems visit (room - (e.run.length + 1)) (overlay e.long t).reset s' items
      | none => some (overlay e.long t, e)
  | room, t, s, _ :: items => if room = 0 then none else walkItems visit (room - 1) t.reset s items

/-- **The scan over the places is the scan over the items.** -/
theorem walk_items (tail : List Pos) (hend : ∀ p ∈ tail.head?, v.slot p 0 = 0) (items : List Item)
    (hsound : ∀ i ∈ items, i.Sound v) : ∀ (room : Nat) (t : Lfn) (s : σ),
    walk v visit ((items.flatMap Item.places ++ tail).take room) t s
      = (walkItems visit room t s items).map fun r => (r.1, r.2.place) := by
  induction items with
  | nil =>
    intro room t s
    rw [flatMap_nil, nil_append]
    cases tail with
    | nil => rw [take_nil]; rfl
    | cons p ps =>
      cases room with
      | zero => rfl
      | succ room =>
        rw [take_succ_cons, walk]
        simp only [if_pos (hend p rfl)]
        rfl
  | cons i items ih =>
    intro room t s
    have hi := hsound i mem_cons_self
    have ih := ih fun j hj => hsound j (mem_cons_of_mem i hj)
    have hskip : ∀ p, i.places = [p] → (∀ ps t, walk v visit (p :: ps) t s = walk v visit ps t.reset s) →
        walk v visit (((i :: items).flatMap Item.places ++ tail).take room) t s
          = (if room = 0 then none else walkItems visit (room - 1) t.reset s items).map
            fun r => (r.1, r.2.place) := by
      intro p hplaces hwalk
      rw [flatMap_cons, hplaces, singleton_append, cons_append]
      cases room with
      | zero => rfl
      | succ room =>
        rw [take_succ_cons, hwalk, if_neg (Nat.succ_ne_zero room), Nat.add_sub_cancel]
        exact ih room t.reset s
    cases i with
    | free p => exact hskip p rfl fun ps t => walk_skip (Or.inl hi) ps t s
    | label p => exact hskip p rfl fun ps t => walk_skip (Or.inr hi) ps t s
    | live e =>
      rw [flatMap_cons, Item.places, walkItems, append_assoc, append_assoc]
      by_cases hroom : room ≤ e.run.length
      · -- the driver gives up inside the run
        rw [if_pos hroom, take_append_of_le_length hroom]
        exact walk_cut_run hi.short s _ _ room t (Nat.le_refl _) hi.spelt
      · obtain ⟨k, rfl⟩ : ∃ k, room = e.run.length + (k + 1) := ⟨room - e.run.length - 1, by omega⟩
        have hk : e.run.length + (k + 1) - (e.run.length + 1) = k := by omega
        rw [if_neg hroom, take_length_add_append, singleton_append, take_succ_cons,
          walk_run hi.short _ s _ _ t (Nat.le_refl _) hi.spelt, walk, hk]
        simp only [if_neg hi.used.1, if_neg hi.used.2, if_neg hi.plain.1, if_neg (not_not_intro hi.plain.2)]
        show (match visit s (overlay e.long t) e.place with
          | some s' => _
          | none => some (overlay e.long t, e.place)) = _
        cases visit s (overlay e.long t) e.place with
        | none => rfl
        | some s' => exact ih k _ s'

end Items

/-! ## The two lookups in a directory -/

section Lookups

variable {v : Volume} {c : Nat} (d : Directory v c)

/-- The first entry within `room` places whose comparison accepts the component, and the buffer there. -/
def accepted (v : Volume) (comp : List UInt8) (room : Nat) (t : Lfn) (items : List Item) :
    Option (Lfn × Entry) :=
  walkItems (tries v comp) room t () items

/-- **`findInDir` returns the entry that is accepted**, and leaves the buffer as it was there. -/
theorem findInDir_found (comp : List UInt8) (t : Lfn) : (findInDir v c comp t).2.1.map Hit.found
      = (accepted v comp v.room t d.items).map (fun r => r.2.found v) ∧
    ∀ r ∈ accepted v comp v.room t d.items, (findInDir v c comp t).1 = r.1 := by
  obtain ⟨hfound, hbuf⟩ := findLoop_eq_walk v comp maxDirClusters c c d.chain
    { lfn := t, runClus := c, runEnt := 0 } d.linked
  rw [flatMap_take, d.laid, ← Volume.room, walk_items d.tail d.ended d.items d.sound] at hfound hbuf
  refine ⟨?_, fun r hr => hbuf (r.1, r.2.place) ?_⟩
  · refine hfound.trans ?_
    rw [Option.map_map]
    rfl
  · exact Option.mem_map_of_mem (fun q : Lfn × Entry => (q.1, q.2.place)) hr

/-- The entry with a given number, "." and ".." not counted, and the buffer when a listing gets there. -/
def counted (v : Volume) (index room : Nat) (t : Lfn) (items : List Item) : Option (Lfn × Entry) :=
  walkItems (counts v index) room t 0 items

/-- **`dirEntryAt` answers for the entry it counts to.** -/
theorem dirEntryAt_listed (index cap : Nat) (t : Lfn) : (dirEntryAt v c index cap t).2
      = (counted v index v.room t.reset d.items).map fun r => listedAt (v.slot r.2.place) cap r.1 := by
  have hloop := listLoop_eq_walk v cap index maxDirClusters c d.chain t.reset 0 d.linked
  rw [flatMap_take, d.laid, ← Volume.room, walk_items d.tail d.ended d.items d.sound] at hloop
  refine hloop.trans ?_
  rw [Option.map_map]
  rfl

end Lookups

end Aegir.Fat32
