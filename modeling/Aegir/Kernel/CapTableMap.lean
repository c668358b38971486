/-
  The paged capability table REFINES a finite map from handles to entries.

  Beside the entries the record keeps a frame and a counter per page and the total; `Coherent` says what they
  must agree with.  `CapMap` has the operations of the package on the map alone, each with the conditions on
  which it succeeds.  Table and map give the SAME ANSWERS and the table reads as the map, after any operations
  between which the frame allocator may change at will.
-/
import Mathlib.Algebra.BigOperators.Group.Finset.Basic
import Aegir.Kernel.CapTableLaws

namespace Aegir.Kernel

open Aegir.Lib Function

namespace CapTable

/-! ## The redundant fields -/

variable {cap page : Nat} {p p' : Pmm} {t t' : CapTable}

/-- The counters, the total and the page frames agree with the entries. -/
structure Coherent (t : CapTable) : Prop where
  wf : t.Wf
  total : t.total = ∑ page ∈ Finset.range tablePages, t.count page
  page : ∀ page, page < tablePages → (t.root page = 0 ↔ t.count page = 0)

theorem coherent_empty : empty.Coherent :=
  ⟨wf_empty, by simp [empty], fun _ _ => ⟨fun _ => rfl, fun _ => rfl⟩⟩

theorem pageNo_lt (h : cap ≤ handleLast) : pageNo cap < tablePages := by
  unfold pageNo capsPerPage tablePages
  unfold handleLast at h
  omega

theorem ensurePage_fields (h : t.ensurePage page p = (.ok, t', p')) :
    t'.count = t.count ∧ t'.total = t.total ∧ ∀ q, q ≠ page → t'.root q = t.root q := by
  unfold ensurePage at h
  split at h
  · cases h
    exact ⟨rfl, rfl, fun _ _ => rfl⟩
  · split at h
    · cases h
    · cases h
      exact ⟨rfl, rfl, fun q hq => update_of_ne hq _ _⟩

theorem sum_update_count (count : Nat → Nat) (n : Nat) (hpage : page < tablePages) :
    (∑ q ∈ Finset.range tablePages, update count page n q) + count page =
      (∑ q ∈ Finset.range tablePages, count q) + n := by
  have hmem : page ∈ Finset.range tablePages := Finset.mem_range.mpr hpage
  rw [← Finset.add_sum_erase _ _ hmem, ← Finset.add_sum_erase _ count hmem, update_self]
  have hrest : ∑ q ∈ (Finset.range tablePages).erase page, update count page n q =
      ∑ q ∈ (Finset.range tablePages).erase page, count q :=
    Finset.sum_congr rfl fun q hq => update_of_ne (Finset.ne_of_mem_erase hq) _ _
  omega

theorem Coherent.putNew {t1 : CapTable} {p1 : Pmm} {e : CapEntry}
    (ht : t.Coherent) (hp : p.Wf) (h1 : 1 ≤ cap) (h2 : cap ≤ handleLast)
    (hnull : (t.get cap).valid = false) (he : e.valid = true)
    (hens : t.ensurePage (pageNo cap) p = (.ok, t1, p1)) : (t1.putNew cap e).Coherent := by
  obtain ⟨hroot, hget, hcount, -⟩ := ensurePage_ok hp hens
  obtain ⟨-, htotal, hother⟩ := ensurePage_fields hens
  have hpage := pageNo_lt h2
  have hnull1 : (t1.get cap).valid = false := by
    rw [hget]
    exact hnull
  refine ⟨(ht.wf.of_get_eq hget hcount).putNew hroot h1 h2 hnull1 he, ?_, fun q hq => ?_⟩
  · show t1.total + 1 = ∑ q ∈ Finset.range tablePages, update t1.count (pageNo cap) (t1.count (pageNo cap) + 1) q
    have hsum := sum_update_count t1.count (t1.count (pageNo cap) + 1) hpage
    have hold := ht.total
    rw [← hcount, ← htotal] at hold
    omega
  · show t1.root q = 0 ↔ update t1.count (pageNo cap) (t1.count (pageNo cap) + 1) q = 0
    by_cases hqp : q = pageNo cap
    · subst hqp
      rw [update_self]
      exact ⟨fun h0 => absurd h0 hroot, fun h0 => absurd h0 (Nat.succ_ne_zero _)⟩
    · rw [update_of_ne hqp, hother q hqp, hcount]
      exact ht.page q hq

/-! ## Insert -/

variable {object : Nat} {rights : Rights} {badge : U64} {kind : ObjectKind}

theorem insertAt_coherent (ht : t.Coherent) (hp : p.Wf) (hcap : cap ≤ handleLast)
    (h : t.insertAt cap kind object rights badge p = (.ok, t', p')) : t'.Coherent := by
  obtain ⟨-, h1, hnull, -⟩ := insertAt_ok ht.wf hp hcap h
  unfold insertAt at h
  split at h
  · cases h
  · split at h
    · cases h
    · split at h
      · cases h
      · split at h
        · rename_i t1 p1 hens
          cases h
          exact ht.putNew hp h1 hcap hnull rfl hens
        · rename_i s t1 p1 hne hens
          cases h
          exact absurd rfl hne

/-! ## Close and reset -/

theorem close_coherent (ht : t.Coherent) (hp : p.Wf)
    (hv : (t.get cap).valid = true) : (t.close cap p).2.1.Coherent := by
  obtain ⟨-, -, hwf, -⟩ := close_valid cap ht.wf hp hv
  obtain ⟨h1, h2⟩ := ht.wf.handle cap hv
  have hpage := pageNo_lt h2
  have hroot : t.root (pageNo cap) ≠ 0 := by
    intro h0
    simp [get, h0, nullCap] at hv
  -- the page counts at least the entry that is closed
  have hpos : t.count (pageNo cap) ≠ 0 := fun h0 => hroot ((ht.page _ hpage).mpr h0)
  have hfields : (t.close cap p).2.1.total = t.total - 1 ∧ (t.close cap p).2.1.count =
        update t.count (pageNo cap) (t.count (pageNo cap) - 1) ∧
      (t.close cap p).2.1.root = if t.count (pageNo cap) - 1 = 0
        then update t.root (pageNo cap) 0 else t.root := by
    unfold close
    rw [if_neg (by simp [hv]; omega)]
    simp only [update_self]
    split
    · exact ⟨rfl, rfl, rfl⟩
    · exact ⟨rfl, rfl, rfl⟩
  obtain ⟨htotal, hcount, hroots⟩ := hfields
  refine ⟨hwf, ?_, fun q hq => ?_⟩
  · have hsum := sum_update_count t.count (t.count (pageNo cap) - 1) hpage
    have hold := ht.total
    rw [htotal, hcount]
    omega
  · rw [hcount, hroots]
    by_cases hqp : q = pageNo cap
    · subst hqp
      rw [update_self]
      by_cases hlast : t.count (pageNo cap) - 1 = 0
      · rw [if_pos hlast, update_self]
        exact ⟨fun _ => hlast, fun _ => rfl⟩
      · rw [if_neg hlast]
        exact ⟨fun h0 => absurd h0 hroot, fun h0 => absurd h0 hlast⟩
    · rw [update_of_ne hqp, ← ht.page q hq]
      split
      · rw [update_of_ne hqp]
      · exact Iff.rfl

theorem reset_coherent (ht : t.Coherent) (hp : p.Wf) :
    (t.reset p).1.Coherent := by
  obtain ⟨-, hwf, -⟩ := reset_spec ht.wf hp
  obtain ⟨-, -, hroot⟩ := resetPages_spec tablePages 0 t p hp
  refine ⟨hwf, ?_, fun q hq => ?_⟩
  · show 0 = ∑ q ∈ Finset.range tablePages, 0
    simp
  · show (t.resetPages p 0 tablePages).1.root q = 0 ↔ 0 = 0
    rw [hroot, if_pos (by omega)]

end CapTable

/-! ## The map -/

/-- A finite map from handles to entries: what the table is for. -/
def CapMap : Type := Nat → Option CapEntry

/-- What an operation answers: the handle of an insert, a duplicate or a close, or the status. -/
abbrev TableAnswer := Except CapStatus Nat

/-- The answer of an operation on the handle `cap` that only has a status. -/
def CapStatus.answer (s : CapStatus) (cap : Nat) : TableAnswer :=
  match s with
  | .ok => .ok cap
  | _ => .error s

namespace CapMap

/-- Some handle of the page has an entry. -/
def holdsPage (m : CapMap) (page : Nat) : Bool :=
  (List.range capsPerPage).any fun slot => (m (page * capsPerPage + slot)).isSome

/-- The lowest handle without an entry. -/
def lowestFree (m : CapMap) : Option Nat := (List.range' 1 handleLast).find? fun cap => (m cap).isNone

/-- A new entry at a handle: it needs `frame`, a free frame, unless its page has an entry already. -/
def put (m : CapMap) (cap : Nat) (e : CapEntry) (frame : Bool) : TableAnswer × CapMap :=
  if m.holdsPage (CapTable.pageNo cap) || frame then (.ok cap, update m cap (some e))
  else (.error .tableFull, m)

/-- A new entry at a handle of the caller's choice. -/
def insertAt (m : CapMap) (cap : Nat) (e : CapEntry) (frame : Bool) : TableAnswer × CapMap :=
  if cap = 0 then (.error .invalidCap, m)
  else if e.kind = .nullObject ∨ e.object = 0 then (.error .invalidObject, m)
  else if (m cap).isSome then (.error .slotOccupied, m)
  else m.put cap e frame

/-- A new entry at the lowest free handle. -/
def insert (m : CapMap) (e : CapEntry) (frame : Bool) : TableAnswer × CapMap :=
  if e.kind = .nullObject ∨ e.object = 0 then (.error .invalidObject, m)
  else
    match m.lowestFree with
    | none => (.error .tableFull, m)
    | some cap => m.put cap e frame

/-- A second entry for the object of a held one that may be transferred, with no more rights. -/
def duplicate (m : CapMap) (source : Nat) (newRights : Rights) (newBadge : U64) (frame : Bool) :
    TableAnswer × CapMap :=
  match m source with
  | none => (.error .invalidCap, m)
  | some e =>
    if e.rights.transfer ∧ hasRights e.rights newRights then
      m.insert { e with rights := newRights, badge := newBadge } frame
    else (.error .rightsDenied, m)

/-- A held entry is forgotten. -/
def close (m : CapMap) (cap : Nat) : TableAnswer × CapMap :=
  if (m cap).isSome then (.ok cap, update m cap none) else (.error .invalidCap, m)

end CapMap

/-- `Allocate_Frame` would succeed. -/
def Pmm.hasFrame (p : Pmm) : Bool := p.allocateFrame.1.isOk

/-- The operations of the package, and a change of the frame allocator from outside. -/
inductive TableOp where
  | initializeTable
  | insert (kind : ObjectKind) (object : Nat) (rights : Rights) (badge : U64)
  | insertAt (cap : Fin (handleLast + 1)) (kind : ObjectKind) (object : Nat) (rights : Rights)
      (badge : U64)
  | lookup (cap : Fin (handleLast + 1))
  | duplicate (source : Fin (handleLast + 1)) (newRights : Rights) (newBadge : U64)
  | close (cap : Fin (handleLast + 1))
  | reset
  | allocator (p : Pmm) (wf : p.Wf)

namespace TableOp

open CapTable

/-- The operation on the paged table. -/
def perform (op : TableOp) (t : CapTable) (p : Pmm) : TableAnswer × CapTable × Pmm :=
  match op with
  | .initializeTable => (.ok 0, .empty, p)
  | .insert kind object rights badge => t.insert kind object rights badge p
  | .insertAt cap kind object rights badge =>
    let r := t.insertAt cap kind object rights badge p
    (r.1.answer cap, r.2)
  | .lookup cap => (if (t.lookup cap).isSome then .ok cap else .error .invalidCap, t, p)
  | .duplicate source newRights newBadge => t.duplicate source newRights newBadge p
  | .close cap =>
    let r := t.close cap p
    (r.1.answer cap, r.2)
  | .reset => (.ok 0, t.reset p)
  | .allocator p' _ => (.ok 0, t, p')

/-- The operation on the map; `frame` says whether the allocator has a frame. -/
def specify (op : TableOp) (m : CapMap) (frame : Bool) : TableAnswer × CapMap :=
  match op with
  | .initializeTable => (.ok 0, fun _ => none)
  | .insert kind object rights badge => m.insert ⟨true, kind, object, rights, badge⟩ frame
  | .insertAt cap kind object rights badge => m.insertAt cap ⟨true, kind, object, rights, badge⟩ frame
  | .lookup cap => (if (m cap).isSome then .ok cap else .error .invalidCap, m)
  | .duplicate source newRights newBadge => m.duplicate source newRights newBadge frame
  | .close cap => m.close cap
  | .reset => (.ok 0, fun _ => none)
  | .allocator _ _ => (.ok 0, m)

end TableOp

/-- The table and the allocator, with the map that the same operations made. -/
structure TableSession where
  table : CapTable
  pmm : Pmm
  map : CapMap

namespace TableSession

/-- A table as `Initialize` leaves it. -/
def start (p : Pmm) : TableSession := ⟨.empty, p, fun _ => none⟩

/-- One operation on both; of the table the map learns only whether a frame is to be had. -/
def step (s : TableSession) (op : TableOp) : TableSession :=
  let r := op.perform s.table s.pmm
  ⟨r.2.1, r.2.2, (op.specify s.map s.pmm.hasFrame).2⟩

def run (s : TableSession) (ops : List TableOp) : TableSession := ops.foldl step s

end TableSession

/-! ## The refinement -/

namespace CapTable

theorem lookup_eq_ite {t : CapTable} (ht : t.Wf) (cap : Nat) :
    t.lookup cap = if (t.get cap).valid then some (t.get cap) else none := by
  unfold lookup
  cases hv : (t.get cap).valid with
  | false => simp
  | true =>
    have := (ht.handle cap hv).1
    rw [if_neg (by simp; omega)]
    rfl

theorem lookup_update {t t' : CapTable} (ht : t.Wf) (ht' : t'.Wf) {cap : Nat} {e : CapEntry}
    (hget : t'.get = update t.get cap e) :
    t'.lookup = update t.lookup cap (if e.valid then some e else none) := by
  funext i
  rw [lookup_eq_ite ht', hget]
  by_cases hi : i = cap
  · subst hi
    rw [update_self, update_self]
  · rw [update_of_ne hi, update_of_ne hi, lookup_eq_ite ht]

theorem lookup_eq_none {t : CapTable} (ht : t.Wf) {cap : Nat} :
    t.lookup cap = none ↔ (t.get cap).valid = false := by
  rw [lookup_eq_ite ht]
  cases (t.get cap).valid <;> simp

theorem isSome_lookup {t : CapTable} (ht : t.Wf) (cap : Nat) : (t.lookup cap).isSome = (t.get cap).valid := by
  rw [lookup_eq_ite ht]
  cases (t.get cap).valid <;> rfl

/-- A page is there exactly when the map has an entry in it. -/
theorem holdsPage_lookup {t : CapTable} (ht : t.Coherent) {page : Nat} (hpage : page < tablePages) :
    CapMap.holdsPage t.lookup page = true ↔ t.root page ≠ 0 := by
  have hnone : t.root page = 0 ↔ ∀ h, h ≤ handleLast → pageNo h = page → (t.get h).valid = false := by
    rw [ht.page page hpage, ht.wf.count page]
    exact validIn_eq_zero_iff
  unfold CapMap.holdsPage
  rw [List.any_eq_true, ← not_iff_not, not_not, hnone]
  unfold tablePages at hpage
  constructor
  · intro h cap hcap hp
    by_contra hv
    refine h ⟨cap % capsPerPage, List.mem_range.mpr (Nat.mod_lt _ (by decide)), ?_⟩
    rw [← hp, pageNo, Nat.div_add_mod', isSome_lookup ht.wf]
    simpa using hv
  · rintro h ⟨slot, hslot, hv⟩
    rw [List.mem_range] at hslot
    rw [isSome_lookup ht.wf, h] at hv
    · cases hv
    · unfold capsPerPage at hslot ⊢
      unfold handleLast
      omega
    · unfold pageNo
      unfold capsPerPage at hslot ⊢
      omega

theorem lowestFree_lookup {t : CapTable} (ht : t.Wf) (start n : Nat) :
    t.lowestFree start n = (List.range' start n).find? fun cap => (t.lookup cap).isNone := by
  induction n generalizing start with
  | zero => rfl
  | succ n ih =>
    unfold lowestFree
    rw [List.range'_succ, List.find?_cons, ← Option.not_isSome, isSome_lookup ht]
    cases (t.get start).valid with
    | false => rfl
    | true => exact ih (start + 1)

theorem ensurePage_status (t : CapTable) (page : Nat) (p : Pmm) :
    (t.ensurePage page p).1 = if t.root page ≠ 0 ∨ p.hasFrame = true then .ok else .tableFull := by
  unfold ensurePage Pmm.hasFrame
  by_cases hroot : t.root page ≠ 0
  · rw [if_pos hroot, if_pos (.inl hroot)]
  · rw [if_neg hroot]
    cases h : p.allocateFrame with
    | mk r p' =>
      cases r with
      | ok frame => exact (if_pos (.inr rfl)).symm
      | error s => exact (if_neg (by simp [hroot, Except.isOk, Except.toBool])).symm

end CapTable

namespace TableSession

open CapTable

variable {s : TableSession} {kind : ObjectKind} {object cap : Nat} {rights : Rights} {badge : U64}

/-- The table is coherent and reads as the map. -/
structure Refines (s : TableSession) : Prop where
  coherent : s.table.Coherent
  pmm : s.pmm.Wf
  lookup : s.table.lookup = s.map

theorem refines_start {p : Pmm} (hp : p.Wf) : (start p).Refines := by
  refine ⟨coherent_empty, hp, ?_⟩
  funext cap
  exact (lookup_eq_none wf_empty).mpr rfl

/-- A table operation ended as the map's did: same answer, and the new table reads as the new map. -/
structure Matches (r : TableAnswer × CapTable × Pmm) (a : TableAnswer × CapMap) : Prop where
  answer : r.1 = a.1
  coherent : r.2.1.Coherent
  pmm : r.2.2.Wf
  lookup : r.2.1.lookup = a.2

section

variable (hs : s.Refines)

include hs

theorem Refines.same {answer answer' : TableAnswer} (h : answer = answer') :
    Matches (answer, s.table, s.pmm) (answer', s.map) :=
  ⟨h, hs.coherent, hs.pmm, hs.lookup⟩

theorem Refines.insertAt (hcap : cap ≤ handleLast) (kind : ObjectKind) (object : Nat)
    (rights : Rights) (badge : U64) :
    Matches (((s.table.insertAt cap kind object rights badge s.pmm).1.answer cap,
        (s.table.insertAt cap kind object rights badge s.pmm).2))
      (s.map.insertAt cap ⟨true, kind, object, rights, badge⟩ s.pmm.hasFrame) := by
  have hwf := hs.coherent.wf
  have hroom := holdsPage_lookup hs.coherent (pageNo_lt hcap)
  have hheld := isSome_lookup hwf cap
  have hstatus := ensurePage_status s.table (pageNo cap) s.pmm
  rw [hs.lookup] at hroom hheld
  -- an absent page has no valid entry
  have habsent : (s.table.root (pageNo cap) ≠ 0 ∧ (s.table.get cap).valid = true) ↔ (s.table.get cap).valid = true := by
    refine and_iff_right_of_imp fun hv h0 => ?_
    rw [CapTable.get, if_pos h0] at hv
    cases hv
  cases h : s.table.insertAt cap kind object rights badge s.pmm with
  | mk status r =>
    have hok := fun hok : status = .ok => insertAt_ok hwf hs.pmm hcap (h.trans (by rw [hok]))
    have hcoh := fun hok : status = .ok => insertAt_coherent hs.coherent hs.pmm hcap (h.trans (by rw [hok]))
    have hbad := fun hne : status ≠ .ok => insertAt_error hs.pmm hne h
    have hsame : ∀ hne : status ≠ .ok, Matches (status.answer cap, r) (.error status, s.map) := by
      intro hne
      refine ⟨by cases status <;> first | exact absurd rfl hne | rfl, ?_, (hbad hne).2, ?_⟩
      · rw [(hbad hne).1]
        exact hs.coherent
      · rw [(hbad hne).1, hs.lookup]
    unfold CapTable.insertAt at h
    unfold CapMap.insertAt
    simp only [habsent] at h
    rw [hheld]
    by_cases h0 : cap = 0
    · rw [if_pos h0] at h ⊢
      cases h
      exact hsame (by decide)
    · rw [if_neg h0] at h ⊢
      by_cases hko : kind = .nullObject ∨ object = 0
      · rw [if_pos hko] at h ⊢
        cases h
        exact hsame (by decide)
      · rw [if_neg hko] at h ⊢
        by_cases hv : (s.table.get cap).valid = true
        · rw [if_pos hv] at h ⊢
          cases h
          exact hsame (by decide)
        · rw [if_neg hv] at h ⊢
          unfold CapMap.put
          simp only [Bool.or_eq_true, hroom]
          cases hens : s.table.ensurePage (pageNo cap) s.pmm with
          | mk status' r' =>
            rw [hens] at h hstatus
            by_cases hframe : s.table.root (pageNo cap) ≠ 0 ∨ s.pmm.hasFrame = true
            · rw [if_pos hframe] at hstatus ⊢
              obtain rfl : status' = .ok := hstatus
              cases h
              obtain ⟨-, -, -, hget, hwf', hp'⟩ := hok rfl
              refine ⟨rfl, hcoh rfl, hp', ?_⟩
              rw [lookup_update hwf hwf' hget, hs.lookup]
              rfl
            · rw [if_neg hframe] at hstatus ⊢
              obtain rfl : status' = .tableFull := hstatus
              cases h
              exact hsame (by decide)

theorem Refines.insert : Matches (s.table.insert kind object rights badge s.pmm)
    (s.map.insert ⟨true, kind, object, rights, badge⟩ s.pmm.hasFrame) := by
  have hlow := lowestFree_lookup hs.coherent.wf 1 handleLast
  rw [hs.lookup] at hlow
  unfold CapMap.insert CapTable.insert CapMap.lowestFree
  rw [← hlow]
  by_cases hko : kind = .nullObject ∨ object = 0
  · rw [if_pos hko, if_pos hko]
    exact hs.same rfl
  · rw [if_neg hko, if_neg hko]
    cases hfree : s.table.lowestFree 1 handleLast with
    | none => exact hs.same rfl
    | some cap =>
      -- from here on it is an insert at that handle
      obtain ⟨h1, h2, hnull⟩ := lowestFree_some hfree
      have h0 : cap ≠ 0 := by omega
      have hheld := isSome_lookup hs.coherent.wf cap
      rw [hs.lookup, hnull] at hheld
      have hat := hs.insertAt (show cap ≤ handleLast by omega) kind object rights badge
      unfold CapTable.insertAt CapMap.insertAt at hat
      rw [if_neg h0, if_neg h0, if_neg hko, if_neg hko, if_neg (by simp [hnull]), if_neg (by simp [hheld])] at hat
      dsimp only
      cases hens : s.table.ensurePage (pageNo cap) s.pmm with
      | mk status r =>
        rw [hens] at hat
        cases status <;> exact hat

/-- **Every operation does to the table what it does to the map, with the same answer.** -/
theorem Refines.perform (op : TableOp) :
    Matches (op.perform s.table s.pmm) (op.specify s.map s.pmm.hasFrame) := by
  have hwf := hs.coherent.wf
  unfold TableOp.perform TableOp.specify
  cases op with
  | initializeTable => exact ⟨rfl, coherent_empty, hs.pmm, (refines_start hs.pmm).lookup⟩
  | insert kind object rights badge => exact hs.insert
  | insertAt cap kind object rights badge => exact hs.insertAt (Nat.le_of_lt_succ cap.isLt) kind object rights badge
  | lookup cap => exact hs.same (by rw [hs.lookup])
  | duplicate source newRights newBadge =>
    dsimp only
    unfold CapTable.duplicate CapMap.duplicate
    rw [← hs.lookup]
    cases hlook : s.table.lookup source with
    | none => exact hs.lookup ▸ hs.same rfl
    | some e =>
      dsimp only
      rw [hs.lookup]
      have hvalid : e = { e with valid := true } := by rw [← (lookup_eq_some hlook).2.2]
      by_cases hmay : e.rights.transfer = true ∧ hasRights e.rights newRights = true
      · rw [if_pos hmay, if_neg (by simp [hmay])]
        rw [hvalid]
        exact hs.insert
      · rw [if_neg hmay, if_pos (by simpa [or_iff_not_imp_left] using hmay)]
        exact hs.same rfl
  | close cap =>
    have hheld := isSome_lookup hwf (cap : Nat)
    rw [hs.lookup] at hheld
    dsimp only
    unfold CapMap.close
    rw [hheld]
    by_cases hv : (s.table.get cap).valid = true
    · obtain ⟨hok, hget, hwf', hp'⟩ := close_valid (cap : Nat) hwf hs.pmm hv
      rw [hok, if_pos hv]
      refine ⟨rfl, close_coherent hs.coherent hs.pmm hv, hp', ?_⟩
      rw [lookup_update hwf hwf' hget, hs.lookup]
      rfl
    · rw [close_invalid (by simpa using hv), if_neg hv]
      exact hs.same rfl
  | reset =>
    obtain ⟨hget, hwf', hp'⟩ := reset_spec hwf hs.pmm
    refine ⟨rfl, reset_coherent hs.coherent hs.pmm, hp', ?_⟩
    funext cap
    refine (lookup_eq_none hwf').mpr ?_
    rw [hget]
    rfl
  | allocator p wf => exact ⟨rfl, hs.coherent, wf, hs.lookup⟩

theorem Refines.run (ops : List TableOp) :
    (s.run ops).Refines := by
  induction ops generalizing s with
  | nil => exact hs
  | cons op ops ih =>
    have h := hs.perform op
    exact ih ⟨h.coherent, h.pmm, h.lookup⟩

end

end TableSession

/-! ## What the map's operations do -/

namespace CapMap

variable {m m' : CapMap} {frame : Bool} {r r' : TableAnswer × CapMap} {cap : Nat} {e : CapEntry}

/-- What is refused leaves the map `m` as it was. -/
def Strict (m : CapMap) (r : TableAnswer × CapMap) : Prop := ∀ status, r.1 = .error status → r.2 = m

theorem Strict.done : Strict m (.ok cap, m') := fun _ h => by cases h

theorem Strict.same {answer : TableAnswer} : Strict m (answer, m) := fun _ _ => rfl

theorem Strict.ite {c : Prop} [Decidable c] (h : Strict m r) (h' : Strict m r') : Strict m (if c then r else r') := by
  split
  · exact h
  · exact h'

theorem put_strict : Strict m (m.put cap e frame) := Strict.ite .done .same

theorem insert_strict : Strict m (m.insert e frame) := by
  refine Strict.ite .same ?_
  split
  · exact .same
  · exact put_strict

theorem specify_strict (op : TableOp) : Strict m (op.specify m frame) := by
  cases op with
  | initializeTable | reset => exact .done
  | insert => exact insert_strict
  | insertAt => exact .ite .same (.ite .same (.ite .same put_strict))
  | lookup | allocator => exact .same
  | duplicate source =>
    show Strict m (m.duplicate source _ _ frame)
    unfold duplicate
    split
    · exact .same
    · exact .ite insert_strict .same
  | close => exact .ite .done .same

/-- **An insert answers the lowest free handle.** -/
theorem insert_lowest (h : (m.insert e frame).1 = .ok cap) :
    1 ≤ cap ∧ cap ≤ handleLast ∧ m cap = none ∧ ∀ i, 1 ≤ i → i < cap → m i ≠ none := by
  unfold insert at h
  split at h
  · cases h
  · split at h
    · cases h
    · rename_i c hfree
      have hc : c = cap := by
        unfold put at h
        split at h <;> cases h
        rfl
      unfold lowestFree at hfree
      rw [hc, List.find?_range'_eq_some, List.mem_range'_1] at hfree
      obtain ⟨hnone, ⟨h1, h2⟩, hleast⟩ := hfree
      refine ⟨h1, by omega, Option.isNone_iff_eq_none.mp hnone, fun i hi hlt hnone' => ?_⟩
      have := hleast i hi hlt
      rw [hnone'] at this
      cases this

theorem duplicate_lowest {source : Nat} {rights : Rights} {badge : U64}
    (h : (m.duplicate source rights badge frame).1 = .ok cap) :
    1 ≤ cap ∧ cap ≤ handleLast ∧ m cap = none ∧ ∀ i, 1 ≤ i → i < cap → m i ≠ none := by
  unfold duplicate at h
  split at h
  · cases h
  · split at h
    · exact insert_lowest h
    · cases h

end CapMap

namespace TableSession

/-- **The paged table refines a finite map.**  After any sequence of operations, with the frame
    allocator in any state before each of them: the counters and the total count the valid entries,
    a page has a frame exactly when it has entries, handle 0 is never valid, `Lookup` reads the map,
    every operation answers what the map's operation answers and leaves a table that reads as the map
    it leaves, an insert (or duplicate) answers the lowest free handle, and whatever does not answer
    `ok` leaves the map as it was. -/
theorem capTable_refines_map (p : Pmm) (hp : p.Wf) (ops : List TableOp) :
    let s := (start p).run ops
    (∀ page, page < tablePages → s.table.count page = s.table.validIn page) ∧
    s.table.total = ∑ page ∈ Finset.range tablePages, s.table.count page ∧
    (∀ page, page < tablePages → (s.table.root page = 0 ↔ s.table.count page = 0)) ∧
    (s.table.get 0).valid = false ∧
    (∀ cap, s.table.lookup cap = s.map cap) ∧
    (∀ op : TableOp, (op.perform s.table s.pmm).1 = (op.specify s.map s.pmm.hasFrame).1 ∧
      ∀ cap, (op.perform s.table s.pmm).2.1.lookup cap = (op.specify s.map s.pmm.hasFrame).2 cap) ∧
    (∀ kind object rights badge cap,
      (s.table.insert kind object rights badge s.pmm).1 = .ok cap →
      1 ≤ cap ∧ cap ≤ handleLast ∧ s.map cap = none ∧ ∀ i, 1 ≤ i → i < cap → s.map i ≠ none) ∧
    (∀ (source : Fin (handleLast + 1)) newRights newBadge cap,
      (s.table.duplicate source newRights newBadge s.pmm).1 = .ok cap →
      1 ≤ cap ∧ cap ≤ handleLast ∧ s.map cap = none ∧ ∀ i, 1 ≤ i → i < cap → s.map i ≠ none) ∧
    (∀ (op : TableOp) status, (op.perform s.table s.pmm).1 = .error status →
      ∀ cap, (op.perform s.table s.pmm).2.1.lookup cap = s.map cap) := by
  intro s
  have hs : s.Refines := (refines_start hp).run ops
  have hwf := hs.coherent.wf
  refine ⟨fun page _ => hwf.count page, hs.coherent.total, hs.coherent.page, ?_,
    fun cap => congrFun hs.lookup cap, fun op => ⟨(hs.perform op).answer, fun cap => congrFun (hs.perform op).lookup cap⟩,
    ?_, ?_, ?_⟩
  · by_contra hv
    have := (hwf.handle 0 (by simpa using hv)).1
    omega
  · intro kind object rights badge cap hok
    exact CapMap.insert_lowest ((hs.perform (.insert kind object rights badge)).answer.symm.trans hok)
  · intro source newRights newBadge cap hok
    exact CapMap.duplicate_lowest ((hs.perform (.duplicate source newRights newBadge)).answer.symm.trans hok)
  · intro op status herr cap
    have h := hs.perform op
    rw [h.lookup, CapMap.specify_strict op status (h.answer.symm.trans herr)]

/-- An allocator with two frames. -/
def twoFrames : Pmm where
  baseFrame := 0x80400000
  nextFrame := 0x80400000
  limit := 0x80402000
  freeListHead := 0
  freeListCount := 0
  isReady := true
  link := fun _ => 0
  reserved := []

theorem twoFrames_wf : twoFrames.Wf :=
  ⟨by decide, by decide, by decide, by decide, by decide, by simp [twoFrames], [], rfl, by simp [twoFrames]⟩

/-- Two inserts, a duplicate and a close; a handle of the second page, which takes the last frame. -/
def closeOps : List TableOp :=
  [.insert .endpointObject 7 ⟨true, false, false, false, true, false, false, false, true, false⟩ 0,
    .insert .memoryObject 9 noRights 5, .duplicate 1 noRights 3, .close 1,
    .insertAt 128 .irqObject 4 noRights 0]

/-- Handle 3 is the duplicate, handle 1 is free again, and a handle of the third page is refused. -/
theorem capTable_refines_map_close :
    twoFrames.Wf ∧
    ((start twoFrames).run closeOps).table.lookup 3 = some ⟨true, .endpointObject, 7, noRights, 3⟩ ∧
    ((TableOp.insertAt 256 .irqObject 4 noRights 0).perform ((start twoFrames).run closeOps).table
      ((start twoFrames).run closeOps).pmm).1 = .error .tableFull ∧
    (((start twoFrames).run closeOps).table.insert .irqObject 3 noRights 0
      ((start twoFrames).run closeOps).pmm).1 = .ok 1 := by
  have h := capTable_refines_map twoFrames twoFrames_wf closeOps
  have hmap : ((start twoFrames).run closeOps).map 3 =
      some ⟨true, .endpointObject, 7, noRights, 3⟩ := by decide +kernel
  have hfull : ((TableOp.insertAt 256 .irqObject 4 noRights 0).specify ((start twoFrames).run closeOps).map
      ((start twoFrames).run closeOps).pmm.hasFrame).1 = .error .tableFull := by decide +kernel
  refine ⟨twoFrames_wf, (h.2.2.2.2.1 3).trans hmap, (h.2.2.2.2.2.1 _).1.trans hfull, ?_⟩
  decide +kernel

end TableSession

end Aegir.Kernel
