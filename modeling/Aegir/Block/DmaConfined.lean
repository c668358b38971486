/-
  When the device only touches what it may.

  Slots of the cache and the runs of a small read lie inside one frame, whatever the request.  The chain of a
  large read takes page after page of the client's buffer, so it is confined exactly if the buffer HAS these
  pages; and the sectors lie below the capacity exactly if sector plus count does not wrap.
-/
import Mathlib.Tactic.Common
import Aegir.Block.Dma

namespace Aegir.VirtioBlk

open List

variable {own : OwnObjects} {o : MemObject}

/-! ## Single descriptors -/

theorem MemObject.holds_part {x : MemObject} {page off len a : Nat} (hpage : page < x.pages) (hin : off + len ≤ 4096)
    (hlow : x.physAddr page + off ≤ a) (hhigh : a < x.physAddr page + off + len) : x.Holds a := by
  have hframe : x.physAddr page = x.frame page := if_pos hpage
  exact ⟨page, hpage, by omega, by omega⟩

theorem MemObject.not_holds_zero (x : MemObject) : ¬ x.Holds 0 := by
  rintro ⟨i, hi, hle, -⟩
  exact (x.isFrame i hi).2.1 (Nat.le_zero.mp hle)

theorem slotData_covered (s : Fin cacheSlots) : Covered own o (Driver.slotData own s) := by
  intro a hlow hhigh
  have hs : s.val < 64 := s.isLt
  have hpage : s.val / 8 < own.cache.pages := by
    rw [own.cache_pages]
    omega
  have hin : s.val % 8 * 512 + 512 ≤ 4096 := by omega
  exact .inr (.inl (MemObject.holds_part hpage hin hlow hhigh))

/-- Everything that is submitted is covered. -/
def AllCovered (own : OwnObjects) (o : MemObject) (xs : List Submission) : Prop :=
  ∀ x ∈ xs, ∀ y ∈ x.data, Covered own o y

theorem AllCovered.nil : AllCovered own o [] := fun _ hx => absurd hx not_mem_nil

theorem allCovered_append {xs ys : List Submission} :
    AllCovered own o (xs ++ ys) ↔ AllCovered own o xs ∧ AllCovered own o ys := by
  exact forall_mem_append

theorem allCovered_cons {x : Submission} {xs : List Submission} :
    AllCovered own o (x :: xs) ↔ AllCovered own o [x] ∧ AllCovered own o xs := by
  rw [← allCovered_append]
  rfl

theorem AllCovered.single {x : Submission} (h : ∀ y ∈ x.data, Covered own o y) : AllCovered own o [x] := by
  intro x' hx
  obtain rfl := mem_singleton.mp hx
  exact h

namespace Driver

theorem slotWrite_covered (d : Driver) (s : Fin cacheSlots) : AllCovered own o [d.slotWrite own s] := by
  refine .single fun y hy => ?_
  obtain rfl := mem_singleton.mp hy
  exact slotData_covered s

/-! ## The cache -/

theorem writeBackSubs_covered (ss : List (Fin cacheSlots)) (d : Driver) :
    AllCovered own o (writeBackSubs own ss d) := by
  induction ss generalizing d with
  | nil => exact .nil
  | cons s rest ih =>
    unfold writeBackSubs
    split
    · rw [allCovered_cons]
      refine ⟨slotWrite_covered d s, ?_⟩
      dsimp only
      split
      · exact .nil
      · exact ih _
    · exact ih d

theorem flushSubs_covered (d : Driver) (forceDevice : Bool) : AllCovered own o (d.flushSubs own forceDevice) := by
  unfold flushSubs
  split
  · exact .nil
  · exact writeBackSubs_covered _ d

theorem allocSubs_covered (d : Driver) : AllCovered own o (d.allocSubs own) := by
  unfold allocSubs
  split
  · exact .nil
  · split
    · exact slotWrite_covered d d.oldest
    · exact .nil

theorem writeSubs_covered (sector : UInt64) (b : Buffer) (is : List Nat) (d : Driver) :
    AllCovered own o (writeSubs own sector b is d) := by
  induction is generalizing d with
  | nil => exact .nil
  | cons i rest ih =>
    refine allCovered_append.mpr ⟨?_, ?_⟩
    · split
      · exact .nil
      · exact allocSubs_covered d
    · split
      · exact .nil
      · exact ih _

/-! ## Reading -/

/-- **A run of a small read** stays in the first page. -/
theorem runSubs_covered (hpages : 0 < o.pages) (l : ReadLoop) (sector : UInt64) {first i : Nat} (hi : i ≤ 8) :
    AllCovered own o (runSubs o l sector first i) := by
  unfold runSubs
  split
  · refine .single fun y hy a hlow hhigh => ?_
    obtain rfl := mem_singleton.mp hy
    dsimp only at hlow hhigh
    exact .inl (MemObject.holds_part hpages (by omega) hlow hhigh)
  · exact .nil

theorem missSubs_covered (hpages : 0 < o.pages) (hit : Nat → Option (Fin cacheSlots)) (sector : UInt64) {count : Nat}
    (hcount : count ≤ 8) (is : List Nat) (his : ∀ i ∈ is, i ≤ 8) (l : ReadLoop) :
    AllCovered own o (missSubs o hit sector count is l) := by
  induction is generalizing l with
  | nil =>
    unfold missSubs
    split
    · exact runSubs_covered hpages l sector hcount
    · exact .nil
  | cons i rest ih =>
    refine allCovered_append.mpr ⟨?_, ih (fun j hj => his j (mem_cons_of_mem i hj)) _⟩
    split
    · exact runSubs_covered hpages l sector (his i mem_cons_self)
    · exact .nil

/-- **The chain of a large read** is covered exactly if the buffer has the pages. -/
theorem chain_covered_iff (n remain pg : Nat) (h : remain ≤ n) :
    (∀ y ∈ chain o n remain pg, Covered own o y) ↔ remain ≤ (o.pages - pg) * 4096 := by
  induction n generalizing remain pg with
  | zero =>
    refine iff_of_true (fun y hy => absurd hy not_mem_nil) ?_
    omega
  | succ n ih =>
    unfold chain
    split_ifs with hmore
    · rw [forall_mem_cons, ih _ _ (by omega)]
      by_cases hpage : pg < o.pages
      · -- a page of the buffer
        have hone : Covered own o ⟨o.physAddr pg, min remain 4096⟩ := by
          intro a hlow hhigh
          have hin : 0 + min remain 4096 ≤ 4096 := by omega
          exact .inl (MemObject.holds_part hpage hin hlow hhigh)
        rw [and_iff_right hone]
        omega
      · -- the descriptor has address 0
        have hzero : o.physAddr pg = 0 := if_neg hpage
        have hpos : 0 < o.physAddr pg + min remain 4096 := by omega
        refine iff_of_false (fun hall => ?_) (by omega)
        rcases hall.1 0 hzero.le hpos with hheld | hheld | hheld
        · exact o.not_holds_zero hheld
        · exact own.cache.not_holds_zero hheld
        · exact own.dma.not_holds_zero hheld
    · refine iff_of_true (fun y hy => absurd hy not_mem_nil) (by omega)

end Driver

/-! ## Requests -/

/-- The first sector of a request and how many it asks for. -/
def Request.span : Request → UInt64 × UInt64
  | .read sector count _ _ => (sector, count)
  | .write sector count _ _ => (sector, count)
  | _ => (0, 0)

/-- The buffer of the request is this memory object. -/
def Request.Of (o : MemObject) : Request → Prop
  | .read _ _ (some b) _ => b.pages = o.pages
  | .write _ _ (some b) _ => b.pages = o.pages
  | _ => True

namespace Driver

/-- The requests that pass the checks of `Op_Read` and `Op_Write`. -/
def Accepts (d : Driver) : Request → Prop
  | .read sector count (some b) _ => rangeOk d.capacity sector count 64 = true ∧ b.pages ≠ 0
  | .write sector count (some _) _ => rangeOk d.capacity sector count 8 = true
  | _ => False

/-- **The turn's transfers are confined**: every data descriptor is covered, and the sectors of the request are
    below the capacity. -/
def DmaConfined (own : OwnObjects) (o : MemObject) (d : Driver) (r : Request) : Prop :=
  AllCovered own o (d.turnSubs own o r) ∧ r.span.1.toNat + r.span.2.toNat ≤ d.capacity.toNat

theorem in_range_iff {capacity sector count limit : UInt64} (h : rangeOk capacity sector count limit = true) :
    sector.toNat + count.toNat ≤ capacity.toNat ↔ sector.toNat + count.toNat < 2 ^ 64 := by
  simp only [rangeOk, decide_eq_true_eq] at h
  obtain ⟨-, -, hsum⟩ := h
  have hle := UInt64.le_iff_toNat_le.mp hsum
  rw [UInt64.toNat_add] at hle
  have hcap := capacity.toNat_lt
  omega

theorem count_le {capacity sector count limit : UInt64} (h : rangeOk capacity sector count limit = true) :
    count.toNat ≤ limit.toNat := by
  simp only [rangeOk, decide_eq_true_eq] at h
  exact UInt64.le_iff_toNat_le.mp h.2.1

theorem flushDirty_capacity (d : Driver) (forceDevice : Bool) : (d.flushDirty forceDevice).1.capacity = d.capacity := by
  have hback : ∀ (ss : List (Fin cacheSlots)) (d : Driver), (writeBack ss d).1.capacity = d.capacity := by
    intro ss
    induction ss with
    | nil => exact fun _ => rfl
    | cons s rest ih =>
      intro d
      unfold writeBack
      split
      · dsimp only
        split
        · rfl
        · exact (ih _).trans rfl
      · exact ih d
  unfold flushDirty
  split
  · rfl
  · have hcap := hback (finRange cacheSlots) d
    generalize writeBack (finRange cacheSlots) d = w at hcap
    obtain ⟨d1, ok⟩ := w
    cases ok with
    | false => exact hcap
    | true =>
      dsimp only
      split
      · exact hcap
      · exact hcap

/-- **Exactly when the transfers are confined.** -/
theorem dma_confined_iff {d : Driver} {r : Request} (hof : r.Of o) (hacc : d.Accepts r) :
    DmaConfined own o d r ↔
      r.span.1.toNat + r.span.2.toNat < 2 ^ 64 ∧ (8 < r.span.2.toNat → r.span.2.toNat ≤ 8 * o.pages) := by
  have hcap := d.flushDirty_capacity false
  unfold DmaConfined turnSubs
  rw [allCovered_append, and_iff_right (flushSubs_covered d false)]
  generalize (d.flushDirty false).1 = d₁ at hcap
  cases r with
  | notification => exact absurd hacc id
  | info => exact absurd hacc id
  | other => exact absurd hacc id
  | flush => exact absurd hacc id
  | read sector count buf maps =>
    cases buf with
    | none => exact absurd hacc id
    | some b =>
      obtain ⟨hrange, hpages⟩ := hacc
      have hpos : 0 < o.pages := Nat.pos_of_ne_zero fun hzero => hpages (hof.trans hzero)
      have haccept : ¬ (rangeOk d₁.capacity sector count 64 = false ∨ b.pages = 0) := by
        rw [hcap, hrange]
        rintro (h | h)
        · cases h
        · exact hpages h
      have hserve : AllCovered own o (d₁.serveSubs own o (.read sector count (some b) maps)) ↔
          (8 < count.toNat → count.toNat ≤ 8 * o.pages) := by
        unfold serveSubs
        dsimp only
        rw [if_neg haccept]
        by_cases hsmall : count ≤ 8
        · have hle : count.toNat ≤ 8 := UInt64.le_iff_toNat_le.mp hsmall
          rw [if_pos hsmall]
          refine iff_of_true (missSubs_covered hpos _ sector hle _ (fun i hi => ?_) _) (fun h => by omega)
          have := mem_range.mp hi
          omega
        · have hlarge : 8 < count.toNat := Nat.not_le.mp fun hle => hsmall (UInt64.le_iff_toNat_le.mpr hle)
          have hchain : AllCovered own o [chainSub o sector count.toNat] ↔
              ∀ y ∈ chain o (count.toNat * 512) (count.toNat * 512) 0, Covered own o y :=
            ⟨fun hall => hall _ mem_cons_self, fun hall => .single hall⟩
          rw [if_neg hsmall, hchain, chain_covered_iff _ _ _ le_rfl, Nat.sub_zero]
          omega
      rw [hserve]
      show (_ ∧ sector.toNat + count.toNat ≤ d.capacity.toNat) ↔ (sector.toNat + count.toNat < 2 ^ 64 ∧ _)
      rw [in_range_iff hrange, and_comm]
      rfl
  | write sector count buf maps =>
    cases buf with
    | none => exact absurd hacc id
    | some b =>
      have hserve : AllCovered own o (d₁.serveSubs own o (.write sector count (some b) maps)) := by
        unfold serveSubs
        dsimp only
        split
        · exact .nil
        · split
          · exact writeSubs_covered sector b _ d₁
          · exact .nil
      have hle : count.toNat ≤ 8 := count_le hacc
      rw [and_iff_right hserve]
      show sector.toNat + count.toNat ≤ d.capacity.toNat ↔
        (sector.toNat + count.toNat < 2 ^ 64 ∧ (8 < count.toNat → count.toNat ≤ 8 * o.pages))
      rw [in_range_iff hacc, and_iff_left fun h => absurd h (Nat.not_lt.mpr hle)]

/-! ## A large read -/

/-- Objects of frames in a row. -/
def rowObject (base pages : Nat) (h : ∀ i, i < pages → IsFrame (base + i * 4096)) : MemObject :=
  ⟨pages, fun i => base + i * 4096, h⟩

def sampleOwn : OwnObjects :=
  ⟨rowObject 0x80100000 8 (by decide), rowObject 0x80200000 5 (by decide), rfl⟩

/-- A driver with an empty cache and a disk of 2048 sectors. -/
def idleDriver : Driver := online (fun _ _ => 0) (fun _ => 0) 2048 false

/-- Sixteen sectors into a buffer of `pages` pages. -/
def sixteen (pages : Nat) : Request := .read 0 16 (some ⟨pages, fun _ _ => 0⟩) fun _ => true

/-- Two pages are enough. -/
theorem dma_confined_iff_two :
    DmaConfined sampleOwn (rowObject 0x80300000 2 (by decide)) idleDriver (sixteen 2) := by
  have hof : (sixteen 2).Of (rowObject 0x80300000 2 (by decide)) := rfl
  have hacc : idleDriver.Accepts (sixteen 2) := ⟨by decide, by decide⟩
  exact (dma_confined_iff hof hacc).mpr ⟨by decide, fun _ => by decide⟩

/-- **One page is not**: the second half goes to address 0. -/
theorem dma_escapes : ¬ ∀ (own : OwnObjects) (o : MemObject) (d : Driver) (r : Request), 0 < o.pages → r.Of o →
    d.Accepts r → DmaConfined own o d r := by
  intro hall
  have hconfined := hall sampleOwn (rowObject 0x80300000 1 (by decide)) idleDriver (sixteen 1) (by decide) rfl
    ⟨by decide, by decide⟩
  have hserve := (allCovered_append.mp hconfined.1).2
  have hchain : 16 * 512 ≤ ((rowObject 0x80300000 1 (by decide)).pages - 0) * 4096 :=
    (chain_covered_iff (16 * 512) (16 * 512) 0 le_rfl).mp (hserve (chainSub _ 0 16) mem_cons_self)
  exact absurd hchain (by decide)

end Driver

end Aegir.VirtioBlk
