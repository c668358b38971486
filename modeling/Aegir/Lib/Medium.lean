/-
  A store behind a VOLATILE write cache.

  Writes are issued one after another; a flush makes everything issued so far durable.  A CRASH keeps
  what is durable and, of the writes issued since the last flush, ANY subset: `keep` says for each of
  them, by its position, whether it reached the medium.  Of two kept writes to one address the later
  one wins.

  Nothing here knows what is stored: addresses and values are arbitrary types.
-/
import Mathlib.Logic.Function.Basic
import Mathlib.Data.List.Basic

namespace Aegir.Lib

open List Function

variable {α β : Type} [DecidableEq α]

/-- What is asked of the store. -/
inductive StoreOp (α β : Type) where
  | write (a : α) (v : β)
  | flush

/-- Of the writes at the positions `i, i + 1, ..` those that `keep` selects. -/
def kept (keep : Nat → Bool) : Nat → List (α × β) → List (α × β)
  | _, [] => []
  | i, w :: ws => if keep i then w :: kept keep (i + 1) ws else kept keep (i + 1) ws

section

variable (keep : Nat → Bool)

theorem kept_cons (i : Nat) (w : α × β) (ws : List (α × β)) :
    kept keep i (w :: ws) = if keep i then w :: kept keep (i + 1) ws else kept keep (i + 1) ws := rfl

theorem kept_sublist (i : Nat) (ws : List (α × β)) :
    (kept keep i ws).Sublist ws := by
  induction ws generalizing i with
  | nil => exact .slnil
  | cons w ws ih =>
    rw [kept_cons]
    split
    · exact (ih _).cons_cons w
    · exact (ih _).cons w

/-- Everything is kept. -/
theorem kept_all (i : Nat) (ws : List (α × β))
    (h : ∀ j, i ≤ j → j < i + ws.length → keep j = true) : kept keep i ws = ws := by
  induction ws generalizing i with
  | nil => rfl
  | cons w ws ih =>
    rw [length_cons] at h
    rw [kept_cons, if_pos (h i (Nat.le_refl _) (by omega)), ih (i + 1) fun j h1 h2 => h j (by omega) (by omega)]

theorem kept_append (i : Nat) (ws vs : List (α × β)) :
    kept keep i (ws ++ vs) = kept keep i ws ++ kept keep (i + ws.length) vs := by
  induction ws generalizing i with
  | nil => simp [kept]
  | cons w ws ih =>
    have hlen : i + (w :: ws).length = i + 1 + ws.length := by rw [length_cons]; omega
    rw [cons_append, kept_cons, kept_cons, ih (i + 1), hlen]
    by_cases hk : keep i = true
    · rw [if_pos hk, if_pos hk, cons_append]
    · rw [if_neg hk, if_neg hk]

end

/-- The contents after a list of writes. -/
def applyWrites (m : α → β) : List (α × β) → α → β
  | [] => m
  | w :: ws => applyWrites (update m w.1 w.2) ws

/-- What is durable, and the writes issued since the last flush. -/
structure Store (α β : Type) where
  medium : α → β
  pending : List (α × β)

namespace Store

/-- What a read sees. -/
def view (s : Store α β) : α → β := applyWrites s.medium s.pending

def exec (s : Store α β) : StoreOp α β → Store α β
  | .write a v => { s with pending := s.pending ++ [(a, v)] }
  | .flush => ⟨s.view, []⟩

/-- The store after a list of requests. -/
def run (s : Store α β) (ops : List (StoreOp α β)) : Store α β := ops.foldl exec s

/-- The medium after a crash. -/
def crash (s : Store α β) (keep : Nat → Bool) : α → β := applyWrites s.medium (kept keep 0 s.pending)

end Store

/-! ## Lists of writes -/

variable {x : α}

theorem applyWrites_append (m : α → β) (ws vs : List (α × β)) :
    applyWrites m (ws ++ vs) = applyWrites (applyWrites m ws) vs := by
  induction ws generalizing m with
  | nil => rfl
  | cons w ws ih => exact ih _

/-- An address that is not written keeps its value. -/
theorem applyWrites_other (ws : List (α × β)) (m : α → β) (h : ∀ w ∈ ws, w.1 ≠ x) : applyWrites m ws x = m x := by
  induction ws generalizing m with
  | nil => rfl
  | cons w ws ih =>
    show applyWrites (update m w.1 w.2) ws x = m x
    rw [ih _ fun v hv => h v (mem_cons_of_mem _ hv)]
    exact update_of_ne (h w mem_cons_self).symm _ _

/-- Two stores that agree where nothing is written agree after the writes. -/
theorem applyWrites_congr (ws : List (α × β)) (m m' : α → β)
    (h : (∀ w ∈ ws, w.1 ≠ x) → m x = m' x) : applyWrites m ws x = applyWrites m' ws x := by
  induction ws generalizing m m' with
  | nil => exact h fun w hw => absurd hw not_mem_nil
  | cons w ws ih =>
    show applyWrites (update m w.1 w.2) ws x = applyWrites (update m' w.1 w.2) ws x
    refine ih _ _ fun hrest => ?_
    by_cases hx : x = w.1
    · rw [hx, update_self, update_self]
    · rw [update_of_ne hx, update_of_ne hx]
      refine h fun v hv => ?_
      rcases mem_cons.mp hv with rfl | hv
      · exact fun he => hx he.symm
      · exact hrest v hv

/-- **Redo.**  Writing everything over a store that took part of the writes gives what writing
    everything over the untouched store gives. -/
theorem applyWrites_redo (ws vs : List (α × β)) (m m' : α → β) (hvs : ∀ v ∈ vs, ∃ w ∈ ws, w.1 = v.1) (hm : (∀ v ∈ vs, v.1 ≠ x) → m' x = m x) :
    applyWrites m' ws x = applyWrites m ws x := by
  refine applyWrites_congr ws m' m fun hnot => hm fun v hv he => ?_
  obtain ⟨w, hw, hwv⟩ := hvs v hv
  exact hnot w hw (hwv.trans he)

/-- With distinct addresses, an address that is written has the value written there. -/
theorem applyWrites_mem (ws : List (α × β)) (m : α → β) (hnd : (ws.map Prod.fst).Nodup) {w : α × β}
    (hw : w ∈ ws) : applyWrites m ws w.1 = w.2 := by
  induction ws generalizing m with
  | nil => exact absurd hw not_mem_nil
  | cons v ws ih =>
    rw [map_cons, nodup_cons] at hnd
    rcases mem_cons.mp hw with rfl | hw
    · show applyWrites (update m w.1 w.2) ws w.1 = w.2
      rw [applyWrites_other ws _ fun u hu he => hnd.1 (mem_map.mpr ⟨u, hu, he⟩)]
      exact update_self _ _ _
    · exact ih _ hnd.2 hw

namespace Store

/-! ## Requests -/

variable {s : Store α β}

theorem run_append (s : Store α β) (ops ops' : List (StoreOp α β)) :
    s.run (ops ++ ops') = (s.run ops).run ops' := foldl_append

/-- A list of writes only queues them. -/
theorem run_writes (s : Store α β) (ws : List (α × β)) :
    s.run (ws.map fun w => .write w.1 w.2) = { s with pending := s.pending ++ ws } := by
  induction ws generalizing s with
  | nil => simp [run]
  | cons w ws ih =>
    show (s.exec (.write w.1 w.2)).run (ws.map fun w => .write w.1 w.2) = _
    rw [ih]
    simp [exec]

theorem view_writes (s : Store α β) (ws : List (α × β)) :
    ({ s with pending := s.pending ++ ws } : Store α β).view = applyWrites s.view ws :=
  applyWrites_append _ _ _

/-- One more write and a flush make everything durable, the write last. -/
theorem write_flush (m : α → β) (ws : List (α × β)) (a : α) (v : β) :
    ((⟨m, ws⟩ : Store α β).exec (.write a v)).exec .flush = ⟨update (applyWrites m ws) a v, []⟩ := by
  show (⟨applyWrites m (ws ++ [(a, v)]), []⟩ : Store α β) = _
  rw [applyWrites_append]
  rfl

/-- With nothing pending, what is durable is what is seen. -/
theorem eq_of_flushed (h : s.pending = []) : s = ⟨s.view, []⟩ := by
  obtain ⟨m, ws⟩ := s
  subst h
  rfl

/-! ## Every point of a list of requests -/

variable {P : Store α β → Prop}

/-- `P` holds before, between and after the requests. -/
def Throughout (P : Store α β → Prop) (s : Store α β) (ops : List (StoreOp α β)) : Prop :=
  ∀ k, P (s.run (ops.take k))

theorem Throughout.append {ops ops' : List (StoreOp α β)}
    (h : Throughout P s ops) (h' : Throughout P (s.run ops) ops') : Throughout P s (ops ++ ops') := by
  intro k
  rcases Nat.le_total k ops.length with hk | hk
  · rw [take_append_of_le_length hk]
    exact h k
  · rw [take_append, take_of_length_le hk, run_append]
    exact h' _

/-- Along a list of writes only the pending list grows. -/
theorem Throughout.writes {ws : List (α × β)} (h : ∀ k, P { s with pending := s.pending ++ ws.take k }) :
    Throughout P s (ws.map fun w => .write w.1 w.2) := by
  intro k
  rw [← map_take, run_writes]
  exact h k

theorem Throughout.flush (h : P s) (h' : P (s.exec .flush)) : Throughout P s [.flush] := by
  intro k
  cases k with
  | zero => exact h
  | succ k => rw [take_of_length_le (by simp)]; exact h'

end Store

end Aegir.Lib
