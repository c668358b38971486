/-
  The sleep list is exact.

  `Sleeps s m` says that the list holds the threads of `m`, in the order of their deadlines, those that fell
  asleep first in front; `Exact` adds that these are all the sleepers, and says what `Check_Sleepers` and
  `Next_Timer_Deadline` do at any time.  Inside `Sleep_Until` the caller is on the list BEFORE it is blocked,
  and the check runs in between.
-/
import Aegir.Laws.PopOrder

namespace Aegir.Scheduler

open Aegir.Lib List Function
open Aegir.Kernel (ThreadState threadBound)

/-! ## The list -/

variable {s s' : Sched} {m m' : List Nat} {t h : Nat}

/-- The successor on the sleep list; that of the sentinel is the head. -/
def Sched.afterOf (s : Sched) (t : Nat) : Nat := if t = 0 then s.sleepHead else (s.task t).sleepNext

/-- Setting the successor of a sleeper, or the head. -/
def Sched.setAfter (s : Sched) (p n : Nat) : Sched :=
  if p ≠ 0 then s.modTask p fun c => { c with sleepNext := n } else { s with sleepHead := n }

/-- What the sleep list depends on. -/
def bed (c : Task) : ThreadState × Nat × Nat := (c.state, c.deadline, c.sleepNext)

namespace Keeps

theorem state (hk : Keeps Task.sleepless s s') (x : Nat) : (s'.task x).state = (s.task x).state :=
  (congrArg Task.state (hk x) :)

theorem deadline (hk : Keeps Task.sleepless s s') (x : Nat) : (s'.task x).deadline = (s.task x).deadline :=
  (congrArg Task.deadline (hk x) :)

theorem bed (hk : Keeps Task.self s s') : Keeps bed s s' := fun x => (congrArg Scheduler.bed (hk x) :)

theorem afterOf (hk : Keeps Scheduler.bed s s') (hhead : s'.sleepHead = s.sleepHead) : s'.afterOf = s.afterOf := by
  funext x
  have hx : (s'.task x).sleepNext = (s.task x).sleepNext :=
    congrArg (fun b : ThreadState × Nat × Nat => b.2.2) (hk x)
  unfold Sched.afterOf
  rw [hhead, hx]

end Keeps

theorem afterOf_setAfter (s : Sched) (p n : Nat) : (s.setAfter p n).afterOf = update s.afterOf p n := by
  funext x
  unfold Sched.setAfter Sched.afterOf
  by_cases hp : p = 0
  · subst hp
    by_cases hx : x = 0 <;> simp [hx]
  · by_cases hx : x = 0
    · have hxp : x ≠ p := by omega
      simp [hp, hx, Ne.symm hp, Sched.modTask]
    · by_cases hxp : x = p
      · subst hxp
        simp [hp]
      · simp [hp, hx, hxp, task_modTask]

theorem afterOf_modTask (s : Sched) (t : Nat) {f : Task → Task} (hf : ∀ c, (f c).sleepNext = c.sleepNext) :
    (s.modTask t f).afterOf = s.afterOf := by
  funext x
  unfold Sched.afterOf
  rw [task_modTask]
  split_ifs with h0 e
  · rfl
  · rw [hf, e]
  · rfl

theorem deadline_modTask (s : Sched) (t : Nat) {f : Task → Task} (hf : ∀ c, (f c).deadline = c.deadline) :
    Keeps Task.deadline s (s.modTask t f) := .modTask s t hf

/-- The list is `m`, in the order of the deadlines. -/
structure Sleeps (s : Sched) (m : List Nat) : Prop where
  chain : IsChain 0 s.afterOf (s.afterOf 0) m
  bound : ∀ t ∈ m, t < threadBound
  sorted : m.Pairwise fun a b => (s.task a).deadline ≤ (s.task b).deadline

namespace Sleeps

section

variable (hs : Sleeps s m)

include hs

theorem nodup : (0 :: m).Nodup :=
  nodup_cons.mpr ⟨fun h0 => hs.chain.ne_null h0 rfl, hs.chain.nodup⟩

theorem length_lt : m.length < threadBound := length_lt_bound hs.nodup hs.bound

theorem head : s.sleepHead = m.headD 0 := by
  have hc := hs.chain
  cases m with
  | nil => exact hc
  | cons x xs => exact hc.1

theorem congr (ha : ∀ x ∈ 0 :: m, s'.afterOf x = s.afterOf x)
    (hd : ∀ t ∈ m, (s'.task t).deadline = (s.task t).deadline) : Sleeps s' m := by
  refine ⟨?_, hs.bound, hs.sorted.imp_of_mem fun {a b} ha hb hab => ?_⟩
  · rw [ha 0 mem_cons_self]
    exact hs.chain.congr fun x hx => ha x (mem_cons_of_mem 0 hx)
  · rw [hd a ha, hd b hb]
    exact hab

theorem same (ha : s'.afterOf = s.afterOf)
    (hd : ∀ t ∈ m, (s'.task t).deadline = (s.task t).deadline) : Sleeps s' m :=
  hs.congr (fun x _ => congrFun ha x) hd

end

end Sleeps

/-! ## Leaving -/

theorem removeSleeperAt_step (prev cur n : Nat) (h0 : cur ≠ 0) (ht : cur ≠ t) :
    s.removeSleeperAt t (n + 1) prev cur = s.removeSleeperAt t n cur (s.afterOf cur) := by
  rw [Sched.removeSleeperAt, if_neg h0, if_neg ht, Sched.afterOf, if_neg h0]

theorem Sleeps.removeSleeper_absent (hs : Sleeps s m) (ht : t ∉ m) : s.removeSleeper t = s := by
  refine hs.chain.walk_past (g := fun prev cur n => s.removeSleeperAt t n prev cur) removeSleeperAt_step
    (fun p n => ?_) (fun _ _ => rfl) ht threadBound
  cases n <;> simp [Sched.removeSleeperAt]

/-- The node before the thread takes over its successor. -/
theorem Sleeps.chain_remove {b c : List Nat} (hs : Sleeps s (b ++ t :: c)) :
    IsChain 0 (s.removeSleeper t).afterOf ((s.removeSleeper t).afterOf 0) (b ++ c) := by
  have hc := hs.chain
  have hnd := hs.nodup
  have ht : t ≠ 0 := hc.ne_null (by simp)
  have htail := (nodup_middle hnd).2
  have hout : t ∉ 0 :: (b ++ c) := by
    rw [mem_cons]
    exact fun h => h.elim ht htail
  have hlen : b.length < threadBound := by
    have hlt := hs.length_lt
    simp only [length_append, length_cons] at hlt
    omega
  obtain ⟨n, hwalk⟩ : ∃ n, s.removeSleeper t = s.removeSleeperAt t (n + 1) (b.getLastD 0) t :=
    hc.walk_to (g := fun prev cur n => s.removeSleeperAt t n prev cur) removeSleeperAt_step
      (fun h => htail (mem_append_left _ h)) hlen
  rw [hwalk, Sched.removeSleeperAt, if_neg ht, if_pos rfl]
  have hlast : b.getLastD 0 ∈ 0 :: (b ++ c) := mem_append_left c getLastD_mem_cons
  -- the links after the three writes
  dsimp only
  generalize hs1 : (if b.getLastD 0 ≠ 0 then s.modTask (b.getLastD 0) fun c1 =>
    { c1 with sleepNext := (s.task t).sleepNext } else { s with sleepHead := (s.task t).sleepNext }) = s₁
  have hs1' : s₁.afterOf = update s.afterOf (b.getLastD 0) (s.afterOf t) := by
    have hn : s.afterOf t = (s.task t).sleepNext := if_neg ht
    rw [← hs1, hn]
    exact afterOf_setAfter s _ _
  generalize hs2 : (if (s.task t).sleepNext ≠ 0 then s₁.modTask (s.task t).sleepNext fun c1 =>
    { c1 with sleepPrev := b.getLastD 0 } else s₁) = s₂
  have hs2' : s₂.afterOf = s₁.afterOf := by
    rw [← hs2]
    split_ifs
    · exact afterOf_modTask _ _ fun _ => rfl
    · rfl
  have hafter : ∀ y, y ∈ 0 :: (b ++ c) → (s₂.modTask t fun c1 => { c1 with sleepNext := 0, sleepPrev := 0 }).afterOf y =
      update s.afterOf (b.getLastD 0) (s.afterOf t) y := by
    intro y hy
    have hyt : y ≠ t := fun e => hout (e ▸ hy)
    rw [← hs1', ← hs2']
    unfold Sched.afterOf
    rw [task_modTask_ne _ _ hyt]
    rfl
  refine IsChain.unlinkAfter _ hc hnd ?_ fun y hy hne => ?_
  · rw [hafter _ hlast, update_self]
  · rw [hafter y hy, update_of_ne hne]

/-- `m'` is `m` without the thread. -/
structure Without (t : Nat) (m m' : List Nat) : Prop where
  sublist : m'.Sublist m
  out : t ∉ m'
  others : ∀ x, x ≠ t → (x ∈ m' ↔ x ∈ m)

theorem Without.absent (ht : t ∉ m) : Without t m m := ⟨List.Sublist.refl m, ht, fun _ _ => Iff.rfl⟩

/-- **`Remove_Sleeper`**: the list without the thread. -/
theorem Sleeps.remove {b c : List Nat} (hs : Sleeps s (b ++ t :: c)) : Sleeps (s.removeSleeper t) (b ++ c) := by
  have hsub : (b ++ c).Sublist (b ++ t :: c) := List.Sublist.append_left (sublist_cons_self t c) b
  have hkeep := removeSleeper_keeps s t
  refine ⟨hs.chain_remove, fun x hx => hs.bound x (hsub.subset hx), (hs.sorted.sublist hsub).imp fun {x y} hxy => ?_⟩
  rw [hkeep.deadline, hkeep.deadline]
  exact hxy

theorem Sleeps.leave (hs : Sleeps s m) (t : Nat) : ∃ m', Without t m m' ∧ Sleeps (s.removeSleeper t) m' := by
  by_cases ht : t ∈ m
  · obtain ⟨b, c, rfl⟩ := append_of_mem ht
    exact ⟨b ++ c, ⟨List.Sublist.append_left (sublist_cons_self t c) b, (nodup_middle hs.nodup).2,
      fun x hx => mem_middle hx⟩, hs.remove⟩
  · rw [hs.removeSleeper_absent ht]
    exact ⟨m, .absent ht, hs⟩

/-! ## Operations of the ready list -/

theorem push_keeps (s : Sched) (t : Nat) (boost : Bool) :
    Keeps Task.self s (s.push t boost).1 ∧ (s.push t boost).1.sleepHead = s.sleepHead := by
  unfold Sched.push
  split_ifs
  · exact ⟨.refl s, rfl⟩
  · exact ⟨.refl s, rfl⟩
  · exact ⟨pushed_self s t boost, congrArg (fun r => r.2.2) (pushed_rest s t boost)⟩

/-- `Push` of a live thread queues it, and takes no other off. -/
theorem push_queued (boost : Bool) (ht : t ≠ 0) (hd : (s.task t).state ≠ .dead) :
    ((s.push t boost).1.task t).queued = true ∧
      ∀ x, (s.task x).queued = true → ((s.push t boost).1.task x).queued = true := by
  unfold Sched.push
  rw [if_neg (by simp [ht, hd])]
  split_ifs with hq
  · exact ⟨hq, fun _ h => h⟩
  · have hmark := pushed_mark s t boost
    constructor
    · have hself := hmark t
      rw [if_pos rfl] at hself
      exact congrArg Mark.queued hself
    · intro x hx
      refine (congrArg Mark.queued (hmark x)).trans ?_
      split_ifs
      · rfl
      · exact hx

theorem roused_keeps (s : Sched) (t : Nat) : Keeps Task.sleepless s (s.roused t) := by
  unfold Sched.roused
  split_ifs
  · exact removeSleeper_keeps s t
  · exact .refl s

/-- **What `Wake` does to a blocked thread.** -/
structure Woken (s s' : Sched) (t : Nat) : Prop where
  ready : (s'.task t).state = .ready
  queued : (s'.task t).queued = true
  state : ∀ x, x ≠ t → (s'.task x).state = (s.task x).state
  deadline : ∀ x, (s'.task x).deadline = (s.task x).deadline
  others : ∀ x, (s.task x).queued = true → (s'.task x).queued = true

theorem Woken.of_keeps {s₁ : Sched} (hk : Keeps Task.sleepless s s₁) (hw : Woken s₁ s' t) : Woken s s' t :=
  ⟨hw.ready, hw.queued, fun x hx => (hw.state x hx).trans (hk.state x),
    fun x => (hw.deadline x).trans (hk.deadline x), fun x hx => hw.others x ((congrArg Task.queued (hk x)).trans hx)⟩

theorem wake_woken (s : Sched) (t : Nat) : ((t ≠ 0 → (s.task t).state ≠ .blockedSleeping) ∧ s.wake t = s) ∨
    (Woken s (s.wake t) t ∧ (s.wake t).afterOf = (s.roused t).afterOf) := by
  rcases wake_cases s t with h | ⟨ht, -, -, -, hwake⟩
  · exact .inl h
  · right
    rw [hwake]
    have hk := roused_keeps s t
    generalize s.roused t = s₁ at hk ⊢
    generalize hf : (fun c : Task => { c with state := ThreadState.ready, boosted := true }) = f
    have hready : ((s₁.modTask t f).task t).state = .ready := by
      rw [task_modTask_self, ← hf]
    obtain ⟨hself, hhead⟩ := push_keeps (s₁.modTask t f) t true
    obtain ⟨hq, hothers⟩ := push_queued (s := s₁.modTask t f) true ht (by rw [hready]; decide)
    have hstate : ∀ x, (((s₁.modTask t f).push t true).1.task x).state = ((s₁.modTask t f).task x).state :=
      fun x => (congrArg Task.state (hself x) :)
    have hdeadline : Keeps Task.deadline s₁ (s₁.modTask t f) := .modTask _ _ fun c => by rw [← hf]
    have hqueued : Keeps Task.queued s₁ (s₁.modTask t f) := .modTask _ _ fun c => by rw [← hf]
    refine ⟨.of_keeps hk ⟨(hstate t).trans hready, hq, fun x hx => ?_, fun x => ?_, fun x hx => ?_⟩, ?_⟩
    · rw [hstate, task_modTask_ne _ _ hx]
    · exact (congrArg Task.deadline (hself x) :).trans (hdeadline x)
    · exact hothers x ((hqueued x).trans hx)
    · rw [hself.bed.afterOf hhead]
      exact afterOf_modTask _ _ fun _ => by rw [← hf]

/-! ## `Check_Sleepers` -/

/-- The sleepers whose deadline has come, and the others. -/
def expired (s : Sched) (now : Nat) (m : List Nat) : List Nat := m.filter fun t => decide ((s.task t).deadline ≤ now)

def pending (s : Sched) (now : Nat) (m : List Nat) : List Nat := m.filter fun t => decide (now < (s.task t).deadline)

theorem mem_pending {x now : Nat} : x ∈ pending s now m ↔ x ∈ m ∧ x ∉ expired s now m := by
  simp only [pending, expired, mem_filter, decide_eq_true_eq, not_and, Nat.not_le]
  exact ⟨fun h => ⟨h.1, fun _ => h.2⟩, fun h => ⟨h.1, h.2 h.1⟩⟩

/-- Waking sleepers one after the other, as the loop does. -/
def Sched.wakeSleepers (s : Sched) (ts : List Nat) : Sched := ts.foldl (fun s t => (s.removeSleeper t).wake t) s

/-- What a check at `now` does. -/
structure Checked (s : Sched) (m : List Nat) (now : Nat) (s' : Sched) : Prop where
  order : s' = s.wakeSleepers (expired s now m)
  woken : ∀ t ∈ expired s now m, (s'.task t).state = .ready ∧ (s'.task t).queued = true
  others : ∀ t, t ∉ expired s now m → (s'.task t).state = (s.task t).state
  deadline : ∀ t, (s'.task t).deadline = (s.task t).deadline
  queued : ∀ t, (s.task t).queued = true → (s'.task t).queued = true
  rest : Sleeps s' (pending s now m)

theorem Sleeps.round (hs : Sleeps s (t :: m)) (hsleep : (s.task t).state = .blockedSleeping) :
    Woken s ((s.removeSleeper t).wake t) t ∧ Sleeps ((s.removeSleeper t).wake t) m := by
  have hk := removeSleeper_keeps s t
  have hrest : Sleeps (s.removeSleeper t) m := Sleeps.remove (b := []) hs
  have hroused : (s.removeSleeper t).roused t = s.removeSleeper t := by
    unfold Sched.roused
    rw [hrest.removeSleeper_absent (nodup_cons.mp hs.chain.nodup).1, ite_self]
  rcases wake_woken (s.removeSleeper t) t with ⟨hno, -⟩ | ⟨hw, hafter⟩
  · -- a sleeper is never passed over
    exact absurd ((hk.state t).trans hsleep) (hno (hs.chain.ne_null mem_cons_self))
  · rw [hroused] at hafter
    exact ⟨.of_keeps hk hw, hrest.same hafter fun x _ => hw.deadline x⟩

/-- **`Check_Sleepers`** wakes the expired sleepers, in the order of the list, and leaves the others. -/
theorem Sleeps.check (now fuel : Nat) (hs : Sleeps s m)
    (hsleep : ∀ t ∈ m, (s.task t).deadline ≤ now → (s.task t).state = .blockedSleeping) (hfuel : m.length < fuel) :
    Checked s m now (Sched.checkSleepers now fuel s) := by
  induction fuel generalizing s m with
  | zero => omega
  | succ fuel ih =>
    rw [Sched.checkSleepers, hs.head]
    cases m with
    | nil =>
      exact ⟨rfl, fun t ht => absurd ht not_mem_nil, fun _ _ => rfl, fun _ => rfl, fun _ h => h, hs⟩
    | cons t m =>
      have ht : t ≠ 0 := hs.chain.ne_null mem_cons_self
      have hsorted := pairwise_cons.mp hs.sorted
      rw [headD_cons]
      by_cases hexp : (s.task t).deadline ≤ now
      · -- the first sleeper is due
        rw [if_pos ⟨ht, hexp⟩]
        have hst := hsleep t mem_cons_self hexp
        obtain ⟨hw, hrest⟩ := hs.round hst
        have hout : t ∉ m := (nodup_cons.mp hs.chain.nodup).1
        rw [length_cons] at hfuel
        have hc := ih hrest (fun x hx hd => by
          rw [hw.state x fun e => hout (e ▸ hx)]
          rw [hw.deadline x] at hd
          exact hsleep x (mem_cons_of_mem _ hx) hd) (by omega)
        have hexpired : expired s now (t :: m) = t :: expired ((s.removeSleeper t).wake t) now m := by
          unfold expired
          rw [filter_cons_of_pos (by simpa using hexp)]
          congr 2
          funext x
          rw [hw.deadline]
        have hpending : pending s now (t :: m) = pending ((s.removeSleeper t).wake t) now m := by
          unfold pending
          rw [filter_cons_of_neg (by simpa using hexp)]
          congr 1
          funext x
          rw [hw.deadline]
        refine ⟨?_, fun x hx => ?_, fun x hx => ?_, fun x => ?_, fun x hx => ?_, ?_⟩
        · rw [hexpired]
          exact hc.order
        · rw [hexpired] at hx
          rcases mem_cons.mp hx with rfl | hx
          · rw [hc.others x fun h => hout (mem_filter.mp h).1]
            exact ⟨hw.ready, hc.queued x hw.queued⟩
          · exact hc.woken x hx
        · rw [hexpired, mem_cons, not_or] at hx
          rw [hc.others x hx.2, hw.state x hx.1]
        · rw [hc.deadline, hw.deadline]
        · exact hc.queued x (hw.others x hx)
        · rw [hpending]
          exact hc.rest
      · -- nobody is due
        rw [if_neg fun h => hexp h.2]
        have hnone : ∀ x ∈ t :: m, ¬ (s.task x).deadline ≤ now := by
          intro x hx
          rcases mem_cons.mp hx with rfl | hx
          · exact hexp
          · have := hsorted.1 x hx
            omega
        have hexpired : expired s now (t :: m) = [] := by
          unfold expired
          rw [filter_eq_nil_iff]
          intro x hx
          simpa using hnone x hx
        have hpending : pending s now (t :: m) = t :: m := by
          unfold pending
          rw [filter_eq_self]
          intro x hx
          simpa using hnone x hx
        refine ⟨?_, fun x hx => ?_, fun _ _ => rfl, fun _ => rfl, fun _ h => h, ?_⟩
        · rw [hexpired]
          rfl
        · rw [hexpired] at hx
          exact absurd hx not_mem_nil
        · rw [hpending]
          exact hs

/-! ## `Insert_Sleeper` -/

/-- **Where a sleeper goes**: behind all whose deadline is not later. -/
theorem sleepPlace_spec (deadline fuel p : Nat) {cur : Nat} (hc : IsChain 0 s.afterOf cur m) (hfuel : m.length < fuel) :
    ∃ b c, m = b ++ c ∧ s.sleepPlace deadline fuel p cur = (b.getLastD p, c.headD 0) ∧
      (∀ x ∈ b, (s.task x).deadline ≤ deadline) ∧ ∀ x ∈ c.head?, deadline < (s.task x).deadline := by
  induction m generalizing fuel p cur with
  | nil =>
    obtain ⟨n, rfl⟩ : ∃ n, fuel = n + 1 := Nat.exists_eq_succ_of_ne_zero (Nat.ne_zero_of_lt hfuel)
    refine ⟨[], [], rfl, ?_, fun x hx => absurd hx not_mem_nil, fun x hx => by cases hx⟩
    rw [Sched.sleepPlace, if_neg (fun h => h.1 hc), hc]
    rfl
  | cons x xs ih =>
    obtain ⟨n, rfl⟩ : ∃ n, fuel = n + 1 := Nat.exists_eq_succ_of_ne_zero (Nat.ne_zero_of_lt hfuel)
    obtain ⟨rfl, h0, hrest⟩ := hc
    rw [Sched.sleepPlace]
    by_cases hd : (s.task cur).deadline ≤ deadline
    · rw [if_pos ⟨h0, hd⟩]
      have hnext : s.afterOf cur = (s.task cur).sleepNext := if_neg h0
      rw [hnext] at hrest
      obtain ⟨b, c, hsplit, hplace, hb, hhead⟩ := ih n cur hrest (Nat.lt_of_succ_lt_succ hfuel)
      refine ⟨cur :: b, c, by rw [hsplit, cons_append], by rw [hplace, getLastD_cons], fun y hy => ?_, hhead⟩
      rcases mem_cons.mp hy with rfl | hy
      · exact hd
      · exact hb y hy
    · rw [if_neg fun h => hd h.2]
      refine ⟨[], cur :: xs, rfl, rfl, fun y hy => absurd hy not_mem_nil, fun y hy => ?_⟩
      rw [head?_cons, Option.mem_some_iff] at hy
      rw [← hy]
      omega

theorem pairwise_insert {R : Nat → Nat → Prop} {b c : List Nat} (hall : (b ++ c).Pairwise R) (hb : ∀ x ∈ b, R x t)
    (hc : ∀ y ∈ c, R t y) : (b ++ t :: c).Pairwise R := by
  obtain ⟨h1, h2, h3⟩ := pairwise_append.mp hall
  refine pairwise_append.mpr ⟨h1, pairwise_cons.mpr ⟨hc, h2⟩, fun x hx y hy => ?_⟩
  rcases mem_cons.mp hy with rfl | hy
  · exact hb x hx
  · exact h3 x hx y hy

/-- **`Insert_Sleeper`**: behind the sleepers whose deadline is not later, before the others. -/
theorem Sleeps.insert (hs : Sleeps s m) (ht : t ≠ 0) (hlt : t < threadBound) (hout : t ∉ m) :
    ∃ b c, m = b ++ c ∧ Sleeps (s.insertSleeper t) (b ++ t :: c) ∧
      (∀ x ∈ b, (s.task x).deadline ≤ (s.task t).deadline) ∧ ∀ x ∈ c, (s.task t).deadline < (s.task x).deadline := by
  obtain ⟨b, c, hsplit, hplace, hb, hhead⟩ :=
    sleepPlace_spec (s.task t).deadline threadBound 0 hs.chain hs.length_lt
  have hplace' : s.sleepPlace (s.task t).deadline threadBound 0 s.sleepHead = (b.getLastD 0, c.headD 0) := hplace
  subst hsplit
  have hc : ∀ x ∈ c, (s.task t).deadline < (s.task x).deadline := by
    intro x hx
    cases c with
    | nil => exact absurd hx not_mem_nil
    | cons y ys =>
      have hy := hhead y rfl
      rcases mem_cons.mp hx with rfl | hx
      · exact hy
      · have hle := (pairwise_cons.mp (pairwise_append.mp hs.sorted).2.1).1 x hx
        omega
  have hkeep := insertSleeper_keeps s t
  refine ⟨b, c, rfl, ⟨?_, fun x hx => ?_, ?_⟩, hb, hc⟩
  · -- the links after the writes
    have hnd := hs.nodup
    have hlast : b.getLastD 0 ∈ 0 :: (b ++ c) := mem_append_left c getLastD_mem_cons
    have hne : ∀ y ∈ 0 :: (b ++ c), y ≠ t := by
      rintro y hy rfl
      rcases mem_cons.mp hy with h | h
      · exact ht h
      · exact hout h
    have hlinks : (s.insertSleeper t).afterOf =
        update (update s.afterOf t (c.headD 0)) (b.getLastD 0) t := by
      unfold Sched.insertSleeper
      rw [hplace']
      dsimp only
      generalize hs1 : s.modTask t (fun c1 => { c1 with sleepPrev := b.getLastD 0, sleepNext := c.headD 0 }) = s₁
      have hs1' : s₁.afterOf = update s.afterOf t (c.headD 0) := by
        rw [← hs1]
        funext x
        unfold Sched.afterOf
        rw [task_modTask]
        split_ifs with hx hxt
        · rw [hx, update_of_ne (Ne.symm ht), if_pos rfl]
          rfl
        · rw [hxt, update_self]
        · rw [update_of_ne hxt, if_neg hx]
      generalize hs2 : (if b.getLastD 0 ≠ 0 then s₁.modTask (b.getLastD 0) fun c1 => { c1 with sleepNext := t }
        else { s₁ with sleepHead := t }) = s₂
      have hs2' : s₂.afterOf = update s₁.afterOf (b.getLastD 0) t := by
        rw [← hs2]
        exact afterOf_setAfter s₁ _ _
      rw [← hs1', ← hs2']
      split
      · exact afterOf_modTask _ _ fun _ => rfl
      · rfl
    have hchain := hs.chain
    refine IsChain.insertAfter _ hchain hnd ht ?_ ?_ fun y hy hyl => ?_
    · rw [hlinks, update_self]
    · rw [hlinks, update_of_ne (Ne.symm (hne _ hlast)), update_self]
      have hrest := hchain.rest
      cases c with
      | nil => exact hrest.symm
      | cons y ys => exact hrest.1.symm
    · rw [hlinks, update_of_ne hyl, update_of_ne (hne y hy)]
  · rcases mem_append.mp hx with h | h
    · exact hs.bound x (mem_append_left _ h)
    · rcases mem_cons.mp h with rfl | h
      · exact hlt
      · exact hs.bound x (mem_append_right _ h)
  · simp only [hkeep.deadline]
    exact pairwise_insert hs.sorted hb fun x hx => (hc x hx).le

/-! ## Runs -/

/-- What happens to the scheduler, with the sleep list in view: an operation that does not put a thread to
    sleep or kill a sleeper, and those that do. -/
inductive SleepOp where
  | base (op : Op)
  /-- `Mark_Exited` or `Thread_Exit` marks a thread dead and removes it -/
  | bury (t : Nat)
  | sleepUntil (h deadline now : Nat)
  | checkSleepers (now : Nat)

/-- A base operation leaves the sleepers alone, or goes through `Wake`. -/
def Awake (s : Sched) : Op → Prop
  | .block _ state => state ≠ .blockedSleeping
  | .kill t | .create t _ => (s.task t).state ≠ .blockedSleeping
  | _ => True

/-- What the callers see to: a hart that blocks its thread has it running. -/
def SleepFits (s : Sched) : SleepOp → Prop
  | .base op => Fits s op ∧ Awake s op
  | .sleepUntil h _ _ => s.current h = 0 ∨ (s.task (s.current h)).state = .running
  | _ => True

def Sched.performSleep (s : Sched) : SleepOp → Sched
  | .base op => s.perform op
  | .bury t => (s.modTask t fun c => { c with state := .dead, queued := false }).removeThread t
  | .sleepUntil h deadline now => s.sleepUntil h deadline now
  | .checkSleepers now => Sched.checkSleepers now threadBound s

/-- A scheduler, and when each thread last fell asleep. -/
structure SleepTrack where
  sched : Sched
  slept : Nat → Nat
  clock : Nat

/-- The scheduler goes on to `s`; threads that have fallen asleep are stamped. -/
def SleepTrack.to (r : SleepTrack) (s : Sched) : SleepTrack where
  sched := s
  slept := fun t => if (s.task t).state = .blockedSleeping ∧ (r.sched.task t).state ≠ .blockedSleeping then r.clock
    else r.slept t
  clock := r.clock + 1

def SleepTrack.step (r : SleepTrack) (op : SleepOp) : SleepTrack := r.to (r.sched.performSleep op)

/-- From the boot state, by operations that their callers may do. -/
inductive SleepReached : SleepTrack → Prop
  | start : SleepReached ⟨bootSched, fun _ => 0, 0⟩
  | step {r : SleepTrack} (hr : SleepReached r) (op : SleepOp) (hfits : SleepFits r.sched op) :
    SleepReached (r.step op)

/-! ## The ready list, once more -/

/-- The ready list is in order, for some stamps. -/
def Ordered (s : Sched) : Prop := ∃ (r : Track) (l : List Nat), r.sched = s ∧ Stamped r l

namespace Ordered

theorem lined (ho : Ordered s) : ∃ l, Lined s l := by
  obtain ⟨r, l, rfl, hr⟩ := ho
  exact ⟨l, hr.lined⟩

theorem perform {a : Op} (ho : Ordered s) (hfits : Fits s a) : Ordered (s.perform a) := by
  obtain ⟨r, l, rfl, hr⟩ := ho
  obtain ⟨l', hl'⟩ := hr.step hfits
  exact ⟨_, l', rfl, hl'⟩

theorem same (ho : Ordered s) (hs : SameQueue s s') : Ordered s' := by
  obtain ⟨r, l, rfl, hr⟩ := ho
  exact ⟨_, l, rfl, hr.stay (hs.listed hr.lined) (.of_same hs)⟩

theorem check (ho : Ordered s) (now fuel : Nat) : Ordered (Sched.checkSleepers now fuel s) := by
  induction fuel generalizing s with
  | zero => exact ho
  | succ fuel ih =>
    rw [Sched.checkSleepers]
    split_ifs
    · exact ih ((ho.same (removeSleeper_same s s.sleepHead)).perform (a := .wake s.sleepHead) trivial)
    · exact ho

end Ordered

/-! ## The invariant -/

variable {r : SleepTrack}

/-- The list holds the sleepers. -/
structure Naps (s : Sched) (m : List Nat) : Prop extends Sleeps s m where
  members : ∀ t, t ∈ m ↔ (s.task t).state = .blockedSleeping

/-- The sleep list holds the sleepers, in order. -/
structure Nap (r : SleepTrack) (m : List Nat) : Prop where
  ready : Ordered r.sched
  naps : Naps r.sched m
  older : ∀ t ∈ m, r.slept t < r.clock
  fifo : m.Pairwise fun a b => (r.sched.task a).deadline = (r.sched.task b).deadline → r.slept a < r.slept b

/-- What an operation does that puts nobody to sleep. -/
structure Rests (s : Sched) (m : List Nat) (s' : Sched) (m' : List Nat) : Prop where
  sublist : m'.Sublist m
  naps : Naps s' m'
  deadline : ∀ t ∈ m', (s'.task t).deadline = (s.task t).deadline

theorem Nap.slept_of_mem (hn : Nap r m) (ht : t ∈ m) : (r.to s).slept t = r.slept t := by
  refine if_neg ?_
  rintro ⟨-, hne⟩
  exact hne ((hn.naps.members t).mp ht)

theorem Nap.rest (hn : Nap r m) (ho : Ordered s) (hr : Rests r.sched m s m') : Nap (r.to s) m' := by
  refine ⟨ho, hr.naps, fun t ht => ?_, (hn.fifo.sublist hr.sublist).imp_of_mem fun {a b} ha hb hab heq => ?_⟩
  · rw [hn.slept_of_mem (hr.sublist.subset ht)]
    exact Nat.lt_succ_of_lt (hn.older t (hr.sublist.subset ht))
  · rw [hn.slept_of_mem (hr.sublist.subset ha), hn.slept_of_mem (hr.sublist.subset hb)]
    exact hab ((hr.deadline a ha).symm.trans (heq.trans (hr.deadline b hb)))

namespace Rests

theorem trans {m1 m2 : List Nat} {s₁ s₂ : Sched} (h : Rests s m s₁ m1) (h' : Rests s₁ m1 s₂ m2) : Rests s m s₂ m2 := by
  refine ⟨h'.sublist.trans h.sublist, h'.naps, fun t ht => ?_⟩
  rw [h'.deadline t ht, h.deadline t (h'.sublist.subset ht)]

section

variable (hn : Naps s m)

include hn

theorem refl : Rests s m s m := ⟨List.Sublist.refl m, hn, fun _ _ => rfl⟩

theorem of_bed (hk : Keeps bed s s') (hhead : s'.sleepHead = s.sleepHead) : Rests s m s' m := by
  have hd : ∀ t ∈ m, (s'.task t).deadline = (s.task t).deadline := fun t _ => congrArg (fun b => b.2.1) (hk t)
  refine ⟨List.Sublist.refl m, ⟨hn.same (hk.afterOf hhead) hd, fun t => ?_⟩, hd⟩
  have hstate : (s'.task t).state = (s.task t).state := congrArg Prod.fst (hk t)
  rw [hstate]
  exact hn.members t

/-- A thread is off the list, and does not sleep. -/
theorem awaken (hw : Without t m m') (hs : Sleeps s' m') (hself : (s'.task t).state ≠ .blockedSleeping)
    (hstate : ∀ x, x ≠ t → (s'.task x).state = (s.task x).state) (hd : Keeps Task.deadline s s') : Rests s m s' m' := by
  refine ⟨hw.sublist, ⟨hs, fun x => ?_⟩, fun x _ => hd x⟩
  by_cases hx : x = t
  · subst hx
    exact iff_of_false hw.out hself
  · rw [hstate x hx, hw.others x hx]
    exact hn.members x

/-- A thread that does not sleep changes. -/
theorem alter (hbefore : (s.task t).state ≠ .blockedSleeping) (f : Task → Task) (hf : ∀ c, (f c).deadline = c.deadline)
    (hafter : (f (s.task t)).state ≠ .blockedSleeping) : Rests s m (s.modTask t f) m := by
  have hout : t ∉ m := fun h => hbefore ((hn.members t).mp h)
  have hd := deadline_modTask s t hf
  refine awaken hn (.absent hout) (hn.congr (fun x hx => ?_) fun x _ => hd x) ?_ (fun x hx => ?_) hd
  · unfold Sched.afterOf
    split_ifs with h0
    · rfl
    · rw [task_modTask_ne _ _ fun e : x = t => hout (e ▸ (mem_cons.mp hx).resolve_left h0)]
  · rw [task_modTask_self]
    exact hafter
  · rw [task_modTask_ne _ _ hx]

/-! ## One operation -/

theorem wake (t : Nat) : ∃ m', Rests s m (s.wake t) m' := by
  rcases wake_woken s t with ⟨-, hw⟩ | ⟨hw, hafter⟩
  · rw [hw]
    exact ⟨m, refl hn⟩
  · have hleave : ∃ m', Without t m m' ∧ Sleeps (s.roused t) m' := by
      unfold Sched.roused
      split_ifs with hsleep
      · exact hn.leave t
      · exact ⟨m, .absent fun h => hsleep ((hn.members t).mp h), hn.toSleeps⟩
    obtain ⟨m', hout, hs⟩ := hleave
    refine ⟨m', awaken hn hout (hs.same hafter fun x _ => ?_) (by rw [hw.ready]; decide) hw.state hw.deadline⟩
    rw [hw.deadline, (roused_keeps s t).deadline]

theorem exit (t : Nat) :
    ∃ m', Rests s m ((s.removeSleeper t).modTask t fun c => { c with state := .dead, queued := false }) m' := by
  obtain ⟨m', hout, hs⟩ := hn.leave t
  have hk := removeSleeper_keeps s t
  have hd := deadline_modTask (s.removeSleeper t) t (f := fun c => { c with state := .dead, queued := false }) fun _ => rfl
  refine ⟨m', awaken hn hout (hs.same (afterOf_modTask _ _ fun _ => rfl) fun x _ => hd x) ?_ (fun x hx => ?_)
    fun x => (hd x).trans (hk.deadline x)⟩
  · rw [task_modTask_self]
    exact nofun
  · rw [task_modTask_ne _ _ hx, hk.state]

theorem bury (t : Nat) : ∃ m', Rests s m (s.performSleep (.bury t)) m' := by
  show ∃ m', Rests s m ((s.modTask t fun c => { c with state := .dead, queued := false }).removeThread t) m'
  generalize hf : (fun c : Task => { c with state := ThreadState.dead, queued := false }) = f
  have hself : ((s.modTask t f).task t).state = .dead ∧ ((s.modTask t f).task t).queued = false := by
    rw [task_modTask_self, ← hf]
    exact ⟨rfl, rfl⟩
  have hd := deadline_modTask s t (f := f) fun _ => by rw [← hf]
  have hafter := afterOf_modTask s t (f := f) fun _ => by rw [← hf]
  have hother : ∀ x, x ≠ t → (s.modTask t f).task x = s.task x := fun x hx => task_modTask_ne s f hx
  generalize s.modTask t f = s₁ at hself hd hafter hother ⊢
  have hs₁ : Sleeps s₁ m := hn.same hafter fun x _ => hd x
  by_cases ht : t = 0
  · -- the null thread is dead already
    have hout : t ∉ m := fun h => hs₁.chain.ne_null h ht
    have hremove : s₁.removeThread t = s₁ := by
      unfold Sched.removeThread
      exact if_pos ht
    rw [hremove]
    exact ⟨m, awaken hn (.absent hout) hs₁ (by rw [hself.1]; decide) (fun x hx => by rw [hother x hx]) hd⟩
  · rw [removeThread_eq ht hself.2]
    have hs₂ : Sleeps { s₁ with current := fun h => if s₁.current h = t then 0 else s₁.current h } m :=
      ⟨hs₁.chain, hs₁.bound, hs₁.sorted⟩
    obtain ⟨m', hout, hs⟩ := hs₂.leave t
    have hk := removeSleeper_keeps { s₁ with current := fun h => if s₁.current h = t then 0 else s₁.current h } t
    refine ⟨m', awaken hn hout hs ?_ (fun x hx => ?_) fun x => (hk.deadline x).trans (hd x)⟩
    · rw [hk.state]
      exact fun h => absurd (hself.1.symm.trans h) (by decide)
    · rw [hk.state]
      exact congrArg Task.state (hother x hx)

theorem check (now : Nat) : Rests s m (Sched.checkSleepers now threadBound s) (pending s now m) := by
  have hc := hn.check now threadBound (fun t ht _ => (hn.members t).mp ht) hn.length_lt
  refine ⟨filter_sublist, ⟨hc.rest, fun t => ?_⟩, fun t _ => hc.deadline t⟩
  rw [mem_pending]
  by_cases ht : t ∈ expired s now m
  · exact iff_of_false (fun h => h.2 ht) (by rw [(hc.woken t ht).1]; decide)
  · rw [hc.others t ht, hn.members]
    exact and_iff_left ht

theorem takeNext {l : List Nat} (hl : Lined s l) (h : Nat) : Rests s m s.pop.1 m ∧ Rests s m (s.takeNext h).1 m := by
  obtain ⟨s₁, hl1, hw, hpop⟩ := hl.pop_cases fun m _ hd _ _ => hd
  have h1 : Rests s m s₁ m := of_bed hn hw.self.bed hw.sleepHead
  have hcur : ∀ {s₁ : Sched} (current : Nat → Nat), Rests s m s₁ m → Rests s m { s₁ with current := current } m :=
    fun _ h1 => h1.trans (of_bed h1.naps (fun _ => rfl) rfl)
  unfold Sched.takeNext
  rcases hpop with ⟨-, hpop⟩ | ⟨a, t, b, ht, -, hsplit, hpop⟩
  · rw [hpop]
    refine ⟨h1, ?_⟩
    dsimp only
    rw [if_pos rfl]
    split_ifs
    · exact h1
    · exact hcur _ h1
  · have hu := unlinkReady_weeded s₁ t
    have h2 : Rests s m ((s₁.unlinkReady t).modTask t fun c => { c with boosted := false }) m :=
      h1.trans (of_bed h1.naps (hu.self.bed.trans (.modTask _ _ fun _ => rfl)) hu.sleepHead)
    rw [hpop]
    refine ⟨h2, ?_⟩
    dsimp only
    rw [if_neg ht]
    -- the thread that was taken was ready
    have hmem : t ∈ live s l := by
      rw [hsplit]
      simp
    have hready := hl.ready_of_mem (mem_live.mp hmem).1 (mem_live.mp hmem).2
    have h3 := hcur (Function.update (s₁.unlinkReady t).current h t) h2
    refine h3.trans (alter h3.naps ?_ (fun c => { c with queued := false, state := .running }) (fun _ => rfl) nofun)
    have hself := task_modTask_self (s₁.unlinkReady t) t fun c => { c with boosted := false }
    refine (congrArg Task.state hself).trans_ne ?_
    exact ((hu.state t).trans (hw.state t)).trans_ne (by rw [hready]; decide)

/-- **A base operation** puts nobody to sleep and kills no sleeper. -/
theorem base {l : List Nat} (hl : Lined s l) {op : Op} (hfits : Fits s op) (hawake : Awake s op) :
    ∃ m', Rests s m (s.perform op) m' := by
  cases op with
  | push t =>
    obtain ⟨hk, hhead⟩ := push_keeps s t false
    exact ⟨m, of_bed hn hk.bed hhead⟩
  | wake t => exact wake hn t
  | requeue h =>
    refine ⟨m, ?_⟩
    show Rests s m (s.requeue h) m
    unfold Sched.requeue
    split_ifs with hrun
    · have hset := alter hn (t := s.current h) (by rw [hrun.2]; decide) (fun c => { c with state := .ready })
        (fun _ => rfl) nofun
      obtain ⟨hk, hhead⟩ := push_keeps (s.modTask (s.current h) fun c => { c with state := .ready }) (s.current h) false
      exact hset.trans (of_bed hset.naps hk.bed hhead)
    · exact refl hn
  | takeNext h => exact ⟨m, (takeNext hn hl h).2⟩
  | pop => exact ⟨m, (takeNext hn hl 0).1⟩
  | setPriority t priority =>
    have hk : Keeps bed s (s.modTask t fun c => { c with priority := priority }) := .modTask s t fun _ => rfl
    exact ⟨m, of_bed hn hk rfl⟩
  | block h state =>
    refine ⟨m, ?_⟩
    show Rests s m (s.blockCurrent h state) m
    unfold Sched.blockCurrent
    split_ifs with h0
    · exact refl hn
    · have hrun : (s.task (s.current h)).state = .running := hfits.resolve_left h0
      have hset := alter hn (t := s.current h) (by rw [hrun]; decide) (fun c => { c with state := state, boosted := false })
        (fun _ => rfl) hawake
      exact hset.trans (of_bed hset.naps (fun _ => rfl) rfl)
  | exit h =>
    show ∃ m', Rests s m (s.exitCurrent h) m'
    unfold Sched.exitCurrent
    split_ifs with h0
    · exact ⟨m, refl hn⟩
    · obtain ⟨m', hset⟩ := exit hn (s.current h)
      exact ⟨m', hset.trans (of_bed hset.naps (fun _ => rfl) rfl)⟩
  | kill t => exact ⟨m, alter hn hawake (fun c => { c with state := .dead, queued := false }) (fun _ => rfl) nofun⟩
  | remove t =>
    have hdead : (s.task t).state = .dead := hfits
    refine ⟨m, ?_⟩
    show Rests s m (s.removeThread t) m
    by_cases ht : t = 0
    · unfold Sched.removeThread
      rw [if_pos ht]
      exact refl hn
    · -- a dead thread is on neither list
      have hout : t ∉ m := fun h => absurd (((hn.members t).mp h).symm.trans hdead) (by decide)
      have hset : Rests s m { s with current := fun h => if s.current h = t then 0 else s.current h } m :=
        of_bed hn (fun _ => rfl) rfl
      rw [removeThread_eq ht (hl.dead_unqueued hdead), hset.naps.removeSleeper_absent hout]
      exact hset
  | create t process =>
    refine ⟨m, ?_⟩
    show Rests s m (s.initializeThread t process) m
    exact alter hn hawake _ (fun _ => rfl) nofun

end

end Rests

/-! ## `Sleep_Until` -/

/-- The caller has been put on the list, behind the sleepers that are due no later. -/
structure Seated (s : Sched) (cur deadline : Nat) (b c : List Nat) (s' : Sched) : Prop where
  same : SameQueue s s'
  list : Sleeps s' (b ++ cur :: c)
  behind : ∀ x ∈ c, deadline < (s.task x).deadline
  self : (s'.task cur).deadline = deadline
  others : ∀ x, x ≠ cur → (s'.task x).deadline = (s.task x).deadline

theorem Naps.seat (hn : Naps s m) (deadline : Nat) (ht : t ≠ 0) (hlt : t < threadBound) (hout : t ∉ m) :
    ∃ b c, m = b ++ c ∧
      Seated s t deadline b c ((s.modTask t fun c => { c with deadline := deadline }).insertSleeper t) := by
  have hset : SameQueue s (s.modTask t fun c => { c with deadline := deadline }) := .modTask _ _ fun _ => rfl
  have hself : ((s.modTask t fun c => { c with deadline := deadline }).task t).deadline = deadline := by
    rw [task_modTask_self]
  have hother : ∀ x, x ≠ t → (s.modTask t fun c => { c with deadline := deadline }).task x = s.task x :=
    fun x hx => task_modTask_ne s _ hx
  have hafter := afterOf_modTask s t (f := fun c => { c with deadline := deadline }) fun _ => rfl
  generalize (s.modTask t fun c => { c with deadline := deadline }) = s₀ at hset hself hother hafter ⊢
  have hold : ∀ x ∈ m, s₀.task x = s.task x := fun x hx => hother x fun e => hout (e ▸ hx)
  obtain ⟨b, c, rfl, hlist, -, hc⟩ := (hn.same hafter fun x hx => by rw [hold x hx]).insert ht hlt hout
  have hk := insertSleeper_keeps s₀ t
  refine ⟨b, c, rfl, hset.trans (insertSleeper_same s₀ t), hlist, fun x hx => ?_, (hk.deadline t).trans hself,
    fun x hx => ?_⟩
  · rw [← hself, ← hold x (mem_append_right b hx)]
    exact hc x hx
  · rw [hk.deadline, hother x hx]

/-- The caller sleeps now; the sleepers that were due have been woken. -/
structure Dozes (s : Sched) (cur deadline : Nat) (b c m' : List Nat) (s' : Sched) : Prop where
  ready : Ordered s'
  naps : Naps s' m'
  sublist : m'.Sublist (b ++ cur :: c)
  behind : ∀ x ∈ c, deadline < (s.task x).deadline
  state : (s'.task cur).state = .blockedSleeping
  self : (s'.task cur).deadline = deadline
  others : ∀ x, x ≠ cur → (s'.task x).deadline = (s.task x).deadline

theorem Naps.doze (hn : Naps s m) (ho : Ordered s) {deadline now : Nat} (h0 : s.current h ≠ 0)
    (hrun : (s.task (s.current h)).state = .running) (hlate : now < deadline) : ∃ b c m', m = b ++ c ∧
      Dozes s (s.current h) deadline b c m' (s.sleepUntil h deadline now) := by
  obtain ⟨l, hl⟩ := ho.lined
  have hout : s.current h ∉ m := fun hin => absurd (((hn.members _).mp hin).symm.trans hrun) (by decide)
  obtain ⟨b, c, hsplit, hseat⟩ := hn.seat deadline h0 (hl.inside (by rw [hrun]; decide)).2 hout
  have hdef : s.sleepUntil h deadline now = (Sched.checkSleepers now threadBound
      ((s.modTask (s.current h) fun c => { c with deadline := deadline }).insertSleeper (s.current h))).blockCurrent h
        .blockedSleeping := by
    unfold Sched.sleepUntil
    exact if_neg (by omega)
  rw [hdef]
  generalize ((s.modTask (s.current h) fun c => { c with deadline := deadline }).insertSleeper (s.current h)) = s₁
    at hseat ⊢
  have hcurrent₁ : s₁.current h = s.current h := congrFun hseat.same.current h
  generalize s.current h = cur at h0 hrun hout hseat hcurrent₁ ⊢
  have hmem : ∀ x, x ∈ b ++ cur :: c ↔ x = cur ∨ x ∈ m := by
    intro x
    rw [hsplit]
    simp only [mem_append, mem_cons]
    tauto
  -- the check passes over the caller
  have hcheck := hseat.list.check now threadBound (fun x hx hd => by
    rw [hseat.same.state]
    rcases (hmem x).mp hx with rfl | hx
    · rw [hseat.self] at hd
      omega
    · exact (hn.members x).mp hx) hseat.list.length_lt
  have hcurOut : cur ∉ expired s₁ now (b ++ cur :: c) := by
    intro hin
    have hd := of_decide_eq_true (mem_filter.mp hin).2
    rw [hseat.self] at hd
    omega
  have ho₂ := (ho.same hseat.same).check now threadBound
  have hcurrent := (congrFun (checkSleepers_current now threadBound s₁) h).trans hcurrent₁
  generalize Sched.checkSleepers now threadBound s₁ = s₂ at hcheck ho₂ hcurrent ⊢
  have hcurRun : (s₂.task cur).state = .running := (hcheck.others cur hcurOut).trans ((hseat.same.state cur).trans hrun)
  have hblock : s₂.blockCurrent h .blockedSleeping =
      (s₂.modTask cur fun c => { c with state := .blockedSleeping, boosted := false }).setCurrent h 0 := by
    unfold Sched.blockCurrent
    rw [hcurrent, if_neg h0]
  have ho₃ := ho₂.perform (a := .block h .blockedSleeping) (.inr (by rw [hcurrent]; exact hcurRun))
  have hself := task_modTask_self s₂ cur fun c => { c with state := .blockedSleeping, boosted := false }
  have hother : ∀ x, x ≠ cur → (s₂.modTask cur fun c => { c with state := .blockedSleeping, boosted := false }).task x =
      s₂.task x := fun x hx => task_modTask_ne s₂ _ hx
  have hd := deadline_modTask s₂ cur (f := fun c => { c with state := .blockedSleeping, boosted := false }) fun _ => rfl
  have hafter := afterOf_modTask s₂ cur (f := fun c => { c with state := .blockedSleeping, boosted := false }) fun _ => rfl
  change Ordered (s₂.blockCurrent h .blockedSleeping) at ho₃
  rw [hblock] at ho₃ ⊢
  generalize (s₂.modTask cur fun c => { c with state := .blockedSleeping, boosted := false }) = s₃ at *
  have hlist : Sleeps s₃ (pending s₁ now (b ++ cur :: c)) := hcheck.rest.same hafter fun x _ => hd x
  refine ⟨b, c, pending s₁ now (b ++ cur :: c), hsplit, ho₃, ⟨⟨hlist.chain, hlist.bound, hlist.sorted⟩, fun x => ?_⟩,
    filter_sublist, hseat.behind, (congrArg Task.state hself).trans rfl, ?_, fun x hx => ?_⟩
  · rw [task_setCurrent, mem_pending, hmem]
    by_cases hx : x = cur
    · rw [hx, hself]
      exact iff_of_true ⟨.inl rfl, hcurOut⟩ rfl
    · rw [hother x hx]
      by_cases hexp : x ∈ expired s₁ now (b ++ cur :: c)
      · exact iff_of_false (fun h => h.2 hexp) (by rw [(hcheck.woken x hexp).1]; decide)
      · rw [hcheck.others x hexp, hseat.same.state, ← hn.members]
        exact ⟨fun h => h.1.resolve_left hx, fun h => ⟨.inr h, hexp⟩⟩
  · exact ((hd cur).trans (hcheck.deadline cur)).trans hseat.self
  · exact ((hd x).trans (hcheck.deadline x)).trans (hseat.others x hx)

/-- **Falling asleep**: the caller goes behind the sleepers that are due no later; the others are checked on
    the way. -/
theorem Nap.sleepUntil (hn : Nap r m) {deadline now : Nat} (h : Nat)
    (hrun : r.sched.current h = 0 ∨ (r.sched.task (r.sched.current h)).state = .running) :
    ∃ m', Nap (r.to (r.sched.sleepUntil h deadline now)) m' := by
  by_cases hback : r.sched.current h = 0 ∨ deadline ≤ now
  · have hsame : r.sched.sleepUntil h deadline now = r.sched := if_pos hback
    rw [hsame]
    exact ⟨m, hn.rest hn.ready (.refl hn.naps)⟩
  · rw [not_or] at hback
    obtain ⟨h0, hlate⟩ := hback
    have hstate := hrun.resolve_left h0
    obtain ⟨b, c, m', rfl, hz⟩ := hn.naps.doze hn.ready h0 hstate (Nat.not_le.mp hlate)
    generalize r.sched.sleepUntil h deadline now = s' at hz ⊢
    generalize r.sched.current h = cur at h0 hstate hz
    have hcur : (r.to s').slept cur = r.clock := if_pos ⟨hz.state, by rw [hstate]; decide⟩
    have hlt : ∀ x ∈ b ++ c, (r.to s').slept x < (r.to s').slept cur := by
      intro x hx
      rw [hcur, hn.slept_of_mem hx]
      exact hn.older x hx
    have hne : ∀ x ∈ b ++ c, x ≠ cur := by
      rintro x hx rfl
      exact absurd (((hn.naps.members x).mp hx).symm.trans hstate) (by decide)
    -- behind all that are due no later, and last of those due at the same time
    have hfifo : (b ++ cur :: c).Pairwise fun x y => (s'.task x).deadline = (s'.task y).deadline →
        (r.to s').slept x < (r.to s').slept y := by
      refine pairwise_insert (hn.fifo.imp_of_mem fun {x y} hx hy hxy heq => ?_)
        (fun x hx _ => hlt x (mem_append_left c hx)) fun y hy heq => ?_
      · rw [hn.slept_of_mem hx, hn.slept_of_mem hy]
        exact hxy (by rw [← hz.others x (hne x hx), ← hz.others y (hne y hy), heq])
      · have hbehind := hz.behind y hy
        rw [hz.self, hz.others y (hne y (mem_append_right b hy))] at heq
        omega
    refine ⟨m', hz.ready, hz.naps, fun x hx => ?_, hfifo.sublist hz.sublist⟩
    have hx' : x = cur ∨ x ∈ b ++ c := by
      have hmem := hz.sublist.subset hx
      simp only [mem_append, mem_cons] at hmem ⊢
      tauto
    show (r.to s').slept x < r.clock + 1
    rcases hx' with rfl | hx'
    · rw [hcur]
      exact Nat.lt_succ_self _
    · have hle := hlt x hx'
      rw [hcur] at hle
      exact Nat.lt_succ_of_lt hle

/-! ## Every run -/

/-- **One operation** keeps the sleep list exact. -/
theorem Nap.step (hn : Nap r m) {op : SleepOp} (hfits : SleepFits r.sched op) : ∃ m', Nap (r.step op) m' := by
  obtain ⟨l, hl⟩ := hn.ready.lined
  cases op with
  | base op =>
    obtain ⟨m', hm'⟩ := Rests.base hn.naps hl hfits.1 hfits.2
    exact ⟨m', hn.rest (hn.ready.perform hfits.1) hm'⟩
  | bury t =>
    have hdead : Fits (r.sched.perform (.kill t)) (.remove t) :=
      congrArg Task.state (task_modTask_self r.sched t fun c => { c with state := .dead, queued := false })
    obtain ⟨m', hm'⟩ := Rests.bury hn.naps t
    exact ⟨m', hn.rest ((hn.ready.perform (a := .kill t) trivial).perform hdead) hm'⟩
  | sleepUntil h deadline now => exact hn.sleepUntil h hfits
  | checkSleepers now => exact ⟨_, hn.rest (hn.ready.check now threadBound) (Rests.check hn.naps now)⟩

theorem SleepReached.nap (hr : SleepReached r) : ∃ m, Nap r m := by
  induction hr with
  | start =>
    refine ⟨[], ⟨_, _, rfl, Reached.start.stamped.choose_spec⟩, ⟨⟨rfl, fun t ht => absurd ht not_mem_nil, List.Pairwise.nil⟩, fun t => ?_⟩,
      fun t ht => absurd ht not_mem_nil, List.Pairwise.nil⟩
    refine iff_of_false not_mem_nil ?_
    show (bootTask t).state ≠ _
    unfold bootTask
    dsimp only
    split
    · decide
    · split <;> decide
  | step _ op hfits ih =>
    obtain ⟨m, hn⟩ := ih
    exact hn.step hfits

/-- **An exact sleep list**: what it holds, in which order, and what a check or the timer makes of it. -/
structure Exact (s : Sched) (slept : Nat → Nat) (m : List Nat) : Prop where
  list : IsChain 0 s.afterOf (s.afterOf 0) m
  sorted : m.Pairwise fun a b => (s.task a).deadline < (s.task b).deadline ∨
    ((s.task a).deadline = (s.task b).deadline ∧ slept a < slept b)
  members : ∀ t, t ∈ m ↔ (s.task t).state = .blockedSleeping
  check : ∀ now, Checked s m now (Sched.checkSleepers now threadBound s)
  reported_le : ∀ now, ∀ t ∈ pending s now m,
    (Sched.checkSleepers now threadBound s).nextDeadline ≤ (s.task t).deadline
  reported_mem : ∀ now, pending s now m ≠ [] →
    ∃ t ∈ pending s now m, (Sched.checkSleepers now threadBound s).nextDeadline = (s.task t).deadline
  reported_none : ∀ now, pending s now m = [] → (Sched.checkSleepers now threadBound s).nextDeadline = 2 ^ 64 - 1
  timer : ∀ now, ∀ t ∈ pending s now m, (s.nextTimerDeadline now).2 ≤ (s.task t).deadline

theorem Sleeps.nextDeadline (hs : Sleeps s m) : (∀ t ∈ m, s.nextDeadline ≤ (s.task t).deadline) ∧
      (m ≠ [] → ∃ t ∈ m, s.nextDeadline = (s.task t).deadline) ∧ (m = [] → s.nextDeadline = 2 ^ 64 - 1) := by
  unfold Sched.nextDeadline
  rw [hs.head]
  cases m with
  | nil => exact ⟨fun t ht => absurd ht not_mem_nil, fun h => absurd rfl h, fun _ => if_pos rfl⟩
  | cons x xs =>
    have hx : x ≠ 0 := hs.chain.ne_null mem_cons_self
    rw [headD_cons, if_neg hx]
    refine ⟨fun t ht => ?_, fun _ => ⟨x, mem_cons_self, rfl⟩, fun h => by cases h⟩
    rcases mem_cons.mp ht with rfl | ht
    · exact Nat.le_refl _
    · exact (pairwise_cons.mp hs.sorted).1 t ht

/-- **The sleep queue is exact** in every run. -/
theorem sleep_queue_exact (hr : SleepReached r) : ∃ m, Exact r.sched r.slept m := by
  obtain ⟨m, hn⟩ := hr.nap
  have hnaps := hn.naps
  have hcheck : ∀ now, Checked r.sched m now (Sched.checkSleepers now threadBound r.sched) := fun now =>
    hnaps.check now threadBound (fun t ht _ => (hnaps.members t).mp ht) hnaps.length_lt
  have hle : ∀ now, ∀ t ∈ pending r.sched now m,
      (Sched.checkSleepers now threadBound r.sched).nextDeadline ≤ (r.sched.task t).deadline := by
    intro now t ht
    rw [← (hcheck now).deadline]
    exact (hcheck now).rest.nextDeadline.1 t ht
  refine ⟨m, ?_⟩
  constructor
  · exact hnaps.chain
  · refine (hnaps.sorted.and hn.fifo).imp fun {a b} hab => ?_
    rcases Nat.lt_or_eq_of_le hab.1 with h | h
    · exact .inl h
    · exact .inr ⟨h, hab.2 h⟩
  · exact hnaps.members
  · exact hcheck
  · exact hle
  · intro now hne
    obtain ⟨t, ht, heq⟩ := (hcheck now).rest.nextDeadline.2.1 hne
    exact ⟨t, ht, by rw [heq, (hcheck now).deadline]⟩
  · exact fun now hnil => (hcheck now).rest.nextDeadline.2.2 hnil
  · intro now t ht
    exact (Nat.min_le_right _ _).trans (hle now t ht)

/-- Init falls asleep, and is all that the list holds. -/
theorem sleep_queue_exact_init : ∃ r : SleepTrack, (r.sched.task Aegir.Kernel.initThread).state = .blockedSleeping ∧
    ∃ m, Exact r.sched r.slept m := by
  have hfits : SleepFits bootSched (.sleepUntil 0 100 50) := .inr rfl
  have hr : SleepReached (SleepTrack.step ⟨bootSched, fun _ => 0, 0⟩ (.sleepUntil 0 100 50)) := .step .start _ hfits
  exact ⟨_, by decide +kernel, sleep_queue_exact hr⟩

end Aegir.Scheduler
