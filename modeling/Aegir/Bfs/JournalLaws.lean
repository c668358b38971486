/-
  What the journal's parts compute.

  The run array reads back as the runs that were put into it, and the destinations of those runs are
  the block numbers of the entries in order.  Blocks laid into the log are found there again, around
  its end, as long as the log is longer than what was laid down.  The superblock keeps the geometry of
  the volume whatever `Write_Super` changes in it.
-/
import Aegir.Bfs.Journal
import Mathlib.Data.List.Perm.Basic

namespace Aegir.Bfs

open Aegir.Lib List

/-! ## The order of the entries -/

theorem exchange_perm (x : Nat × Block) (ys : List (Nat × Block)) :
    ((exchange x ys).1 :: (exchange x ys).2).Perm (x :: ys) := by
  induction ys generalizing x with
  | nil => exact .refl _
  | cons y ys ih =>
    rw [exchange]
    split
    · exact (List.Perm.swap _ _ _).trans ((ih y).cons x)
    · exact (List.Perm.swap _ _ _).trans (((ih x).cons y).trans (.swap _ _ _))

theorem sortFrom_perm (n : Nat) (ws : List (Nat × Block)) : (sortFrom n ws).Perm ws := by
  induction n generalizing ws with
  | zero => cases ws <;> exact .refl _
  | succ n ih =>
    cases ws with
    | nil => exact .refl _
    | cons x xs => exact ((ih _).cons _).trans (exchange_perm x xs)

theorem exchangeSort_perm (ws : List (Nat × Block)) : (exchangeSort ws).Perm ws :=
  sortFrom_perm _ _

/-! ## Merging -/

theorem mergeFrom_flat (group start len : Nat) (nums : List Nat) :
    (mergeFrom group start len nums).flatMap (fun r => range' r.1 r.2) = range' start len ++ nums := by
  induction nums generalizing start len with
  | nil => simp [mergeFrom]
  | cons num nums ih =>
    rw [mergeFrom]
    split
    · rename_i h
      rw [ih start (len + 1), range'_1_concat, h.1, append_assoc]
      rfl
    · rw [flatMap_cons, ih num 1]
      rfl

theorem mergeRuns_flat (group : Nat) (nums : List Nat) :
    (mergeRuns group nums).flatMap (fun r => range' r.1 r.2) = nums := by
  cases nums with
  | nil => rfl
  | cons num nums => rw [mergeRuns, mergeFrom_flat]; rfl

theorem mergeFrom_length (group start len : Nat) (nums : List Nat) :
    (mergeFrom group start len nums).length ≤ nums.length + 1 ∧ 0 < (mergeFrom group start len nums).length := by
  induction nums generalizing start len with
  | nil => simp [mergeFrom]
  | cons num nums ih =>
    rw [mergeFrom]
    split
    · have := ih start (len + 1)
      simp only [length_cons]
      omega
    · have := ih num 1
      simp only [length_cons]
      omega

/-- A run the array can hold: not empty, inside one group, short, and below `bound`. -/
structure RunFits (group most bound : Nat) (r : Nat × Nat) : Prop where
  pos : 0 < r.2
  inGroup : r.1 % group + r.2 ≤ group
  short : r.2 ≤ most
  below : r.1 + r.2 ≤ bound

theorem mergeFrom_fits {group most bound : Nat} (hg : 0 < group) (nums : List Nat)
    (hb : ∀ n ∈ nums, n < bound) (start len : Nat) (hr : RunFits group most bound (start, len))
    (hm : len + nums.length ≤ most) :
    ∀ r ∈ mergeFrom group start len nums, RunFits group most bound r := by
  induction nums generalizing start len with
  | nil => intro r hmem; rw [mem_singleton.mp hmem]; exact hr
  | cons num nums ih =>
    have hb' : ∀ n ∈ nums, n < bound := fun n hn => hb n (mem_cons_of_mem _ hn)
    have hnum : num < bound := hb num mem_cons_self
    rw [length_cons] at hm
    rw [mergeFrom]
    split
    · -- the run is extended: the block does not begin a group, so the run stays inside its own
      rename_i h
      refine ih hb' start (len + 1) ⟨by simp, ?_, ?_, ?_⟩ (by omega)
      · have hin : start % group + len ≤ group := hr.inGroup
        have hne : start % group + len ≠ group := by
          intro heq
          apply h.2
          rw [← Nat.mod_add_div start group, Nat.add_right_comm, heq]
          simp
        show start % group + (len + 1) ≤ group
        omega
      · show len + 1 ≤ most
        omega
      · show start + (len + 1) ≤ bound
        omega
    · intro r hmem
      rcases mem_cons.mp hmem with rfl | hmem
      · exact hr
      · refine ih hb' num 1 ⟨by simp, ?_, ?_, ?_⟩ (by omega) r hmem
        · have := Nat.mod_lt num hg
          show num % group + 1 ≤ group
          omega
        · show 1 ≤ most
          omega
        · show num + 1 ≤ bound
          omega

theorem mergeRuns_fits {group bound : Nat} (hg : 0 < group) (nums : List Nat)
    (hb : ∀ n ∈ nums, n < bound) : ∀ r ∈ mergeRuns group nums, RunFits group nums.length bound r := by
  cases nums with
  | nil => intro r hmem; exact absurd hmem not_mem_nil
  | cons num nums =>
    have hnum : num < bound := hb num mem_cons_self
    have hmod := Nat.mod_lt num hg
    refine mergeFrom_fits hg nums (fun n hn => hb n (mem_cons_of_mem _ hn)) num 1 ⟨by simp, ?_, ?_, ?_⟩ ?_
    · show num % group + 1 ≤ group
      omega
    · show 1 ≤ (num :: nums).length
      simp
    · show num + 1 ≤ bound
      omega
    · rw [length_cons]
      omega

/-! ## The run array -/

theorem runAt_putRun (b : Block) (off : Nat) (r : BlockRun) :
    runAt (putRun b off r) off = ⟨r.ag % 256 ^ 4, r.start % 256 ^ 2, r.length % 256 ^ 2⟩ := by
  unfold runAt putRun
  simp (disch := omega) only [le_putLe_disjoint, le_putLe]

theorem le_putRun_disjoint (b : Block) (off : Nat) (r : BlockRun) (off' n' : Nat)
    (h : off' + n' ≤ off ∨ off + 8 ≤ off') : le (putRun b off r) off' n' = le b off' n' := by
  unfold putRun
  simp (disch := omega) only [le_putLe_disjoint]

theorem le_putRuns_before (v : Volume) (arr : Block) (i : Nat) (runs : List (Nat × Nat)) (off n : Nat)
    (h : off + n ≤ 8 + i * 8) : le (putRuns v arr i runs) off n = le arr off n := by
  induction runs generalizing arr i with
  | nil => rfl
  | cons r rs ih =>
    rw [putRuns, ih _ (i + 1) (by omega), le_putRun_disjoint _ _ _ _ _ (by omega)]

theorem runAt_congr {b b' : Block} {off : Nat}
    (h : ∀ o n, off ≤ o → o + n ≤ off + 8 → le b o n = le b' o n) : runAt b off = runAt b' off := by
  unfold runAt
  rw [h off 4 (by omega) (by omega), h (off + 4) 2 (by omega) (by omega), h (off + 6) 2 (by omega) (by omega)]

theorem runAtBlock_reduced (v : Volume) (b len : Nat) :
    (⟨(v.runAtBlock b len).ag % 256 ^ 4, (v.runAtBlock b len).start % 256 ^ 2,
      (v.runAtBlock b len).length % 256 ^ 2⟩ : BlockRun) = v.runAtBlock b len := by
  have h4 : 256 ^ 4 = 2 ^ 32 := by decide
  have h2 : 256 ^ 2 = 2 ^ 16 := by decide
  show (⟨_ % 2 ^ 32 % 2 ^ 32, _ % 2 ^ 16 % 2 ^ 16, _ % 2 ^ 16 % 2 ^ 16⟩ : BlockRun) = _
  rw [Nat.mod_mod, Nat.mod_mod, Nat.mod_mod]
  rfl

theorem runAt_putRuns (v : Volume) (arr : Block) (i : Nat) (runs : List (Nat × Nat)) :
    (range runs.length).map (fun j => runAt (putRuns v arr i runs) (8 + (i + j) * 8))
      = runs.map fun r => v.runAtBlock r.1 r.2 := by
  induction runs generalizing arr i with
  | nil => rfl
  | cons r rs ih =>
    rw [length_cons, range_succ_eq_map, map_cons, map_map, map_cons]
    congr 1
    · have hkeep : runAt (putRuns v arr i (r :: rs)) (8 + (i + 0) * 8)
          = runAt (putRun arr (8 + i * 8) (v.runAtBlock r.1 r.2)) (8 + i * 8) := by
        refine runAt_congr fun o n ho hn => ?_
        rw [putRuns, le_putRuns_before v _ (i + 1) rs o n (by omega)]
      rw [hkeep, runAt_putRun, runAtBlock_reduced]
    · rw [← ih (putRun arr (8 + i * 8) (v.runAtBlock r.1 r.2)) (i + 1)]
      refine map_congr_left fun j _ => ?_
      show runAt (putRuns v arr i (r :: rs)) (8 + (i + (j + 1)) * 8) = _
      rw [show i + (j + 1) = i + 1 + j by omega]
      rfl

theorem toBlock_runAtBlock (v : Volume) (b len : Nat) (hshift : v.agShift ≤ 16)
    (hb : b < 2 ^ 32 * v.groupSize) : v.toBlock (v.runAtBlock b len) = b := by
  have hg : 0 < v.groupSize := Nat.two_pow_pos _
  have hg16 : v.groupSize ≤ 2 ^ 16 := Nat.pow_le_pow_right (by omega) hshift
  have hag : b / v.groupSize < 2 ^ 32 := Nat.div_lt_of_lt_mul (by rw [Nat.mul_comm]; exact hb)
  have hst : b % v.groupSize < 2 ^ 16 := Nat.lt_of_lt_of_le (Nat.mod_lt _ hg) hg16
  have hb64 : b < 2 ^ 64 := by
    calc b < 2 ^ 32 * v.groupSize := hb
      _ ≤ 2 ^ 32 * 2 ^ 16 := Nat.mul_le_mul_left _ hg16
      _ ≤ 2 ^ 64 := by decide
  show (b / v.groupSize % 2 ^ 32 * v.groupSize + b % v.groupSize % 2 ^ 16) % 2 ^ 64 = b
  rw [Nat.mod_eq_of_lt hag, Nat.mod_eq_of_lt hst, Nat.div_add_mod', Nat.mod_eq_of_lt hb64]

/-- **The run array reads back.** -/
theorem readRuns_runArray (e : Engine) (runs : List (Nat × Nat)) (hshift : e.vol.agShift ≤ 16)
    (hnum : e.vol.numBlocks ≤ 2 ^ 32 * e.vol.groupSize) (hne : 0 < runs.length)
    (hlen : runs.length ≤ 127)
    (hfit : ∀ r ∈ runs, RunFits e.vol.groupSize 127 e.vol.numBlocks r) :
    e.readRuns (runArray e.vol runs) = some (runs.map fun r => e.vol.runAtBlock r.1 r.2) := by
  have hcnt : le (runArray e.vol runs) 0 4 = runs.length := by
    unfold runArray
    rw [le_putLe_disjoint _ _ _ _ _ _ (by omega), le_putLe]
    exact Nat.mod_eq_of_lt (by omega)
  have hmax : le (runArray e.vol runs) 4 4 = 127 := (le_putLe _ 4 4 127).trans (by decide)
  have hruns : Engine.runSlots (runArray e.vol runs) = runs.map fun r => e.vol.runAtBlock r.1 r.2 := by
    rw [Engine.runSlots, hcnt, ← runAt_putRuns e.vol (fun _ => 0) 0 runs]
    refine map_congr_left fun i _ => ?_
    rw [Nat.zero_add]
    refine runAt_congr fun o n ho hn => ?_
    unfold runArray
    rw [le_putLe_disjoint _ _ _ _ _ _ (by omega), le_putLe_disjoint _ _ _ _ _ _ (by omega)]
  unfold Engine.readRuns
  rw [hcnt, hmax, hruns, if_neg (by omega), if_neg]
  rintro ⟨r, hr, hbad⟩
  obtain ⟨q, hq, rfl⟩ := mem_map.mp hr
  have hf := hfit q hq
  have hpos := hf.pos
  have hshort := hf.short
  have hbelow := hf.below
  have hlen' : (e.vol.runAtBlock q.1 q.2).length = q.2 := Nat.mod_eq_of_lt (by omega)
  rw [toBlock_runAtBlock _ _ _ hshift (by omega), hlen', Nat.mod_eq_of_lt (by omega)] at hbad
  omega

theorem destinations_runs (v : Volume) (nums : List Nat) (hshift : v.agShift ≤ 16)
    (hb : ∀ n ∈ nums, n < 2 ^ 32 * v.groupSize) (hlen : nums.length < 2 ^ 16) :
    Engine.destinations v ((mergeRuns v.groupSize nums).map fun r => v.runAtBlock r.1 r.2) = nums := by
  have hfit := mergeRuns_fits (Nat.two_pow_pos v.agShift) nums hb
  rw [Engine.destinations, flatMap_map]
  refine Eq.trans ?_ (mergeRuns_flat v.groupSize nums)
  refine flatMap_congr fun r hr => ?_
  have hf := hfit r hr
  have hpos := hf.pos
  have hshort := hf.short
  have hbelow := hf.below
  have hl : (v.runAtBlock r.1 r.2).length = r.2 := Nat.mod_eq_of_lt (by omega)
  rw [toBlock_runAtBlock v r.1 r.2 hshift (by omega), hl]

/-! ## The log -/

/-- From position `pos` on the log holds the given blocks. -/
def Logged (v : Volume) (m : Medium) : Nat → List Block → Prop
  | _, [] => True
  | pos, b :: bs => m (v.logBase + pos) = b ∧ Logged v m ((pos + 1) % v.logLen) bs

section

variable (v : Volume)

theorem logAdvance_eq (n pos : Nat) (hpos : pos < v.logLen) :
    logAdvance v pos n = (pos + n) % v.logLen := by
  induction n generalizing pos with
  | zero => exact (Nat.mod_eq_of_lt hpos).symm
  | succ n ih =>
    rw [logAdvance, ih _ (Nat.mod_lt _ (by omega)), Nat.mod_add_mod]
    congr 1
    omega

theorem logAdvance_lt (n pos : Nat) (hpos : pos < v.logLen) : logAdvance v pos n < v.logLen := by
  rw [logAdvance_eq v n pos hpos]
  exact Nat.mod_lt _ (by omega)

theorem logAdvance_ne (n pos : Nat) (hpos : pos < v.logLen) (h0 : 0 < n)
    (hn : n < v.logLen) : logAdvance v pos n ≠ pos := by
  rw [logAdvance_eq v n pos hpos]
  by_cases hwrap : pos + n < v.logLen
  · rw [Nat.mod_eq_of_lt hwrap]
    omega
  · rw [Nat.mod_eq_sub_mod (by omega), Nat.mod_eq_of_lt (by omega)]
    omega

theorem logWrites_fst (bs : List Block) (pos : Nat) {w : Nat × Block}
    (hw : w ∈ logWrites v pos bs) : ∃ i, i < bs.length ∧ w.1 = v.logBase + logAdvance v pos i := by
  induction bs generalizing pos with
  | nil => exact absurd hw not_mem_nil
  | cons b bs ih =>
    rcases mem_cons.mp hw with rfl | hw
    · exact ⟨0, by simp, rfl⟩
    · obtain ⟨i, hi, he⟩ := ih _ hw
      exact ⟨i + 1, by simpa using hi, he⟩

theorem logWrites_inLog (bs : List Block) (pos : Nat) (hpos : pos < v.logLen)
    {w : Nat × Block} (hw : w ∈ logWrites v pos bs) : v.InLog w.1 := by
  obtain ⟨i, -, he⟩ := logWrites_fst v bs pos hw
  have hlt := logAdvance_lt v i pos hpos
  exact ⟨by omega, by omega⟩

/-- **What is laid into the log is found there**, as long as the log is long enough. -/
theorem logged_logWrites (bs : List Block) (m : Medium) (pos : Nat) (hpos : pos < v.logLen)
    (hlen : bs.length ≤ v.logLen) : Logged v (applyWrites m (logWrites v pos bs)) pos bs := by
  induction bs generalizing m pos with
  | nil => trivial
  | cons b bs ih =>
    rw [length_cons] at hlen
    refine ⟨?_, ih _ _ (Nat.mod_lt _ (by omega)) (by omega)⟩
    show applyWrites (Function.update m (v.logBase + pos) b) _ (v.logBase + pos) = b
    rw [applyWrites_other, Function.update_self]
    intro w hw he
    obtain ⟨i, hi, hw1⟩ := logWrites_fst v bs _ hw
    refine logAdvance_ne v (i + 1) pos hpos (by omega) (by omega) ?_
    have : v.logBase + logAdvance v ((pos + 1) % v.logLen) i = v.logBase + pos := hw1.symm.trans he
    exact Nat.add_left_cancel this

end

theorem Logged.congr {v : Volume} {m m' : Medium} (hm : ∀ num, v.InLog num → m' num = m num)
    {bs : List Block} {pos : Nat} (hpos : pos < v.logLen) (h : Logged v m pos bs) :
    Logged v m' pos bs := by
  induction bs generalizing pos with
  | nil => trivial
  | cons b bs ih =>
    refine ⟨?_, ih (Nat.mod_lt _ (by omega)) h.2⟩
    rw [hm _ ⟨by omega, by omega⟩]
    exact h.1

/-! ## The superblock -/

/-- The same volume up to the used count and the log positions. -/
def Volume.SameShape (v w : Volume) : Prop :=
  w = { v with usedBlocks := w.usedBlocks, logPosStart := w.logPosStart, logPosEnd := w.logPosEnd }

theorem Volume.SameShape.refl (v : Volume) : v.SameShape v := rfl

theorem superOk_superBlock (b : Block) (dirty : Bool) (v : Volume) :
    superOk (superBlock b dirty v) = superOk b := by
  unfold superOk superBlock
  cases dirty <;> simp (disch := omega) [le_putLe_disjoint]

theorem readSuper_superBlock (b : Block) (dirty : Bool) (v : Volume) :
    readSuper (superBlock b dirty v) = { readSuper b with
      usedBlocks := if dirty then (readSuper b).usedBlocks else v.usedBlocks % 2 ^ 64
      logPosStart := v.logPosStart % 2 ^ 64
      logPosEnd := v.logPosEnd % 2 ^ 64 } := by
  unfold readSuper superBlock runAt
  cases dirty <;> simp (disch := omega) [le_putLe_disjoint]

/-! ## The device -/

namespace Device

@[simp]
theorem store_write (d : Device) (num : Nat) (b : Block) :
    (d.write num b).store = d.store.exec (.write num b) := by
  show (Store.mk d.start []).run (d.issued ++ [.write num b]) = _
  rw [Store.run_append]
  rfl

@[simp]
theorem store_flush (d : Device) : d.flush.store = d.store.exec .flush := by
  show (Store.mk d.start []).run (d.issued ++ [.flush]) = _
  rw [Store.run_append]
  rfl

theorem writeAll_eq (d : Device) (ws : List (Nat × Block)) :
    d.writeAll ws = { d with issued := d.issued ++ ws.map fun w => .write w.1 w.2 } := by
  induction ws generalizing d with
  | nil => simp [writeAll]
  | cons w ws ih =>
    show (d.write w.1 w.2).writeAll ws = _
    rw [ih]
    simp [write]

/-- The device went on from `d` to `d'`. -/
def Before (d d' : Device) : Prop := ∃ ops, d' = { d with issued := d.issued ++ ops }

theorem Before.refl (d : Device) : d.Before d := ⟨[], by rw [append_nil]⟩

theorem Before.trans {d d' d'' : Device} (h : d.Before d') (h' : d'.Before d'') : d.Before d'' := by
  obtain ⟨ops, rfl⟩ := h
  obtain ⟨ops', rfl⟩ := h'
  exact ⟨ops ++ ops', by rw [← append_assoc]⟩

theorem Before.length_le {d d' : Device} (h : d.Before d') : d.issued.length ≤ d'.issued.length := by
  obtain ⟨ops, rfl⟩ := h
  rw [length_append]
  omega

/-- At every point the earlier device was where the later one was at some point, too. -/
theorem Before.storeAt {d d' : Device} (h : d.Before d') (n : Nat) :
    d.storeAt n = d'.storeAt (min n d.issued.length) := by
  obtain ⟨ops, rfl⟩ := h
  unfold Device.storeAt
  rw [take_append_of_le_length (Nat.min_le_right _ _), ← take_take, take_length]

end Device

/-! ## Requests that fail -/

/-- The device an operation leaves, whether it succeeded or not. -/
def deviceOf {α : Type} (engine : α → Engine) : Except Engine α → Device
  | .ok a => (engine a).dev
  | .error e => e.dev

/-- `r` begins at the device `d` and goes the way of `r₀`, which it may break off. -/
structure Follows {α : Type} (engine : α → Engine) (d : Device) (r r₀ : Except Engine α) : Prop where
  grows : d.Before (deviceOf engine r)
  whole : d.Before (deviceOf engine r₀)
  part : r = r₀ ∨ ∃ e, r = .error e ∧ e.dev.Before (deviceOf engine r₀)

namespace Follows

variable {α β : Type} {engine : α → Engine} {engine' : β → Engine} {d : Device} {r r₀ : Except Engine α}

theorem refl (h : d.Before (deviceOf engine r)) : Follows engine d r r := ⟨h, h, .inl rfl⟩

theorem pure (engine : α → Engine) (a : α) : Follows engine (engine a).dev (.ok a) (.ok a) := refl (.refl _)

theorem error (e : Engine) : Follows engine e.dev (.error e) (.error e) := refl (.refl _)

/-- **One thing after another.** -/
theorem bind (h : Follows engine d r r₀) {f f₀ : α → Except Engine β}
    (hf : ∀ a, Follows engine' (engine a).dev (f a) (f₀ a)) : Follows engine' d (r >>= f) (r₀ >>= f₀) := by
  obtain ⟨hgrows, hwhole, hpart⟩ := h
  have hrest : (deviceOf engine r₀).Before (deviceOf engine' (r₀ >>= f₀)) := by
    cases r₀ with
    | ok a => exact (hf a).whole
    | error e => exact .refl _
  rcases hpart with rfl | ⟨e, rfl, hcut⟩
  · cases r with
    | ok a => exact ⟨hgrows.trans (hf a).grows, hwhole.trans hrest, (hf a).part⟩
    | error e => exact ⟨hgrows, hgrows, .inl rfl⟩
  · exact ⟨hgrows, hwhole.trans hrest, .inr ⟨e, rfl, hcut.trans hrest⟩⟩

/-- What is broken off was, at every point, where the whole was at some point. -/
theorem storeAt (h : Follows engine d r r₀) {n : Nat} (hn : d.issued.length ≤ n) :
    ∃ n', d.issued.length ≤ n' ∧ (deviceOf engine r).storeAt n = (deviceOf engine r₀).storeAt n' := by
  rcases h.part with he | ⟨e, he, hcut⟩
  · exact ⟨n, hn, by rw [he]⟩
  · have hgrows := h.grows.length_le
    rw [he] at hgrows ⊢
    exact ⟨_, Nat.le_min.mpr ⟨hn, hgrows⟩, hcut.storeAt n⟩

end Follows

namespace Engine

variable (answers : Nat → Answer) (e : Engine)

theorem request_follows {e' : Engine} (h : e.dev.Before e'.dev) :
    Follows id e.dev (e.request answers e') (e.request taken e') := by
  unfold request
  cases answers e.dev.issued.length with
  | done => exact .refl h
  | refused => exact ⟨.refl _, h, .inr ⟨e, rfl, h⟩⟩
  | failed => exact ⟨h, h, .inr ⟨e', rfl, .refl _⟩⟩

theorem writeRaw_follows (num : Nat) (b : Block) :
    Follows id e.dev (e.writeRaw answers num b) (e.writeRaw taken num b) :=
  e.request_follows answers ⟨[.write num b], rfl⟩

theorem flushDevice_follows : Follows id e.dev (e.flushDevice answers) (e.flushDevice taken) :=
  e.request_follows answers ⟨[.flush], rfl⟩

theorem writeRaws_follows (ws : List (Nat × Block)) :
    Follows id e.dev (e.writeRaws answers ws) (e.writeRaws taken ws) := by
  induction ws generalizing e with
  | nil => exact .pure id e
  | cons w ws ih => exact (e.writeRaw_follows answers w.1 w.2).bind fun e => ih e

theorem writeSuperRaw_follows (dirty : Bool) :
    Follows id e.dev (e.writeSuperRaw answers dirty) (e.writeSuperRaw taken dirty) := by
  have hdev : (e.checkpoint dirty).dev = e.dev := by
    cases dirty with
    | true => rfl
    | false => rfl
  rw [← hdev]
  exact (e.checkpoint dirty).request_follows answers ⟨[.write 0 _], rfl⟩

theorem logStage_follows : Follows id e.dev (e.logStage answers) (e.logStage taken) :=
  (e.writeRaws_follows answers _).bind fun e' =>
    .pure id (e'.logMoved (logAdvance e.vol e.vol.logPosEnd e.logged.length))

theorem dirtyStage_follows : Follows id e.dev (e.dirtyStage answers) (e.dirtyStage taken) :=
  (e.writeSuperRaw_follows answers true).bind fun e => e.flushDevice_follows answers

theorem dataStage_follows : Follows id e.dev (e.dataStage answers) (e.dataStage taken) :=
  (e.writeRaws_follows answers _).bind fun e => e.flushDevice_follows answers

theorem cleanStage_follows : Follows id e.dev (e.cleanStage answers) (e.cleanStage taken) :=
  (e.emptied.writeSuperRaw_follows answers false).bind fun e =>
    (e.flushDevice_follows answers).bind fun e => .pure id { e with trans := .empty }

/-- **A commit that is refused something** goes the way of one that is not. -/
theorem commitStages_follows : Follows id e.dev (e.commitStages answers) (e.commitStages taken) :=
  (e.logStage_follows answers).bind fun e => (e.dirtyStage_follows answers).bind fun e =>
    (e.dataStage_follows answers).bind fun e => e.cleanStage_follows answers

theorem writeRaws_taken (ws : List (Nat × Block)) : e.writeRaws taken ws = .ok (e.writeAll ws) := by
  induction ws generalizing e with
  | nil => rfl
  | cons w ws ih => exact ih (e.write w.1 w.2)

theorem commitStages_taken : e.commitStages taken = .ok e.commitLog.commitDirty.commitData.commitClean := by
  have hlog : e.logStage taken = .ok e.commitLog := by
    unfold logStage
    rw [writeRaws_taken]
    rfl
  have hdata : ∀ e : Engine, e.dataStage taken = .ok e.commitData := by
    intro e
    unfold dataStage
    rw [writeRaws_taken]
    rfl
  unfold commitStages
  rw [hlog]
  show (do let e ← dataStage taken e.commitLog.commitDirty; cleanStage taken e) = _
  rw [hdata]
  rfl

theorem copyOut_follows (dests : List Nat) (pos : Nat) :
    Follows Prod.fst e.dev (e.copyOut answers dests pos) (e.copyOut taken dests pos) := by
  induction dests generalizing e pos with
  | nil => exact .pure Prod.fst (e, pos)
  | cons dest dests ih =>
    unfold copyOut
    cases e.getBlock (e.vol.logBase + pos) with
    | none => exact .error e
    | some b => exact (e.writeRaw_follows answers dest b).bind fun e => ih e _

theorem replayLoop_follows (fuel pos stop : Nat) :
    Follows id e.dev (replayLoop answers fuel e pos stop) (replayLoop taken fuel e pos stop) := by
  induction fuel generalizing e pos with
  | zero => exact .error e
  | succ fuel ih =>
    unfold replayLoop
    split
    · exact .pure id e
    cases e.getBlock (e.vol.logBase + pos) with
    | none => exact .error e
    | some arr =>
      dsimp only
      cases e.readRuns arr with
      | none => exact .error e
      | some runs => exact (e.copyOut_follows answers _ _).bind fun r => ih r.1 r.2

theorem replayLog_follows (fuel : Nat) : Follows id e.dev (e.replayLog answers fuel) (e.replayLog taken fuel) :=
  (e.replayLoop_follows answers fuel _ _).bind fun e =>
    (e.emptied.writeSuperRaw_follows answers false).bind fun e => e.flushDevice_follows answers

end Engine

/-- A mount goes on from the replay to the root inode. -/
theorem init_recovered {answers : Nat → Answer} {fuel : Nat} {m : Medium} {e : Engine} (hsuper : superOk (m 0) = true)
    (hlog : (opened m).recovered answers fuel = .ok e) : init answers fuel m = e.checkRoot := by
  have hbind : ∀ e : Engine, ((.ok e : Except Engine Engine) >>= Engine.checkRoot) = e.checkRoot := fun _ => rfl
  unfold init
  rw [if_neg (by rw [hsuper]; simp), hlog]
  exact hbind e

theorem init_failed {answers : Nat → Answer} {fuel : Nat} {m : Medium} {e : Engine} (hsuper : superOk (m 0) = true)
    (hlog : (opened m).recovered answers fuel = .error e) : init answers fuel m = .error e := by
  unfold init
  rw [if_neg (by rw [hsuper]; simp), hlog]
  rfl

/-- **A mount that is refused something** goes the way of one that is not. -/
theorem init_follows (answers : Nat → Answer) (fuel : Nat) (m : Medium) :
    Follows id ⟨m, []⟩ (init answers fuel m) (init taken fuel m) := by
  have hroot : ∀ e : Engine, Follows id e.dev e.checkRoot e.checkRoot := by
    intro e
    unfold Engine.checkRoot
    split
    · exact .error e
    · split
      · exact .pure id e
      · exact .error e
  have hlog : Follows id (opened m).dev ((opened m).recovered answers fuel) ((opened m).recovered taken fuel) := by
    unfold Engine.recovered
    split
    · exact (opened m).replayLog_follows answers fuel
    · exact .pure id (opened m)
  unfold init
  by_cases hsuper : superOk (m 0) = false
  · rw [if_pos hsuper, if_pos hsuper]
    exact .error (opened m)
  · rw [if_neg hsuper, if_neg hsuper]
    exact hlog.bind hroot

end Aegir.Bfs
