/-
  The points of a commit at which the power may fail.

  Through a commit the medium is in one of three conditions.  It is CLEAN with the contents from
  before the transaction; or the superblock is DIRT, the whole transaction is in the log and only
  blocks of the transaction differ from before; or it is clean with the transaction applied.

  A commit passes from one to the next at its two superblock writes.  `SuperLast` is what that takes
  of the device: a superblock write never reaches the medium without the writes issued before it.
-/
import Aegir.Bfs.JournalLaws

namespace Aegir.Bfs

open Aegir.Lib List Function

/-! ## Volumes and transactions -/

/-- A block that is neither the superblock's nor the log's. -/
def Volume.Data (v : Volume) (num : Nat) : Prop := num ≠ 0 ∧ ¬ v.InLog num

/-- A geometry as the volume maker lays it out: groups of at most `2 ^ 16` blocks, every block number
    encodable as a run, the log area inside the volume behind block 0 and away from the root inode, and
    the log position inside the log. -/
structure Volume.Sane (v : Volume) : Prop where
  shift : v.agShift ≤ 16
  encodable : v.numBlocks ≤ 2 ^ 32 * v.groupSize
  log_pos : 0 < v.logBase
  log_in : v.logBase + v.logLen ≤ v.numBlocks
  end_in : v.logPosEnd < v.logLen
  root : v.Data v.rootBlock
  root_in : v.rootBlock < v.numBlocks

/-- A mounted volume between two operations: nothing is pending at the device, and the engine's fields
    are those of the superblock, whose log is empty. -/
structure Engine.Mounted (e : Engine) : Prop where
  flushed : e.dev.store.pending = []
  super : superOk (e.dev.read 0) = true
  vol : e.vol = readSuper (e.dev.read 0)
  empty : e.vol.logPosStart = e.vol.logPosEnd
  root : inodeOk (e.dev.read e.vol.rootBlock) = true

/-- The transaction is about data blocks of the volume, and leaves the root inode in use. -/
structure Fits (v : Volume) (ws : List (Nat × Block)) : Prop where
  data : ∀ w ∈ ws, v.Data w.1
  bound : ∀ w ∈ ws, w.1 < v.numBlocks
  root : ∀ w ∈ ws, w.1 = v.rootBlock → inodeOk w.2 = true

/-- What the log asks of a geometry. -/
structure Volume.LogSane (v : Volume) : Prop where
  shift : v.agShift ≤ 16
  encodable : v.numBlocks ≤ 2 ^ 32 * v.groupSize
  log_pos : 0 < v.logBase
  log_in : v.logBase + v.logLen ≤ v.numBlocks
  end_in : v.logPosEnd < v.logLen

theorem Volume.Sane.log {v : Volume} (hv : v.Sane) : v.LogSane :=
  ⟨hv.shift, hv.encodable, hv.log_pos, hv.log_in, hv.end_in⟩

/-- The transaction is about data blocks of the volume. -/
structure Lands (v : Volume) (ws : List (Nat × Block)) : Prop where
  data : ∀ w ∈ ws, v.Data w.1
  bound : ∀ w ∈ ws, w.1 < v.numBlocks

theorem Fits.lands {v : Volume} {ws : List (Nat × Block)} (h : Fits v ws) : Lands v ws := ⟨h.data, h.bound⟩

/-- A superblock write reaches the medium only together with the writes issued before it. -/
def SuperLast (pending : List (Nat × Block)) (keep : Nat → Bool) : Prop :=
  ∀ i b, pending[i]? = some (0, b) → keep i = true → ∀ j, j < i → keep j = true

/-! ## The three conditions -/

variable {v : Volume} {before m c : Medium} {pos num : Nat} {ws us : List (Nat × Block)} {w : Nat × Block}

/-- An empty log, and the data blocks `c`. -/
structure Clean (v : Volume) (c : Medium) (m : Medium) : Prop where
  super : superOk (m 0) = true
  shape : v.SameShape (readSuper (m 0))
  empty : (readSuper (m 0)).logPosStart = (readSuper (m 0)).logPosEnd
  data : ∀ num, v.Data num → m num = c num

/-- The transaction `ws` in the log from position `pos` on, and no other block changed. -/
structure Dirty (v : Volume) (before : Medium) (pos : Nat) (ws : List (Nat × Block)) (m : Medium) :
    Prop where
  super : superOk (m 0) = true
  shape : v.SameShape (readSuper (m 0))
  start_eq : (readSuper (m 0)).logPosStart = pos
  end_eq : (readSuper (m 0)).logPosEnd = logAdvance v pos (logBlocks v ws).length
  logged : Logged v m pos (logBlocks v ws)
  data : ∀ num, v.Data num → (∀ w ∈ ws, w.1 ≠ num) → m num = before num

/-- What a power failure may leave. -/
def Survives (v : Volume) (before : Medium) (pos : Nat) (ws : List (Nat × Block)) (m : Medium) : Prop :=
  Clean v before m ∨ Dirty v before pos ws m ∨ Clean v (applyWrites before ws) m

/-- A power failure at this point is survived. -/
def SafeAt (v : Volume) (before : Medium) (pos : Nat) (ws : List (Nat × Block))
    (s : Store Nat Block) : Prop :=
  ∀ keep, SuperLast s.pending keep → Survives v before pos ws (s.crash keep)

theorem kept_mem {keep : Nat → Bool} {i : Nat}
    (hw : w ∈ kept keep i us) : w ∈ us := (kept_sublist keep i us).subset hw

theorem Clean.log_writes (h : Clean v c m) (hbase : 0 < v.logBase) (hus : ∀ u ∈ us, v.InLog u.1) : Clean v c (applyWrites m us) := by
  have h0 : applyWrites m us 0 = m 0 := by
    refine applyWrites_other us m fun u hu he => ?_
    have := (hus u hu).1
    omega
  refine ⟨h0 ▸ h.super, h0 ▸ h.shape, h0 ▸ h.empty, ?_⟩
  intro num hnum
  have hother : ∀ u ∈ us, u.1 ≠ num := fun u hu he => hnum.2 (he ▸ hus u hu)
  rw [applyWrites_other us m hother]
  exact h.data num hnum

theorem Dirty.data_writes (h : Dirty v before pos ws m) (hws : Lands v ws) (hpos : pos < v.logLen) (hus : ∀ u ∈ us, u ∈ ws) : Dirty v before pos ws (applyWrites m us) := by
  have h0 : applyWrites m us 0 = m 0 :=
    applyWrites_other us m fun u hu he => (hws.data u (hus u hu)).1 he
  refine ⟨h0 ▸ h.super, h0 ▸ h.shape, h0 ▸ h.start_eq, h0 ▸ h.end_eq, ?_, ?_⟩
  · refine h.logged.congr (fun num hnum => ?_) hpos
    exact applyWrites_other us m fun u hu he => (hws.data u (hus u hu)).2 (he ▸ hnum)
  · intro num hnum hnot
    rw [applyWrites_other us m fun u hu => hnot u (hus u hu)]
    exact h.data num hnum hnot

theorem Dirty.redo (h : Dirty v before pos ws m) (hnum : v.Data num) :
    applyWrites m ws num = applyWrites before ws num :=
  applyWrites_congr ws m before fun hnot => h.data num hnum hnot

/-- Of writes followed by one superblock write a power failure keeps either some of the writes without
    the superblock, or all of it. -/
theorem crash_superLast (s : Store Nat Block) (us : List (Nat × Block)) (b : Block) (keep : Nat → Bool)
    (hs : s.pending = us ++ [(0, b)]) (hkeep : SuperLast s.pending keep) :
    (∃ us', (∀ u ∈ us', u ∈ us) ∧ s.crash keep = applyWrites s.medium us') ∨
      s.crash keep = update (applyWrites s.medium us) 0 b := by
  have hcrash : s.crash keep = applyWrites s.medium (kept keep 0 us ++ kept keep us.length [(0, b)]) := by
    show applyWrites s.medium (kept keep 0 s.pending) = _
    rw [hs, kept_append, Nat.zero_add]
  by_cases hk : keep us.length = true
  · refine .inr ?_
    have hall : ∀ j, j < us.length → keep j = true := by
      refine hkeep us.length b ?_ hk
      rw [hs]
      simp
    rw [hcrash, kept_all keep 0 us fun j _ hj => hall j (by omega), kept_cons, if_pos hk, applyWrites_append]
    rfl
  · refine .inl ⟨kept keep 0 us, fun u hu => kept_mem hu, ?_⟩
    rw [hcrash, kept_cons, if_neg hk]
    simp [kept]

/-! ## The points of a commit -/

variable {b : Block}

theorem Volume.LogSane.pos_lt (hv : v.LogSane) {p : Nat} (hp : p < v.logLen) : p < 2 ^ 64 := by
  have hg : v.groupSize ≤ 2 ^ 16 := Nat.pow_le_pow_right (by omega) hv.shift
  have h1 := hv.log_in
  calc p < v.numBlocks := by omega
    _ ≤ 2 ^ 32 * v.groupSize := hv.encodable
    _ ≤ 2 ^ 32 * 2 ^ 16 := Nat.mul_le_mul_left _ hg
    _ < 2 ^ 64 := by decide

theorem safeAt_log (h : Clean v before m) (hbase : 0 < v.logBase)
    (hus : ∀ u ∈ us, v.InLog u.1) : SafeAt v before pos ws ⟨m, us⟩ := by
  intro keep _
  exact .inl (h.log_writes hbase fun u hu => hus u (kept_mem hu))

theorem safeAt_dirt (h : Clean v before m) (hbase : 0 < v.logBase) (hus : ∀ u ∈ us, v.InLog u.1)
    (hd : Dirty v before pos ws (update (applyWrites m us) 0 b)) :
    SafeAt v before pos ws ⟨m, us ++ [(0, b)]⟩ := by
  intro keep hkeep
  rcases crash_superLast ⟨m, us ++ [(0, b)]⟩ us b keep rfl hkeep with ⟨us', hsub, he⟩ | he
  · rw [he]
    exact .inl (h.log_writes hbase fun u hu => hus u (hsub u hu))
  · rw [he]
    exact .inr (.inl hd)

theorem safeAt_data (h : Dirty v before pos ws m) (hws : Fits v ws) (hpos : pos < v.logLen) (hus : ∀ u ∈ us, u ∈ ws) : SafeAt v before pos ws ⟨m, us⟩ := by
  intro keep _
  exact .inr (.inl (h.data_writes hws.lands hpos fun u hu => hus u (kept_mem hu)))

theorem clean_of_super (hok : superOk b = true)
    (hshape : v.SameShape (readSuper b)) (hempty : (readSuper b).logPosStart = (readSuper b).logPosEnd)
    (hc : ∀ num, v.Data num → m num = c num) : Clean v c (update m 0 b) := by
  refine ⟨?_, ?_, ?_, ?_⟩
  · rw [update_self]; exact hok
  · rw [update_self]; exact hshape
  · rw [update_self]; exact hempty
  · intro num hnum
    rw [update_of_ne hnum.1]
    exact hc num hnum

theorem safeAt_clen (h : Dirty v before pos ws m) (hws : Fits v ws) (hpos : pos < v.logLen) (hus : ∀ u ∈ us, u ∈ ws)
    (hdone : ∀ num, v.Data num → applyWrites m us num = applyWrites before ws num)
    (hok : superOk b = true) (hshape : v.SameShape (readSuper b))
    (hempty : (readSuper b).logPosStart = (readSuper b).logPosEnd) :
    SafeAt v before pos ws ⟨m, us ++ [(0, b)]⟩ := by
  intro keep hkeep
  rcases crash_superLast ⟨m, us ++ [(0, b)]⟩ us b keep rfl hkeep with ⟨us', hsub, he⟩ | he
  · rw [he]
    exact .inr (.inl (h.data_writes hws.lands hpos fun u hu => hus u (hsub u hu)))
  · rw [he]
    exact .inr (.inr (clean_of_super hok hshape hempty hdone))

theorem safeAt_flushed (h : Survives v before pos ws m) : SafeAt v before pos ws ⟨m, []⟩ :=
  fun _ _ => h

/-- The log positions while `n` blocks wait in the log. -/
def Volume.pinned (v : Volume) (n : Nat) : Volume :=
  { v with logPosStart := v.logPosEnd, logPosEnd := logAdvance v v.logPosEnd n }

theorem dirty_of_log (hv : v.LogSane) (hok : superOk (m 0) = true) (hvol : v = readSuper (m 0))
    (hlen : (logBlocks v ws).length ≤ v.logLen) :
    Dirty v m v.logPosEnd ws (update (applyWrites m (logWrites v v.logPosEnd (logBlocks v ws))) 0
      (superBlock (m 0) true (v.pinned (logBlocks v ws).length))) := by
  have hstart := hv.pos_lt hv.end_in
  have hend := hv.pos_lt (logAdvance_lt v (logBlocks v ws).length v.logPosEnd hv.end_in)
  have hin : ∀ u ∈ logWrites v v.logPosEnd (logBlocks v ws), v.InLog u.1 :=
    fun u hu => logWrites_inLog v _ _ hv.end_in hu
  refine ⟨?_, ?_, ?_, ?_, ?_, ?_⟩
  · rw [update_self, superOk_superBlock]
    exact hok
  · rw [update_self, readSuper_superBlock, ← hvol]
    rfl
  · rw [update_self, readSuper_superBlock]
    exact Nat.mod_eq_of_lt hstart
  · rw [update_self, readSuper_superBlock]
    exact Nat.mod_eq_of_lt hend
  · refine (logged_logWrites v (logBlocks v ws) m v.logPosEnd hv.end_in hlen).congr ?_ hv.end_in
    intro num hnum
    have := hnum.1
    have := hv.log_pos
    exact update_of_ne (by omega) _ _
  · intro num hnum _
    rw [update_of_ne hnum.1]
    exact applyWrites_other _ _ fun u hu he => hnum.2 (he ▸ hin u hu)

/-! ## Requests, point by point -/

variable {P : Store Nat Block → Prop} {d d' : Device}

/-- The device went on from `d` to `d'`, and `P` held of its store at every point on the way. -/
def Proceeds (P : Store Nat Block → Prop) (d d' : Device) : Prop :=
  ∃ ops, d' = { d with issued := d.issued ++ ops } ∧ d.store.Throughout P ops

theorem store_issued (d : Device) (ops : List (StoreOp Nat Block)) :
    ({ d with issued := d.issued ++ ops } : Device).store = d.store.run ops :=
  Store.run_append _ _ _

theorem Proceeds.trans {d'' : Device} (h : Proceeds P d d') (h' : Proceeds P d' d'') : Proceeds P d d'' := by
  obtain ⟨ops, rfl, ht⟩ := h
  obtain ⟨ops', rfl, ht'⟩ := h'
  rw [store_issued] at ht'
  refine ⟨ops ++ ops', ?_, ht.append ht'⟩
  simp

theorem proceeds_writeAll (h : ∀ k, P { d.store with pending := d.store.pending ++ us.take k }) :
    Proceeds P d (d.writeAll us) :=
  ⟨_, Device.writeAll_eq d us, .writes h⟩

theorem proceeds_write (h : P d.store) (h' : P (d.store.exec (.write num b))) : Proceeds P d (d.write num b) := by
  refine ⟨[.write num b], rfl, fun k => ?_⟩
  cases k with
  | zero => exact h
  | succ k => rw [take_of_length_le (by simp)]; exact h'

theorem proceeds_flush (h : P d.store) (h' : P (d.store.exec .flush)) : Proceeds P d d.flush :=
  ⟨[.flush], rfl, .flush h h'⟩

theorem store_writeAll (d : Device) (us : List (Nat × Block)) :
    (d.writeAll us).store = { d.store with pending := d.store.pending ++ us } := by
  rw [Device.writeAll_eq, store_issued, Store.run_writes]

theorem Proceeds.storeAt (h : Proceeds P d d') {n : Nat} (hn : d.issued.length ≤ n) : P (d'.storeAt n) := by
  obtain ⟨ops, rfl, ht⟩ := h
  have htake : (d.issued ++ ops).take n = d.issued ++ ops.take (n - d.issued.length) := by
    rw [take_append, take_of_length_le hn]
  show P ((Store.mk d.start []).run ((d.issued ++ ops).take n))
  rw [htake, Store.run_append]
  exact ht _

/-! ## The commit -/

variable {e : Engine}

theorem Overlay.get?_none {o : Overlay} (h : ∀ w ∈ o.entries, w.1 ≠ num) : o.get? num = none := by
  refine lookup_eq_none_iff.mpr fun w hw => ?_
  simpa using (h w hw).symm

theorem Engine.mem_order : w ∈ e.order ↔ w ∈ e.trans.entries :=
  (exchangeSort_perm e.trans.entries).mem_iff

theorem Engine.length_order (e : Engine) : e.order.length = e.trans.entries.length :=
  (exchangeSort_perm e.trans.entries).length_eq

theorem order_length_le (e : Engine) : e.order.length ≤ maxTransBlocks := by
  rw [e.length_order]
  exact e.trans.length_le

theorem order_ne_nil (hacc : e.Accepted) : e.order ≠ [] := by
  intro h0
  have hlen := e.length_order
  rw [h0] at hlen
  exact hacc.2.1 (length_eq_zero_iff.mp hlen.symm)

theorem order_room (hacc : e.Accepted) : e.order.length + 1 < e.vol.logLen := by
  rw [e.length_order]
  exact hacc.2.2

theorem Lands.order (h : Lands e.vol e.trans.entries) : Lands e.vol e.order :=
  ⟨fun w hw => h.data w (Engine.mem_order.mp hw), fun w hw => h.bound w (Engine.mem_order.mp hw)⟩

theorem Fits.order (h : Fits e.vol e.trans.entries) : Fits e.vol e.order :=
  ⟨fun w hw => h.data w (Engine.mem_order.mp hw), fun w hw => h.bound w (Engine.mem_order.mp hw),
    fun w hw => h.root w (Engine.mem_order.mp hw)⟩

theorem Engine.Mounted.store_eq (hm : e.Mounted) : e.dev.store = ⟨e.dev.read, []⟩ :=
  Store.eq_of_flushed hm.flushed

theorem Engine.Mounted.clean (hm : e.Mounted) : Clean e.vol e.dev.read e.dev.read :=
  ⟨hm.super, hm.vol ▸ .refl _, by rw [← hm.vol]; exact hm.empty, fun _ _ => rfl⟩

theorem transCommit_accepted (h : e.Accepted) (answers : Nat → Answer) : e.transCommit answers =
    match e.commitStages answers with
    | .error e' => (e'.transAbort, false)
    | .ok e' => (e', true) := by
  have hlen := h.2.2
  unfold Engine.transCommit
  have hroom : ¬ e.vol.logLen ≤ e.trans.entries.length + 1 := by omega
  exact (if_neg (by rw [h.1]; simp)).trans ((if_neg h.2.1).trans (if_neg hroom))

theorem transCommit_taken (h : e.Accepted) :
    e.transCommit taken = (e.commitLog.commitDirty.commitData.commitClean, true) := by
  rw [transCommit_accepted h, e.commitStages_taken]

/-- **A commit whose requests fail somewhere** is at every point where the whole commit is at some point. -/
theorem transCommit_storeAt (h : e.Accepted) (answers : Nat → Answer) {n : Nat} (hn : e.dev.issued.length ≤ n) :
    ∃ n', e.dev.issued.length ≤ n' ∧
      (e.transCommit answers).1.dev.storeAt n = (e.transCommit taken).1.dev.storeAt n' := by
  obtain ⟨n', hn', hstore⟩ := (e.commitStages_follows answers).storeAt hn
  rw [e.commitStages_taken] at hstore
  refine ⟨n', hn', ?_⟩
  rw [transCommit_taken h, transCommit_accepted h]
  cases hr : e.commitStages answers with
  | ok e' =>
    rw [hr] at hstore
    exact hstore
  | error e' =>
    rw [hr] at hstore
    exact hstore

theorem length_logBlocks (v : Volume) (ws : List (Nat × Block)) : (logBlocks v ws).length = ws.length + 1 := by
  simp [logBlocks]

theorem commitLog_super (hm : e.Mounted) (hfit : Lands e.vol e.trans.entries) (hv : e.vol.LogSane) :
    superBlock (e.commitLog.block 0) true e.commitLog.vol
      = superBlock (e.dev.read 0) true (e.vol.pinned (logBlocks e.vol e.order).length) := by
  have hget : e.trans.get? 0 = none := Overlay.get?_none fun w hw => (hfit.data w hw).1
  have hread : e.commitLog.block 0 = e.dev.read 0 := by
    show (e.trans.get? 0).getD ((e.dev.writeAll _).store.view 0) = _
    rw [hget, Option.getD_none, Device.writeAll_eq, store_issued, Store.run_writes, Store.view_writes]
    refine applyWrites_other _ _ fun u hu he => ?_
    have h1 := (logWrites_inLog e.vol _ _ hv.end_in hu).1
    have h2 := hv.log_pos
    omega
  have hvol : e.commitLog.vol = e.vol.pinned (logBlocks e.vol e.order).length := by
    show ({ e.vol with logPosEnd := logAdvance e.vol e.vol.logPosEnd (logBlocks e.vol e.order).length } :
      Volume) = _
    unfold Volume.pinned
    rw [← hm.empty]
  rw [hread, hvol]

theorem commit_requests (hacc : e.Accepted) : (e.transCommit taken).1.dev =
    (((((e.dev.writeAll (logWrites e.vol e.vol.logPosEnd (logBlocks e.vol e.order))).write 0
      (superBlock (e.commitLog.block 0) true e.commitLog.vol)).flush.writeAll e.order).flush).write 0
      (superBlock (e.commitLog.commitDirty.commitData.block 0) false
        { e.commitLog.vol with
          usedBlocks := (e.vol.usedBlocks + e.usedPending) % 2 ^ 64
          logPosStart := e.commitLog.vol.logPosEnd })).flush := by
  rw [transCommit_taken hacc]
  rfl

theorem store_flushed_data (hs : d.store = ⟨m, []⟩) (us : List (Nat × Block)) (b : Block)
    (ws : List (Nat × Block)) : (((d.writeAll us).write 0 b).flush.writeAll ws).flush.store
      = ⟨applyWrites (update (applyWrites m us) 0 b) ws, []⟩ := by
  rw [Device.store_flush, store_writeAll, Device.store_flush, Device.store_write, store_writeAll, hs]
  rw [Store.write_flush]
  rfl

/-- The CLEN superblock is made from the DIRT one. -/
theorem commitData_super (hm : e.Mounted) (hfit : Fits e.vol e.trans.entries) :
    e.commitLog.commitDirty.commitData.block 0 = superBlock (e.commitLog.block 0) true e.commitLog.vol := by
  show (e.trans.get? 0).getD ((((e.dev.writeAll _).write 0 _).flush.writeAll e.order).flush.store.view 0) = _
  rw [Overlay.get?_none fun w hw => (hfit.data w hw).1, Option.getD_none, store_flushed_data hm.store_eq]
  show applyWrites _ e.order 0 = _
  rw [applyWrites_other _ _ fun w hw => (hfit.order.data w hw).1, update_self]
  rfl

theorem requests_safe (hs : d.store = ⟨before, []⟩) (hbase : 0 < v.logBase)
    (hpos : pos < v.logLen) (hclean : Clean v before before) (hws : Fits v ws) (hus : ∀ u ∈ us, v.InLog u.1) {dirt clen : Block}
    (hdirt : Dirty v before pos ws (update (applyWrites before us) 0 dirt))
    (hok : superOk clen = true) (hshape : v.SameShape (readSuper clen))
    (hempty : (readSuper clen).logPosStart = (readSuper clen).logPosEnd) :
    Proceeds (SafeAt v before pos ws) d
      (((((d.writeAll us).write 0 dirt).flush.writeAll ws).flush).write 0 clen).flush := by
  have hlog : ∀ k, SafeAt v before pos ws ⟨before, us.take k⟩ := fun k =>
    safeAt_log hclean hbase fun u hu => hus u (mem_of_mem_take hu)
  have hs1 : (d.writeAll us).store = ⟨before, us⟩ := by rw [store_writeAll, hs]; rfl
  have hs3 : ((d.writeAll us).write 0 dirt).flush.store = ⟨update (applyWrites before us) 0 dirt, []⟩ := by
    rw [Device.store_flush, Device.store_write, hs1, Store.write_flush]
  have hs5 := store_flushed_data hs us dirt ws
  have hdone : Dirty v before pos ws (applyWrites (update (applyWrites before us) 0 dirt) ws) :=
    hdirt.data_writes hws.lands hpos fun u hu => hu
  have hnone : ∀ u ∈ ([] : List (Nat × Block)), u ∈ ws := fun u hu => absurd hu not_mem_nil
  have hlast := safeAt_clen hdone hws hpos hnone (fun num hnum => hdirt.redo hnum) hok hshape hempty
  have stage1 : Proceeds (SafeAt v before pos ws) d (d.writeAll us) := by
    refine proceeds_writeAll fun k => ?_
    rw [hs]
    exact hlog k
  have stage2 : Proceeds (SafeAt v before pos ws) (d.writeAll us) ((d.writeAll us).write 0 dirt).flush := by
    have hboth : SafeAt v before pos ws ((d.writeAll us).write 0 dirt).store := by
      rw [Device.store_write, hs1]
      exact safeAt_dirt hclean hbase hus hdirt
    refine (proceeds_write ?_ ?_).trans (proceeds_flush hboth ?_)
    · rw [hs1]
      exact safeAt_log hclean hbase hus
    · rw [← Device.store_write]
      exact hboth
    · rw [← Device.store_flush, hs3]
      exact safeAt_flushed (.inr (.inl hdirt))
  have stage3 : Proceeds (SafeAt v before pos ws) ((d.writeAll us).write 0 dirt).flush
      (((d.writeAll us).write 0 dirt).flush.writeAll ws).flush := by
    refine (proceeds_writeAll fun k => ?_).trans (proceeds_flush ?_ ?_)
    · rw [hs3]
      exact safeAt_data hdirt hws hpos fun u hu => mem_of_mem_take hu
    · rw [store_writeAll, hs3]
      exact safeAt_data hdirt hws hpos fun u hu => hu
    · rw [← Device.store_flush, hs5]
      exact safeAt_flushed (.inr (.inl hdone))
  -- stage 4
  refine ((stage1.trans stage2).trans stage3).trans ((proceeds_write ?_ ?_).trans (proceeds_flush ?_ ?_))
  · rw [hs5]
    exact safeAt_flushed (.inr (.inl hdone))
  · rw [hs5]
    exact hlast
  · rw [Device.store_write, hs5]
    exact hlast
  · rw [Device.store_write, hs5, Store.write_flush]
    exact safeAt_flushed (.inr (.inr (clean_of_super hok hshape hempty fun num hnum => hdirt.redo hnum)))

/-- **The commit is survived at every point.** -/
theorem commit_safe (hm : e.Mounted) (hv : e.vol.Sane) (hacc : e.Accepted) (hfit : Fits e.vol e.trans.entries) :
    Proceeds (SafeAt e.vol e.dev.read e.vol.logPosEnd e.order) e.dev
      (e.transCommit taken).1.dev := by
  have hord := hfit.order
  have hin : ∀ u ∈ logWrites e.vol e.vol.logPosEnd (logBlocks e.vol e.order), e.vol.InLog u.1 :=
    fun u hu => logWrites_inLog e.vol _ _ hv.end_in hu
  have hlen : (logBlocks e.vol e.order).length ≤ e.vol.logLen := by
    rw [length_logBlocks]
    exact Nat.le_of_lt (order_room hacc)
  have hdirty := dirty_of_log hv.log hm.super hm.vol hlen
  have hdirt := commitLog_super hm hfit.lands hv.log
  rw [commit_requests hacc, commitData_super hm hfit, hdirt]
  refine requests_safe hm.store_eq hv.log_pos hv.end_in hm.clean hord hin hdirty ?_ ?_ ?_
  · rw [superOk_superBlock, superOk_superBlock]
    exact hm.super
  · rw [readSuper_superBlock, readSuper_superBlock, ← hm.vol]
    rfl
  · rw [readSuper_superBlock]

end Aegir.Bfs
