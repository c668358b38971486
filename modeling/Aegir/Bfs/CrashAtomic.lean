/-
  The journal across crashes.

  `Found` collects the media a mount may find after the power failed in a commit, and after it in any number
  of mounts; at each failure any subset of the unflushed writes may have reached the medium.

  The three conditions of a commit are all that a mount can find -- as long as a superblock never overtakes
  the writes issued BEFORE it, and no request of an earlier commit was refused since the mount: such a commit is
  given up, but not its place in the log.  The commit does not flush between the log and the DIRT superblock, nor the
  replay between the blocks and the CLEN superblock, so a write cache is free to let it.
-/
import Aegir.Bfs.CrashPoints

namespace Aegir.Bfs

open Aegir.Lib List Function

variable {v : Volume} {before m : Medium} {pos : Nat} {ws : List (Nat × Block)}

/-- The media a mount may find after the commit of `e`'s transaction was cut short, when each power
    failure loses pending writes as `Allowed` says.  Requests of the commit and of the mounts may be refused. -/
inductive Found (Allowed : List (Nat × Block) → (Nat → Bool) → Prop) (e : Engine) : Medium → Prop
  | commit (answers : Nat → Answer) (n : Nat) (keep : Nat → Bool) (hn : e.dev.issued.length ≤ n)
      (hkeep : Allowed ((e.transCommit answers).1.dev.storeAt n).pending keep) :
      Found Allowed e (((e.transCommit answers).1.dev.storeAt n).crash keep)
  | mount (m : Medium) (answers : Nat → Answer) (fuel n : Nat) (keep : Nat → Bool) (hm : Found Allowed e m)
      (hkeep : Allowed ((deviceOf id (init answers fuel m)).storeAt n).pending keep) :
      Found Allowed e (((deviceOf id (init answers fuel m)).storeAt n).crash keep)

/-- Every long enough run of `Init` mounts the medium, with the data blocks `c`. -/
def Remounts (v : Volume) (m : Medium) (c : Medium) : Prop :=
  ∃ fuel₀, ∀ fuel, fuel₀ ≤ fuel → ∃ e, init taken fuel m = .ok e ∧ e.Mounted ∧ v.SameShape e.vol ∧
    ∀ num, v.Data num → e.block num = c num

/-! ## The mount -/

variable {e : Engine}

theorem block_of_empty (h : e.trans = .empty) (num : Nat) : e.block num = e.dev.read num := by
  unfold Engine.block
  rw [h]
  rfl

theorem copyOut_logged (ws : List (Nat × Block)) (e : Engine) (p : Nat) (hempty : e.trans = .empty)
    (hin : e.vol.logBase + e.vol.logLen ≤ e.vol.numBlocks) (hp : p < e.vol.logLen)
    (hout : ∀ w ∈ ws, ¬ e.vol.InLog w.1) (hlog : Logged e.vol e.dev.read p (ws.map Prod.snd)) :
    e.copyOut taken (ws.map Prod.fst) p = .ok (e.writeAll ws, logAdvance e.vol p ws.length) := by
  induction ws generalizing e p with
  | nil => rfl
  | cons w ws ih =>
    have hget : e.getBlock (e.vol.logBase + p) = some w.2 := by
      unfold Engine.getBlock
      rw [if_neg (by omega), block_of_empty hempty]
      exact congrArg some hlog.1
    have hrest := ih (e.write w.1 w.2) ((p + 1) % e.vol.logLen) hempty hin (Nat.mod_lt _ (by omega))
      (fun u hu => hout u (mem_cons_of_mem _ hu)) ?_
    · rw [map_cons, Engine.copyOut, hget]
      exact hrest
    · -- the block just written is not in the log
      refine Logged.congr (fun num hnum => ?_) (Nat.mod_lt _ (by omega)) hlog.2
      have hne : num ≠ w.1 := fun he => hout w mem_cons_self (he ▸ hnum)
      show (e.dev.write w.1 w.2).store.view num = e.dev.store.view num
      rw [Device.store_write]
      show applyWrites e.dev.store.medium (e.dev.store.pending ++ [(w.1, w.2)]) num = _
      rw [applyWrites_append]
      exact update_of_ne hne _ _

theorem readRuns_logBlocks (hv : e.vol.LogSane) (hws : Lands e.vol ws) (hne : ws ≠ [])
    (hlen : ws.length ≤ maxTransBlocks) :
    ∃ runs, e.readRuns (runArray e.vol (mergeRuns e.vol.groupSize (ws.map Prod.fst))) = some runs ∧
      Engine.destinations e.vol runs = ws.map Prod.fst := by
  have hbound : ∀ n ∈ ws.map Prod.fst, n < e.vol.numBlocks := by
    intro n hn
    obtain ⟨w, hw, rfl⟩ := mem_map.mp hn
    exact hws.bound w hw
  have hfit := mergeRuns_fits (Nat.two_pow_pos e.vol.agShift) (ws.map Prod.fst) hbound
  have hshort : (ws.map Prod.fst).length ≤ 40 := by rw [length_map]; exact hlen
  have hcount : (mergeRuns e.vol.groupSize (ws.map Prod.fst)).length ≤ 127 ∧
      0 < (mergeRuns e.vol.groupSize (ws.map Prod.fst)).length := by
    cases hmap : ws.map Prod.fst with
    | nil => exact absurd (map_eq_nil_iff.mp hmap) hne
    | cons num nums =>
      have := mergeFrom_length e.vol.groupSize num 1 nums
      rw [hmap, length_cons] at hshort
      rw [mergeRuns]
      omega
  refine ⟨_, readRuns_runArray e _ hv.shift hv.encodable hcount.2 hcount.1 fun r hr => ?_, ?_⟩
  · have hf := hfit r hr
    have hs := hf.short
    exact ⟨hf.pos, hf.inGroup, by omega, hf.below⟩
  · refine destinations_runs e.vol _ hv.shift (fun n hn => ?_) (by omega)
    exact Nat.lt_of_lt_of_le (hbound n hn) hv.encodable

/-! The geometry is all the log depends on. -/

variable {w : Volume} {p : Nat} {c : Medium}

theorem putRuns_shape (h : v.SameShape w) (arr : Block) (i : Nat) (runs : List (Nat × Nat)) :
    putRuns w arr i runs = putRuns v arr i runs := by
  induction runs generalizing arr i with
  | nil => rfl
  | cons r rs ih =>
    rw [putRuns, putRuns, ih, h]
    rfl

theorem logBlocks_shape (h : v.SameShape w) (ws : List (Nat × Block)) : logBlocks w ws = logBlocks v ws := by
  unfold logBlocks runArray
  rw [putRuns_shape h, h]
  rfl

theorem logged_shape (h : v.SameShape w) {bs : List Block} (hl : Logged v m p bs) : Logged w m p bs := by
  induction bs generalizing p with
  | nil => trivial
  | cons b bs ih =>
    have hstep := ih hl.2
    rw [h] at hstep ⊢
    exact ⟨hl.1, hstep⟩

theorem Volume.LogSane.shape (hv : v.LogSane) (h : v.SameShape w) (hend : w.logPosEnd < v.logLen) :
    w.LogSane := by
  rw [h]
  exact ⟨hv.shift, hv.encodable, hv.log_pos, hv.log_in, hend⟩

theorem Lands.shape (hf : Lands v ws) (h : v.SameShape w) : Lands w ws := by
  rw [h]
  exact ⟨hf.data, hf.bound⟩

theorem replayLoop_logged (hempty : e.trans = .empty) (hv : e.vol.LogSane) (hws : Lands e.vol ws)
    (hne : ws ≠ []) (hlen : ws.length ≤ maxTransBlocks) (hroom : ws.length + 1 < e.vol.logLen)
    (hp : p < e.vol.logLen) (hlog : Logged e.vol e.dev.read p (logBlocks e.vol ws)) (fuel : Nat) :
    e.replayLoop taken (fuel + 1) p (logAdvance e.vol p (ws.length + 1))
      = (e.writeAll ws).replayLoop taken fuel (logAdvance e.vol p (ws.length + 1))
          (logAdvance e.vol p (ws.length + 1)) := by
  have hmove : p ≠ logAdvance e.vol p (ws.length + 1) :=
    (logAdvance_ne e.vol (ws.length + 1) p hp (by omega) hroom).symm
  have hget : e.getBlock (e.vol.logBase + p)
      = some (runArray e.vol (mergeRuns e.vol.groupSize (ws.map Prod.fst))) := by
    have hin := hv.log_in
    unfold Engine.getBlock
    rw [if_neg (by omega), block_of_empty hempty]
    exact congrArg some hlog.1
  obtain ⟨runs, hruns, hdest⟩ := readRuns_logBlocks hv hws hne hlen
  have hcopy := copyOut_logged ws e ((p + 1) % e.vol.logLen) hempty hv.log_in (Nat.mod_lt _ (by omega))
    (fun w hw => (hws.data w hw).2) hlog.2
  rw [Engine.replayLoop, if_neg hmove, hget]
  simp only [hruns, hdest, hcopy]
  rfl

theorem readSuper_used_lt (b : Block) : (readSuper b).usedBlocks < 2 ^ 64 := le_lt b (512 + 56) 8

theorem readSuper_end_lt (b : Block) : (readSuper b).logPosEnd < 2 ^ 64 := le_lt b (512 + 104) 8

theorem readSuper_checkpoint (b : Block) : readSuper (superBlock b false
    { readSuper b with
      usedBlocks := ((readSuper b).usedBlocks + 0) % 2 ^ 64, logPosStart := (readSuper b).logPosEnd })
    = { readSuper b with
        usedBlocks := ((readSuper b).usedBlocks + 0) % 2 ^ 64, logPosStart := (readSuper b).logPosEnd } := by
  have hend := Nat.mod_eq_of_lt (readSuper_end_lt b)
  rw [readSuper_superBlock]
  simp only [hend, Nat.mod_mod, Bool.false_eq_true, if_false]

/-- The clean superblock a replay writes. -/
def checkpointOf (m : Medium) : Block :=
  superBlock (m 0) false
    { readSuper (m 0) with
      usedBlocks := ((readSuper (m 0)).usedBlocks + 0) % 2 ^ 64
      logPosStart := (readSuper (m 0)).logPosEnd }

/-- The device right after a replay. -/
def replayed (m : Medium) (ws : List (Nat × Block)) : Device :=
  (((⟨m, []⟩ : Device).writeAll ws).write 0 (checkpointOf m)).flush

theorem store_replayed (m : Medium) (ws : List (Nat × Block)) :
    (replayed m ws).store = ⟨update (applyWrites m ws) 0 (checkpointOf m), []⟩ := by
  rw [replayed, Device.store_flush, Device.store_write, store_writeAll]
  exact Store.write_flush m ws 0 _

theorem init_clean (hv : v.Sane) (h : Clean v c m) (answers : Nat → Answer) (fuel : Nat)
    (hroot : inodeOk (c v.rootBlock) = true) : init answers fuel m = .ok (opened m) := by
  have hin := hv.root_in
  have hw := h.shape
  have hr : (opened m).vol.rootBlock = v.rootBlock := by
    show (readSuper (m 0)).rootBlock = _
    rw [hw]
  have hn : (opened m).vol.numBlocks = v.numBlocks := by
    show (readSuper (m 0)).numBlocks = _
    rw [hw]
  have hget : (opened m).getBlock (opened m).vol.rootBlock = some (c v.rootBlock) := by
    unfold Engine.getBlock
    rw [hr, hn, if_neg (by omega), block_of_empty rfl]
    exact congrArg some (h.data _ hv.root)
  have hlog : (opened m).recovered answers fuel = .ok (opened m) := if_neg fun hne => hne h.empty
  rw [init_recovered h.super hlog]
  unfold Engine.checkRoot
  simp only [hget, hroot, if_true]

/-- What the engine has mounted when the replay is over. -/
def remounted (m : Medium) (ws : List (Nat × Block)) : Engine where
  vol := { readSuper (m 0) with
    usedBlocks := ((readSuper (m 0)).usedBlocks + 0) % 2 ^ 64
    logPosStart := (readSuper (m 0)).logPosEnd }
  usedPending := 0
  trans := .empty
  transOverflowed := false
  dev := replayed m ws

theorem Dirty.start_ne_end (hd : Dirty v before pos ws m) (hroom : ws.length + 1 < v.logLen)
    (hpos : pos < v.logLen) : (opened m).vol.logPosStart ≠ (opened m).vol.logPosEnd := by
  show (readSuper (m 0)).logPosStart ≠ (readSuper (m 0)).logPosEnd
  rw [hd.start_eq, hd.end_eq, length_logBlocks]
  exact (logAdvance_ne v _ _ hpos (by omega) hroom).symm

section Loop

variable (hv : v.LogSane) (hws : Lands v ws) (hne : ws ≠ []) (hlen : ws.length ≤ maxTransBlocks)
  (hroom : ws.length + 1 < v.logLen) (hpos : pos < v.logLen)

include hv hws hne hlen hroom hpos

theorem replayLoop_dirty (hd : Dirty v before pos ws m) (fuel : Nat) :
    (opened m).replayLoop taken (fuel + 1) ((opened m).vol.logPosStart % (opened m).vol.logLen)
        ((opened m).vol.logPosEnd % (opened m).vol.logLen)
      = ((opened m).writeAll ws).replayLoop taken fuel (opened m).vol.logPosEnd (opened m).vol.logPosEnd := by
  have hw := hd.shape
  have hl : (opened m).vol.logLen = v.logLen := by
    show (readSuper (m 0)).logLen = _
    rw [hw]
  have hend : (opened m).vol.logPosEnd = logAdvance (opened m).vol pos (ws.length + 1) := by
    rw [logAdvance_eq _ _ _ (by rw [hl]; exact hpos), hl, ← length_logBlocks v ws, ← logAdvance_eq v _ _ hpos]
    exact hd.end_eq
  have hendlt : (opened m).vol.logPosEnd < v.logLen := by
    rw [hend, ← hl]
    exact logAdvance_lt _ _ _ (by rw [hl]; exact hpos)
  have hstart : (opened m).vol.logPosStart = pos := hd.start_eq
  have hlog : Logged (opened m).vol (opened m).dev.read pos (logBlocks (opened m).vol ws) := by
    show Logged (readSuper (m 0)) m pos (logBlocks (readSuper (m 0)) ws)
    rw [logBlocks_shape hw]
    exact logged_shape hw hd.logged
  rw [hstart, hl, Nat.mod_eq_of_lt hpos, Nat.mod_eq_of_lt hendlt, hend]
  exact replayLoop_logged rfl (hv.shape hw hendlt) (hws.shape hw) hne hlen (by rw [hl]; exact hroom)
    (by rw [hl]; exact hpos) hlog fuel

/-- **The replay of a dirty volume** writes the transaction and a clean superblock. -/
theorem replayLog_dirty (hd : Dirty v before pos ws m) (fuel : Nat) :
    (opened m).replayLog taken (fuel + 2) = .ok (remounted m ws) := by
  have hb : ((opened m).writeAll ws).block 0 = m 0 := by
    show ((⟨m, []⟩ : Device).writeAll ws).store.view 0 = m 0
    rw [store_writeAll]
    exact applyWrites_other ws m fun w hw => (hws.data w hw).1
  unfold Engine.replayLog
  rw [replayLoop_dirty hv hws hne hlen hroom hpos hd (fuel + 1), Engine.replayLoop, if_pos rfl]
  show Except.ok (Engine.mk (remounted m ws).vol 0 .empty false (((opened m).writeAll ws).dev.write 0
    (superBlock (((opened m).writeAll ws).block 0) false (remounted m ws).vol)).flush) = _
  rw [hb]
  rfl

end Loop

section Replay

variable (hv : v.Sane) (hws : Fits v ws) (hne : ws ≠ []) (hlen : ws.length ≤ maxTransBlocks)
  (hroom : ws.length + 1 < v.logLen) (hpos : pos < v.logLen)

include hv hws hne hlen hroom hpos

section

variable (hd : Dirty v before pos ws m)

include hd

/-- **A mount of a dirty volume replays the transaction.** -/
theorem init_dirty (hroot : inodeOk (applyWrites before ws v.rootBlock) = true) (fuel : Nat) :
    init taken (fuel + 2) m = .ok (remounted m ws) := by
  have hin := hv.root_in
  have hw := hd.shape
  have hreplay := replayLog_dirty hv.log hws.lands hne hlen hroom hpos hd fuel
  have hget : (remounted m ws).getBlock (remounted m ws).vol.rootBlock
      = some (applyWrites before ws v.rootBlock) := by
    have hr : (remounted m ws).vol.rootBlock = v.rootBlock := by
      show (readSuper (m 0)).rootBlock = _
      rw [hw]
    have hn : (remounted m ws).vol.numBlocks = v.numBlocks := by
      show (readSuper (m 0)).numBlocks = _
      rw [hw]
    unfold Engine.getBlock
    rw [hr, hn, if_neg (by omega), block_of_empty rfl]
    show some ((replayed m ws).store.view v.rootBlock) = _
    rw [store_replayed]
    show some (update (applyWrites m ws) 0 _ v.rootBlock) = _
    rw [update_of_ne hv.root.1, hd.redo hv.root]
  have hlog : (opened m).recovered taken (fuel + 2) = .ok (remounted m ws) :=
    (if_pos (hd.start_ne_end hroom hpos)).trans hreplay
  rw [init_recovered hd.super hlog]
  unfold Engine.checkRoot
  simp only [hget, hroot, if_true]

theorem init_dirty_short :
    deviceOf id (init taken 0 m) = ⟨m, []⟩ ∧ deviceOf id (init taken 1 m) = (⟨m, []⟩ : Device).writeAll ws := by
  have hloop := replayLoop_dirty hv.log hws.lands hne hlen hroom hpos hd 0
  have hlog : ∀ fuel, (opened m).recovered taken fuel = (opened m).replayLog taken fuel := fun fuel =>
    if_pos (hd.start_ne_end hroom hpos)
  have h0 : (opened m).recovered taken 0 = .error (opened m) := hlog 0
  have h1 : (opened m).recovered taken 1 = .error ((opened m).writeAll ws) := by
    rw [hlog]
    unfold Engine.replayLog
    rw [hloop]
    rfl
  rw [init_failed hd.super h0, init_failed hd.super h1]
  exact ⟨rfl, rfl⟩

theorem mount_safe (hroot : inodeOk (applyWrites before ws v.rootBlock) = true) (fuel : Nat) :
    Proceeds (SafeAt v before pos ws) ⟨m, []⟩ (deviceOf id (init taken fuel m)) := by
  have hok : superOk (checkpointOf m) = true := by
    exact hd.super
  have hshape : v.SameShape (readSuper (checkpointOf m)) := by
    rw [checkpointOf, readSuper_checkpoint, hd.shape]
    rfl
  have hempty : (readSuper (checkpointOf m)).logPosStart = (readSuper (checkpointOf m)).logPosEnd := by
    rw [checkpointOf, readSuper_checkpoint]
  have hdata : Proceeds (SafeAt v before pos ws) ⟨m, []⟩ ((⟨m, []⟩ : Device).writeAll ws) :=
    proceeds_writeAll fun k => safeAt_data hd hws hpos fun u hu => mem_of_mem_take hu
  have hs1 : ((⟨m, []⟩ : Device).writeAll ws).store = ⟨m, ws⟩ := by rw [store_writeAll]; rfl
  have hclen : SafeAt v before pos ws ⟨m, ws ++ [(0, checkpointOf m)]⟩ :=
    safeAt_clen hd hws hpos (fun u hu => hu) (fun num hnum => hd.redo hnum) hok hshape hempty
  obtain ⟨h0, h1⟩ := init_dirty_short hv hws hne hlen hroom hpos hd
  match fuel with
  | 0 =>
    rw [h0]
    exact ⟨[], rfl, fun k => by rw [take_nil]; exact safeAt_flushed (.inr (.inl hd))⟩
  | 1 =>
    rw [h1]
    exact hdata
  | fuel + 2 =>
    rw [init_dirty hv hws hne hlen hroom hpos hd hroot fuel]
    refine hdata.trans ((proceeds_write ?_ ?_).trans (proceeds_flush ?_ ?_))
    · rw [hs1]
      exact safeAt_data hd hws hpos fun u hu => hu
    · rw [hs1]
      exact hclen
    · rw [Device.store_write, hs1]
      exact hclen
    · rw [Device.store_write, hs1, Store.write_flush]
      exact safeAt_flushed (.inr (.inr (clean_of_super hok hshape hempty fun num hnum => hd.redo hnum)))

theorem dirty_remounts (hroot : inodeOk (applyWrites before ws v.rootBlock) = true) :
    Remounts v m (applyWrites before ws) := by
  have hstore := store_replayed m ws
  have hread : (remounted m ws).dev.read = update (applyWrites m ws) 0 (checkpointOf m) := by
    show (replayed m ws).store.view = _
    rw [hstore]
    rfl
  have h0 : (remounted m ws).dev.read 0 = checkpointOf m := by rw [hread, update_self]
  have hrootBlock : (remounted m ws).vol.rootBlock = v.rootBlock := by
    show (readSuper (m 0)).rootBlock = _
    rw [hd.shape]
  have hdata : ∀ num, v.Data num → (remounted m ws).dev.read num = applyWrites before ws num := by
    intro num hnum
    rw [hread, update_of_ne hnum.1]
    exact hd.redo hnum
  refine ⟨2, fun fuel hfuel => ⟨remounted m ws, ?_, ?_, ?_, ?_⟩⟩
  · have := init_dirty hv hws hne hlen hroom hpos hd hroot (fuel - 2)
    rwa [Nat.sub_add_cancel hfuel] at this
  · refine ⟨?_, ?_, ?_, rfl, ?_⟩
    · show (replayed m ws).store.pending = []
      rw [hstore]
    · rw [h0, checkpointOf, superOk_superBlock]
      exact hd.super
    · rw [h0, checkpointOf, readSuper_checkpoint]
      rfl
    · rw [hrootBlock, hdata _ hv.root]
      exact hroot
  · show v.SameShape { readSuper (m 0) with
      usedBlocks := ((readSuper (m 0)).usedBlocks + 0) % 2 ^ 64
      logPosStart := (readSuper (m 0)).logPosEnd }
    rw [hd.shape]
    rfl
  · intro num hnum
    exact hdata num hnum

end

end Replay

theorem clean_remounts (hv : v.Sane) (h : Clean v c m)
    (hroot : inodeOk (c v.rootBlock) = true) : Remounts v m c := by
  refine ⟨0, fun fuel _ => ⟨opened m, init_clean hv h taken fuel hroot, ⟨rfl, h.super, rfl, h.empty, ?_⟩, h.shape, ?_⟩⟩
  · have hr : (opened m).vol.rootBlock = v.rootBlock := by
      show (readSuper (m 0)).rootBlock = _
      rw [h.shape]
    rw [hr]
    show inodeOk (m v.rootBlock) = true
    rw [h.data _ hv.root]
    exact hroot
  · intro num hnum
    exact h.data num hnum

/-! ## Every crash -/

theorem applyWrites_order (e : Engine) (num : Nat) : applyWrites e.dev.read e.order num = e.block num := by
  have hnd : (e.order.map Prod.fst).Nodup :=
    ((exchangeSort_perm e.trans.entries).map Prod.fst).nodup_iff.mpr e.trans.nodup
  unfold Engine.block
  cases hget : e.trans.get? num with
  | none =>
    refine applyWrites_other _ _ fun w hw he => ?_
    have hne := lookup_eq_none_iff.mp hget w (Engine.mem_order.mp hw)
    rw [he] at hne
    simp at hne
  | some b =>
    obtain ⟨l1, l2, hl, -⟩ := lookup_eq_some_iff.mp hget
    have hmem : (num, b) ∈ e.order := Engine.mem_order.mpr (by rw [hl]; simp)
    exact applyWrites_mem e.order e.dev.read hnd hmem

theorem storeAt_unused (m : Medium) (n : Nat) : (⟨m, []⟩ : Device).storeAt n = ⟨m, []⟩ := by
  show (Store.mk m []).run ([].take n) = _
  rw [take_nil]
  rfl

/-- Whatever the power failures of a commit and of the mounts after it leave is in one of the three
    conditions. -/
theorem found_survives (hm : e.Mounted) (hv : e.vol.Sane) (hacc : e.Accepted)
    (hfit : Fits e.vol e.trans.entries) (hroot : inodeOk (e.block e.vol.rootBlock) = true)
    (hf : Found SuperLast e m) : Survives e.vol e.dev.read e.vol.logPosEnd e.order m := by
  rw [← applyWrites_order] at hroot
  induction hf with
  | commit answers n keep hn hkeep =>
    obtain ⟨n', hn', hstore⟩ := transCommit_storeAt hacc answers hn
    rw [hstore] at hkeep ⊢
    exact (commit_safe hm hv hacc hfit).storeAt hn' keep hkeep
  | mount m' answers fuel n keep _ hkeep ih =>
    rcases ih with hc | hd | hc
    · rw [init_clean hv hc answers fuel hm.root] at hkeep ⊢
      rw [show deviceOf id (.ok (opened m')) = ⟨m', []⟩ from rfl, storeAt_unused]
      exact .inl hc
    · obtain ⟨n', -, hstore⟩ := (init_follows answers fuel m').storeAt (Nat.zero_le n)
      rw [hstore] at hkeep ⊢
      have hsafe := mount_safe hv hfit.order (order_ne_nil hacc) (order_length_le e) (order_room hacc)
        hv.end_in hd hroot fuel
      exact hsafe.storeAt (Nat.zero_le _) keep hkeep
    · rw [init_clean hv hc answers fuel hroot] at hkeep ⊢
      rw [show deviceOf id (.ok (opened m')) = ⟨m', []⟩ from rfl, storeAt_unused]
      exact .inr (.inr hc)

theorem Fits.root_ok (h : Fits e.vol e.trans.entries) (hm : e.Mounted) :
    inodeOk (e.block e.vol.rootBlock) = true := by
  unfold Engine.block
  cases hget : e.trans.get? e.vol.rootBlock with
  | none => exact hm.root
  | some b =>
    obtain ⟨l₁, l₂, hl, -⟩ := lookup_eq_some_iff.mp hget
    exact h.root (e.vol.rootBlock, b) (by rw [hl]; simp) rfl

/-- **A commit of which nothing is refused** leaves a mounted volume, with the transaction on the disk. -/
theorem commit_mounted (hm : e.Mounted) (hv : e.vol.Sane) (hacc : e.Accepted) (hfit : Fits e.vol e.trans.entries) :
    (e.transCommit taken).1.Mounted ∧
    ∀ num, e.vol.Data num → (e.transCommit taken).1.dev.read num = e.block num := by
  have hadv := logAdvance_lt e.vol (logBlocks e.vol e.order).length _ hv.end_in
  have hlog : logAdvance e.vol e.vol.logPosEnd (logBlocks e.vol e.order).length < 2 ^ 64 := by
    have hlen : e.vol.logLen < 256 ^ 2 := by
      rw [hm.vol]
      exact le_lt _ _ _
    omega
  have hlogLen : (logBlocks e.vol e.order).length ≤ e.vol.logLen := by
    rw [length_logBlocks]
    exact Nat.le_of_lt (order_room hacc)
  have hdirty := dirty_of_log hv.log hm.super hm.vol hlogLen
  have hdirt := commitLog_super hm hfit.lands hv.log
  have hvol : (e.transCommit taken).1.vol = { e.vol with
      usedBlocks := (e.vol.usedBlocks + e.usedPending) % 2 ^ 64
      logPosStart := logAdvance e.vol e.vol.logPosEnd (logBlocks e.vol e.order).length
      logPosEnd := logAdvance e.vol e.vol.logPosEnd (logBlocks e.vol e.order).length } := by
    rw [transCommit_taken hacc]
    rfl
  have hstore := congrArg Device.store (commit_requests hacc)
  rw [Device.store_flush, Device.store_write, store_flushed_data hm.store_eq, Store.write_flush,
    commitData_super hm hfit, hdirt] at hstore
  have hread : ∀ num, (e.transCommit taken).1.dev.read num = (e.transCommit taken).1.dev.store.medium num := by
    intro num
    show (e.transCommit taken).1.dev.store.view num = _
    rw [hstore]
    rfl
  have hzero := hread 0
  simp only [hstore, update_self] at hzero
  have hdata : ∀ num, e.vol.Data num → (e.transCommit taken).1.dev.read num = e.block num := by
    intro num hnum
    rw [hread, hstore, ← applyWrites_order]
    show update _ 0 _ num = _
    rw [update_of_ne hnum.1]
    exact hdirty.redo hnum
  refine ⟨⟨by rw [hstore], ?_, ?_, by rw [hvol], ?_⟩, hdata⟩
  · rw [hzero, superOk_superBlock, superOk_superBlock]
    exact hm.super
  · rw [hzero, readSuper_superBlock, readSuper_superBlock, ← hm.vol, hvol]
    simp only [Bool.false_eq_true, if_false, Nat.mod_mod]
    show _ = Volume.mk _ _ _ _ _ (logAdvance e.vol e.vol.logPosEnd (logBlocks e.vol e.order).length % 2 ^ 64)
      (logAdvance e.vol e.vol.logPosEnd (logBlocks e.vol e.order).length % 2 ^ 64) _ _
    rw [Nat.mod_eq_of_lt hlog]
  · rw [hvol, hdata _ hv.root]
    exact hfit.root_ok hm

/-- **The journal is crash-atomic while no superblock overtakes the writes before it.**  Wherever the
    power fails during the commit and during the mounts after it, the volume mounts, with the data
    blocks from before the transaction or with all of it applied. -/
theorem commit_crash_atomic (e : Engine) (hm : e.Mounted) (hv : e.vol.Sane) (hacc : e.Accepted)
    (hfit : Fits e.vol e.trans.entries) :
    (∀ m, Found SuperLast e m → Remounts e.vol m e.dev.read ∨ Remounts e.vol m e.block) ∧
    (e.transCommit taken).1.Mounted := by
  refine ⟨fun m hf => ?_, (commit_mounted hm hv hacc hfit).1⟩
  have hroot := hfit.root_ok hm
  have hafter : applyWrites e.dev.read e.order = e.block := by
    funext num
    exact applyWrites_order e num
  rcases found_survives hm hv hacc hfit hroot hf with hc | hd | hc
  · exact .inl (clean_remounts hv hc hm.root)
  · refine .inr ?_
    rw [← hafter] at hroot ⊢
    exact dirty_remounts hv hfit.order (order_ne_nil hacc) (order_length_le e) (order_room hacc)
      hv.end_in hd hroot
  · rw [hafter] at hc
    exact .inr (clean_remounts hv hc hroot)

/-! ## A small volume -/

/-- The superblock of a volume of 64 blocks: the log in the blocks 10 to 17, the root inode in 5. -/
def smallSuper : Block :=
  let b := putLe (putLe (fun _ => 0) (512 + 32) 4 0x42465331) (512 + 36) 4 0x42494745
  let b := putLe (putLe b (512 + 68) 4 0xDD121031) (512 + 112) 4 0x15B6830E
  let b := putLe (putLe b (512 + 40) 4 4096) (512 + 48) 8 64
  let b := putLe (putLe b (512 + 76) 4 13) (512 + 84) 4 sbClean
  putRun (putRun b (512 + 88) ⟨0, 10, 8⟩) (512 + 116) ⟨0, 5, 1⟩

def smallInode : Block := putLe (putLe (fun _ => 0) 0 4 inodeMagic) 24 4 1

def smallVolume : Medium := update (update (fun _ _ => 0) 0 smallSuper) 5 smallInode

/-- A transaction over the blocks 20 and 21. -/
def smallTrans : Overlay := ⟨[(20, fun _ => 1), (21, fun _ => 2)], by decide, by decide⟩

def smallEngine : Engine := { opened smallVolume with trans := smallTrans }

theorem smallEngine_mounted : smallEngine.Mounted :=
  ⟨rfl, by decide +kernel, rfl, by decide +kernel, by decide +kernel⟩

theorem smallEngine_sane : smallEngine.vol.Sane := by
  exact ⟨by decide, by decide, by decide, by decide, by decide, ⟨by decide, by decide⟩, by decide⟩

theorem smallEngine_accepted : smallEngine.Accepted :=
  ⟨rfl, cons_ne_nil _ _, by decide +kernel⟩

theorem smallEngine_fits : Fits smallEngine.vol smallEngine.trans.entries := by
  have hcases : ∀ w ∈ smallEngine.trans.entries, w.1 = 20 ∨ w.1 = 21 := by
    intro w hw
    rcases mem_cons.mp hw with rfl | hw
    · exact .inl rfl
    · exact .inr (congrArg Prod.fst (mem_singleton.mp hw))
  refine ⟨fun w hw => ?_, fun w hw => ?_, fun w hw he => ?_⟩
  · rcases hcases w hw with h | h <;> rw [h] <;> exact ⟨by decide, by decide⟩
  · rcases hcases w hw with h | h <;> rw [h] <;> decide
  · rcases hcases w hw with h | h <;> rw [h] at he <;> exact absurd he (by decide)

/-- The power fails right after the DIRT superblock was issued, and everything reached the medium. -/
theorem commit_crash_atomic_dirt :
    Found SuperLast smallEngine (((smallEngine.transCommit taken).1.dev.storeAt 4).crash fun _ => true) ∧
    (Remounts smallEngine.vol (((smallEngine.transCommit taken).1.dev.storeAt 4).crash fun _ => true)
        smallEngine.dev.read ∨
      Remounts smallEngine.vol (((smallEngine.transCommit taken).1.dev.storeAt 4).crash fun _ => true)
        smallEngine.block) := by
  have hf : Found SuperLast smallEngine (((smallEngine.transCommit taken).1.dev.storeAt 4).crash fun _ => true) :=
    .commit taken 4 _ (Nat.zero_le _) fun _ _ _ _ _ _ => rfl
  exact ⟨hf, (commit_crash_atomic smallEngine smallEngine_mounted smallEngine_sane smallEngine_accepted
    smallEngine_fits).1 _ hf⟩

theorem replayLoop_garbage {stop : Nat} (hne : p ≠ stop) {arr : Block}
    (hget : e.getBlock (e.vol.logBase + p) = some arr) (hruns : e.readRuns arr = none) (fuel : Nat) :
    e.replayLoop taken fuel p stop = .error e := by
  cases fuel with
  | zero => rfl
  | succ fuel =>
    rw [Engine.replayLoop, if_neg hne, hget]
    simp only [hruns]

/-- Of the log and the DIRT superblock only the superblock reached the medium. -/
def overtakenLog : Medium := ((smallEngine.transCommit taken).1.dev.storeAt 4).crash fun i => i == 3

/-- The commit got as far as its first flush. -/
def dirtVolume : Medium := ((smallEngine.transCommit taken).1.dev.storeAt 5).crash fun _ => true

/-- Of the two blocks and the CLEN superblock that the replay wrote, one block and the superblock
    reached the medium. -/
def overtakenBlocks : Medium := ((deviceOf id (init taken 2 dirtVolume)).storeAt 3).crash fun i => i != 1

theorem overtakenLog_never_mounts (fuel : Nat) : (init taken fuel overtakenLog).toOption.isNone := by
  have hfacts : superOk (overtakenLog 0) = true ∧
      (opened overtakenLog).vol.logPosStart ≠ (opened overtakenLog).vol.logPosEnd ∧
      (opened overtakenLog).vol.logPosStart % (opened overtakenLog).vol.logLen
        ≠ (opened overtakenLog).vol.logPosEnd % (opened overtakenLog).vol.logLen ∧
      (opened overtakenLog).readRuns ((opened overtakenLog).block 10) = none ∧
      (opened overtakenLog).vol.logBase + (opened overtakenLog).vol.logPosStart
        % (opened overtakenLog).vol.logLen = 10 ∧
      ¬ (0 < (opened overtakenLog).vol.numBlocks ∧ (opened overtakenLog).vol.numBlocks ≤ 10) := by
    decide +kernel
  obtain ⟨hok, hne, hne', hruns, hten, hbound⟩ := hfacts
  have hget : (opened overtakenLog).getBlock ((opened overtakenLog).vol.logBase
      + (opened overtakenLog).vol.logPosStart % (opened overtakenLog).vol.logLen)
      = some ((opened overtakenLog).block 10) := by
    unfold Engine.getBlock
    rw [hten, if_neg hbound]
  have hlog : (opened overtakenLog).recovered taken fuel = .error (opened overtakenLog) := by
    unfold Engine.recovered Engine.replayLog
    rw [if_pos hne, replayLoop_garbage hne' hget hruns fuel]
    rfl
  rw [init_failed hok hlog]
  rfl

/-- The `i`-th request is refused, and no other. -/
def refuse (i j : Nat) : Answer := if j = i then .refused else .done

/-- The flush behind the DIRT superblock was refused, so the commit answered False; the next transaction is about
    block 22. -/
def retriedEngine : Engine :=
  { (smallEngine.transCommit (refuse 4)).1 with trans := ⟨[(22, fun _ => 3)], by decide, by decide⟩ }

/-- The power fails when that transaction has its DIRT superblock on the medium. -/
def republished : Medium := ((retriedEngine.transCommit taken).1.dev.storeAt 8).crash fun _ => true

/-- **What breaks the volume.**  The DIRT superblock that overtakes its log leaves a volume that no mount accepts;
    the CLEN superblock of a replay that overtakes one of the two blocks leaves a volume that mounts with half of the
    transaction; and after a commit that was refused a flush, the next one brings the transaction that was given up
    back along with its own. -/
theorem commit_crash_mixed :
    (smallEngine.Mounted ∧ smallEngine.vol.Sane ∧ smallEngine.Accepted ∧
      Fits smallEngine.vol smallEngine.trans.entries) ∧
    (Found (fun _ _ => True) smallEngine overtakenLog ∧
      ∀ fuel, (init taken fuel overtakenLog).toOption.isNone) ∧
    (Found (fun _ _ => True) smallEngine overtakenBlocks ∧
      (init taken 0 overtakenBlocks).toOption.map (fun e => (e.block 20 0, e.block 21 0)) = some (1, 0)) ∧
    ((smallEngine.dev.read 20 0, smallEngine.dev.read 21 0) = (0, 0) ∧
      (smallEngine.block 20 0, smallEngine.block 21 0) = (1, 2)) ∧
    ((smallEngine.transCommit (refuse 4)).2 = false ∧ retriedEngine.Accepted ∧
      Found SuperLast retriedEngine republished ∧
      (init taken 4 republished).toOption.map (fun e => (e.block 20 0, e.block 22 0)) = some (1, 3)) ∧
    ((retriedEngine.dev.read 20 0, retriedEngine.dev.read 22 0) = (0, 0) ∧
      (retriedEngine.block 20 0, retriedEngine.block 22 0) = (0, 3)) := by
  have hretried : Found SuperLast retriedEngine republished :=
    .commit taken 8 _ (by decide +kernel) fun _ _ _ _ _ _ => rfl
  refine ⟨⟨smallEngine_mounted, smallEngine_sane, smallEngine_accepted, smallEngine_fits⟩,
    ⟨.commit taken 4 _ (Nat.zero_le _) trivial, overtakenLog_never_mounts⟩,
    ⟨.mount _ taken 2 3 _ (.commit taken 5 _ (Nat.zero_le _) trivial) trivial, ?_⟩, ?_,
    ⟨by decide +kernel, ⟨by decide +kernel, cons_ne_nil _ _, by decide +kernel⟩, hretried, ?_⟩, ?_⟩
  · decide +kernel
  · decide +kernel
  · decide +kernel
  · decide +kernel

end Aegir.Bfs
