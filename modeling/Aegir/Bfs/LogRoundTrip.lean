/-
  The replay undoes the log.

  A replay of the log that stages 1 and 2 of a commit write finds the same block numbers and writes the same
  contents, and nothing else but the superblock (`log_round_trip`), however often it is done.  What this rests
  on: groups have at most `2 ^ 16` blocks and 32 bits for their number, and the blocks of the transaction are
  neither the superblock nor in the log.
-/
import Aegir.Bfs.CrashAtomic

namespace Aegir.Bfs

open Aegir.Lib List Function

variable {v : Volume} {before m : Medium} {pos : Nat} {ws : List (Nat × Block)}

/-! ## Writing back what is there -/

variable {b : Block}

theorem putLe_same {off n : Nat} (val : Nat) (h : le b off n = val) : putLe b off n val = b := by
  induction n generalizing off val with
  | zero => rfl
  | succ n ih =>
    have hval : (b off).toNat + 256 * le b (off + 1) n = val := h
    have hlt := (b off).toNat_lt
    have hbyte : UInt8.ofNat val = b off := by
      refine UInt8.toNat_inj.mp ?_
      rw [UInt8.toNat_ofNat']
      omega
    show putLe (update b off (UInt8.ofNat val)) (off + 1) n (val / 256) = b
    rw [hbyte, update_eq_self]
    exact ih _ (by omega)

theorem superBlock_same {w : Volume} (hflag : le b (512 + 84) 4 = sbClean)
    (hused : le b (512 + 56) 8 = w.usedBlocks) (hstart : le b (512 + 96) 8 = w.logPosStart)
    (hend : le b (512 + 104) 8 = w.logPosEnd) : superBlock b false w = b := by
  show putLe (putLe (putLe (putLe b (512 + 56) 8 w.usedBlocks) (512 + 84) 4 sbClean) (512 + 96) 8 w.logPosStart)
    (512 + 104) 8 w.logPosEnd = b
  rw [putLe_same _ hused, putLe_same _ hflag, putLe_same _ hstart, putLe_same _ hend]

/-- **A second checkpoint** of the same volume changes nothing. -/
theorem checkpointOf_again {m' : Medium} (h : m' 0 = checkpointOf m) : checkpointOf m' = m' 0 := by
  have hread : readSuper (m' 0) = { readSuper (m 0) with
      usedBlocks := ((readSuper (m 0)).usedBlocks + 0) % 2 ^ 64, logPosStart := (readSuper (m 0)).logPosEnd } := by
    rw [h]
    exact readSuper_checkpoint (m 0)
  have hflag : le (m' 0) (512 + 84) 4 = sbClean := by
    rw [h]
    unfold checkpointOf superBlock
    simp (disch := omega) only [le_putLe_disjoint, le_putLe]
    decide
  have hempty : (readSuper (m' 0)).logPosStart = (readSuper (m' 0)).logPosEnd := by rw [hread]
  have hused := Nat.mod_eq_of_lt (readSuper_used_lt (m' 0))
  refine superBlock_same hflag ?_ hempty rfl
  show (readSuper (m' 0)).usedBlocks = ((readSuper (m' 0)).usedBlocks + 0) % 2 ^ 64
  rw [Nat.add_zero, hused]

/-! ## Replays -/

variable {fuel : Nat}

/-- The medium that a replay leaves, if it succeeds. -/
def replayMedium (fuel : Nat) (m : Medium) : Option Medium :=
  match (opened m).replayLog taken fuel with
  | .ok e => some e.dev.store.medium
  | .error _ => none

/-- The medium after a number of replays one after another. -/
def replayTimes (fuel : Nat) : Nat → Medium → Option Medium
  | 0, m => some m
  | n + 1, m => (replayMedium fuel m).bind (replayTimes fuel n)

/-- What is durable after stages 1 and 2. -/
def Engine.laid (e : Engine) : Medium := e.commitLog.commitDirty.dev.store.medium

/-- **The replay undoes the log**: it decodes the block numbers of the transaction, writes its contents and no
    other block but the superblock, and does the same again, also where replays before it were cut short. -/
structure ReplaysExactly (e : Engine) : Prop where
  decodes : ∃ runs, (opened e.laid).readRuns (e.laid (e.vol.logBase + e.vol.logPosEnd)) = some runs ∧
    (Engine.destinations e.vol runs).Perm (e.trans.entries.map Prod.fst)
  contents : ∀ fuel, 2 ≤ fuel → ∃ e', (opened e.laid).replayLog taken fuel = .ok e' ∧
    (∀ num, num ≠ 0 → e'.dev.store.medium num = (e.trans.get? num).getD (e.laid num)) ∧
    ∀ num b, StoreOp.write num b ∈ e'.dev.issued → (num, b) ∈ e.trans.entries ∨ num = 0
  resumed : ∀ fuel us, 2 ≤ fuel → (∀ u ∈ us, u ∈ e.trans.entries) →
    replayMedium fuel (applyWrites e.laid us) = replayMedium fuel e.laid
  again : ∀ fuel n, 2 ≤ fuel → replayTimes fuel (n + 1) e.laid = replayMedium fuel e.laid

theorem replayMedium_empty (hempty : (readSuper (m 0)).logPosStart = (readSuper (m 0)).logPosEnd)
    (hfuel : 1 ≤ fuel) : replayMedium fuel m = some (update m 0 (checkpointOf m)) := by
  obtain ⟨n, rfl⟩ : ∃ n, fuel = n + 1 := ⟨fuel - 1, by omega⟩
  have hloop : (opened m).replayLoop taken (n + 1) ((opened m).vol.logPosStart % (opened m).vol.logLen)
      ((opened m).vol.logPosEnd % (opened m).vol.logLen) = .ok (opened m) := by
    refine if_pos ?_
    show (readSuper (m 0)).logPosStart % _ = (readSuper (m 0)).logPosEnd % _
    rw [hempty]
  unfold replayMedium Engine.replayLog
  rw [hloop]
  show some (((⟨m, []⟩ : Device).write 0 (checkpointOf m)).flush).store.medium = _
  rfl

section Dirty

variable (hv : v.LogSane) (hws : Lands v ws) (hne : ws ≠ []) (hlen : ws.length ≤ maxTransBlocks)
  (hroom : ws.length + 1 < v.logLen) (hpos : pos < v.logLen)

include hv hws hne hlen hroom hpos

section

variable (hd : Dirty v before pos ws m)

include hd

theorem replayMedium_dirty (hfuel : 2 ≤ fuel) :
    replayMedium fuel m = some (update (applyWrites m ws) 0 (checkpointOf m)) := by
  have hreplay := replayLog_dirty hv hws hne hlen hroom hpos hd (fuel - 2)
  rw [Nat.sub_add_cancel hfuel] at hreplay
  unfold replayMedium
  rw [hreplay]
  show some (replayed m ws).store.medium = _
  rw [store_replayed]

/-- **The run array decodes** to the blocks of the transaction. -/
theorem decodes_dirty : ∃ runs, (opened m).readRuns (m (v.logBase + pos)) = some runs ∧
      Engine.destinations v runs = ws.map Prod.fst := by
  have hshape : v.SameShape (opened m).vol := hd.shape
  have hend : (opened m).vol.logPosEnd < v.logLen := by
    show (readSuper (m 0)).logPosEnd < _
    rw [hd.end_eq]
    exact logAdvance_lt _ _ _ hpos
  obtain ⟨runs, hruns, hdest⟩ := readRuns_logBlocks (hv.shape hshape hend) (hws.shape hshape) hne hlen
  have hfirst : m (v.logBase + pos) = runArray v (mergeRuns v.groupSize (ws.map Prod.fst)) := hd.logged.1
  have hblocks := logBlocks_shape hshape ws
  refine ⟨runs, ?_, ?_⟩
  · rw [hfirst, ← (cons.inj hblocks).1]
    exact hruns
  · rw [← hdest, hshape]
    rfl

/-- **Replays that were cut short** do not matter. -/
theorem replayMedium_resumed {us : List (Nat × Block)} (hus : ∀ u ∈ us, u ∈ ws) (hfuel : 2 ≤ fuel) : replayMedium fuel (applyWrites m us) = replayMedium fuel m := by
  have hd' := hd.data_writes hws hpos hus
  have h0 : applyWrites m us 0 = m 0 := applyWrites_other us m fun u hu => (hws.data u (hus u hu)).1
  have hcheck : checkpointOf (applyWrites m us) = checkpointOf m := by
    unfold checkpointOf
    rw [h0]
  have hredo : applyWrites (applyWrites m us) ws = applyWrites m ws := by
    funext num
    refine applyWrites_redo ws us m (applyWrites m us) (fun u hu => ⟨u, hus u hu, rfl⟩) fun hnot => ?_
    exact applyWrites_other us m hnot
  rw [replayMedium_dirty hv hws hne hlen hroom hpos hd' hfuel, replayMedium_dirty hv hws hne hlen hroom hpos hd hfuel,
    hcheck, hredo]

/-- **Replays one after another** give what one gives. -/
theorem replayTimes_dirty (hfuel : 2 ≤ fuel) (n : Nat) : replayTimes fuel (n + 1) m = replayMedium fuel m := by
  have hone := replayMedium_dirty hv hws hne hlen hroom hpos hd hfuel
  -- the volume is clean from then on
  generalize hclean : update (applyWrites m ws) 0 (checkpointOf m) = c at hone
  have h0 : c 0 = checkpointOf m := by rw [← hclean, update_self]
  have hstill : replayMedium fuel c = some c := by
    have hempty : (readSuper (c 0)).logPosStart = (readSuper (c 0)).logPosEnd := by
      rw [h0, checkpointOf, readSuper_checkpoint]
    rw [replayMedium_empty hempty (by omega), checkpointOf_again h0, update_eq_self]
  have hrest : ∀ n, replayTimes fuel n c = some c := by
    intro n
    induction n with
    | zero => rfl
    | succ n ih =>
      unfold replayTimes
      rw [hstill]
      exact ih
  unfold replayTimes
  rw [hone]
  exact hrest n

end

end Dirty

/-! ## The round trip -/

variable {e : Engine}

theorem Engine.laid_eq (hm : e.Mounted) (hv : e.vol.LogSane) (hws : Lands e.vol e.trans.entries) :
    e.laid = update (applyWrites e.dev.read (logWrites e.vol e.vol.logPosEnd (logBlocks e.vol e.order))) 0
      (superBlock (e.dev.read 0) true (e.vol.pinned (logBlocks e.vol e.order).length)) := by
  show ((e.dev.writeAll (logWrites e.vol e.vol.logPosEnd (logBlocks e.vol e.order))).write 0
    (superBlock (e.commitLog.block 0) true e.commitLog.vol)).flush.store.medium = _
  rw [commitLog_super hm hws hv, Device.store_flush, Device.store_write, store_writeAll, hm.store_eq, nil_append,
    Store.write_flush]

/-- **The log round-trips**, wherever in the log the transaction lies. -/
theorem log_round_trip {e : Engine} (hm : e.Mounted) (hv : e.vol.LogSane) (hws : Lands e.vol e.trans.entries)
    (hacc : e.Accepted) : ReplaysExactly e := by
  have hord := hws.order
  have hlen : (logBlocks e.vol e.order).length ≤ e.vol.logLen := by
    rw [length_logBlocks]
    exact Nat.le_of_lt (order_room hacc)
  have hd : Dirty e.vol e.dev.read e.vol.logPosEnd e.order e.laid := by
    rw [Engine.laid_eq hm hv hws]
    exact dirty_of_log hv hm.super hm.vol hlen
  have hne := order_ne_nil hacc
  have hshort := order_length_le e
  have hroom := order_room hacc
  have hnodup : (e.order.map Prod.fst).Nodup :=
    ((exchangeSort_perm e.trans.entries).map Prod.fst).nodup_iff.mpr e.trans.nodup
  refine ⟨?_, fun fuel hfuel => ?_, fun fuel us hfuel hus => ?_, fun fuel n hfuel => ?_⟩
  · -- what the run array says
    obtain ⟨runs, hruns, hdest⟩ := decodes_dirty hv hord hne hshort hroom hv.end_in hd
    refine ⟨runs, hruns, ?_⟩
    rw [hdest]
    exact (exchangeSort_perm e.trans.entries).map Prod.fst
  · -- what the replay writes
    have hreplay := replayLog_dirty hv hord hne hshort hroom hv.end_in hd (fuel - 2)
    rw [Nat.sub_add_cancel hfuel] at hreplay
    refine ⟨remounted e.laid e.order, hreplay, fun num hnum => ?_, fun num b hwrite => ?_⟩
    · show (replayed e.laid e.order).store.medium num = _
      rw [store_replayed]
      show update (applyWrites e.laid e.order) 0 _ num = _
      rw [update_of_ne hnum]
      cases hget : e.trans.get? num with
      | none =>
        refine applyWrites_other _ _ fun w hw he => ?_
        have hmiss := lookup_eq_none_iff.mp hget w (Engine.mem_order.mp hw)
        rw [he] at hmiss
        simp at hmiss
      | some b =>
        obtain ⟨l₁, l₂, hl, -⟩ := lookup_eq_some_iff.mp hget
        have hmem : (num, b) ∈ e.order := Engine.mem_order.mpr (by rw [hl]; simp)
        exact applyWrites_mem e.order e.laid hnodup hmem
    · have hissued : (remounted e.laid e.order).dev.issued =
          e.order.map (fun w => StoreOp.write w.1 w.2) ++ [.write 0 (checkpointOf e.laid), .flush] := by
        show ((((⟨e.laid, []⟩ : Device).writeAll e.order).write 0 (checkpointOf e.laid)).flush).issued = _
        rw [Device.writeAll_eq]
        show (([] ++ e.order.map _) ++ [_]) ++ [_] = _
        rw [nil_append, append_assoc]
        rfl
      rw [hissued] at hwrite
      rcases mem_append.mp hwrite with hin | hlast
      · obtain ⟨w, hw, heq⟩ := mem_map.mp hin
        injection heq with h1 h2
        subst h1 h2
        exact .inl (Engine.mem_order.mp hw)
      · rcases mem_cons.mp hlast with heq | hflush
        · injection heq with h1 _
          exact .inr h1
        · cases mem_singleton.mp hflush
  · exact replayMedium_resumed hv hord hne hshort hroom hv.end_in hd (fun u hu => Engine.mem_order.mpr (hus u hu)) hfuel
  · exact replayTimes_dirty hv hord hne hshort hroom hv.end_in hd hfuel n

/-- The small volume's log round-trips. -/
theorem log_round_trip_small : ReplaysExactly smallEngine :=
  log_round_trip smallEngine_mounted smallEngine_sane.log smallEngine_fits.lands smallEngine_accepted

/-! ## Where it does not -/

/-- A volume with groups of `2 ^ 17` blocks and a transaction over block 70000. -/
def wideSuper : Block := putLe (putLe smallSuper (512 + 48) 8 131072) (512 + 76) 4 17

def wideEngine : Engine :=
  { opened (update smallVolume 0 wideSuper) with trans := ⟨[(70000, fun _ => 1)], by decide, by decide⟩ }

/-- A transaction over block 12, which is in the log, and block 20. -/
def overlapEngine : Engine :=
  { opened smallVolume with trans := ⟨[(12, fun _ => 1), (20, fun _ => 2)], by decide, by decide⟩ }

/-- The first byte of a block after a replay of the log. -/
def replayedByte (e : Engine) (num : Nat) : Option UInt8 := (replayMedium 2 e.laid).map fun m => m num 0

theorem not_replaysExactly {num : Nat} (b : Block) (hnum : num ≠ 0) (hget : e.trans.get? num = some b)
    (hbyte : replayedByte e num ≠ some (b 0)) : ¬ ReplaysExactly e := by
  intro h
  obtain ⟨e', he', hall, -⟩ := h.contents 2 (Nat.le_refl 2)
  refine hbyte ?_
  unfold replayedByte replayMedium
  rw [he', Option.map_some, hall num hnum, hget]
  rfl

/-- **A start beyond 16 bits is lost**, and so is a block whose log entry is overwritten first. -/
theorem log_trips :
    (wideEngine.Mounted ∧ wideEngine.Accepted ∧ wideEngine.vol.logPosEnd < wideEngine.vol.logLen ∧
      Lands wideEngine.vol wideEngine.trans.entries ∧ ¬ ReplaysExactly wideEngine) ∧
    overlapEngine.Mounted ∧ overlapEngine.Accepted ∧ overlapEngine.vol.logPosEnd < overlapEngine.vol.logLen ∧
      ¬ ReplaysExactly overlapEngine := by
  have hwide : wideEngine.vol = ⟨17, 131072, 0, 10, 8, 0, 0, 5, 0⟩ := by decide +kernel
  refine ⟨⟨⟨rfl, by decide +kernel, rfl, by decide +kernel, by decide +kernel⟩,
    ⟨rfl, cons_ne_nil _ _, by decide +kernel⟩, by decide +kernel, ?_, ?_⟩,
    ⟨rfl, by decide +kernel, rfl, by decide +kernel, by decide +kernel⟩,
    ⟨rfl, cons_ne_nil _ _, by decide +kernel⟩, by decide +kernel, ?_⟩
  · rw [hwide]
    refine ⟨fun w hw => ?_, fun w hw => ?_⟩
    · obtain rfl := mem_singleton.mp hw
      exact ⟨by decide, by decide⟩
    · obtain rfl := mem_singleton.mp hw
      decide
  · have hbyte : replayedByte wideEngine 70000 ≠ some 1 := by decide +kernel
    exact not_replaysExactly (fun _ => 1) (by decide) rfl hbyte
  · have hbyte : replayedByte overlapEngine 20 ≠ some 2 := by decide +kernel
    exact not_replaysExactly (fun _ => 2) (by decide) rfl hbyte

end Aegir.Bfs
