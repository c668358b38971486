/-
  The whole way of a path, and WHERE IT IS CUT.

  `Passes` collects every check that the three programs make before the driver runs its operation;
  `cross_eq_some_iff` says that the operation runs exactly when they hold, on `received`.  What `received` loses
  is a matter of lengths: the file server sends up to 48 characters inline where the drivers read 32, a
  directory read without a path reads the root, and a new name made longer than 255 characters is cut there.
-/
import Aegir.Vfs.Staging

namespace Aegir.Vfs

open Aegir.Lib List Option Function

/-! ## The checks on the way -/

/-- The qualified names of a request. -/
def Setting.from (s : Setting) (r : Request) : Path := qualified s.defaultVolume r.name
def Setting.goal (s : Setting) (r : Request) : Path := qualified s.defaultVolume r.target

/-- Operations that send the client's buffer. -/
def Op.sendsBuffer (op : Op) : Prop := op = .read ∨ op = .write ∨ op = .rename

/-- **Every check on the way** of a request for `path` on volume `v`, with the new path `path'` when it is
    a rename. -/
structure Passes (s : Setting) (r : Request) (v : Nat) (path path' : Path) : Prop where
  bound : s.bound = true
  qualifies : s.from r ≠ []
  moves : r.op = .read ∨ r.op = .write → r.length ≠ 0
  buffer : r.op.sendsBuffer → s.clientBuf ≠ none
  staged : Stageable (s.from r) r.op.wire s.clientPage
  reached : s.reached = true
  ready : s.namesDone = true
  fetched : Readable (s.from r) r.op.wire s.serverMap
  resolved : resolveFS s (s.from r) = some (v, path)
  renames : r.op = .rename → s.goal r ≠ [] ∧ s.serverBuf = true ∧
    resolveFull s (s.goal r) = some (v, path') ∧ s.driverBuf = true ∧ path' ≠ []
  restaged : Stageable path r.op.wire s.serverPage
  forwarded : s.forwarded = true
  mounted : s.driver = .fat → s.mounted = true
  heard : r.op ≠ .readDir → path ≠ [] ∧ Readable path r.op.wire s.driverMap

/-- What the driver runs with. -/
def arrives (s : Setting) (r : Request) (path path' : Path) : Path × Option Path :=
  (received path r.op.wire s.driverMap, if r.op = .rename then some (path'.take maxPath) else none)

section Cross

variable {s : Setting} {r : Request} {d : Path × Option Path}

theorem received_ne_nil {path : Path} {w : Wire} {mapped : Bool} :
    received path w mapped ≠ [] ↔ path ≠ [] ∧ Readable path w mapped := by
  unfold received Readable
  by_cases hlen : path.length ≤ w.room
  · rw [if_pos hlen, if_pos hlen]
    by_cases hones : Ones path
    · simp [hones]
    · simp [hones]
  · have hne : path ≠ [] := by
      rintro rfl
      exact hlen (Nat.zero_le _)
    rw [if_neg hlen, if_neg hlen]
    cases mapped with
    | false => simp
    | true => simp [hne]

/-- Names and targets of a request are texts. -/
structure Request.Text (r : Request) : Prop where
  name : ∀ c ∈ r.name, c ≠ 0
  target : ∀ c ∈ r.target, c ≠ 0

theorem from_text (h : r.Text) : ∀ c ∈ s.from r, c ≠ 0 := qualified_text s.defaultVolume_text h.name

theorem goal_text (h : r.Text) : ∀ c ∈ s.goal r, c ≠ 0 := qualified_text s.defaultVolume_text h.target

theorem resolveFS_text {name path : Path} {v : Nat} (h : resolveFS s name = some (v, path))
    (hname : ∀ c ∈ name, c ≠ 0) : ∀ c ∈ path, c ≠ 0 :=
  (resolveFull_names (resolveFS_full h)).text hname

theorem untilNul_rewriteTo {buf : Bytes} {path : Path} (hpath : ∀ c ∈ path, c ≠ 0) :
    untilNul (rewriteTo buf path) maxPath = path.take maxPath := by
  apply untilNul_eq_take maxPath hpath
  intro j hj _
  unfold rewriteTo
  rw [if_pos (Nat.le_of_lt hj)]

/-- The operations that send words and a buffer besides the path. -/
def Op.moves (op : Op) : Prop := op = .read ∨ op = .write

instance (op : Op) : Decidable op.moves := inferInstanceAs (Decidable (op = .read ∨ op = .write))

/-- Word 4 of a directory read is its index. -/
def Op.tag (op : Op) (x : UInt64) (m : Message) : Message :=
  if op = .readDir then { m with words := update m.words 4 x } else m

/-- What the client puts into a message before the path. -/
def Setting.base (s : Setting) (r : Request) : Message :=
  if r.op.moves then ⟨update (update s.stale 0 r.offset) 1 (min r.length bufBytes), update noCaps 0 s.clientBuf⟩
  else if r.op = .readDir then ⟨fun _ => 0, noCaps⟩
  else ⟨s.stale, noCaps⟩

/-- What the file server keeps of a message. -/
def Op.kept (op : Op) (m : Message) : Message := ⟨m.words, if op.moves then update noCaps 0 (m.caps 0) else noCaps⟩

section Message

variable {op : Op} {m m' : Message} (hop : op ≠ .rename)

theorem tag_fetch (x : UInt64) (m : Message) (mapped : Bool) :
    fetchPath (op.tag x m) op.wire mapped = fetchPath m op.wire mapped := by
  unfold Op.tag
  split
  · rename_i h
    rw [h]
    rfl
  · rfl

/-- Word 4 is none of the path. -/
theorem tag_pathOf (x : UInt64) (m : Message) (mapped : Bool) :
    pathOf (op.tag x m) op.wire mapped = pathOf m op.wire mapped := by
  unfold Op.tag
  split
  · rename_i h
    rw [h]
    apply pathOf_congr (m := m) (Op.wire_sound .readDir)
    · intro i _ hi
      exact update_of_ne (Nat.ne_of_lt (Nat.lt_succ_of_le hi)) _ _
    · rfl
  · rfl

/-- What the staged messages of a read or a write still hold. -/
theorem tag_moved {path : Path} (hmoves : op.moves) (h : Staged m path op.wire m') (x : UInt64) :
    (op.tag x m').caps 0 = m.caps 0 ∧ (op.tag x m').words 1 = m.words 1 := by
  rcases hmoves with rfl | rfl
  · exact ⟨h.caps (by decide), h.outside (Op.wire_sound _) (.inl (by decide))⟩
  · exact ⟨h.caps (by decide), h.outside (Op.wire_sound _) (.inl (by decide))⟩

include hop

theorem clientMessage_some {name target : Path} {offset length index : UInt64} :
    clientMessage s ⟨op, name, target, offset, length, index⟩ = some m ↔
    (s.bound = true ∧ qualified s.defaultVolume name ≠ []) ∧ (op.moves → length ≠ 0 ∧ s.clientBuf ≠ none) ∧
      ∃ m₀, stage (s.base ⟨op, name, target, offset, length, index⟩) (qualified s.defaultVolume name) op.wire
        s.clientPage = some m₀ ∧ op.tag index m₀ = m := by
  cases op <;> simp_all [clientMessage, stagePath, Op.moves, Op.tag, Setting.base, bind_eq_some_iff]
  all_goals cases s.clientBuf <;> simp

theorem serverMessage_some : serverMessage s op m = some m' ↔
    s.namesDone = true ∧ (op.moves → m.caps 0 ≠ none ∧ m.words 1 ≠ 0) ∧
      ∃ name, fetchPath m op.wire s.serverMap = some name ∧ ∃ q, resolveFS s name = some q ∧
        ∃ m₀, stage (op.kept m) q.2 op.wire s.serverPage = some m₀ ∧ op.tag (m.words 4) m₀ = m' := by
  cases op <;> simp_all [serverMessage, stageForwardPath, Op.moves, Op.tag, Op.kept, bind_eq_some_iff]
  all_goals cases m.caps 0 <;> simp

theorem driverPaths_some : driverPaths s op m = some d ↔ (s.driver = .fat → s.mounted = true) ∧
    (op.moves → m.caps 0 ≠ none ∧ m.words 1 ≠ 0) ∧
      ∃ path, pathOf m op.wire s.driverMap = some path ∧ (op ≠ .readDir → path ≠ []) ∧ (path, none) = d := by
  cases op <;> simp_all [driverPaths, Op.moves, bind_eq_some_iff]
  all_goals cases m.caps 0 <;> simp

end Message

theorem cross_path (htext : r.Text) (hop : r.op ≠ .rename) :
    cross s r = some d ↔ ∃ v path path', Passes s r v path path' ∧ d = arrives s r path path' := by
  have hw := r.op.wire_sound
  have hfrom := from_text (s := s) htext
  have hslot : (s.base r).caps r.op.wire.slot = none ∧ ∀ m, (r.op.kept m).caps r.op.wire.slot = none := by
    obtain ⟨op, name, target, offset, length, index⟩ := r
    cases op <;> exact ⟨rfl, fun _ => rfl⟩
  obtain ⟨hbase, hkept⟩ := hslot
  have harrives : ∀ path path', arrives s r path path' = (received path r.op.wire s.driverMap, none) := by
    intro path path'
    unfold arrives
    rw [if_neg hop]
  have hbuffer : r.op.sendsBuffer ↔ r.op.moves := or_congr_right (or_iff_left hop)
  have hmoved : r.op.moves → ((s.base r).words 1 ≠ 0 ↔ r.length ≠ 0) ∧ (s.base r).caps 0 = s.clientBuf := by
    intro hm
    unfold Setting.base
    rw [if_pos hm]
    refine ⟨?_, rfl⟩
    show (if r.length ≤ bufBytes then r.length else bufBytes) ≠ 0 ↔ _
    split
    · rfl
    · rename_i h
      exact iff_of_true (by decide) fun h0 => h (h0 ▸ UInt64.zero_le)
  unfold cross
  have hclient : ∀ m, clientMessage s r = some m ↔ _ := fun m => clientMessage_some hop
  simp only [hclient, serverMessage_some hop, driverPaths_some hop, harrives, bind_eq_bind, bind_eq_some_iff,
    check_eq_some, exists_const]
  constructor
  · rintro ⟨_, ⟨⟨hbound, hne⟩, hmoves, m, hstage, rfl⟩, hreached, _, ⟨hready, -, name, hfetch, q, hq, m', hstage', rfl⟩,
      hforwarded, hmounted, -, path, hpath, hheard, rfl⟩
    rw [tag_fetch] at hfetch
    rw [tag_pathOf] at hpath
    obtain ⟨hreadable, rfl⟩ := ((stage_staged hstage).fetch hw hbase hfrom hne s.serverMap).mp hfetch
    rw [(stage_staged hstage').pathOf hw (hkept _) (resolveFS_text hq hfrom)] at hpath
    cases hpath
    exact ⟨q.1, q.2, [], ⟨hbound, hne, fun h => (hmoves h).1, fun h => (hmoves (hbuffer.mp h)).2,
      stage_isSome_iff.mp ⟨m, hstage⟩, hreached, hready, hreadable, hq, fun h => absurd h hop,
      stage_isSome_iff.mp ⟨m', hstage'⟩, hforwarded, hmounted, fun h => received_ne_nil.mp (hheard h)⟩, rfl⟩
  · rintro ⟨v, path, path', h, rfl⟩
    obtain ⟨m, hstage⟩ := stage_isSome_iff (m := s.base r).mpr h.staged
    obtain ⟨m', hstage'⟩ := stage_isSome_iff (m := r.op.kept (r.op.tag r.index m)).mpr h.restaged
    have hfetch := ((stage_staged hstage).fetch hw hbase hfrom h.qualifies s.serverMap).mpr ⟨h.fetched, rfl⟩
    have hpath := (stage_staged hstage').pathOf hw (hkept _) (resolveFS_text h.resolved hfrom) s.driverMap
    rw [← tag_fetch r.index] at hfetch
    rw [← tag_pathOf ((r.op.tag r.index m).words 4)] at hpath
    have hdata : r.op.moves → (r.op.tag r.index m).caps 0 ≠ none ∧ (r.op.tag r.index m).words 1 ≠ 0 := by
      intro hm
      obtain ⟨hcaps, hword⟩ := tag_moved hm (stage_staged hstage) r.index
      rw [hcaps, hword, (hmoved hm).2]
      exact ⟨h.buffer (hbuffer.mpr hm), (hmoved hm).1.mpr (h.moves hm)⟩
    refine ⟨_, ⟨⟨h.bound, h.qualifies⟩, fun hm => ⟨h.moves hm, h.buffer (hbuffer.mpr hm)⟩, m, hstage, rfl⟩, h.reached, _,
      ⟨h.ready, hdata, _, hfetch, _, h.resolved, m', hstage', rfl⟩, h.forwarded, h.mounted, fun hm => ?_, _, hpath,
      fun hr => received_ne_nil.mpr (h.heard hr), rfl⟩
    obtain ⟨hcaps, hword⟩ := tag_moved hm (stage_staged hstage') ((r.op.tag r.index m).words 4)
    rw [hcaps, hword]
    unfold Op.kept
    rw [if_pos hm]
    exact hdata hm

/-- A rename; the new name is in the client's buffer, and the file server puts the bare path there. -/
theorem cross_rename (htext : r.Text) (hop : r.op = .rename) :
    cross s r = some d ↔ ∃ v path path', Passes s r v path path' ∧ d = arrives s r path path' := by
  have hw := Op.wire_sound .rename
  have hmoves : ¬ (r.op = .read ∨ r.op = .write) := by simp [hop]
  have hread : r.op ≠ .readDir := by simp [hop]
  have hclient : clientMessage s r = (check (s.bound = true ∧ s.from r ≠ [])).bind fun _ =>
      (check (s.goal r ≠ [])).bind fun _ => s.clientBuf.bind fun buf =>
        stage ⟨s.stale, update noCaps 0 (some (textPage buf (s.goal r)))⟩ (s.from r)
          (Op.wire .rename) s.clientPage := by
    obtain ⟨op, name, target, offset, length, index⟩ := r
    cases hop
    rfl
  have hserver : ∀ m, serverMessage s .rename m = (check (s.namesDone = true)).bind fun _ =>
      (m.caps 0).bind fun buf => (fetchPath m (Op.wire .rename) s.serverMap).bind fun name =>
        (resolveFS s name).bind fun q => (check (s.serverBuf = true)).bind fun _ =>
          (resolveFull s (untilNul buf maxPath)).bind fun q' => (check (q'.1 = q.1)).bind fun _ =>
            stage ⟨m.words, update noCaps 0 (some (rewriteTo buf q'.2))⟩ q.2 (Op.wire .rename)
              s.serverPage := fun _ => rfl
  have hdriver : ∀ m, driverPaths s .rename m = (check (s.driver = .fat → s.mounted = true)).bind fun _ =>
      (m.caps 0).bind fun buf => (pathOf m (Op.wire .rename) s.driverMap).bind fun path =>
        (check (path ≠ [])).bind fun _ => (check (s.driverBuf = true)).bind fun _ =>
          (check (untilNul buf maxPath ≠ [])).bind fun _ => some (path, some (untilNul buf maxPath)) :=
    fun _ => rfl
  have hfrom := from_text (s := s) htext
  have hgoal := goal_text (s := s) htext
  -- what the buffer holds at the file server and at the driver
  have hsent : ∀ buf, untilNul (textPage buf (s.goal r)) maxPath = s.goal r := fun buf =>
    untilNul_textPage hgoal (qualified_length_le _ _)
  have hrewritten : ∀ {buf : Bytes} {path : Path}, (∀ c ∈ path, c ≠ 0) →
      untilNul (rewriteTo buf path) maxPath = path.take maxPath := fun hpath => untilNul_rewriteTo hpath
  have hkeep : ∀ {m m' : Message} {path : Path}, Staged m path (Op.wire .rename) m' → m'.caps 0 = m.caps 0 :=
    fun h => h.caps (by decide)
  have harrives : ∀ path path', arrives s r path path' =
      (received path (Op.wire .rename) s.driverMap, some (path'.take maxPath)) := by
    intro path path'
    unfold arrives
    rw [if_pos hop, hop]
  have htaken : ∀ path' : Path, path'.take maxPath ≠ [] ↔ path' ≠ [] := by
    intro path'
    cases path' <;> simp [maxPath]
  unfold cross
  rw [hclient, hop]
  simp only [hserver, hdriver, bind_eq_bind, bind_eq_some_iff, check_eq_some, exists_const, harrives]
  constructor
  · rintro ⟨m, ⟨⟨hbound, hne⟩, htarget, buf, hbuf, hstage⟩, hreached, m', ⟨hready, buf1, hbuf1, name, hfetch, q, hq,
      hserverBuf, q', hq', hsame, hstage'⟩, hforwarded, hmounted, buf2, hbuf2, path, hpath, hheard, hdriverBuf,
      hnew, hlast⟩
    obtain ⟨hreadable, rfl⟩ := ((stage_staged hstage).fetch hw rfl hfrom hne s.serverMap).mp hfetch
    rw [(stage_staged hstage').pathOf hw rfl (resolveFS_text hq hfrom)] at hpath
    cases hpath
    rw [hkeep (stage_staged hstage)] at hbuf1
    cases hbuf1
    rw [hkeep (stage_staged hstage')] at hbuf2
    cases hbuf2
    rw [hsent] at hq'
    rw [hrewritten ((resolveFull_names hq').text hgoal)] at hnew hlast
    refine ⟨q.1, q.2, q'.2, ⟨hbound, hne, fun h => absurd h hmoves, fun _ => by simp [hbuf], ?_, hreached,
      hready, ?_, hq, fun _ => ⟨htarget, hserverBuf, ?_, hdriverBuf, (htaken _).mp hnew⟩, ?_, hforwarded,
      hmounted, fun _ => ?_⟩, (Option.some.inj hlast).symm⟩
    · rw [hop]
      exact stage_isSome_iff.mp ⟨m, hstage⟩
    · rw [hop]
      exact hreadable
    · rw [hq', ← hsame]
    · rw [hop]
      exact stage_isSome_iff.mp ⟨m', hstage'⟩
    · rw [hop]
      exact received_ne_nil.mp hheard
  · rintro ⟨v, path, path', h, rfl⟩
    have hstaged := h.staged
    have hfetched := h.fetched
    have hrestaged := h.restaged
    have hheard := h.heard hread
    rw [hop] at hstaged hfetched hrestaged hheard
    obtain ⟨htarget, hserverBuf, hq', hdriverBuf, hnew⟩ := h.renames hop
    obtain ⟨buf, hbuf⟩ := ne_none_iff_exists'.mp (h.buffer (.inr (.inr hop)))
    obtain ⟨m, hstage⟩ := stage_isSome_iff
      (m := ⟨s.stale, update noCaps 0 (some (textPage buf (s.goal r)))⟩).mpr hstaged
    obtain ⟨m', hstage'⟩ := stage_isSome_iff
      (m := ⟨m.words, update noCaps 0 (some (rewriteTo (textPage buf (s.goal r)) path'))⟩).mpr hrestaged
    have hfetch := ((stage_staged hstage).fetch hw rfl hfrom h.qualifies s.serverMap).mpr ⟨hfetched, rfl⟩
    have hpath := (stage_staged hstage').pathOf hw rfl (resolveFS_text h.resolved hfrom) s.driverMap
    have htold : untilNul (rewriteTo (textPage buf (s.goal r)) path') maxPath = path'.take maxPath :=
      hrewritten ((resolveFull_names hq').text hgoal)
    refine ⟨m, ⟨⟨h.bound, h.qualifies⟩, htarget, buf, hbuf, hstage⟩, h.reached, m', ⟨h.ready, _,
      hkeep (stage_staged hstage), _, hfetch, _, h.resolved, hserverBuf, (v, path'), ?_, rfl, hstage'⟩,
      h.forwarded, h.mounted, _, hkeep (stage_staged hstage'), _, hpath, received_ne_nil.mpr hheard,
      hdriverBuf, ?_, ?_⟩
    · rw [hsent]
      exact hq'
    · rw [htold]
      exact (htaken _).mpr hnew
    · rw [htold]

/-- **When the driver runs, and with what.** -/
theorem cross_eq_some_iff (htext : r.Text) :
    cross s r = some d ↔ ∃ v path path', Passes s r v path path' ∧ d = arrives s r path path' := by
  by_cases hop : r.op = .rename
  · exact cross_rename htext hop
  · exact cross_path htext hop

end Cross

/-! ## Unchanged, or refused -/

/-- What a request asks for: the driver runs with the path that the name stands for, and with the new one
    when it is a rename. -/
def Unchanged (s : Setting) (r : Request) (d : Path × Option Path) : Prop :=
  (∃ v, Names s.volumes s.assigns (s.from r) v d.1) ∧
    if r.op = .rename then ∃ v t, d.2 = some t ∧ Names s.volumes s.assigns (s.goal r) v t else d.2 = none

/-- The paths that a driver misreads.  Reads and writes send at most 32 characters inline, so they are never
    among them; a directory read takes a missing path for the root. -/
def Misread : Op → Path → Bool → Prop
  | .read, _, _ | .write, _, _ => False
  | .readDir, path, mapped => if path.length ≤ 32 then Ones path else mapped = false
  | .stat, path, _ | .open, path, _ | .delete, path, _ | .truncate, path, _ | .mkdir, path, _
  | .rmdir, path, _ | .rename, path, _ => 32 < path.length ∧ path.length ≤ 48

/-- The requests that pass every check and still reach the driver with another path. -/
structure Intact (s : Setting) (r : Request) : Prop where
  path : ∀ {v path path'}, Passes s r v path path' → ¬ Misread r.op path s.driverMap
  target : ∀ {v path path'}, Passes s r v path path' → r.op = .rename → path'.length ≤ maxPath

section Meaning

variable {s : Setting} {r : Request} {path path' : Path} {v : Nat} {mapped : Bool}

theorem Ones.ne_nil (h : Ones path) : path ≠ [] := by
  rintro rfl
  exact absurd (h 0 (by decide)) (by decide)

theorem received_six (heard : path ≠ [] ∧ Readable path ⟨0, 5, v⟩ mapped) :
    received path ⟨0, 5, v⟩ mapped = path ↔ ¬ (32 < path.length ∧ path.length ≤ 48) := by
  obtain ⟨-, hread⟩ := heard
  change (if path.length ≤ 48 then _ else _) = path ↔ _
  change if path.length ≤ 48 then _ else _ at hread
  split_ifs at hread with hlen
  · rw [if_pos hlen, if_neg hread, take_eq_self_iff]
    omega
  · rw [if_neg hlen, if_pos hread]
    constructor
    · intro _ h
      exact hlen h.2
    · intro _
      rfl

theorem received_four {w : Wire} (hroom : w.room = 32) : received path w mapped = path ↔
      path = [] ∨ (if path.length ≤ 32 then ¬ Ones path else mapped = true) := by
  unfold received
  rw [hroom]
  by_cases hlen : path.length ≤ 32
  · rw [if_pos hlen, if_pos hlen, take_of_length_le hlen]
    split_ifs with hones
    · simp [hones, eq_comm]
    · simp [hones]
  · have hne : path ≠ [] := by
      rintro rfl
      exact hlen (Nat.zero_le _)
    rw [if_neg hlen, if_neg hlen]
    cases mapped with
    | false => simp [hne, eq_comm]
    | true => simp

theorem received_eq_iff (h : Passes s r v path path') :
    received path r.op.wire s.driverMap = path ↔ ¬ Misread r.op path s.driverMap := by
  have heard := h.heard
  cases hop : r.op with
  | read =>
    rw [hop] at heard
    have hread := (heard (by decide)).2
    rw [received_four (w := (Op.wire .read)) rfl]
    exact iff_of_true (.inr hread) id
  | write =>
    rw [hop] at heard
    have hread := (heard (by decide)).2
    rw [received_four (w := (Op.wire .write)) rfl]
    exact iff_of_true (.inr hread) id
  | readDir =>
    rw [received_four (w := (Op.wire .readDir)) rfl]
    show _ ↔ ¬ if path.length ≤ 32 then Ones path else s.driverMap = false
    by_cases hlen : path.length ≤ 32
    · rw [if_pos hlen, if_pos hlen]
      constructor
      · rintro (rfl | h)
        · exact fun hones => hones.ne_nil rfl
        · exact h
      · exact .inr
    · have hne : path ≠ [] := by
        rintro rfl
        exact hlen (Nat.zero_le _)
      rw [if_neg hlen, if_neg hlen]
      simp [hne]
  | stat | «open» | delete | truncate | mkdir | rmdir | rename =>
    rw [hop] at heard
    exact received_six (heard (by decide))

/-- **A path crosses unchanged, or the request is refused, exactly for the intact requests.** -/
theorem path_crosses_unchanged_iff (htext : r.Text) :
    (∀ d, cross s r = some d → Unchanged s r d) ↔ Intact s r := by
  constructor
  · intro h
    have hrun : ∀ {v path path'}, Passes s r v path path' → Unchanged s r (arrives s r path path') :=
      fun hpass => h _ ((cross_eq_some_iff htext).mpr ⟨_, _, _, hpass, rfl⟩)
    constructor
    · intro v path path' hpass
      obtain ⟨⟨v', hnames⟩, -⟩ := hrun hpass
      rw [← received_eq_iff hpass]
      exact (hnames.unique (resolveFull_names (resolveFS_full hpass.resolved))).2
    · intro v path path' hpass hop
      obtain ⟨-, htarget⟩ := hrun hpass
      rw [if_pos hop] at htarget
      obtain ⟨v', t, ht, hnames⟩ := htarget
      unfold arrives at ht
      rw [if_pos hop] at ht
      cases ht
      have heq := (hnames.unique (resolveFull_names (hpass.renames hop).2.2.1)).2
      exact (take_eq_self_iff _).mp heq
  · intro h d hd
    obtain ⟨v, path, path', hpass, rfl⟩ := (cross_eq_some_iff htext).mp hd
    refine ⟨⟨v, ?_⟩, ?_⟩
    · show Names s.volumes s.assigns (s.from r) v (received path r.op.wire s.driverMap)
      rw [(received_eq_iff hpass).mpr (h.path hpass)]
      exact resolveFull_names (resolveFS_full hpass.resolved)
    · split_ifs with hop
      · refine ⟨v, path', ?_, resolveFull_names (hpass.renames hop).2.2.1⟩
        unfold arrives
        rw [if_pos hop, take_of_length_le (h.target hpass hop)]
      · unfold arrives
        rw [if_neg hop]

end Meaning

/-! ## A file with a long name -/

/-- The volume `SD0:`, and nothing that fails. -/
def cardSetting : Setting where
  defaultVolume := [83, 68, 48]
  defaultVolume_text := by decide +kernel
  volumes := [⟨true, [83, 68, 48], [83, 68, 48], true⟩]
  assigns := []
  namesDone := true
  driver := .fat
  bound := true
  clientBuf := some fun _ => 0
  clientPage := some fun _ => 0
  serverMap := true
  serverBuf := true
  serverPage := some fun _ => 0
  mounted := true
  driverMap := true
  driverBuf := true
  reached := true
  forwarded := true
  stale := fun _ => 0

/-- Delete `SD0:AA…A`, 40 characters behind the colon. -/
def deleteLong : Request :=
  ⟨.delete, [83, 68, 48, 58] ++ replicate 40 65, [], 0, 0, 0⟩

theorem deleteLong_text : deleteLong.Text := ⟨by decide +kernel, by decide +kernel⟩

theorem deleteLong_run : cross cardSetting deleteLong = some (replicate 32 65, none) := by
  decide +kernel

theorem deleteLong_altered : ¬ Unchanged cardSetting deleteLong (replicate 32 65, none) := by
  rintro ⟨⟨v, hnames⟩, -⟩
  have hasked : Names cardSetting.volumes cardSetting.assigns (cardSetting.from deleteLong) 0
      (replicate 40 65) := .volume (by decide)
  exact absurd (hnames.unique hasked).2 (by decide)

theorem path_crosses_unchanged_iff_deleteLong : ¬ Intact cardSetting deleteLong := by
  rw [← path_crosses_unchanged_iff deleteLong_text]
  intro h
  exact deleteLong_altered (h _ deleteLong_run)

/-- Another file is deleted: the one with the first 32 characters for its name. -/
theorem long_path_cut : ¬ ∀ (s : Setting) (r : Request), r.Text → 1 ≤ r.name.length →
    r.name.length ≤ maxPath → ∀ d, cross s r = some d → Unchanged s r d := by
  intro h
  exact deleteLong_altered (h cardSetting deleteLong deleteLong_text (by decide) (by decide) _ deleteLong_run)

end Aegir.Vfs
