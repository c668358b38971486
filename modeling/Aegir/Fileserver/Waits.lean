/-
  What a handler waits for, and what it moves.

  A handler waits for a driver when it forwards a path, when it reads or writes a block volume, and when it
  syncs.  The lemmas say exactly when it comes back: when every call that it gets to is answered.  The
  copies of a block volume stay in their windows, and the loops end; those of a file do unless its window
  runs off a memory object.
-/
import Aegir.Fileserver.Decoding

namespace Aegir.Fileserver

open Aegir.Lib List

/-! ## Tables that fit -/

structure FileFits (file : UInt64 → FileCap) (f : FileEntry) : Prop where
  valid : f.valid = true
  name : f.nameLen ≤ maxName
  size : f.size = bootFileSize (file f.handle)
  lead : f.leadKnown = true → (file f.handle).leadIn f.handle = some f.leadIn

/-- The invariant of the tables. -/
structure Sound (file : UInt64 → FileCap) (s : Vfs) : Prop where
  volumes : ∀ v ∈ s.volumes, VolumeFits v
  assigns : ∀ a ∈ s.assigns, AssignFits a
  files : ∀ f ∈ s.files, FileFits file f

namespace Vfs

variable {file : UInt64 → FileCap} {s : Vfs} {k : Kernel} {r : Request} {v : Volume} {name : Text}
  {first last slot number pos n offset count fuel done : Nat} {badge : UInt64}

/-! ## Forwarding -/

theorem yields_locate (hs : Sound file s) (hle : first ≤ last) (hlast : last ≤ 5) :
    Yields (locate s k r first last slot) fun p => ∀ v number name pos, p = .found v number name pos →
      v ∈ s.volumes ∧ 1 ≤ pos ∧ pos ≤ name.len + 1 ∧ name.len ≤ maxExpanded := by
  refine (yields_fetchPath hle hlast slot).bind fun o ho => ?_
  cases o with
  | none => exact yields_ok fun _ _ _ _ h => by cases h
  | some t =>
    refine (yields_resolveFull hs.volumes hs.assigns (ho t rfl).2).bind fun x hx => ?_
    split_ifs with h0
    · exact yields_ok fun _ _ _ _ h => by cases h
    · rcases hx with hx | ⟨hvolume, hpos⟩
      · exact absurd hx h0
      · rw [getElem?_eq_getElem (by omega)]
        refine yields_ok fun v number name pos h => ?_
        cases h
        exact ⟨getElem_mem _, hpos⟩

theorem yields_pathAt (hpos : 1 ≤ pos) (hlen : name.len ≤ maxExpanded) : Yields (pathAt name pos) fun _ => True :=
  (yields_slice hpos hlen).mono fun _ _ => trivial

theorem yields_stage (hs : Sound file s) (hpos : 1 ≤ pos ∧ pos ≤ name.len + 1 ∧ name.len ≤ maxExpanded)
    (hlast : last ≤ 5) :
    Yields (stageForwardPath s k name pos first last) fun o => ∀ s', o = some s' → Sound file s' := by
  refine (yields_demand hpos.2.1).bind fun _ _ => ?_
  refine (yields_pathAt hpos.1 hpos.2.2).bind fun _ _ => ?_
  refine (yields_demand hlast).bind fun _ _ => ?_
  by_cases hfits : name.len + 1 - pos ≤ (last - first + 1) * 8
  · rw [if_pos hfits]
    refine yields_ok fun s' h => ?_
    cases h
    exact hs
  · rw [if_neg hfits]
    split_ifs with hlong hpage
    · exact yields_ok fun s' h => by cases h
    · exact yields_ok fun s' h => by cases h
    · unfold maxPath at hlong
      refine (yields_demand (by unfold pageSize; omega)).bind fun _ _ => ?_
      refine yields_ok fun s' h => ?_
      cases h
      exact ⟨hs.volumes, hs.assigns, hs.files⟩

theorem yields_isProcVolume (v : Volume) : Yields (isProcVolume v) fun _ => True := by
  unfold isProcVolume
  split_ifs with h
  · refine (yields_slice (Nat.le_refl 1) (by omega)).bind fun _ _ => ?_
    exact yields_matchText (Nat.le_refl 4)
  · exact yields_ok trivial

theorem forwardEndpoint_sound {proc : Bool} {s' : Vfs} (hs : Sound file s)
    (h : forwardEndpoint s k proc v number badge = some s') : Sound file s' := by
  unfold forwardEndpoint at h
  cases proc with
  | true =>
    rw [if_pos rfl] at h
    split at h
    · cases h
      exact hs
    · split at h
      · cases h
      · split at h
        · cases h
          exact ⟨hs.volumes, hs.assigns, hs.files⟩
        · cases h
  | false =>
    simp only [Bool.false_eq_true, if_false] at h
    split at h
    · cases h
    · cases h
      exact hs

theorem decides_call (k : Kernel) (n : Nat) :
    Decides (call k n) (k.call n ≠ .never) fun o => ∀ w, o = some w → k.call n = .replied w := by
  unfold call
  cases h : k.call n with
  | never => exact decides_error fun hne => hne rfl
  | failed => exact (yields_ok fun w hw => by cases hw).decides.congr (by simp)
  | replied words =>
    refine (yields_ok fun w hw => ?_).decides.congr (by simp)
    cases hw
    rfl

/-- The path is staged and there is an endpoint: the driver is called. -/
def CallsFs (s : Vfs) (k : Kernel) (r : Request) (v : Volume) (number : Nat) (name : Text)
    (pos first last : Nat) : Prop :=
  ∃ s' proc, stageForwardPath s k name pos first last = .ok (some s') ∧ isProcVolume v = .ok proc ∧
    forwardEndpoint s' k proc v number r.badge ≠ none

/-- **A forward comes back** exactly when the driver, if it is called, answers. -/
theorem decides_forwardPath (hs : Sound file s) (hpos : 1 ≤ pos ∧ pos ≤ name.len + 1 ∧ name.len ≤ maxExpanded)
    (hlast : last ≤ 5) :
    Decides (forwardPath s k r v number name pos first last)
      (CallsFs s k r v number name pos first last → k.call 0 ≠ .never)
      fun x => Sound file x.1 ∧ ∀ w, x.2 = .answered w →
        CallsFs s k r v number name pos first last ∧ k.call 0 = .replied w := by
  refine Decides.congr (c := ∀ o, stageForwardPath s k name pos first last = .ok o →
    ∀ s', o = some s' → ∀ proc, isProcVolume v = .ok proc →
      forwardEndpoint s' k proc v number r.badge ≠ none → k.call 0 ≠ .never) ?_ ?_
  · refine (yields_stage hs hpos hlast).bind_when fun o hstage ho => ?_
    cases o with
    | none =>
      refine (yields_ok ⟨hs, fun w hw => ?_⟩).decides.congr (by simp)
      cases hw
    | some s' =>
      have hs' := ho s' rfl
      refine ((yields_isProcVolume v).bind_when fun proc hproc _ => ?_).congr
        (d := ∀ s'', some s' = some s'' → _) ⟨fun h => h s' rfl, fun h s'' hsome => by cases hsome; exact h⟩
      cases hend : forwardEndpoint s' k proc v number r.badge with
      | none =>
        refine (yields_ok ⟨hs', fun w hw => ?_⟩).decides.congr (by simp)
        cases hw
      | some s'' =>
        have hs'' := forwardEndpoint_sound hs' hend
        refine ((decides_call k 0).bind_yields fun o ho => ?_).congr (by simp)
        cases o with
        | none => exact yields_ok ⟨hs'', fun w hw => by cases hw⟩
        | some w =>
          refine yields_ok ⟨hs'', fun w' hw => ?_⟩
          cases hw
          exact ⟨⟨s', proc, hstage, hproc, by rw [hend]; simp⟩, ho w rfl⟩
  · constructor
    · rintro h o hstage s' rfl proc hproc hend
      exact h ⟨s', proc, hstage, hproc, hend⟩
    · rintro h ⟨s', proc, hstage, hproc, hend⟩
      exact h _ hstage s' rfl proc hproc hend

/-! ## Calls in a row -/

def Worked : Call → Prop
  | .replied w => w 0 = 0
  | _ => False

/-- The calls `n, n + 1, …`, each made if those before worked, are answered. -/
def Answered (k : Kernel) (n calls : Nat) : Prop :=
  ∀ j, j < calls → (∀ i, i < j → Worked (k.call (n + i))) → k.call (n + j) ≠ .never

theorem answered_zero : Answered k n 0 := fun j hj => absurd hj (Nat.not_lt_zero j)

theorem answered_succ {calls : Nat} :
    Answered k n (calls + 1) ↔ k.call n ≠ .never ∧ (Worked (k.call n) → Answered k (n + 1) calls) := by
  constructor
  · intro h
    refine ⟨h 0 (Nat.succ_pos _) fun i hi => absurd hi (Nat.not_lt_zero i), fun hworked j hj hbefore => ?_⟩
    have hnext := h (j + 1) (by omega) fun i hi => ?_
    · rwa [show n + 1 + j = n + (j + 1) by omega]
    · cases i with
      | zero => exact hworked
      | succ i =>
        rw [show n + (i + 1) = n + 1 + i by omega]
        exact hbefore i (by omega)
  · rintro ⟨hfirst, hrest⟩ j hj hbefore
    cases j with
    | zero => exact hfirst
    | succ j =>
      rw [show n + (j + 1) = n + 1 + j by omega]
      refine hrest (hbefore 0 (by omega)) j (by omega) fun i hi => ?_
      rw [show n + 1 + i = n + (i + 1) by omega]
      exact hbefore (i + 1) (by omega)

theorem decides_blockCall (k : Kernel) (n : Nat) :
    Decides (blockCall k n) (k.call n ≠ .never) fun b => b = true ↔ Worked (k.call n) := by
  unfold blockCall call
  cases h : k.call n with
  | never => exact decides_error fun hne => hne rfl
  | failed => exact (yields_ok (by simp [Worked])).decides.congr (by simp)
  | replied w => exact (yields_ok (by simp [Worked])).decides.congr (by simp)

/-! ## Block volumes -/

theorem passAt_fits (offset : Nat) (hdone : done < count) : 1 ≤ (passAt offset count done).chunk ∧
      (passAt offset count done).skip + (passAt offset count done).chunk ≤ pageSize ∧
      done + (passAt offset count done).chunk ≤ count := by
  unfold passAt pageSize
  dsimp only
  omega

theorem yields_move (offset : Nat) (hdone : done < count) (hcount : count ≤ bufBytes) :
    Yields ((passAt offset count done).move done) fun _ => True := by
  have hfits := passAt_fits offset hdone
  exact (yields_demand ⟨hfits.1, hfits.2.1, by omega⟩).mono fun _ _ => trivial

/-- How many calls a read makes from `done` on, if all work. -/
def readCalls (offset count : Nat) : Nat → Nat → Nat
  | 0, _ => 0
  | fuel + 1, done =>
    if done < count then readCalls offset count fuel (done + (passAt offset count done).chunk) + 1 else 0

/-- The same for a write. -/
def writeCalls (offset count : Nat) : Nat → Nat → Nat
  | 0, _ => 0
  | fuel + 1, done =>
    if done < count then
      writeCalls offset count fuel (done + (passAt offset count done).chunk) +
        if (passAt offset count done).isPartial count done then 2 else 1
    else 0

theorem decides_afterCall {rest : Act Bool} {calls : Nat}
    (hrest : Decides rest (Answered k (n + 1) calls) fun _ => True) :
    Decides (do if ← blockCall k n then rest else .ok false) (Answered k n (calls + 1)) fun _ => True := by
  rw [answered_succ]
  refine Decides.congr ((decides_blockCall k n).bind (e := fun b => b = true → Answered k (n + 1) calls)
    fun b _ hb => ?_) ?_
  · cases b with
    | true => exact hrest.congr (by simp)
    | false => exact (yields_ok trivial).decides.congr (by simp)
  · constructor
    · rintro ⟨hne, hafter⟩
      refine ⟨hne, fun b hb htrue => hafter ?_⟩
      exact ((decides_blockCall k n).result hb).mp htrue
    · rintro ⟨hne, hafter⟩
      refine ⟨hne, fun hworked => ?_⟩
      obtain ⟨b, hb, hiff⟩ := (decides_blockCall k n).1 hne
      exact hafter b hb (hiff.mpr hworked)

/-- **A block read comes back** exactly when the calls that it gets to are answered. -/
theorem decides_blockRead (hcount : count ≤ bufBytes) (hfuel : count - done < fuel) :
    Decides (blockRead k offset count fuel n done) (Answered k n (readCalls offset count fuel done))
      fun _ => True := by
  induction fuel generalizing n done with
  | zero => exact absurd hfuel (Nat.not_lt_zero _)
  | succ fuel ih =>
    rw [blockRead, readCalls]
    by_cases hdone : done < count
    · rw [if_pos hdone, if_pos hdone]
      have hfits := passAt_fits offset hdone
      refine decides_afterCall ?_
      exact (yields_move offset hdone hcount).bind_decides fun _ _ _ => ih (by omega)
    · rw [if_neg hdone, if_neg hdone]
      exact (yields_ok trivial).decides.congr (by simp [answered_zero])

/-- **A block write too.** -/
theorem decides_blockWrite (hcount : count ≤ bufBytes) (hfuel : count - done < fuel) :
    Decides (blockWrite k offset count fuel n done) (Answered k n (writeCalls offset count fuel done))
      fun _ => True := by
  induction fuel generalizing n done with
  | zero => exact absurd hfuel (Nat.not_lt_zero _)
  | succ fuel ih =>
    rw [blockWrite, writeCalls]
    by_cases hdone : done < count
    · rw [if_pos hdone, if_pos hdone]
      have hfits := passAt_fits offset hdone
      have hmove := yields_move offset hdone hcount
      split_ifs with hpartial
      · -- the sectors are read before they are written
        rw [if_pos hpartial]
        refine decides_afterCall ?_
        refine hmove.bind_decides fun _ _ _ => ?_
        exact decides_afterCall (ih (by omega))
      · rw [if_neg hpartial]
        refine hmove.bind_decides fun _ _ _ => ?_
        exact decides_afterCall (ih (by omega))
    · rw [if_neg hdone, if_neg hdone]
      exact (yields_ok trivial).decides.congr (by simp [answered_zero])

/-! ## Syncs -/

/-- The volumes that `Op_Sync` calls. -/
def fsCount (volumes : List Volume) : Nat := volumes.countP fun v => v.valid && v.isFs

theorem decides_syncFrom (volumes : List Volume) (status : Nat) :
    Decides (syncFrom k n volumes status) (∀ j, j < fsCount volumes → k.call (n + j) ≠ .never) fun _ => True := by
  induction volumes generalizing n status with
  | nil => exact (yields_ok trivial).decides.congr (by simp [fsCount])
  | cons v vs ih =>
    rw [syncFrom]
    unfold fsCount at ih ⊢
    rw [countP_cons]
    by_cases hfs : v.valid = true ∧ v.isFs = true
    · have hcons : (∀ j, j < vs.countP (fun v => v.valid && v.isFs) + (if (v.valid && v.isFs) = true then 1 else 0) →
          k.call (n + j) ≠ .never) ↔ k.call n ≠ .never ∧ ∀ o, call k n = .ok o →
            ∀ j, j < vs.countP (fun v => v.valid && v.isFs) → k.call (n + 1 + j) ≠ .never := by
        rw [if_pos (by simp [hfs])]
        constructor
        · intro h
          refine ⟨h 0 (by omega), fun _ _ j hj => ?_⟩
          rw [show n + 1 + j = n + (j + 1) by omega]
          exact h (j + 1) (by omega)
        · rintro ⟨hfirst, hrest⟩ j hj
          cases j with
          | zero => exact hfirst
          | succ j =>
            obtain ⟨o, ho, -⟩ := (decides_call k n).1 hfirst
            rw [show n + (j + 1) = n + 1 + j by omega]
            exact hrest o ho j (by omega)
      rw [if_pos hfs, hcons]
      refine (decides_call k n).bind fun o _ _ => ?_
      cases o with
      | none => exact ih _
      | some w => exact ih _
    · rw [if_neg hfs, if_neg (by simpa using hfs)]
      exact ih status

/-! ## Files -/

/-- The window of a read runs off its object.  It begins behind the pages that the server counts, so that
    their difference comes round and the window has all of its 64 pages; it ends behind the last page that
    there can be; and there its end comes round to a length that the object has. -/
structure RunsOff (cap : FileCap) (lead size offset : UInt64) : Prop where
  behind : (filePages lead size).toNat < (lead + offset).toNat / 4096
  ends : 2 ^ 52 ≤ (lead + offset).toNat / 4096 + 64
  looks : ∃ n, cap.pages = some n ∧ (lead + offset).toNat / 4096 + 64 ≤ 2 ^ 52 + n.toNat

section Passes

variable {cap : FileCap} {lead size left at' : UInt64} {pages : UInt64}

theorem pages_lt (h : cap.pages = some pages) : pages.toNat < 2 ^ 51 := by
  cases cap with
  | boot b =>
    cases h
    have hlead := b.lead_lt
    have hsize := b.size_lt
    unfold pageSize at hlead
    simp only [UInt64.toNat_div, UInt64.toNat_sub, UInt64.toNat_add, UInt64.reduceToNat]
    omega
  | memory m =>
    cases h
    exact Nat.lt_of_le_of_lt m.pages_le (by decide)
  | other => cases h

theorem filePages_lt (lead size : UInt64) : (filePages lead size).toNat < 2 ^ 52 := by
  have hlt := (lead + size + 4096 - 1).toNat_lt
  rw [filePages, UInt64.toNat_div]
  simp only [UInt64.reduceToNat]
  omega

/-- The parts of a pass, as numbers. -/
theorem filePassAt_parts (lead size at' left : UInt64) :
    (filePassAt lead size at' left).base.toNat = (lead + at').toNat / 4096 ∧
      (filePassAt lead size at' left).skip.toNat = (lead + at').toNat % 4096 ∧
      (filePassAt lead size at' left).span.toNat =
        (if (lead + at').toNat / 4096 ≤ (filePages lead size).toNat then
          min 64 ((filePages lead size).toNat - (lead + at').toNat / 4096) else 64) ∧
      (0 < (filePassAt lead size at' left).span.toNat →
        (filePassAt lead size at' left).chunk.toNat =
          min left.toNat ((filePassAt lead size at' left).span.toNat * 4096 - (lead + at').toNat % 4096)) := by
  have hpages := filePages_lt lead size
  have hlt := (lead + at').toNat_lt
  have hbase : ((lead + at') / 4096).toNat = (lead + at').toNat / 4096 := by
    rw [UInt64.toNat_div]
    rfl
  have hskip : ((lead + at') % 4096).toNat = (lead + at').toNat % 4096 := by
    rw [UInt64.toNat_mod]
    rfl
  have hspan : (min fileWinPages (filePages lead size - (lead + at') / 4096)).toNat =
      (if (lead + at').toNat / 4096 ≤ (filePages lead size).toNat then
        min 64 ((filePages lead size).toNat - (lead + at').toNat / 4096) else 64) := by
    rw [toNat_min, UInt64.toNat_sub, hbase, fileWinPages]
    simp only [UInt64.reduceToNat]
    split <;> omega
  have hle : (min fileWinPages (filePages lead size - (lead + at') / 4096)).toNat ≤ 64 := by
    rw [hspan]
    split <;> omega
  refine ⟨hbase, hskip, hspan, fun hpos => ?_⟩
  replace hpos : 0 < (min fileWinPages (filePages lead size - (lead + at') / 4096)).toNat := hpos
  unfold filePassAt
  dsimp only
  rw [toNat_min, UInt64.toNat_sub, UInt64.toNat_mul, hskip]
  simp only [UInt64.reduceToNat]
  omega

/-- What the kernel compares for a pass. -/
theorem accepts_iff (hpages : cap.pages = some pages) (base span : UInt64) (hbase : base.toNat < 2 ^ 52)
    (hspan : span.toNat ≤ 64) :
    cap.accepts (base * 4096) (span * 4096) = true ↔
      span.toNat ≠ 0 ∧ (base.toNat + span.toNat) * 4096 % 2 ^ 64 ≤ pages.toNat * 4096 := by
  have hlt := pages_lt hpages
  unfold FileCap.accepts
  rw [hpages]
  simp only [decide_eq_true_eq, ne_eq, ← UInt64.toNat_inj, UInt64.le_iff_toNat_le, UInt64.toNat_add,
    UInt64.toNat_mul, UInt64.reduceToNat]
  omega

/-- **A pass that the kernel takes stays inside** exactly when its window ends before the address range. -/
theorem inBounds_iff {done : Nat} (hpages : cap.pages = some pages) (hleft : 0 < left.toNat)
    (hdone : done + left.toNat ≤ bufBytes)
    (haccepts : cap.accepts ((filePassAt lead size at' left).base * 4096)
      ((filePassAt lead size at' left).span * 4096) = true) :
    (filePassAt lead size at' left).InBounds cap done ↔
      (filePassAt lead size at' left).base.toNat + (filePassAt lead size at' left).span.toNat < 2 ^ 52 := by
  obtain ⟨hbase, hskip, hspan, hchunk⟩ := filePassAt_parts lead size at' left
  generalize filePassAt lead size at' left = p at *
  have hlt := pages_lt hpages
  have hword := (lead + at').toNat_lt
  have hle : p.span.toNat ≤ 64 := by
    rw [hspan]
    split <;> omega
  rw [accepts_iff hpages _ _ (by omega) hle] at haccepts
  have hmove := hchunk (by omega)
  unfold FilePass.InBounds FileCap.Backs pageSize
  constructor
  · rintro ⟨-, hback⟩
    have hlast := hback _ hpages
    omega
  · intro hend
    refine ⟨by omega, fun n hn => ?_⟩
    rw [hpages] at hn
    cases hn
    omega

/-- **Passes that begin inside the counted pages stay inside**, to the end of the loop. -/
theorem yields_readPasses (hinside : 0 < left.toNat → (lead + at').toNat / 4096 ≤ (filePages lead size).toNat)
    (hdone : done + left.toNat ≤ bufBytes) (hfuel : left.toNat < fuel) :
    Yields (readPasses k cap lead size fuel n done at' left) fun _ => True := by
  induction fuel generalizing n done at' left with
  | zero => exact absurd hfuel (Nat.not_lt_zero _)
  | succ fuel ih =>
    rw [readPasses]
    by_cases hleft : left > 0
    · have hpos : 0 < left.toNat := UInt64.lt_iff_toNat_lt.mp hleft
      rw [if_pos hleft]
      by_cases htaken : cap.accepts ((filePassAt lead size at' left).base * 4096)
          ((filePassAt lead size at' left).span * 4096) = true ∧ k.passMap n = true
      · obtain ⟨pages, hpages⟩ : ∃ pages, cap.pages = some pages := by
          cases hpages : cap.pages with
          | none => simp [FileCap.accepts, hpages] at htaken
          | some pages => exact ⟨pages, rfl⟩
        have hiff := inBounds_iff hpages hpos hdone htaken.1
        have haccepted := htaken.1
        obtain ⟨hbase, hskip, hspan, hchunk⟩ := filePassAt_parts lead size at' left
        dsimp only
        rw [if_pos htaken]
        generalize filePassAt lead size at' left = p at *
        have hcount := filePages_lt lead size
        have hin := hinside hpos
        rw [if_pos hin] at hspan
        rw [accepts_iff hpages _ _ (by omega) (by omega)] at haccepted
        have hmove := hchunk (by omega)
        refine (yields_demand (hiff.mpr (by omega))).bind fun _ _ => ?_
        have hrest : (left - p.chunk).toNat = left.toNat - p.chunk.toNat :=
          UInt64.toNat_sub_of_le _ _ (UInt64.le_iff_toNat_le.mpr (by omega))
        refine .ite (fun _ => ih (fun hmore => ?_) (by omega) (by omega)) fun _ => yields_ok trivial
        have hnext : (lead + (at' + p.chunk)).toNat = (lead + at').toNat + p.chunk.toNat := by
          rw [← UInt64.add_assoc, UInt64.toNat_add]
          omega
        rw [hnext]
        omega
      · dsimp only
        rw [if_neg htaken]
        exact yields_ok trivial
    · rw [if_neg hleft]
      exact yields_ok trivial

/-- **A read comes back** unless its window runs off its object. -/
theorem decides_readPasses (hleft : 0 < left.toNat) (hdone : done + left.toNat ≤ bufBytes)
    (hfuel : left.toNat < fuel) :
    Decides (readPasses k cap lead size fuel n done at' left)
      (k.passMap n = true → ¬ RunsOff cap lead size at') fun _ => True := by
  by_cases hin : (lead + at').toNat / 4096 ≤ (filePages lead size).toNat
  · refine (yields_readPasses (fun _ => hin) hdone hfuel).decides.congr (iff_of_true (fun _ hoff => ?_) trivial)
    exact absurd hoff.behind (Nat.not_lt.mpr hin)
  · obtain ⟨fuel, rfl⟩ : ∃ m, fuel = m + 1 := ⟨fuel - 1, by omega⟩
    rw [readPasses, if_pos (show left > 0 from UInt64.lt_iff_toNat_lt.mpr hleft)]
    obtain ⟨hbase, hskip, hspan, hchunk⟩ := filePassAt_parts lead size at' left
    rw [if_neg hin] at hspan
    have hword := (lead + at').toNat_lt
    have hmove := hchunk (by omega)
    cases hpages : cap.pages with
    | none =>
      have hrefused : ¬ (cap.accepts ((filePassAt lead size at' left).base * 4096)
          ((filePassAt lead size at' left).span * 4096) = true ∧ k.passMap n = true) := by
        simp [FileCap.accepts, hpages]
      dsimp only
      rw [if_neg hrefused]
      refine (yields_ok trivial).decides.congr (iff_of_true (fun _ hoff => ?_) trivial)
      obtain ⟨n, hn, -⟩ := hoff.looks
      rw [hpages] at hn
      cases hn
    | some pages =>
      have hlt := pages_lt hpages
      have haccepts := accepts_iff hpages (filePassAt lead size at' left).base (filePassAt lead size at' left).span
        (by omega) (by omega)
      have hoff : RunsOff cap lead size at' ↔ 2 ^ 52 ≤ (lead + at').toNat / 4096 + 64 ∧
          (lead + at').toNat / 4096 + 64 ≤ 2 ^ 52 + pages.toNat := by
        constructor
        · rintro ⟨-, hend, n, hn, hle⟩
          rw [hpages] at hn
          cases hn
          exact ⟨hend, hle⟩
        · rintro ⟨hend, hle⟩
          exact ⟨by omega, hend, pages, hpages, hle⟩
      dsimp only
      by_cases htaken : cap.accepts ((filePassAt lead size at' left).base * 4096)
          ((filePassAt lead size at' left).span * 4096) = true ∧ k.passMap n = true
      · have hiff := inBounds_iff hpages hleft hdone htaken.1
        have haccepted := haccepts.mp htaken.1
        rw [if_pos htaken]
        generalize filePassAt lead size at' left = p at *
        by_cases hend : p.base.toNat + p.span.toNat < 2 ^ 52
        · -- one pass is enough
          have hlast : (left - p.chunk).toNat = 0 := by
            rw [UInt64.toNat_sub_of_le _ _ (UInt64.le_iff_toNat_le.mpr (by omega))]
            unfold bufBytes at hdone
            omega
          refine Decides.congr (Yields.decides ?_) (iff_of_true (fun _ h => ?_) trivial)
          · refine (yields_demand (hiff.mpr hend)).bind fun _ _ => ?_
            refine .ite (fun _ => yields_readPasses (fun hmore => ?_) (by omega) (by omega)) fun _ =>
              yields_ok trivial
            omega
          · have := (hoff.mp h).1
            omega
        · refine Decides.congr (c := p.InBounds cap done) ?_ ?_
          · unfold demand
            rw [if_neg (fun h => hend (hiff.mp h))]
            exact decides_error fun h => hend (hiff.mp h)
          · refine iff_of_false (fun h => h htaken.2 (hoff.mpr ?_)) fun h => hend (hiff.mp h)
            omega
      · rw [if_neg htaken]
        refine (yields_ok trivial).decides.congr (iff_of_true (fun hmap h => htaken ⟨?_, hmap⟩) trivial)
        have := hoff.mp h
        exact haccepts.mpr (by omega)

/-- A file of the boot image is where the server counts its pages. -/
theorem boot_inside {b : BootFile} (hat : at'.toNat < b.size.toNat) :
    ¬ RunsOff (.boot b) b.leadIn b.size at' := by
  intro hoff
  have hlt := hoff.behind
  have hlead := b.lead_lt
  have hsize := b.size_lt
  unfold filePages pageSize at *
  simp only [UInt64.toNat_div, UInt64.toNat_sub, UInt64.toNat_add, UInt64.reduceToNat] at hlt
  omega

end Passes

theorem yields_fileFrom {files : List FileEntry} {path : List UInt8} {insensitive : Bool}
    (hf : ∀ f ∈ files, FileFits file f) :
    Yields (fileFrom path insensitive number files) fun x =>
      x = 0 ∨ number ≤ x ∧ x < number + files.length := by
  induction files generalizing number with
  | nil => exact yields_ok (.inl rfl)
  | cons f fs ih =>
    have hname := (hf f mem_cons_self).name
    have hrest : Yields (fileFrom path insensitive (number + 1) fs) fun x =>
        x = 0 ∨ number ≤ x ∧ x < number + (f :: fs).length := by
      refine (ih fun x hx => hf x (mem_cons_of_mem _ hx)).mono fun x hx => ?_
      rw [length_cons]
      omega
    rw [fileFrom]
    split_ifs with hvalid
    · refine (yields_slice (Nat.le_refl 1) hname).bind fun _ _ => ?_
      refine (yields_matchText hname).bind fun b _ => ?_
      cases b with
      | true =>
        refine yields_ok ?_
        rw [length_cons]
        omega
      | false => exact hrest
    · exact hrest

end Vfs

end Aegir.Fileserver
