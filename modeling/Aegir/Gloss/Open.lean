/-
  `_open` of the C library (`Aegir_User.Gloss`).

  The file server has no request that creates a file: a file appears when it is written to.  So `_open` with
  `O_CREAT` writes one byte and truncates the file again.  It does so whenever its first request for the file
  is refused, whatever the refusal says: a file that exists, but could not be opened just then, is
  OVERWRITTEN.
-/
import Mathlib.Logic.Function.Basic

namespace Aegir.Gloss

open List Function

/-- The first descriptor of a file; 0 to 2 are the console. -/
def firstFileFd : Nat := 3

/-- The longest path. -/
def maxPath : Nat := 256

/-- `O_ACCMODE`. -/
def oAccMode : UInt32 := 3
/-- `O_WRONLY`. -/
def oWrOnly : UInt32 := 1
/-- `O_APPEND`. -/
def oAppend : UInt32 := 0x0008
/-- `O_CREAT`. -/
def oCreat : UInt32 := 0x0200
/-- `O_TRUNC`. -/
def oTrunc : UInt32 := 0x0400
/-- `O_EXCL`. -/
def oExcl : UInt32 := 0x0800

/-- The values of `errno` that `_open` sets. -/
inductive Errno
  | eio | eagain | efbig | enoent | eexist | einval | emfile
  deriving DecidableEq, Repr

/-- `Status_Ok`. -/
def statusOk : UInt64 := 0
/-- `Status_Not_Found`. -/
def statusNotFound : UInt64 := 1
/-- `Status_Not_Ready`. -/
def statusNotReady : UInt64 := 2
/-- `Status_Bad_Args`. -/
def statusBadArgs : UInt64 := 3
/-- `Status_Out_Of_Range`. -/
def statusOutOfRange : UInt64 := 4

/-- The files, by path. -/
abbrev Volume : Type := List UInt8 → Option (List UInt8)

namespace Volume

variable (v : Volume) (p : List UInt8) (fate : UInt64)

/-- `Files.Open`: the status and the size.  A request is refused with the status `fate`, or it is carried
    out. -/
def openFile : UInt64 × Nat :=
  if fate ≠ statusOk then (fate, 0)
  else match v p with
    | some c => (statusOk, c.length)
    | none => (statusNotFound, 0)

/-- `Files.Write` of one NUL at offset 0. -/
def writeNul : UInt64 × Volume :=
  if fate ≠ statusOk then (fate, v)
  else (statusOk, update v p (some (0 :: ((v p).getD []).drop 1)))

/-- `Files.Truncate`. -/
def truncate : UInt64 × Volume :=
  if fate ≠ statusOk then (fate, v)
  else match v p with
    | some _ => (statusOk, update v p (some []))
    | none => (statusNotFound, v)

end Volume

/-- What becomes of the requests of one call, in their order: the status a request is refused with, or
    `Status_Ok` where it is carried out. -/
structure Fates where
  first : UInt64
  write : UInt64
  truncate : UInt64
  second : UInt64
  truncateOpened : UInt64

/-- `FD_Rec`. -/
structure FdRec where
  used : Bool
  readable : Bool
  writable : Bool
  offset : Nat
  size : Nat
  path : List UInt8
  deriving DecidableEq

/-- The volume, and the descriptors from 1 on. -/
structure State where
  vol : Volume
  fds : List FdRec

/-- A free slot: the first one that is not used, or a new one.  The slots of the console are made before;
    `room` slots can be had. -/
def takeSlot (fds : List FdRec) (room : Nat) : Option Nat × List FdRec :=
  let blank : FdRec := ⟨false, false, false, 0, 0, []⟩
  match (fds.drop (firstFileFd - 1)).findIdx? fun d => !d.used with
  | some i => (some (firstFileFd + i), fds)
  | none =>
    let pads := firstFileFd - 1 - fds.length
    if pads < room then (some (fds.length + pads + 1), fds ++ replicate (pads + 1) blank)
    else (none, fds ++ replicate room blank)

/-- The `errno` for a creation that failed. -/
def createErrno (status : UInt64) : Errno :=
  if status = statusBadArgs then .einval
  else if status = statusOutOfRange then .efbig
  else if status = statusNotReady then .eagain
  else .eio

/-- `O_CREAT` is given. -/
def creates (f : UInt32) : Prop := f &&& oCreat ≠ 0
/-- `O_EXCL` is given. -/
def exclusive (f : UInt32) : Prop := f &&& oExcl ≠ 0
/-- `O_TRUNC` is given, with write access. -/
def truncates (f : UInt32) : Prop := f &&& oTrunc ≠ 0 ∧ f &&& oAccMode ≠ 0

instance (f : UInt32) : Decidable (creates f) := inferInstanceAs (Decidable (_ ≠ _))
instance (f : UInt32) : Decidable (exclusive f) := inferInstanceAs (Decidable (_ ≠ _))
instance (f : UInt32) : Decidable (truncates f) := inferInstanceAs (Decidable (_ ∧ _))

/-- The end of `_open`, after the last request for the file was answered. -/
def opened (s : State) (slot : Nat) (p : List UInt8) (f : UInt32) (o : Fates) (existed : Bool)
    (answer : UInt64 × Nat) : Except Errno Nat × State :=
  if answer.1 ≠ statusOk then (.error (if existed = true then .eio else .enoent), s)
  else if existed = true ∧ creates f ∧ exclusive f then (.error .eexist, s)
  else
    let cut := if truncates f then s.vol.truncate p o.truncateOpened else (statusNotReady, s.vol)
    let size := if cut.1 = statusOk then 0 else answer.2
    (.ok slot, ⟨cut.2, s.fds.set (slot - 1)
      ⟨true, f &&& oAccMode ≠ oWrOnly, f &&& oAccMode ≠ 0, if f &&& oAppend ≠ 0 then size else 0, size, p⟩⟩)

/-- The creation of a file: one byte is written, and truncated again. -/
def create (s : State) (slot : Nat) (p : List UInt8) (f : UInt32) (o : Fates) : Except Errno Nat × State :=
  let written := s.vol.writeNul p o.write
  let emptied := if written.1 = statusOk then written.2.truncate p o.truncate else written
  if written.1 ≠ statusOk ∨ emptied.1 ≠ statusOk then
    (.error (createErrno (if written.1 ≠ statusOk then written.1 else emptied.1)), ⟨emptied.2, s.fds⟩)
  else opened ⟨emptied.2, s.fds⟩ slot p f o false (emptied.2.openFile p o.second)

/-- `Gloss_Open`, for the qualified path. -/
def glossOpen (s : State) (room : Nat) (p : List UInt8) (f : UInt32) (o : Fates) : Except Errno Nat × State :=
  if p.length = 0 ∨ maxPath < p.length then (.error .einval, s)
  else match takeSlot s.fds room with
    | (none, fds) => (.error .emfile, ⟨s.vol, fds⟩)
    | (some slot, fds) =>
      let first := s.vol.openFile p o.first
      if first.1 ≠ statusOk ∧ creates f then create ⟨s.vol, fds⟩ slot p f o
      else opened ⟨s.vol, fds⟩ slot p f o (first.1 = statusOk) first

/-! ## What `_open` may do -/

variable {s : State} {p : List UInt8} {f : UInt32} {o : Fates} {room : Nat}

/-- The descriptor, if it is in use. -/
def inUse (fds : List FdRec) (i : Nat) : Option FdRec := fds[i]?.filter (·.used)

/-- `_open` destroys no data: another file is never touched; the file keeps its bytes, or is truncated as
    the flags say; it is created only with `O_CREAT`, and empty; with `O_CREAT` and `O_EXCL` an existing file
    is never opened, and only an existing one is reported; and a call that fails takes no descriptor. -/
structure Safe (s : State) (p : List UInt8) (f : UInt32) (r : Except Errno Nat × State) : Prop where
  elsewhere : ∀ q, q ≠ p → r.2.vol q = s.vol q
  kept : ∀ c, s.vol p = some c → r.2.vol p = some c ∨ truncates f ∧ r.2.vol p = some []
  created : s.vol p = none → r.2.vol p = none ∨ creates f ∧ r.2.vol p = some []
  exclusive : creates f → exclusive f →
    (s.vol p ≠ none → ∀ fd, r.1 ≠ .ok fd) ∧ (r.1 = .error .eexist → s.vol p ≠ none)
  failed : ∀ e, r.1 = .error e → ∀ i, inUse r.2.fds i = inUse s.fds i

/-- The write of a byte that is meant to create the file does no harm: to a file that exists it is not
    made, since the first request found it; and the truncation behind it is carried out.  The rest are files
    that look the same afterwards: an empty one, one that begins with a NUL. -/
def CreationHarmless (s : State) (p : List UInt8) (f : UInt32) (o : Fates) : Prop :=
  match s.vol p with
  | none => o.truncate = statusOk
  | some c => o.first = statusOk ∨
      if o.truncate = statusOk then (c = [] ∨ truncates f) ∧ (exclusive f → o.second ≠ statusOk)
      else c.head? = some 0

theorem takeSlot_inUse (fds : List FdRec) (room i : Nat) : inUse (takeSlot fds room).2 i = inUse fds i := by
  have hblank (n : Nat) : inUse (fds ++ replicate n ⟨false, false, false, 0, 0, []⟩) i = inUse fds i := by
    unfold inUse
    by_cases hi : i < fds.length
    · rw [getElem?_append_left hi]
    · rw [getElem?_append_right (by omega), getElem?_eq_none (l := fds) (by omega), getElem?_replicate]
      split <;> rfl
  unfold takeSlot
  split
  · rfl
  · dsimp only
    split
    · exact hblank _
    · exact hblank _

theorem truncate_volume (v : Volume) (fate : UInt64) : (∀ q, q ≠ p → (v.truncate p fate).2 q = v q) ∧
      ((v.truncate p fate).2 p = v p ∨ v p ≠ none ∧ (v.truncate p fate).2 p = some []) := by
  unfold Volume.truncate
  split
  · exact ⟨fun q hq => rfl, .inl rfl⟩
  · split
    · rename_i c hc
      refine ⟨fun q hq => update_of_ne hq _ _, .inr ⟨by rw [hc]; nofun, update_self ..⟩⟩
    · exact ⟨fun q hq => rfl, .inl rfl⟩

/-- What the end of `_open` does to the volume, and when it delivers a descriptor. -/
theorem opened_spec (s : State) (slot : Nat) (existed : Bool) (answer : UInt64 × Nat) :
    (∀ q, q ≠ p → (opened s slot p f o existed answer).2.vol q = s.vol q) ∧
      ((opened s slot p f o existed answer).2.vol p = s.vol p ∨
        s.vol p ≠ none ∧ truncates f ∧ (opened s slot p f o existed answer).2.vol p = some []) ∧
      ((opened s slot p f o existed answer).1 = .error .eexist → existed = true) ∧
      (∀ e, (opened s slot p f o existed answer).1 = .error e → (opened s slot p f o existed answer).2 = s) ∧
      ((∃ fd, (opened s slot p f o existed answer).1 = .ok fd) ↔
        answer.1 = statusOk ∧ ¬ (existed = true ∧ creates f ∧ exclusive f)) := by
  unfold opened
  by_cases hans : answer.1 ≠ statusOk
  · rw [if_pos hans]
    refine ⟨fun q _ => rfl, .inl rfl, ?_, fun e _ => rfl, ?_⟩
    · cases existed <;> simp
    · simp [hans]
  · rw [if_neg hans]
    by_cases hexcl : existed = true ∧ creates f ∧ exclusive f
    · rw [if_pos hexcl]
      exact ⟨fun q _ => rfl, .inl rfl, fun _ => hexcl.1, fun e _ => rfl, by simp [hexcl]⟩
    · rw [if_neg hexcl]
      rw [ne_eq, not_not] at hans
      refine ⟨?_, ?_, nofun, nofun, by simp [hans, hexcl]⟩
      · intro q hq
        split
        · exact (truncate_volume s.vol _).1 q hq
        · rfl
      · dsimp only
        split
        · rename_i htrunc
          rcases (truncate_volume s.vol o.truncateOpened).2 with hsame | ⟨hne, hempty⟩
          · exact .inl hsame
          · exact .inr ⟨hne, htrunc, hempty⟩
        · exact .inl rfl

/-- A call that gives up before a write leaves everything as it was. -/
theorem safe_refused {fds : List FdRec} {e : Errno} (hfds : ∀ i, inUse fds i = inUse s.fds i)
    (he : e ≠ .eexist) : Safe s p f (.error e, ⟨s.vol, fds⟩) where
  elsewhere _ _ := rfl
  kept _ hc := .inl hc
  created hn := .inl hn
  exclusive _ _ := ⟨fun _ _ => nofun, fun h => absurd (Except.error.inj h) he⟩
  failed _ _ := hfds

/-- What the first request told of a file that it found. -/
theorem openFile_ok (v : Volume) (fate : UInt64) :
    (v.openFile p fate).1 = statusOk ↔ fate = statusOk ∧ v p ≠ none := by
  unfold Volume.openFile
  by_cases hfate : fate = statusOk
  · rw [if_neg (not_not.mpr hfate)]
    cases hp : v p with
    | none => simp [statusNotFound, statusOk]
    | some c => simp [hfate]
  · rw [if_pos hfate]
    simp [hfate]

/-- The file was found, or is not to be created. -/
theorem safe_opened {fds : List FdRec} {slot : Nat} (hfds : ∀ i, inUse fds i = inUse s.fds i) :
    Safe s p f (opened ⟨s.vol, fds⟩ slot p f o ((s.vol.openFile p o.first).1 = statusOk)
      (s.vol.openFile p o.first)) := by
  obtain ⟨helse, hvol, heexist, hfailed, hok⟩ := opened_spec (p := p) (f := f) (o := o) ⟨s.vol, fds⟩ slot
    ((s.vol.openFile p o.first).1 = statusOk) (s.vol.openFile p o.first)
  refine ⟨helse, fun c hc => ?_, fun hn => ?_, fun hc he => ⟨fun _ fd hfd => ?_, fun h => ?_⟩, ?_⟩
  · rcases hvol with hsame | ⟨-, htrunc, hempty⟩
    · exact .inl (hsame.trans hc)
    · exact .inr ⟨htrunc, hempty⟩
  · rcases hvol with hsame | ⟨hne, -, -⟩
    · exact .inl (hsame.trans hn)
    · exact absurd hn hne
  · obtain ⟨hans, hno⟩ := hok.mp ⟨fd, hfd⟩
    exact hno ⟨decide_eq_true hans, hc, he⟩
  · exact ((openFile_ok s.vol o.first).mp (of_decide_eq_true (heexist h))).2
  · intro e he i
    rw [hfailed e he]
    exact hfds i

theorem createErrno_ne (status : UInt64) : createErrno status ≠ .eexist := by
  unfold createErrno
  repeat' split
  all_goals decide

/-- The creation, for a file that was not found. -/
theorem create_safe_iff {fds : List FdRec} {slot : Nat} (hfds : ∀ i, inUse fds i = inUse s.fds i)
    (hmissing : (s.vol.openFile p o.first).1 ≠ statusOk) (hc : creates f) :
    Safe s p f (create ⟨s.vol, fds⟩ slot p f o) ↔ (o.write = statusOk → CreationHarmless s p f o) := by
  by_cases hwrite : o.write ≠ statusOk
  · -- the write is refused
    have hw : s.vol.writeNul p o.write = (o.write, s.vol) := if_pos hwrite
    rw [create, hw, if_neg hwrite, if_pos (.inl hwrite)]
    exact iff_of_true (safe_refused hfds (createErrno_ne _)) fun h => absurd h hwrite
  have hw : s.vol.writeNul p o.write =
      (statusOk, update s.vol p (some (0 :: ((s.vol p).getD []).drop 1))) := if_neg hwrite
  rw [create, hw]
  generalize hbyte : update s.vol p (some (0 :: ((s.vol p).getD []).drop 1)) = w
  have hat : w p = some (0 :: ((s.vol p).getD []).drop 1) := by rw [← hbyte, update_self]
  have hoff : ∀ q, q ≠ p → w q = s.vol q := fun q hq => by rw [← hbyte, update_of_ne hq]
  rw [ne_eq, not_not] at hwrite
  have hfirst : ∀ c, s.vol p = some c → o.first ≠ statusOk := by
    intro c hp hfirst
    exact hmissing ((openFile_ok s.vol o.first).mpr ⟨hfirst, by rw [hp]; nofun⟩)
  by_cases htrunc : o.truncate ≠ statusOk
  · -- the truncation is refused: the byte stays
    have ht : Volume.truncate w p o.truncate = (o.truncate, w) := if_pos htrunc
    simp only [ht, if_true, ne_eq, not_true_eq_false, if_false]
    rw [if_pos (.inr htrunc)]
    constructor
    · intro h _
      cases hp : s.vol p with
      | none =>
        have hnew : w p = none ∨ creates f ∧ w p = some [] := h.created hp
        rw [hat] at hnew
        simp at hnew
      | some c =>
        have hkept : w p = some c ∨ truncates f ∧ w p = some [] := h.kept c hp
        rw [hat, hp] at hkept
        simp only [CreationHarmless, hp, if_neg htrunc]
        rcases hkept with hsame | ⟨-, hempty⟩
        · exact .inr (by rw [← Option.some.inj hsame]; rfl)
        · cases hempty
    · intro h
      have hharm := h hwrite
      cases hp : s.vol p with
      | none =>
        simp only [CreationHarmless, hp] at hharm
        exact absurd hharm htrunc
      | some c =>
        simp only [CreationHarmless, hp, if_neg htrunc] at hharm
        have hhead : 0 :: c.drop 1 = c := by
          rcases hharm with hfound | hhead
          · exact absurd hfound (hfirst c hp)
          · cases c with
            | nil => cases hhead
            | cons x c => rw [Option.some.inj hhead]; rfl
        refine ⟨hoff, fun c' hc' => .inl ?_, fun hn => ?_, fun _ _ => ⟨fun _ _ => nofun, fun he => ?_⟩, ?_⟩
        · rw [hp] at hat
          rw [← Option.some.inj (hp.symm.trans hc'), ← hhead]
          exact hat
        · rw [hn] at hp
          cases hp
        · exact absurd (Except.error.inj he) (createErrno_ne _)
        · exact fun _ _ => hfds
  · -- the file is empty now, and opened again
    rw [ne_eq, not_not] at htrunc
    have ht : Volume.truncate w p o.truncate = (statusOk, update w p (some [])) := by
      rw [Volume.truncate, if_neg (not_not.mpr htrunc), hat]
    simp only [if_true, ht, ne_eq, not_true_eq_false, or_self, if_false]
    generalize hnew : update w p (some []) = v
    have hempty : v p = some [] := by rw [← hnew, update_self]
    have hother : ∀ q, q ≠ p → v q = s.vol q := fun q hq => by
      rw [← hnew, update_of_ne hq, hoff q hq]
    obtain ⟨helse, hvol, heexist, hfailed, hok⟩ :=
      opened_spec (p := p) (f := f) (o := o) ⟨v, fds⟩ slot false (Volume.openFile v p o.second)
    have hleft : (opened ⟨v, fds⟩ slot p f o false (Volume.openFile v p o.second)).2.vol p = some [] := by
      rcases hvol with hsame | ⟨-, -, hcut⟩
      · exact hsame.trans hempty
      · exact hcut
    have hopen : (∃ fd, (opened ⟨v, fds⟩ slot p f o false (Volume.openFile v p o.second)).1 = .ok fd) ↔
        o.second = statusOk := by
      rw [hok, openFile_ok, hempty]
      simp
    constructor
    · intro h _
      cases hp : s.vol p with
      | none => simpa only [CreationHarmless, hp] using htrunc
      | some c =>
        simp only [CreationHarmless, hp, if_pos htrunc]
        refine .inr ⟨?_, fun hexcl hsecond => ?_⟩
        · rcases h.kept c hp with hsame | ⟨hcut, -⟩
          · rw [hleft] at hsame
            exact .inl (Option.some.inj hsame).symm
          · exact .inr hcut
        · obtain ⟨fd, hfd⟩ := hopen.mpr hsecond
          exact (h.exclusive hc hexcl).1 (by rw [hp]; nofun) fd hfd
    · intro h
      have hharm := h hwrite
      refine ⟨fun q hq => (helse q hq).trans (hother q hq), fun c hp => ?_, fun _ => .inr ⟨hc, hleft⟩,
        fun _ hexcl => ⟨fun hne fd hfd => ?_, fun he => ?_⟩, fun e he i => ?_⟩
      · simp only [CreationHarmless, hp, if_pos htrunc] at hharm
        rcases hharm with hfound | ⟨rfl | hcut, -⟩
        · exact absurd hfound (hfirst c hp)
        · exact .inl hleft
        · exact .inr ⟨hcut, hleft⟩
      · obtain ⟨c, hp⟩ := Option.ne_none_iff_exists'.mp hne
        simp only [CreationHarmless, hp, if_pos htrunc] at hharm
        rcases hharm with hfound | ⟨-, hno⟩
        · exact hfirst c hp hfound
        · exact hno hexcl (hopen.mp ⟨fd, hfd⟩)
      · cases heexist he
      · rw [hfailed e he]
        exact hfds i

end Aegir.Gloss
