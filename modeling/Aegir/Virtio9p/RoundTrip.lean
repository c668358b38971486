/-
  `Round_Trip` of the 9P driver.

  The request stands in the ONE transmit buffer and its reply comes to the ONE receive buffer; the wait polls
  the used ring.  All requests after the version carry the same tag, so nothing but the order of events ties a
  reply to its request.  A wait that is given up frees its chain while the device still has it.

  The device runs beside the driver: it reads a request when it likes, and completes what it has read in any
  order.  Its `jobs`, its `answers` and the two counts are for the statements alone.
-/
import Aegir.Virtio.QueueLaws

namespace Aegir.Virtio9p

open Aegir.Virtio Aegir.Lib List

def queueNum : UInt16 := 16
def bufBytes : UInt32 := 9 * 4096
def rLerror : UInt8 := 7
def transportError : UInt32 := 0xFFFFFFFF

/-- A chain that the device has read: its head, its number among the submitted ones, and the request. -/
structure Job where
  head : UInt16
  serial : Nat
  request : List UInt8

/-- The driver's queue and buffers, and the device.  `tx` is `Tx_Buf` up to `Req_Len`. -/
structure Line where
  q : Queue
  tx : List UInt8
  reqTag : UInt16
  rx : Nat → UInt8
  rspPos : UInt64
  rspEnd : UInt64
  txPa : UInt64
  rxPa : UInt64
  dev : Device
  jobs : List Job
  submitted : Nat
  taken : Nat
  answers : List (Job × List UInt8)

namespace Line

/-- The driver and its device once the queue is initialized. -/
def start (q : Queue) (txPa rxPa : UInt64) : Line :=
  ⟨q, [], 0, fun _ => 0, 0, 0, txPa, rxPa, ⟨0, 0, []⟩, [], 0, 0, []⟩

/-! ## The device -/

/-- The queue and the device, without the histories. -/
def world (s : Line) : World := ⟨s.q, s.dev, [], [], [], [], [], []⟩

/-- The device reads the next chain: what stands in the transmit buffer now is its request. -/
def read (s : Line) : Line :=
  { s with
    dev := { s.dev with seen := s.dev.seen + 1, inFlight := s.world.nextHead :: s.dev.inFlight }
    jobs := ⟨s.world.nextHead, s.taken, s.tx⟩ :: s.jobs
    taken := s.taken + 1 }

/-- The device writes its reply to the receive buffer and returns the chain. -/
def complete (s : Line) (job : Job) (rest : List Job) (flags : UInt16) (reply : List UInt8) : Line :=
  { s with
    q := { s.q with used := s.world.usedAfter job.head flags (UInt32.ofNat reply.length) }
    dev := { s.dev with usedIdx := s.dev.usedIdx + 1, inFlight := rest.map Job.head }
    jobs := rest
    rx := fun i => reply[i]?.getD (s.rx i)
    answers := s.answers ++ [(job, reply)] }

end Line

/-- One step of the device. -/
inductive DeviceStep (s : Line) : Line → Prop
  | read (hmore : s.q.avail 1 ≠ s.dev.seen) : DeviceStep s s.read
  | complete {job : Job} {rest : List Job} (hjob : s.jobs.Perm (job :: rest)) (flags : UInt16)
      (reply : List UInt8) (hlen : reply.length ≤ bufBytes.toNat) :
      DeviceStep s (s.complete job rest flags reply)

/-- Any number of them. -/
inductive DeviceRun : Line → Line → Prop
  | refl (s : Line) : DeviceRun s s
  | step {s s' s'' : Line} (hstep : DeviceStep s s') (hrun : DeviceRun s' s'') : DeviceRun s s''

/-! ## The driver -/

/-- The bytes with their number in front, in the place of the first four. -/
def sized (tx : List UInt8) : List UInt8 :=
  let size := UInt32.ofNat tx.length
  [(size % 256).toUInt8, (size / 256 % 256).toUInt8, (size / 65536 % 256).toUInt8,
    (size / 0x1000000).toUInt8] ++ tx.drop 4

namespace Line

/-- `Begin_Req`, and the bytes that are put behind the header. -/
def beginReq (s : Line) (msg : UInt8) (tag : UInt16) (body : List UInt8) : Line :=
  { s with tx := [0, 0, 0, 0, msg, (tag % 256).toUInt8, (tag / 256).toUInt8] ++ body, reqTag := tag }

/-- `Round_Trip` up to `Notify`: the head, if there are descriptors. -/
def post (s : Line) : Option (Option UInt16 × Line) := do
  let (h, q) ← s.q.alloc
  let (d, q) ← q.alloc
  if h = noDesc ∨ d = noDesc then some (none, { s with q := q })
  else do
    let q ← q.setBuffer h s.txPa (UInt32.ofNat s.tx.length) false
    let q ← q.chainNext h d
    let q ← q.setBuffer d s.rxPa bufBytes true
    let q ← q.submit h
    some (some h, { s with q := q, tx := sized s.tx, submitted := s.submitted + 1 })

/-- The end of a wait that is given up. -/
def abandon (s : Line) (h : UInt16) : Option (UInt32 × Line) := do
  let q ← s.q.free h
  some (transportError, { s with q := q })

/-- `Pop`, and `Free` of what it gives: the bytes written. -/
def collect (s : Line) : Option (UInt32 × Line) := do
  let ((head, written), q) ← s.q.pop
  let q ← q.free head
  some (written, { s with q := q })

def get8 (s : Line) : UInt8 × Line := (s.rx s.rspPos.toNat, { s with rspPos := s.rspPos + 1 })

def get16 (s : Line) : UInt16 × Line :=
  let (lo, s) := s.get8
  let (hi, s) := s.get8
  (lo.toUInt16 + hi.toUInt16 * 256, s)

def get32 (s : Line) : UInt32 × Line :=
  let (lo, s) := s.get16
  let (hi, s) := s.get16
  (lo.toUInt32 + hi.toUInt32 * 65536, s)

/-- The header of the reply. -/
def header (s : Line) (expect : UInt8) (written : UInt32) : UInt32 × Line :=
  if written < 7 then (transportError, s)
  else
    let (size, s) := { s with rspPos := 0 }.get32
    let (rtype, s) := s.get8
    let (rtag, s) := s.get16
    if size < 7 ∨ written < size ∨ rtag ≠ s.reqTag then (transportError, s)
    else
      let s := { s with rspEnd := size.toUInt64 }
      if rtype = rLerror then s.get32
      else if rtype ≠ expect then (transportError, s)
      else (0, s)

end Line

/-- The wait, from a number of turns on: whether there is a completion.  `Service_Irq` and `Yield` are where the
    device gets on. -/
inductive Waits : Nat → Line → Bool → Line → Prop
  | completed {spins : Nat} {s : Line} (hready : s.q.hasCompleted = true) : Waits spins s true s
  | poll {spins : Nat} {s s' s'' : Line} {ready : Bool} (hbusy : s.q.hasCompleted = false)
      (hdev : DeviceRun s s') (hspins : spins + 1 ≤ 1000000) (hrest : Waits (spins + 1) s' ready s'') :
      Waits spins s ready s''
  | giveUp {spins : Nat} {s s' : Line} (hbusy : s.q.hasCompleted = false) (hdev : DeviceRun s s')
      (hspins : 1000000 < spins + 1) : Waits spins s false s'

/-- `Round_Trip`: whether it gave up, and its outcome; without one a check has failed. -/
inductive RoundTrip (expect : UInt8) (s : Line) : Bool → Option (UInt32 × Line) → Prop
  | failed (hpost : s.post = none) : RoundTrip expect s false none
  | exhausted {s₁ : Line} (hpost : s.post = some (none, s₁)) :
      RoundTrip expect s false (some (transportError, s₁))
  | gaveUp {h : UInt16} {s₁ s₂ : Line} (hpost : s.post = some (some h, s₁)) (hwait : Waits 0 s₁ false s₂) :
      RoundTrip expect s true (s₂.abandon h)
  | unread {h : UInt16} {s₁ s₂ : Line} (hpost : s.post = some (some h, s₁)) (hwait : Waits 0 s₁ true s₂)
      (hcollect : s₂.collect = none) : RoundTrip expect s false none
  | answered {h : UInt16} {s₁ s₂ s₃ s₄ : Line} {written : UInt32} (hpost : s.post = some (some h, s₁))
      (hwait : Waits 0 s₁ true s₂) (hcollect : s₂.collect = some (written, s₃)) (hdev : DeviceRun s₃ s₄) :
      RoundTrip expect s false (some (s₄.header expect written))

/-- The service loop on a notification. -/
inductive Drains : Line → Line → Prop
  | done {s : Line} (hempty : s.q.hasCompleted = false) : Drains s s
  | more {s s₁ s₂ s' : Line} {written : UInt32} (hready : s.q.hasCompleted = true)
      (hcollect : s.collect = some (written, s₁)) (hdev : DeviceRun s₁ s₂) (hrest : Drains s₂ s') : Drains s s'

/-- What happens between two returns to the service loop; the flag is for a wait that is given up. -/
inductive Turn : Bool → Line → Line → Prop
  | device {s s' : Line} (hstep : DeviceStep s s') : Turn false s s'
  | drain {s s' : Line} (hdrain : Drains s s') : Turn false s s'
  | call {s s' : Line} {late : Bool} {v : UInt32} (msg : UInt8) (tag : UInt16) (body : List UInt8)
      (expect : UInt8) (hcall : RoundTrip expect (s.beginReq msg tag body) late (some (v, s'))) : Turn late s s'

/-- Any number of turns, each in time. -/
inductive Run : Line → Line → Prop
  | refl (s : Line) : Run s s
  | step {s s' s'' : Line} (hrun : Run s s') (hturn : Turn false s' s'') : Run s s''

/-! ## Nothing under way, and one request -/

theorem fits : Fit queueNum := fit_of_pow (k := 4) (by decide) (by decide)

/-- What holds at each return to the service loop: the device has nothing. -/
def Idle (s : Line) : Prop :=
  s.jobs = [] ∧ s.dev.inFlight = [] ∧ ∃ free sub tak ret pop,
    Sound queueNum ⟨s.q, s.dev, [], [], sub, tak, ret, pop⟩ free ∧ sub.length = s.submitted ∧ tak.length = s.taken

/-- The last reply of the device is the one to this request, and stands in the receive buffer. -/
def Answered (h : UInt16) (serial : Nat) (request : List UInt8) (s : Line) : Prop :=
  ∃ reply, s.answers.getLast? = some (⟨h, serial, request⟩, reply) ∧
    ∀ i, i < reply.length → reply[i]? = some (s.rx i)

/-- How far the device has got with the only request. -/
inductive Stage (h : UInt16) (serial : Nat) (request : List UInt8) (s : Line) : Prop
  | posted (htaken : s.taken = serial) (hjobs : s.jobs = []) (htx : s.tx = request)
  | read (htaken : s.taken = serial + 1) (hjobs : s.jobs = [⟨h, serial, request⟩])
  | done (htaken : s.taken = serial + 1) (hjobs : s.jobs = []) (hanswer : Answered h serial request s)

/-- One request is under way. -/
def Busy (h : UInt16) (serial : Nat) (request : List UInt8) (s : Line) : Prop :=
  Stage h serial request s ∧ s.submitted = serial + 1 ∧ s.dev.inFlight = s.jobs.map Job.head ∧
    ∃ t free sub tak ret pop, Sound queueNum ⟨s.q, s.dev, [], [h :: t], sub, tak, ret, pop⟩ free ∧
      sub.length = s.submitted ∧ tak.length = s.taken

section Idle

variable {s s' : Line}

theorem seen_of_taken {w : World} {free : List UInt16} (hw : Sound queueNum w free)
    (hlen : w.submitted.length = w.taken.length) : w.q.avail 1 = w.dev.seen := by
  rw [hw.availWord, ← UInt16.toNat_inj, hw.availIdx, hw.seen, hlen]

theorem Idle.still (h : Idle s) : s.q.avail 1 = s.dev.seen ∧ s.q.hasCompleted = false ∧ s.submitted = s.taken := by
  obtain ⟨-, -, free, sub, tak, ret, pop, hw, hsub, htak⟩ := h
  have hheads := hw.heads.length_eq
  simp only [filterMap_nil, length_nil, length_append, length_drop, length_map] at hheads
  have hle : tak.length ≤ sub.length := hw.avail.le
  refine ⟨seen_of_taken hw (show sub.length = tak.length by omega), ?_, by omega⟩
  have hcompleted := hasCompleted_iff hw fits
  rw [Bool.eq_false_iff, ne_eq]
  intro hready
  have hlt : pop.length < ret.length := hcompleted.mp hready
  omega

theorem Idle.no_step (h : Idle s) (hstep : DeviceStep s s') : False := by
  cases hstep with
  | read hmore => exact hmore h.still.1
  | complete hjob =>
    rw [h.1] at hjob
    exact absurd hjob.length_eq (by simp)

theorem Idle.run (h : Idle s) (hrun : DeviceRun s s') : s' = s := by
  cases hrun with
  | refl => rfl
  | step hstep => exact (h.no_step hstep).elim

/-- **Posting a request**, with nothing under way: there are descriptors, and no check fails. -/
theorem Idle.post (h : Idle s) :
    ∃ d s₁, s.post = some (some d, s₁) ∧ Busy d s.submitted (sized s.tx) s₁ ∧ s₁.reqTag = s.reqTag := by
  obtain ⟨hjobs, hflight, free, sub, tak, ret, pop, hw, hsub, htak⟩ := h
  have hle := fits.le
  have hlen := hw.descriptors.length_eq
  obtain ⟨d, e, rest, rfl⟩ : ∃ d e rest, free = d :: e :: rest := by
    rcases free with _ | ⟨d, _ | ⟨e, rest⟩⟩
    · cases hlen
    · cases hlen
    · exact ⟨d, e, rest, rfl⟩
  obtain ⟨q1, h1, hd1, same1⟩ := hw.descriptors.alloc_spec hle
  obtain ⟨q2, h2, hd2, same2⟩ := hd1.alloc_spec hle
  have hd : d ≠ noDesc := hw.descriptors.pool.freeList.2.1
  have he : e ≠ noDesc := hd1.pool.freeList.2.1
  -- the head gets its buffer, the second descriptor follows it, and gets its own
  have hd2' : Descriptors queueNum q2 rest (([] ++ d :: []) :: [[e]]) := hd2.perm (.swap _ _ _)
  obtain ⟨q3, h3, hd3, same3⟩ := hd2'.setBuffer_spec hle s.txPa (UInt32.ofNat s.tx.length) false
  have hd3' : Descriptors queueNum q3 rest (([] ++ d :: []) :: [[e]]) := hd3
  have hnext : (orNone [] ++ [[e]]).Perm ([e] :: []) := .refl _
  obtain ⟨q4, h4, hd4, same4⟩ := hd3'.chainNext_spec hle hnext
  have hd4' : Descriptors queueNum q4 rest (([d] ++ e :: []) :: []) := hd4
  obtain ⟨q5, h5, hd5, same5⟩ := hd4'.setBuffer_spec hle s.rxPa bufBytes true
  have hd5' : Descriptors queueNum q5 rest ([[d, e]] ++ []) := hd5
  have hheld := hw.of_descriptors hd5' ((((same1.trans same2).trans same3).trans same4).trans same5)
  obtain ⟨q6, h6⟩ : ∃ q6, q5.submit d = some q6 := ⟨_, submit_eq hheld fits d⟩
  have hlent := sound_submit hheld fits (List.Perm.refl _) h6
  refine ⟨d, { s with q := q6, tx := sized s.tx, submitted := s.submitted + 1 }, ?_, ?_, rfl⟩
  · have hfirst : s.q.alloc = some (d, q1) := h1
    have hne : ¬ (d = noDesc ∨ e = noDesc) := fun heq => heq.elim hd he
    simp only [Line.post, hfirst, h2, h3, h4, h5, h6, Option.bind_eq_bind, Option.bind_some, if_neg hne]
  · have htaken : s.taken = s.submitted :=
      (Idle.still ⟨hjobs, hflight, _, sub, tak, ret, pop, hw, hsub, htak⟩).2.2.symm
    refine ⟨.posted htaken hjobs rfl, rfl, ?_, [e], rest, sub ++ [d], tak, ret, pop, hlent, ?_, htak⟩
    · show s.dev.inFlight = s.jobs.map Job.head
      rw [hjobs, hflight]
      rfl
    · show (sub ++ [d]).length = s.submitted + 1
      rw [length_append, hsub]
      rfl

end Idle

/-! ## While one request is under way -/

section Busy

variable {s s' : Line} {d : UInt16} {serial : Nat} {request : List UInt8}

section

variable (h : Busy d serial request s)

include h

theorem Busy.step (hstep : DeviceStep s s') : Busy d serial request s' := by
  obtain ⟨hstage, hsubmitted, hflight, t, free, sub, tak, ret, pop, hw, hsub, htak⟩ := h
  cases hstep with
  | read hmore =>
    have hread := sound_devTake hw fits hmore
    have htaken : s.taken = serial := by
      cases hstage with
      | posted htaken => exact htaken
      | read htaken | done htaken =>
        exact absurd (seen_of_taken hw (show sub.length = tak.length by omega)) hmore
    obtain ⟨hjobs, htx⟩ : s.jobs = [] ∧ s.tx = request := by
      cases hstage with
      | posted _ hjobs htx => exact ⟨hjobs, htx⟩
      | read h' | done h' => omega
    have hmem : s.world.nextHead ∈ [d] :=
      hread.heads.mem_iff.mpr (mem_append_left _ (mem_append_right _ mem_cons_self))
    have hhead := mem_singleton.mp hmem
    refine ⟨.read (congrArg (· + 1) htaken) ?_, hsubmitted, ?_, t, free, sub, tak ++ [s.world.nextHead], ret, pop,
      hread, hsub, ?_⟩
    · show (⟨s.world.nextHead, s.taken, s.tx⟩ : Job) :: s.jobs = _
      rw [hhead, htaken, htx, hjobs]
    · show s.world.nextHead :: s.dev.inFlight = s.world.nextHead :: s.jobs.map Job.head
      rw [hflight]
    · show (tak ++ [s.world.nextHead]).length = s.taken + 1
      rw [length_append, htak]
      rfl
  | @complete job rest hjob flags reply hlen =>
    cases hstage with
    | posted _ hjobs | done _ hjobs =>
      rw [hjobs] at hjob
      exact absurd hjob.length_eq (by simp)
    | read htaken hjobs =>
      rw [hjobs] at hjob hflight
      obtain ⟨rfl, rfl⟩ : job = ⟨d, serial, request⟩ ∧ rest = [] := by
        have heq := singleton_perm.mp hjob
        rw [cons.injEq] at heq
        exact ⟨heq.1.symm, heq.2.symm⟩
      have hreturn := sound_devReturn hw fits flags (UInt32.ofNat reply.length)
        (show s.dev.inFlight.Perm (d :: []) by rw [hflight]; rfl)
      refine ⟨.done htaken rfl ⟨reply, ?_, ?_⟩, hsubmitted, rfl, t, free, sub, tak, _, pop, hreturn, hsub, htak⟩
      · show (s.answers ++ [_]).getLast? = _
        rw [getLast?_append, getLast?_singleton]
        rfl
      · intro i hi
        show _ = some (reply[i]?.getD (s.rx i))
        rw [getElem?_eq_getElem hi]
        rfl

theorem Busy.run (hrun : DeviceRun s s') : Busy d serial request s' := by
  induction hrun with
  | refl => exact h
  | step hstep _ ih => exact ih (h.step hstep)

theorem Busy.waits {spins : Nat} {ready : Bool} (hwait : Waits spins s ready s') :
    Busy d serial request s' ∧ (ready = true → s'.q.hasCompleted = true) := by
  induction hwait with
  | completed hready => exact ⟨h, fun _ => hready⟩
  | poll _ hdev _ _ ih => exact ih (h.run hdev)
  | giveUp _ hdev => exact ⟨h.run hdev, fun hready => (by cases hready)⟩

/-- **Taking the completion**, with one request under way: it is this request's, and nothing is under way any
    more. -/
theorem Busy.collect (hready : s.q.hasCompleted = true) :
    ∃ written s', s.collect = some (written, s') ∧ Idle s' ∧ Answered d serial request s' := by
  obtain ⟨hstage, hsubmitted, hflight, t, free, sub, tak, ret, pop, hw, hsub, htak⟩ := h
  have hlt : pop.length < ret.length := (hasCompleted_iff hw fits).mp hready
  have hheads := hw.heads.length_eq
  simp only [filterMap_cons, head?_cons, filterMap_nil, length_cons, length_nil,
    length_append, length_drop, length_map] at hheads
  obtain ⟨hjobs, hanswer⟩ : s.jobs = [] ∧ Answered d serial request s := by
    cases hstage with
    | posted htaken => omega
    | read _ hjobs =>
      rw [hflight, hjobs] at hheads
      simp only [map_cons, map_nil, length_cons, length_nil] at hheads
      omega
    | done _ hjobs hanswer => exact ⟨hjobs, hanswer⟩
  obtain ⟨⟨head, written⟩, q1, t', rest, hpop, -, hlent⟩ := (serves_of_sound hw fits).pop hready
  have heq := singleton_perm.mp hlent
  obtain ⟨⟨rfl, rfl⟩, rfl⟩ : (d = head ∧ t = t') ∧ rest = [] := by
    simpa using heq
  have hw₁ := sound_pop hw fits hready hpop hlent
  obtain ⟨q2, hfree⟩ := (serves_of_sound hw₁ fits).free d t mem_cons_self
  obtain ⟨free', hw₂⟩ := sound_step hw₁ fits (.free _ (List.Perm.refl _) hfree)
  refine ⟨written, { s with q := q2 }, ?_, ⟨hjobs, ?_, free', sub, tak, ret, _, hw₂, hsub, htak⟩, hanswer⟩
  · rw [Line.collect, hpop, Option.bind_eq_bind, Option.bind_some]
    dsimp only
    rw [hfree]
    rfl
  · rw [hflight, hjobs]
    rfl

end

end Busy

/-! ## Calls in time -/

section Calls

variable {s s' : Line} {expect : UInt8}

theorem header_keeps (s : Line) (expect : UInt8) (written : UInt32) : ∃ v pos stop,
    s.header expect written = (v, { s with rspPos := pos, rspEnd := stop }) := by
  rw [Line.header]
  split
  · exact ⟨_, s.rspPos, s.rspEnd, rfl⟩
  · dsimp only
    split
    · exact ⟨_, _, _, rfl⟩
    · split
      · exact ⟨_, _, _, rfl⟩
      · split
        · exact ⟨_, _, _, rfl⟩
        · exact ⟨_, _, _, rfl⟩

/-- A call that does not give up returns, with its own reply in the buffer, and leaves nothing under way. -/
theorem Idle.call {out : Option (UInt32 × Line)} (h : Idle s) (hcall : RoundTrip expect s false out) :
    ∃ d v s', out = some (v, s') ∧ Idle s' ∧ Answered d s.submitted (sized s.tx) s' := by
  obtain ⟨d, s₀, hpost, hbusy, -⟩ := h.post
  cases hcall with
  | failed hpost' | exhausted hpost' =>
    rw [hpost] at hpost'
    cases hpost'
  | unread hpost' hwait hcollect =>
    rw [hpost] at hpost'
    cases hpost'
    obtain ⟨hbusy', hready⟩ := hbusy.waits hwait
    obtain ⟨written, s', hcollect', -⟩ := hbusy'.collect (hready rfl)
    rw [hcollect] at hcollect'
    cases hcollect'
  | @answered _ _ _ s₃ s₄ written hpost' hwait hcollect hdev =>
    rw [hpost] at hpost'
    cases hpost'
    obtain ⟨hbusy', hready⟩ := hbusy.waits hwait
    obtain ⟨written', s', hcollect', hidle, hanswer⟩ := hbusy'.collect (hready rfl)
    rw [hcollect] at hcollect'
    cases hcollect'
    have heq := hidle.run hdev
    subst heq
    obtain ⟨v, pos, stop, hkeep⟩ := header_keeps s₄ expect written
    rw [hkeep]
    exact ⟨d, v, _, rfl, hidle, hanswer⟩

theorem Idle.turn (h : Idle s) (hturn : Turn false s s') : Idle s' := by
  cases hturn with
  | device hstep => exact (h.no_step hstep).elim
  | drain hdrain =>
    cases hdrain with
    | done => exact h
    | more hready =>
      rw [h.still.2.1] at hready
      cases hready
  | call msg tag body expect hcall =>
    have hbuilt : Idle (s.beginReq msg tag body) := h
    obtain ⟨_, _, _, heq, hidle, -⟩ := hbuilt.call hcall
    cases heq
    exact hidle

theorem Idle.runs (h : Idle s) (hrun : Run s s') : Idle s' := by
  induction hrun with
  | refl => exact h
  | step _ hturn ih => exact ih.turn hturn

end Calls

/-- At a return to the service loop: the device has no chain and there is none to take back, and the free list
    holds every descriptor once. -/
structure Rested (s : Line) : Prop where
  device : s.jobs = [] ∧ s.q.avail 1 = s.dev.seen ∧ s.q.hasCompleted = false
  free : ∃ free, IsChain noDesc (Queue.half s.q.desc) s.q.freeHead free ∧ free.Nodup ∧
    (∀ d, d ∈ free ↔ d < queueNum) ∧ s.q.freeCount.toNat = free.length

theorem Idle.rested {s : Line} (h : Idle s) : Rested s := by
  refine ⟨⟨h.1, h.still.1, h.still.2.1⟩, ?_⟩
  obtain ⟨-, -, free, sub, tak, ret, pop, hw, -⟩ := h
  obtain ⟨free, hchain, -, hnodup, hall, hcount⟩ := (conserved_of_sound hw fits).descriptors
  simp only [append_nil, flatten_nil] at hnodup hall
  exact ⟨free, hchain, hnodup, hall, hcount⟩

/-- **Replies and requests**, in every run in which no wait is given up, whatever the areas of the queue held:
    at every return to the service loop the device has nothing and every descriptor is free; and every call
    that does not give up returns, with the device's reply to its own request in the receive buffer. -/
theorem replies_answer (desc : Nat → UInt32) (avail : Nat → UInt16) (used : Nat → UInt32) (txPa rxPa : UInt64) :
    ∃ q, Queue.initializeQueue desc avail used queueNum = some q ∧ ∀ s, Run (.start q txPa rxPa) s →
      Rested s ∧ ∀ msg tag body expect out, RoundTrip expect (s.beginReq msg tag body) false out →
        ∃ d v s', out = some (v, s') ∧ Answered d s.submitted (sized (s.beginReq msg tag body).tx) s' := by
  obtain ⟨q, hq, hd, havail, hused, havail1, hused0⟩ := initializeQueue_spec fits.pos fits.le desc avail used
  refine ⟨q, hq, fun s hrun => ?_⟩
  have hstart : Idle (.start q txPa rxPa) :=
    ⟨rfl, rfl, _, [], [], [], [], .start hd havail hused havail1 hused0, rfl, rfl⟩
  have hidle := hstart.runs hrun
  refine ⟨hidle.rested, fun msg tag body expect out hcall => ?_⟩
  have hbuilt : Idle (s.beginReq msg tag body) := hidle
  obtain ⟨d, v, s', hout, -, hanswer⟩ := hbuilt.call hcall
  exact ⟨d, v, s', hout, hanswer⟩

/-! ## A late reply -/

/-- An empty Rread. -/
def emptyRead : List UInt8 := [11, 0, 0, 0, 117, 0, 0, 0, 0, 0, 0]

/-- A read is given up once the device has it; the next read gets the reply to the first. -/
def crossing : Option (UInt32 × List (List UInt8)) := do
  let q ← Queue.initializeQueue (fun _ => 0) (fun _ => 0) (fun _ => 0) queueNum
  let (h, a) ← ((Line.start q 0 0).beginReq 116 0 [1]).post
  let (_, s) ← a.read.abandon (← h)
  let (h', b) ← (s.beginReq 116 0 [2]).post
  let job ← b.jobs.head?
  let (written, c) ← (b.complete job [] 0 emptyRead).collect
  let _ ← h'
  if a.q.hasCompleted = false ∧ a.q.avail 1 ≠ a.dev.seen ∧ b.q.hasCompleted = false ∧ b.jobs.length = 1 ∧
      (b.complete job [] 0 emptyRead).q.hasCompleted = true then
    some ((c.header 117 written).1, c.answers.map fun e => e.1.request)
  else none

theorem waits_giveUp {s : Line} (hbusy : s.q.hasCompleted = false) {spins : Nat} (hspins : spins ≤ 1000000) :
    Waits spins s false s := by
  obtain ⟨k, hk⟩ : ∃ k, 1000000 = spins + k := ⟨1000000 - spins, by omega⟩
  induction k generalizing spins with
  | zero => exact .giveUp hbusy (.refl s) (by omega)
  | succ k ih => exact .poll hbusy (.refl s) (by omega) (ih (by omega) (by omega))

/-- **A reply crosses over.**  The second call returns 0, and the only reply that the device has given is to
    another request. -/
theorem late_reply_crosses : ∃ q s₁ s₂ e,
    Queue.initializeQueue (fun _ => 0) (fun _ => 0) (fun _ => 0) queueNum = some q ∧
      Turn true (.start q 0 0) s₁ ∧ RoundTrip 117 (s₁.beginReq 116 0 [2]) false (some (0, s₂)) ∧
      s₂.answers = [e] ∧ e.1.request ≠ sized (s₁.beginReq 116 0 [2]).tx := by
  have hcross : crossing = some (0, [[8, 0, 0, 0, 116, 0, 0, 1]]) := by decide +kernel
  simp only [crossing, Option.bind_eq_bind, Option.bind_eq_some_iff] at hcross
  obtain ⟨q, hq, ⟨h, a⟩, hpost, d, rfl, ⟨v, s₁⟩, habandon, ⟨h', b⟩, hpost', job, hjob, ⟨written, c⟩, hcollect, d',
    rfl, hrest⟩ := hcross
  rw [Option.ite_none_right_eq_some, Option.some.injEq, Prod.mk.injEq] at hrest
  obtain ⟨⟨hbusy, hmore, hbusy', hone, hready⟩, hzero, hanswers⟩ := hrest
  obtain ⟨e, hanswer, he⟩ := map_eq_singleton_iff.mp hanswers
  obtain ⟨v', pos, stop, hkeep⟩ := header_keeps c 117 written
  rw [hkeep] at hzero
  obtain rfl : v' = 0 := hzero
  -- the device reads the first request, and the wait for it is given up
  have hrest : Waits (0 + 1) a.read false a.read := waits_giveUp (s := a.read) hbusy (by decide)
  have hfirst : Waits 0 a false a.read := .poll hbusy (.step (.read hmore) (.refl _)) (by decide) hrest
  have hcall : RoundTrip 117 _ true _ := .gaveUp hpost hfirst
  rw [habandon] at hcall
  -- it completes the first request while the second waits
  obtain ⟨j, hj⟩ := length_eq_one_iff.mp hone
  obtain rfl : j = job := by
    rw [hj] at hjob
    exact Option.some.inj hjob
  have hsecond : Waits 0 b true (b.complete j [] 0 emptyRead) :=
    .poll hbusy' (.step (.complete (hj ▸ .refl _) 0 emptyRead (by decide)) (.refl _)) (by decide) (.completed hready)
  have hcall' : RoundTrip 117 _ false _ := .answered hpost' hsecond hcollect (.refl c)
  rw [hkeep] at hcall'
  refine ⟨q, s₁, _, e, hq, .call 116 0 [1] 117 hcall, hcall', hanswer, ?_⟩
  rw [he]
  show _ ≠ sized ([0, 0, 0, 0, 116, 0, 0] ++ [2])
  decide

end Aegir.Virtio9p
