/-
  What one request does to the world.

  An open fails and leaves it as it was, or counts an entry up, or loads a library.  A close finds nothing,
  or counts down, or takes the library away.  Each comes back with one reply.  `Opens` and `Closes` are the
  conditions: that the counter has room, that windows are unmapped, that a spawned library introduces
  itself with a version that is high enough, and that a library that is told to leave does so.
-/
import Aegir.Libman.Lifetimes

namespace Aegir.Libman

open Aegir.Lib Option Function

namespace State

variable {s s' t : State} {env : Env} {i j h pid : Nat} {e e' : LibEntry} {lib : Library} {name : Name}
  {minVersion : UInt64} {a : Answer}

/-- One reply, to request `h`. -/
structure Replies (s s' : State) (h : Nat) (a : Answer) : Prop where
  answers : s'.answers = s.answers ++ [(h, a)]
  asked : s'.asked = s.asked

theorem Same.refl (s : State) : Same s s :=
  { caps := rfl
    procs := fun _ => Iff.rfl
    spawned := rfl
    stageWindow := rfl
    argsWindow := rfl
    live := fun _ _ => Iff.rfl
    allProcs := rfl }

theorem same_reply (s : State) (h : Nat) (a : Answer) : Same s (s.reply h a) := { Same.refl s with }

theorem replies_reply (s : State) (h : Nat) (a : Answer) : Replies s (s.reply h a) h a := ⟨rfl, rfl⟩

/-! ## Conditions -/

/-- The kernel mints a cap for the client. -/
def Mints (s : State) (env : Env) : Prop := env.client ≠ 0 ∧ s.caps env.client = none

/-- A load that may fail, but only where failing is harmless. -/
structure Loads (s : State) (env : Env) (minVersion : UInt64) : Prop where
  stage : StageUnmaps s env
  fits : StageFits s env
  args : ∀ s₁ s₂, s.stage env = some (some env.image, s₁) → s₁.alloc env.rendez .endpoint = some s₂ →
    ArgsUnmaps s₂ env
  welcome : ∀ s' t, s.prepare env = some (some (env.image, env.rendez, env.args), s') → s'.spawn env = some t →
    Welcomes ((t.delete env.image).delete env.args) env s'.spawned env.rendez minVersion

structure Opens (s : State) (env : Env) (name : Name) (minVersion : UInt64) : Prop where
  room : ∀ i e, s.entryByName name = some i → s.entries[i]? = some e → ¬ e.version < minVersion →
    s.Mints env → e.openCount < naturalLast
  loads : s.entryByName name = none → ∀ i t, s.freeEntry env.arena = (some i, t) → Loads t env minVersion

/-- Told to leave, the library goes: it listens, or its endpoint is gone with it. -/
def Departs (lib : Library) (env : Env) : Prop :=
  if lib.left then lib.gone = true else lib.follows = true ∨ env.exits ≠ .stays

def Closes (s : State) (env : Env) (name : Name) : Prop :=
  ∀ i e pid lib, s.entryByName name = some i → s.entries[i]? = some e → e.openCount ≤ 1 →
    e.resident = false → s.caps e.serviceCap = some (.service pid) → s.procs pid = some lib → Departs lib env

/-! ## Open -/

inductive Opening (s s' : State) (name : Name) : UInt64 → Prop
  | failed (same : Same s s') : Opening s s' name 0
  | again {i : Nat} {e : LibEntry}
      (changed : Changed s s' i e
        { e with openCount := e.openCount + 1, resident := e.resident || residentName name })
      (named : e.name = name) : Opening s s' name 1
  | loaded {i : Nat} {e : LibEntry} (added : Added s s' i e) (named : e.name = name) (count : e.openCount = 1)
      (resident : e.resident = residentName name) : Opening s s' name 1

theorem changed_setEntry (hi : s.Live i e) (hname : e'.name = e.name) (hservice : e'.serviceCap = e.serviceCap)
    (hprocess : e'.processCap = e.processCap) : Changed s ((s.setEntry i e').reply h a) i e e' where
  caps := rfl
  procs := rfl
  spawned := rfl
  stageWindow := rfl
  argsWindow := rfl
  before := hi
  live := by
    intro j x
    have hset : (s.setEntry i e').Live j x ↔ _ := live_setEntry hi.lt
    constructor
    · intro hx
      rcases hset.mp hx with ⟨hj, hx, -⟩ | hx
      · exact .inl ⟨hj, hx⟩
      · exact .inr hx
    · rintro (⟨rfl, rfl⟩ | hx)
      · exact hset.mpr (.inl ⟨rfl, rfl, by rw [hname]; exact hi.2⟩)
      · exact hset.mpr (.inr hx)
  name := hname
  serviceCap := hservice
  processCap := hprocess

theorem freed_same {es : List LibEntry}
    (hes : ∀ (j : Nat) (e : LibEntry), e.name ≠ [] → (es[j]? = some e ↔ s.entries[j]? = some e)) :
    Same s (({ s with entries := es } : State).reply h a) :=
  { Same.refl s with
    live := by
      intro j x
      constructor
      · rintro ⟨hx, hname⟩
        exact ⟨(hes j x hname).mp hx, hname⟩
      · rintro ⟨hx, hname⟩
        exact ⟨(hes j x hname).mpr hx, hname⟩ }

theorem added_loaded {es : List LibEntry} {version revision : UInt64} {cap : Nat} (hi : i < es.length)
    (hfree : ∀ e : LibEntry, es[i]? = some e → e.name = [])
    (hes : ∀ (j : Nat) (e : LibEntry), e.name ≠ [] → (es[j]? = some e ↔ s.entries[j]? = some e))
    (hcap : cap ≠ 0 ∧ cap ≠ env.spawn ∧ s.caps cap = none) (hspawn : env.spawn ≠ 0 ∧ s.caps env.spawn = none)
    (hname : name ≠ []) (hunknown : s.entryByName name = none) :
    Added s ((({ s with entries := es } : State).loaded env i name version revision cap).reply h a) i
      ⟨name, version, revision, 1, cap, env.spawn, residentName name⟩ where
  caps := rfl
  serviceCap := hcap
  processCap := hspawn
  procs := ⟨_, rfl, rfl⟩
  spawned := rfl
  stageWindow := rfl
  argsWindow := rfl
  live := by
    intro j x
    have hset : (({ s with entries := es } : State).setEntry i
        ⟨name, version, revision, 1, cap, env.spawn, residentName name⟩).Live j x ↔ _ := live_setEntry hi
    constructor
    · intro hx
      rcases hset.mp hx with ⟨hj, hx, -⟩ | ⟨hj, hx, hx'⟩
      · exact .inl ⟨hj, hx⟩
      · exact .inr ⟨hj, (hes j x hx').mp hx, hx'⟩
    · rintro (⟨rfl, rfl⟩ | ⟨hj, hx, hx'⟩)
      · exact hset.mpr (.inl ⟨rfl, rfl, hname⟩)
      · exact hset.mpr (.inr ⟨hj, (hes j x hx').mpr hx, hx'⟩)
  free := by
    rintro x ⟨hx, hx'⟩
    exact hx' (hfree x ((hes i x hx').mpr hx))
  unknown hx := entryByName_none hunknown hx

theorem loadAndOpen_spec (hname : name ≠ []) (hunknown : s.entryByName name = none)
    (hloads : ∀ i t, s.freeEntry env.arena = (some i, t) → Loads t env minVersion) :
    ∃ s' a, s.loadAndOpen env name minVersion h = some s' ∧ Replies s s' h a ∧ Opening s s' name a.label := by
  unfold loadAndOpen
  rcases freeEntry_cases s env.arena with hslot | ⟨i, es, hslot, hi, hfree, hes⟩
  · rw [hslot]
    exact ⟨_, _, rfl, replies_reply s h _, .failed (same_reply s h _)⟩
  · have hload := hloads i _ hslot
    rw [hslot]
    dsimp only
    rcases prepare_cases hload.stage hload.fits hload.args with hprep | ⟨s', hprep, hready⟩
    · -- no image, no endpoint or no argument page
      rw [hprep]
      exact ⟨_, _, rfl, ⟨rfl, rfl⟩, .failed (freed_same hes)⟩
    · rw [hprep]
      dsimp only
      cases hspawn : s'.spawn env with
      | none =>
        rw [hready.give]
        exact ⟨_, _, rfl, ⟨rfl, rfl⟩, .failed (freed_same hes)⟩
      | some t =>
        obtain ⟨version, revision, cap, hcap, hproc, hmeet⟩ :=
          meet_welcome i h name hready hspawn (hload.welcome s' t hprep hspawn)
        exact ⟨_, _, hmeet, ⟨rfl, rfl⟩, .loaded (added_loaded hi hfree hes hcap hproc hname hunknown) rfl rfl rfl⟩

/-- **What an open does.** -/
theorem handleOpen_spec (hinv : Inv s) (hname : name ≠ []) (hopens : Opens s env name minVersion) :
    ∃ s' a, s.handleOpen env name minVersion h = some s' ∧ Replies s s' h a ∧ Opening s s' name a.label := by
  unfold handleOpen
  cases hfind : s.entryByName name with
  | none => exact loadAndOpen_spec hname hfind (hopens.loads hfind)
  | some i =>
    obtain ⟨e, hi, hnamed⟩ := entryByName_some hfind
    obtain ⟨pid, hholds, -⟩ := hinv.holds hi
    dsimp only
    rw [hi.1]
    dsimp only
    by_cases hversion : e.version < minVersion
    · rw [if_pos hversion]
      exact ⟨_, _, rfl, replies_reply s h _, .failed (same_reply s h _)⟩
    · rw [if_neg hversion, hholds.service]
      dsimp only
      cases hmint : s.alloc env.client (.client pid) with
      | none => exact ⟨_, _, rfl, replies_reply s h _, .failed (same_reply s h _)⟩
      | some s₁ =>
        obtain ⟨h0, hfree, hs1⟩ := alloc_some hmint
        have hroom := hopens.room i e hfind hi.1 hversion ⟨h0, hfree⟩
        have hback : update s₁.caps env.client none = s.caps := congrArg caps (delete_alloc hmint)
        dsimp only
        rw [if_neg (by omega)]
        refine ⟨_, ⟨1, e.version, e.revision, some pid⟩, rfl, ⟨?_, ?_⟩, .again (i := i) (e := e) ?_ hnamed⟩
        · rw [hs1]
          rfl
        · rw [hs1]
          rfl
        · have hstate : ((s₁.setEntry i { e with
              openCount := e.openCount + 1, resident := e.resident || residentName name }).reply h
                ⟨1, e.version, e.revision, some pid⟩).delete env.client =
              (s.setEntry i { e with
                openCount := e.openCount + 1, resident := e.resident || residentName name }).reply h
                  ⟨1, e.version, e.revision, some pid⟩ := by
            rw [hs1] at hback ⊢
            unfold setEntry reply delete
            rw [hback]
          rw [hstate]
          exact changed_setEntry hi rfl rfl rfl

/-! ## Close -/

theorem receive_left (hlib : lib.left = false) (hdeparts : Departs lib env) :
    (lib.receive shutdownLabel env.exits).left = true := by
  unfold Departs at hdeparts
  unfold Library.receive
  rw [hlib] at hdeparts ⊢
  simp only [Bool.false_eq_true, if_false] at hdeparts ⊢
  by_cases hfollows : lib.follows = true
  · rw [if_pos ⟨hfollows, trivial⟩]
  · rw [if_neg (fun hboth => hfollows hboth.1)]
    rcases hdeparts with hfollows' | hexits
    · exact absurd hfollows' hfollows
    · cases hexit : env.exits with
      | stays => exact absurd hexit hexits
      | leaves => rfl
      | dies => rfl

/-- **A library that goes** takes its process and its two caps along. -/
theorem expunge_some (hholds : s.Holds e pid) (hproc : s.procs pid = some lib) (hdeparts : Departs lib env) :
    s.expunge env i e = some { s with
      caps := update (update s.caps e.serviceCap none) e.processCap none
      procs := update s.procs pid none
      entries := s.entries.set i LibEntry.free } := by
  have hne : e.processCap ≠ e.serviceCap := by
    intro heq
    have hservice := hholds.service
    rw [← heq, hholds.process] at hservice
    cases hservice
  have hprocess : update s.caps e.serviceCap none e.processCap = some (.process pid) := by
    rw [update_of_ne hne, hholds.process]
  -- the library has left when the reaping starts
  have hcall : ∃ lib', lib'.left = true ∧ s.callShutdown e.serviceCap env.exits =
      some { s with procs := update s.procs pid (some lib') } := by
    unfold callShutdown
    rw [hholds.service]
    dsimp only
    rw [hproc]
    dsimp only
    cases hleft : lib.left with
    | true =>
      unfold Departs at hdeparts
      rw [if_pos hleft] at hdeparts
      refine ⟨lib, hleft, ?_⟩
      rw [if_pos rfl, if_pos hdeparts, ← hproc, update_eq_self]
    | false => exact ⟨_, receive_left hleft hdeparts, by rw [if_neg (by simp)]⟩
  obtain ⟨lib', hleft, hcall⟩ := hcall
  have hreap : ({ s with
      procs := update s.procs pid (some lib')
      caps := update s.caps e.serviceCap none } : State).reap e.processCap = some { s with
        caps := update (update s.caps e.serviceCap none) e.processCap none
        procs := update s.procs pid none } := by
    unfold reap delete
    dsimp only
    rw [hprocess]
    dsimp only
    rw [update_self]
    dsimp only
    rw [if_pos hleft, update_idem]
  unfold expunge
  rw [if_pos hholds.serviceCap, hcall]
  simp only [map_some, bind_some]
  rw [if_pos hholds.processCap]
  unfold delete
  rw [hreap]
  simp only [map_some, update_idem]
  rfl

inductive Closing (s s' : State) (name : Name) : Prop
  | unknown (same : Same s s') (none : ∀ {i e}, s.Live i e → e.name ≠ name)
  | down {i : Nat} {e : LibEntry} (changed : Changed s s' i e { e with openCount := e.openCount - 1 })
      (named : e.name = name) (stays : ¬ (e.openCount - 1 = 0 ∧ e.resident = false))
  | expunged {i : Nat} {e : LibEntry} {p : Nat} (removed : Removed s s' i e p) (named : e.name = name)
      (last : e.openCount - 1 = 0) (resident : e.resident = false)

/-- **What a close does.** -/
theorem handleClose_spec (hinv : Inv s) (hcloses : Closes s env name) :
    ∃ s' a, s.handleClose env name h = some s' ∧ Replies s s' h a ∧ a.label = 1 ∧ Closing s s' name := by
  unfold handleClose
  cases hfind : s.entryByName name with
  | none =>
    exact ⟨_, _, rfl, replies_reply s h _, rfl, .unknown (same_reply s h _) (entryByName_none hfind)⟩
  | some i =>
    obtain ⟨e, hi, hnamed⟩ := entryByName_some hfind
    obtain ⟨pid, hholds, hproc⟩ := hinv.holds hi
    dsimp only
    rw [hi.1]
    dsimp only
    by_cases hlast : e.openCount - 1 = 0 ∧ e.resident = false
    · obtain ⟨lib, hlib⟩ := ne_none_iff_exists'.mp hproc
      have hdeparts := hcloses i e pid lib hfind hi.1 (by omega) hlast.2 hholds.service hlib
      have hset : (s.setEntry i { e with openCount := e.openCount - 1 }).Holds
          { e with openCount := e.openCount - 1 } pid := ⟨hholds.1, hholds.2, hholds.3, hholds.4⟩
      have hgone := expunge_some (s := s.setEntry i { e with openCount := e.openCount - 1 }) (i := i) hset hlib
        hdeparts
      rw [if_pos hlast, hgone]
      refine ⟨_, _, rfl, ⟨rfl, rfl⟩, rfl, .expunged (i := i) (e := e) (p := pid) ?_ hnamed hlast.1 hlast.2⟩
      refine ⟨hi, hholds, rfl, rfl, rfl, rfl, rfl, fun j x => ?_⟩
      have hfree : (s.setEntry i LibEntry.free).Live j x ↔ _ := live_setEntry hi.lt
      unfold Live setEntry replyOk reply at *
      rw [List.set_set, hfree]
      constructor
      · rintro (⟨-, -, hempty⟩ | hx)
        · exact absurd rfl hempty
        · exact hx
      · exact .inr
    · rw [if_neg hlast]
      exact ⟨_, _, rfl, ⟨rfl, rfl⟩, rfl, .down (i := i) (changed_setEntry hi rfl rfl rfl) hnamed hlast⟩

end State

end Aegir.Libman
