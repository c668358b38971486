/-
  How long a library lives.

  `Inv` ties the table to the world: every entry holds the service cap and the process cap of one process
  that is not reaped, no two entries share a process or a name, and every process that is not reaped
  belongs to an entry.

  Each kind of step has one lemma: nothing happens (`Alike`, `Same`), an entry comes (`Added`), an entry's
  count changes (`Changed`), an entry goes (`Removed`).
-/
import Aegir.Libman.Manager

namespace Aegir.Libman

open Aegir.Lib List Function

namespace State

/-! ## The table -/

variable {s s' : State} {i j pid : Nat} {e e' : LibEntry} {name : Name}

/-- An entry in use. -/
def Live (s : State) (i : Nat) (e : LibEntry) : Prop := s.entries[i]? = some e ∧ e.name ≠ []

/-- The two caps of a library's entry. -/
structure Holds (s : State) (e : LibEntry) (pid : Nat) : Prop where
  serviceCap : e.serviceCap ≠ 0
  processCap : e.processCap ≠ 0
  service : s.caps e.serviceCap = some (.service pid)
  process : s.caps e.processCap = some (.process pid)

structure Inv (s : State) : Prop where
  holds : ∀ {i e}, s.Live i e → ∃ pid, s.Holds e pid ∧ s.procs pid ≠ none
  apart : ∀ {i j e e' pid}, s.Live i e → s.Live j e' → s.Holds e pid → s.Holds e' pid → i = j
  names : ∀ {i j e e'}, s.Live i e → s.Live j e' → e.name = e'.name → i = j
  known : ∀ {pid}, s.procs pid ≠ none → ∃ i e, s.Live i e ∧ s.Holds e pid
  fresh : ∀ {pid}, s.spawned ≤ pid →
    s.procs pid = none ∧ ∀ h, s.caps h ≠ some (.service pid) ∧ s.caps h ≠ some (.process pid)
  stageWindow : s.stageWindow = false
  argsWindow : s.argsWindow = false

theorem live_unique (hi : s.Live i e) (hi' : s.Live i e') : e = e' := by
  have heq := hi.1.symm.trans hi'.1
  cases heq
  rfl

theorem live_setEntry (hi : i < s.entries.length) :
    (s.setEntry i e').Live j e ↔ j = i ∧ e = e' ∧ e'.name ≠ [] ∨ j ≠ i ∧ s.Live j e := by
  unfold Live setEntry
  by_cases hj : j = i
  · subst hj
    rw [getElem?_set_self hi]
    constructor
    · rintro ⟨he, hname⟩
      cases he
      exact .inl ⟨rfl, rfl, hname⟩
    · rintro (⟨-, rfl, hname⟩ | ⟨hj, -⟩)
      · exact ⟨rfl, hname⟩
      · exact absurd rfl hj
  · rw [getElem?_set_ne (Ne.symm hj)]
    simp [hj]

theorem Live.lt (hi : s.Live i e) : i < s.entries.length := (List.getElem?_eq_some_iff.mp hi.1).1

theorem entryByName_some (hs : s.entryByName name = some i) : ∃ e, s.Live i e ∧ e.name = name := by
  obtain ⟨hi, hp, -⟩ := findIdx?_eq_some_iff_getElem.mp hs
  have hp := of_decide_eq_true hp
  exact ⟨s.entries[i], ⟨getElem?_eq_getElem hi, hp.2⟩, hp.1⟩

theorem entryByName_none (hs : s.entryByName name = none) (hi : s.Live i e) : e.name ≠ name := by
  intro hname
  have hall := findIdx?_eq_none_iff.mp hs e (mem_of_getElem? hi.1)
  simp only [decide_eq_false_iff_not, not_and] at hall
  exact hall hname hi.2

theorem freeEntry_cases (s : State) (arena : Bool) : s.freeEntry arena = (none, s) ∨
      ∃ i es, s.freeEntry arena = (some i, { s with entries := es }) ∧ i < es.length ∧
        (∀ e : LibEntry, es[i]? = some e → e.name = []) ∧
        ∀ (j : Nat) (e : LibEntry), e.name ≠ [] → (es[j]? = some e ↔ s.entries[j]? = some e) := by
  unfold freeEntry
  cases hfind : s.entries.findIdx? fun e => decide (e.name = []) with
  | some i =>
    obtain ⟨hi, hp, -⟩ := findIdx?_eq_some_iff_getElem.mp hfind
    refine .inr ⟨i, s.entries, rfl, hi, ?_, fun _ _ _ => Iff.rfl⟩
    intro e he
    rw [getElem?_eq_getElem hi] at he
    cases he
    exact of_decide_eq_true hp
  | none =>
    cases arena with
    | false => exact .inl rfl
    | true =>
      refine .inr ⟨s.entries.length, s.entries ++ [LibEntry.free], rfl, by simp, ?_, ?_⟩
      · intro e he
        rw [getElem?_concat_length] at he
        cases he
        rfl
      · intro j e hname
        rw [getElem?_append]
        by_cases hj : j < s.entries.length
        · rw [if_pos hj]
        · have hout : s.entries[j]? = none := getElem?_eq_none (by omega)
          rw [if_neg hj, hout]
          constructor
          · intro he
            have hfree := mem_of_getElem? he
            rw [mem_singleton.mp hfree] at hname
            exact absurd rfl hname
          · intro he
            cases he

/-! ## Nothing happens -/

/-- The same table, the same caps, and the same processes, whatever their libraries do. -/
structure Alike (s s' : State) : Prop where
  caps : s'.caps = s.caps
  procs : ∀ pid, s'.procs pid = none ↔ s.procs pid = none
  spawned : s'.spawned = s.spawned
  stageWindow : s'.stageWindow = s.stageWindow
  argsWindow : s'.argsWindow = s.argsWindow
  live : ∀ i e, s'.Live i e ↔ s.Live i e

/-- **Nothing is left over**: the world is as before, but for replies and free slots of the table. -/
structure Same (s s' : State) : Prop extends Alike s s' where
  allProcs : s'.procs = s.procs

theorem holds_congr (hs : e'.serviceCap = e.serviceCap) (hp : e'.processCap = e.processCap)
    (hservice : s'.caps e.serviceCap = s.caps e.serviceCap)
    (hprocess : s'.caps e.processCap = s.caps e.processCap) : s'.Holds e' pid ↔ s.Holds e pid := by
  rw [← hs] at hservice
  rw [← hp] at hprocess
  constructor
  · rintro ⟨h0, h0', h1, h2⟩
    exact ⟨hs ▸ h0, hp ▸ h0', hs ▸ hservice ▸ h1, hp ▸ hprocess ▸ h2⟩
  · rintro ⟨h0, h0', h1, h2⟩
    exact ⟨hs ▸ h0, hp ▸ h0', hservice.trans (hs ▸ h1), hprocess.trans (hp ▸ h2)⟩

theorem Alike.holds (hs : Alike s s') : s'.Holds e pid ↔ s.Holds e pid :=
  holds_congr rfl rfl (by rw [hs.caps]) (by rw [hs.caps])

theorem Inv.alike (hinv : Inv s) (hs : Alike s s') : Inv s' where
  holds := by
    intro i e hi
    obtain ⟨pid, hpid, hproc⟩ := hinv.holds ((hs.live i e).mp hi)
    exact ⟨pid, hs.holds.mpr hpid, (hs.procs pid).not.mpr hproc⟩
  apart hi hj hp hp' := hinv.apart ((hs.live _ _).mp hi) ((hs.live _ _).mp hj) (hs.holds.mp hp) (hs.holds.mp hp')
  names hi hj := hinv.names ((hs.live _ _).mp hi) ((hs.live _ _).mp hj)
  known := by
    intro pid hproc
    obtain ⟨i, e, hi, hp⟩ := hinv.known ((hs.procs pid).not.mp hproc)
    exact ⟨i, e, (hs.live i e).mpr hi, hs.holds.mpr hp⟩
  fresh := by
    intro pid hle
    rw [hs.spawned] at hle
    rw [hs.procs, hs.caps]
    exact hinv.fresh hle
  stageWindow := hs.stageWindow.trans hinv.stageWindow
  argsWindow := hs.argsWindow.trans hinv.argsWindow

/-! ## An entry comes -/

structure Added (s s' : State) (i : Nat) (e : LibEntry) : Prop where
  caps : s'.caps = update (update s.caps e.processCap (some (.process s.spawned)))
    e.serviceCap (some (.service s.spawned))
  serviceCap : e.serviceCap ≠ 0 ∧ e.serviceCap ≠ e.processCap ∧ s.caps e.serviceCap = none
  processCap : e.processCap ≠ 0 ∧ s.caps e.processCap = none
  procs : ∃ lib : Library, lib.left = false ∧ s'.procs = update s.procs s.spawned (some lib)
  spawned : s'.spawned = s.spawned + 1
  stageWindow : s'.stageWindow = s.stageWindow
  argsWindow : s'.argsWindow = s.argsWindow
  live : ∀ j x, s'.Live j x ↔ j = i ∧ x = e ∨ j ≠ i ∧ s.Live j x
  free : ∀ x, ¬ s.Live i x
  unknown : ∀ {j x}, s.Live j x → x.name ≠ e.name

section Added

variable (ha : Added s s' i e)

include ha

theorem Added.kept {x : LibEntry} {p : Nat} (hp : s.Holds x p) : s'.Holds x p := by
  have hne : ∀ {c o}, s.caps c = some o → s'.caps c = s.caps c := by
    intro c o hc
    have hservice : c ≠ e.serviceCap := by
      rintro rfl
      rw [ha.serviceCap.2.2] at hc
      cases hc
    have hprocess : c ≠ e.processCap := by
      rintro rfl
      rw [ha.processCap.2] at hc
      cases hc
    rw [ha.caps, update_of_ne hservice, update_of_ne hprocess]
  exact (holds_congr rfl rfl (hne hp.service) (hne hp.process)).mpr hp

theorem Added.new : s'.Holds e s.spawned := by
  refine ⟨ha.serviceCap.1, ha.processCap.1, ?_, ?_⟩
  · rw [ha.caps, update_self]
  · rw [ha.caps, update_of_ne (Ne.symm ha.serviceCap.2.1), update_self]

theorem Inv.added (hinv : Inv s) : Inv s' := by
  obtain ⟨lib, -, hprocs⟩ := ha.procs
  have hold : ∀ {x p}, s.Holds x p → p ≠ s.spawned := by
    rintro x p hp rfl
    exact ((hinv.fresh (Nat.le_refl _)).2 _).1 hp.service
  have hpid : ∀ {j x p}, j ≠ i → s.Live j x → s'.Holds x p → s.Holds x p := by
    intro j x p hj hx hp
    obtain ⟨q, hq, -⟩ := hinv.holds hx
    have hq' := ha.kept hq
    have hsame := hp.service.symm.trans hq'.service
    cases hsame
    exact hq
  refine ⟨?_, ?_, ?_, ?_, ?_, ha.stageWindow.trans hinv.stageWindow, ha.argsWindow.trans hinv.argsWindow⟩
  · intro j x hx
    rcases (ha.live j x).mp hx with ⟨rfl, rfl⟩ | ⟨hj, hx⟩
    · exact ⟨s.spawned, ha.new, by rw [hprocs, update_self]; simp⟩
    · obtain ⟨p, hp, hproc⟩ := hinv.holds hx
      exact ⟨p, ha.kept hp, by rw [hprocs, update_of_ne (hold hp)]; exact hproc⟩
  · intro j k x y p hx hy hp hp'
    rcases (ha.live j x).mp hx with ⟨rfl, rfl⟩ | ⟨hj, hx⟩
    · rcases (ha.live k y).mp hy with ⟨rfl, -⟩ | ⟨hk, hy⟩
      · rfl
      · have hsame := hp.service.symm.trans ha.new.service
        cases hsame
        exact absurd rfl (hold (hpid hk hy hp'))
    · rcases (ha.live k y).mp hy with ⟨rfl, rfl⟩ | ⟨hk, hy⟩
      · have hsame := hp'.service.symm.trans ha.new.service
        cases hsame
        exact absurd rfl (hold (hpid hj hx hp))
      · exact hinv.apart hx hy (hpid hj hx hp) (hpid hk hy hp')
  · intro j k x y hx hy hname
    rcases (ha.live j x).mp hx with ⟨rfl, rfl⟩ | ⟨hj, hx⟩
    · rcases (ha.live k y).mp hy with ⟨rfl, -⟩ | ⟨hk, hy⟩
      · rfl
      · exact absurd hname.symm (ha.unknown hy)
    · rcases (ha.live k y).mp hy with ⟨rfl, rfl⟩ | ⟨hk, hy⟩
      · exact absurd hname (ha.unknown hx)
      · exact hinv.names hx hy hname
  · intro p hproc
    by_cases hp : p = s.spawned
    · subst hp
      exact ⟨i, e, (ha.live i e).mpr (.inl ⟨rfl, rfl⟩), ha.new⟩
    · rw [hprocs, update_of_ne hp] at hproc
      obtain ⟨j, x, hx, hp⟩ := hinv.known hproc
      have hj : j ≠ i := by
        rintro rfl
        exact ha.free x hx
      exact ⟨j, x, (ha.live j x).mpr (.inr ⟨hj, hx⟩), ha.kept hp⟩
  · intro p hle
    rw [ha.spawned] at hle
    have hfresh : s.procs p = none ∧ _ := hinv.fresh (by omega)
    have hne : p ≠ s.spawned := by omega
    refine ⟨by rw [hprocs, update_of_ne hne]; exact hfresh.1, fun c => ?_⟩
    rw [ha.caps]
    by_cases hservice : c = e.serviceCap
    · subst hservice
      simp [Ne.symm hne]
    · rw [update_of_ne hservice]
      by_cases hprocess : c = e.processCap
      · subst hprocess
        simp [Ne.symm hne]
      · rw [update_of_ne hprocess]
        exact hfresh.2 c

end Added

/-! ## An entry's count changes -/

structure Changed (s s' : State) (i : Nat) (e e' : LibEntry) : Prop where
  caps : s'.caps = s.caps
  procs : s'.procs = s.procs
  spawned : s'.spawned = s.spawned
  stageWindow : s'.stageWindow = s.stageWindow
  argsWindow : s'.argsWindow = s.argsWindow
  before : s.Live i e
  live : ∀ j x, s'.Live j x ↔ j = i ∧ x = e' ∨ j ≠ i ∧ s.Live j x
  name : e'.name = e.name
  serviceCap : e'.serviceCap = e.serviceCap
  processCap : e'.processCap = e.processCap

theorem Changed.back (hc : Changed s s' i e e') {x : LibEntry} (hx : s'.Live j x) :
    ∃ y, s.Live j y ∧ x.name = y.name ∧ ∀ p, s'.Holds x p ↔ s.Holds y p := by
  rcases (hc.live j x).mp hx with ⟨rfl, rfl⟩ | ⟨-, hx⟩
  · exact ⟨e, hc.before, hc.name, fun p => holds_congr hc.serviceCap hc.processCap (by rw [hc.caps])
      (by rw [hc.caps])⟩
  · exact ⟨x, hx, rfl, fun p => holds_congr rfl rfl (by rw [hc.caps]) (by rw [hc.caps])⟩

theorem Inv.changed (hinv : Inv s) (hc : Changed s s' i e e') : Inv s' where
  holds := by
    intro j x hx
    obtain ⟨y, hy, -, hholds⟩ := hc.back hx
    obtain ⟨p, hp, hproc⟩ := hinv.holds hy
    exact ⟨p, (hholds p).mpr hp, by rw [hc.procs]; exact hproc⟩
  apart := by
    intro j k x y p hx hy hp hp'
    obtain ⟨x', hx', -, hholds⟩ := hc.back hx
    obtain ⟨y', hy', -, hholds'⟩ := hc.back hy
    exact hinv.apart hx' hy' ((hholds p).mp hp) ((hholds' p).mp hp')
  names := by
    intro j k x y hx hy hname
    obtain ⟨x', hx', hn, -⟩ := hc.back hx
    obtain ⟨y', hy', hn', -⟩ := hc.back hy
    exact hinv.names hx' hy' (by rw [← hn, ← hn', hname])
  known := by
    intro p hproc
    rw [hc.procs] at hproc
    obtain ⟨j, x, hx, hp⟩ := hinv.known hproc
    by_cases hj : j = i
    · subst hj
      have hnew := (hc.live j e').mpr (.inl ⟨rfl, rfl⟩)
      obtain ⟨y, hy, -, hholds⟩ := hc.back hnew
      rw [live_unique hx hy] at hp
      exact ⟨j, e', hnew, (hholds p).mpr hp⟩
    · exact ⟨j, x, (hc.live j x).mpr (.inr ⟨hj, hx⟩), (holds_congr rfl rfl (by rw [hc.caps]) (by rw [hc.caps])).mpr hp⟩
  fresh := by
    intro p hle
    rw [hc.spawned] at hle
    rw [hc.procs, hc.caps]
    exact hinv.fresh hle
  stageWindow := hc.stageWindow.trans hinv.stageWindow
  argsWindow := hc.argsWindow.trans hinv.argsWindow

/-! ## An entry goes -/

structure Removed (s s' : State) (i : Nat) (e : LibEntry) (pid : Nat) : Prop where
  before : s.Live i e
  held : s.Holds e pid
  caps : s'.caps = update (update s.caps e.serviceCap none) e.processCap none
  procs : s'.procs = update s.procs pid none
  spawned : s'.spawned = s.spawned
  stageWindow : s'.stageWindow = s.stageWindow
  argsWindow : s'.argsWindow = s.argsWindow
  live : ∀ j x, s'.Live j x ↔ j ≠ i ∧ s.Live j x

theorem Inv.removed (hinv : Inv s) (hr : Removed s s' i e pid) : Inv s' := by
  have hother : ∀ {j x p}, j ≠ i → s.Live j x → s.Holds x p → p ≠ pid := by
    rintro j x p hj hx hp rfl
    exact hj (hinv.apart hx hr.before hp hr.held)
  have hkept : ∀ {j x p}, j ≠ i → s.Live j x → s.Holds x p → s'.Holds x p := by
    intro j x p hj hx hp
    have hne := hother hj hx hp
    have hcap : ∀ {c o}, s.caps c = some o → o ≠ .service pid → o ≠ .process pid → s'.caps c = s.caps c := by
      intro c o hc hservice hprocess
      have hs : c ≠ e.serviceCap := by
        rintro rfl
        rw [hr.held.service] at hc
        cases hc
        exact hservice rfl
      have hp : c ≠ e.processCap := by
        rintro rfl
        rw [hr.held.process] at hc
        cases hc
        exact hprocess rfl
      rw [hr.caps, update_of_ne hp, update_of_ne hs]
    refine (holds_congr rfl rfl (hcap hp.service ?_ ?_) (hcap hp.process ?_ ?_)).mpr hp
    · simp [hne]
    · simp
    · simp
    · simp [hne]
  have hback : ∀ {j x p}, j ≠ i → s.Live j x → s'.Holds x p → s.Holds x p := by
    intro j x p hj hx hp
    obtain ⟨q, hq, -⟩ := hinv.holds hx
    have hsame := hp.service.symm.trans (hkept hj hx hq).service
    cases hsame
    exact hq
  refine ⟨?_, ?_, ?_, ?_, ?_, hr.stageWindow.trans hinv.stageWindow, hr.argsWindow.trans hinv.argsWindow⟩
  · intro j x hx
    obtain ⟨hj, hx⟩ := (hr.live j x).mp hx
    obtain ⟨p, hp, hproc⟩ := hinv.holds hx
    exact ⟨p, hkept hj hx hp, by rw [hr.procs, update_of_ne (hother hj hx hp)]; exact hproc⟩
  · intro j k x y p hx hy hp hp'
    obtain ⟨hj, hx⟩ := (hr.live j x).mp hx
    obtain ⟨hk, hy⟩ := (hr.live k y).mp hy
    exact hinv.apart hx hy (hback hj hx hp) (hback hk hy hp')
  · intro j k x y hx hy
    exact hinv.names ((hr.live j x).mp hx).2 ((hr.live k y).mp hy).2
  · intro p hproc
    rw [hr.procs] at hproc
    have hp : p ≠ pid := by
      rintro rfl
      rw [update_self] at hproc
      exact hproc rfl
    rw [update_of_ne hp] at hproc
    obtain ⟨j, x, hx, hholds⟩ := hinv.known hproc
    have hj : j ≠ i := by
      rintro rfl
      rw [live_unique hx hr.before] at hholds
      have hsame := hholds.service.symm.trans hr.held.service
      cases hsame
      exact hp rfl
    exact ⟨j, x, (hr.live j x).mpr ⟨hj, hx⟩, hkept hj hx hholds⟩
  · intro p hle
    rw [hr.spawned] at hle
    obtain ⟨hproc, hcaps⟩ := hinv.fresh hle
    refine ⟨?_, fun c => ?_⟩
    · rw [hr.procs]
      by_cases hp : p = pid
      · rw [hp, update_self]
      · rw [update_of_ne hp, hproc]
    · rw [hr.caps]
      by_cases hprocess : c = e.processCap
      · rw [hprocess, update_self]
        simp
      · rw [update_of_ne hprocess]
        by_cases hservice : c = e.serviceCap
        · rw [hservice, update_self]
          simp
        · rw [update_of_ne hservice]
          exact hcaps c

end State

end Aegir.Libman
