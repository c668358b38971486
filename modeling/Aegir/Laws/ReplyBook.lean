/-
  The reply caps of a state as a book of TICKETS.

  A reply cap is a ticket for the thread it names, its badge is the stamp; a thread with
  `Awaiting_Reply` is a client that waits.  This module says, for every operation below the system
  calls, what it does to the book: closing a reply cap DROPS the ticket, closing anything else, moving
  messages and failing endpoints leave the book as it is, deaths only let clients go.
-/
import Aegir.Lib.Tickets
import Aegir.Laws.Runs

namespace Aegir.Kernel

open Aegir.Arch Aegir.Lib Ledger Roster List

/-- A valid reply cap on the thread `t` with the badge `g`. -/
def CapEntry.IsReply (e : CapEntry) (t : Nat) (g : U64) : Prop :=
  e.valid = true ∧ e.kind = .replyObject ∧ e.object = t ∧ e.badge = g

theorem nullCap_not_reply (t : Nat) (g : U64) : ¬ nullCap.IsReply t g := fun h => nomatch h.1

/-! ## Tables -/

namespace Ledger

variable {L L' L'' : Ledger} {p h t : Nat} {g : U64} {e : CapEntry}

/-- The same reply caps lie in the same places. -/
def SameReplies (L L' : Ledger) : Prop :=
  ∀ p h t g, (L'.entry p h).IsReply t g ↔ (L.entry p h).IsReply t g

theorem SameReplies.refl (L : Ledger) : SameReplies L L := fun _ _ _ _ => Iff.rfl

theorem SameReplies.trans (h : SameReplies L L') (h' : SameReplies L' L'') : SameReplies L L'' :=
  fun p i t g => (h' p i t g).trans (h p i t g)

theorem SameReplies.of_entry (h : ∀ p i, L'.entry p i = L.entry p i) : SameReplies L L' := by
  intro p i t g
  rw [h p i]

theorem SameReplies.of_caps (h : L'.caps = L.caps) : SameReplies L L' := by
  apply SameReplies.of_entry
  intro p i
  unfold entry
  rw [h]

theorem SameReplies.of_eq (h : L' = L) : SameReplies L L' := h ▸ .refl L

theorem SameCaps.sameReplies (h : SameCaps L L') : SameReplies L L' := .of_entry h.entry

theorem Kept.sameReplies (h : Kept L L') : SameReplies L L' := .of_entry h.entry

theorem Inserted.sameReplies (hi : Inserted L L' p h e) (hk : e.kind ≠ .replyObject) : SameReplies L L' := by
  intro q i t g
  rw [hi.entry]
  split
  · rename_i hpos
    obtain ⟨rfl, rfl⟩ := hpos
    obtain ⟨-, -, -, -, -, -, -, hnull, -⟩ := hi
    constructor
    · intro hr
      exact absurd hr.2.1 hk
    · intro hr
      rw [hr.1] at hnull
      cases hnull
  · exact Iff.rfl

theorem Removed.sameReplies (hr : Removed L L' p h) (hk : (L.entry p h).kind ≠ .replyObject) :
    SameReplies L L' := by
  intro q i t g
  rw [hr.entry]
  split
  · rename_i hpos
    obtain ⟨rfl, rfl⟩ := hpos
    exact iff_of_false (nullCap_not_reply t g) fun hr => hk hr.2.1
  · exact Iff.rfl

theorem Removed.reply_iff (hr : Removed L L' p h) (q : Nat × Nat) (t : Nat) (g : U64) :
    (L'.entry q.1 q.2).IsReply t g ↔ (L.entry q.1 q.2).IsReply t g ∧ q ≠ (p, h) := by
  rw [hr.entry]
  by_cases hq : q = (p, h)
  · subst hq
    rw [if_pos ⟨rfl, rfl⟩]
    exact iff_of_false (nullCap_not_reply t g) fun hn => hn.2 rfl
  · rw [if_neg fun hn => hq (Prod.ext hn.1 hn.2)]
    exact (and_iff_left hq).symm

end Ledger

/-! ## Threads -/

namespace Roster

variable {R R' R'' : Roster} {t : Nat}

/-- Nobody starts or stops awaiting a reply, dies or is replaced. -/
structure SameWaits (R R' : Roster) : Prop where
  dead : ∀ t, (R'.thread t).state = .dead ↔ (R.thread t).state = .dead
  awaiting : ∀ t, (R'.thread t).awaiting = (R.thread t).awaiting
  generation : ∀ t, (R'.thread t).generation = (R.thread t).generation

theorem SameWaits.refl (R : Roster) : SameWaits R R := ⟨fun _ => Iff.rfl, fun _ => rfl, fun _ => rfl⟩

theorem SameWaits.trans (h : SameWaits R R') (h' : SameWaits R' R'') : SameWaits R R'' :=
  ⟨fun t => (h'.dead t).trans (h.dead t), fun t => (h'.awaiting t).trans (h.awaiting t),
    fun t => (h'.generation t).trans (h.generation t)⟩

theorem SameWaits.of_thread (h : R'.thread = R.thread) : SameWaits R R' := by
  constructor
  · intro t
    rw [h]
  · intro t
    rw [h]
  · intro t
    rw [h]

theorem SameWaits.of_eq (h : R' = R) : SameWaits R R' := h ▸ .refl R

theorem Calm.sameWaits (h : Calm (fun _ => False) R R') (hR : R.Sound) : SameWaits R R' :=
  ⟨h.dead_iff, fun _ => h.awaiting_eq hR id, h.generation⟩

theorem Detaches.sameWaits (h : Detaches t R R') : SameWaits R R' := by
  refine ⟨fun u => ?_, h.awaiting, h.generation⟩
  rcases h.state u with e | ⟨e, e'⟩
  · rw [e]
  · rw [e, e']
    exact iff_of_false (by simp) (by simp)

theorem SameWaits.setThread {x : ThreadIpc} (hd : x.state = .dead ↔ (R.thread t).state = .dead)
    (ha : x.awaiting = (R.thread t).awaiting) (hg : x.generation = (R.thread t).generation) :
    SameWaits R (R.setThread t x) := by
  have hat : ∀ u, (R.setThread t x).thread u = if u = t then x else R.thread u := by
    intro u
    by_cases hu : u = t
    · subst hu
      simp
    · simp [hu]
  refine ⟨fun u => ?_, fun u => ?_, fun u => ?_⟩ <;> rw [hat] <;> split
  · rename_i hu
    rw [hu]
    exact hd
  · exact Iff.rfl
  · rename_i hu
    rw [hu]
    exact ha
  · rfl
  · rename_i hu
    rw [hu]
    exact hg
  · rfl

theorem slay_at (R : Roster) (t u : Nat) : (R.slay t).thread u =
    { R.thread u with state := if u = t then .dead else (R.thread u).state } := by
  rw [slay_thread]
  by_cases hu : u = t
  · subst hu
    rw [slay_self, if_pos rfl]
  · rw [show (R.slay t).thread u = R.thread u from Function.update_of_ne hu _ _, if_neg hu]

end Roster

/-! ## The book -/

namespace State

variable {k k' : State} {fresh : Option (Pool × Nat)} {t : Nat}

/-- Who awaits a reply, and where the reply caps lie. -/
def book (k : State) : Tickets (Nat × Nat) Nat U64 where
  live := fun t => (k.tcb t).state ≠ .dead
  waiting := fun t => (k.tcb t).awaitingReply = true
  ready := fun t => (k.tcb t).state = .ready
  stamp := fun t => (k.tcb t).replyGeneration
  holds := fun q t g => (k.ledger.entry q.1 q.2).IsReply t g

theorem book_same (hl : k.ledger.SameReplies k'.ledger) (hr : k.roster.SameWaits k'.roster) :
    k.book.Same k'.book := by
  refine ⟨fun t => not_congr (hr.dead t), fun t => ?_, hr.generation, fun q t g => hl q.1 q.2 t g⟩
  show (k'.roster.thread t).awaiting = true ↔ (k.roster.thread t).awaiting = true
  rw [hr.awaiting]

theorem Calms.ready {A : Nat → Prop} (h : Calms A k k') (t : Nat) (hr : k.book.ready t) : k'.book.ready t := by
  rcases h.calm.state t with e | ⟨-, -, e⟩
  · exact e.trans hr
  · exact e

theorem Calms.book_same (h : Calms (fun _ => False) k k') (hw : k.Waits)
    (hl : k.ledger.SameReplies k'.ledger) : k.book.Same k'.book :=
  State.book_same hl (h.calm.sameWaits hw.sound)

/-! ## Closing one cap -/

theorem closeCap_sameReplies (hL : k.ledger.Counted fresh) (ht : t ≠ 0) {h : Nat}
    (hn : k.NoReply (k.tcb t).process [h]) (dying : Bool) :
    k.ledger.SameReplies (k.closeCap t h dying).2.ledger := by
  rcases closeCap_cases h hL ht dying with ⟨-, heq, -⟩ | ⟨-, hrem⟩
  · exact .of_eq (by rw [heq])
  · obtain ⟨-, -, -, -, -, -, hv⟩ := id hrem
    exact hrem.sameReplies (hn h (by simp) hv)

theorem Waits.awaiting_ne_zero (hw : k.Waits) (ha : (k.tcb t).awaitingReply = true)
    (hlive : (k.tcb t).state ≠ .dead) : t ≠ 0 := by
  rintro rfl
  have hs : (k.roster.thread 0).state = .blockedSend := (hw.sound.awaiting 0 ha).resolve_right hlive
  rcases hw.sound.scheduled 0 (by rw [hs]; simp) (by rw [hs]; simp) with h | ⟨h, -⟩
  · cases h
  · omega

theorem drops_of_woken {q : Nat × Nat} {e : CapEntry} {L : Ledger} {R : Roster}
    (hrem : k.ledger.Removed L q.1 q.2) (hent : k.ledger.entry q.1 q.2 = e)
    (hkind : e.kind = .replyObject) (hlive : (k.tcb e.object).state ≠ .dead)
    (hcurrent : e.badge = (k.tcb e.object).replyGeneration) (hl : L.SameReplies k'.ledger)
    (hR : k.roster.SameWaits R)
    (hready : ∀ u, (k.roster.thread u).state = .ready → (R.thread u).state = .ready)
    (hr : k'.roster = R.setThread e.object (R.thread e.object).woken) : k.book.Drops k'.book q := by
  have hv : e.valid = true := by
    obtain ⟨-, -, -, -, -, -, hv⟩ := id hrem
    rwa [hent] at hv
  have hat : ∀ u, k'.roster.thread u =
      if u = e.object then (R.thread u).woken else R.thread u := by
    intro u
    rw [hr]
    by_cases hu : u = e.object
    · subst hu
      simp
    · simp [hu]
  have hheld : k.book.holds q e.object (k.book.stamp e.object) := by
    show (k.ledger.entry q.1 q.2).IsReply _ _
    rw [hent]
    exact ⟨hv, hkind, rfl, hcurrent⟩
  have hnamed : ∀ u g, k.book.holds q u g → u = e.object := by
    intro u g hh
    have hh : (k.ledger.entry q.1 q.2).IsReply u g := hh
    rw [hent] at hh
    exact hh.2.2.1.symm
  refine ⟨fun u => ?_, fun u => ?_, fun u => ?_, fun p u g => ?_, fun u hu => ?_, fun u hu hh => ?_⟩
  · show (k'.roster.thread u).state ≠ .dead ↔ (k.roster.thread u).state ≠ .dead
    rw [hat]
    split
    · rename_i hu
      subst hu
      exact iff_of_true (by simp [ThreadIpc.woken]) hlive
    · exact not_congr (hR.dead u)
  · show (k'.roster.thread u).awaiting = true ↔ _
    rw [hat]
    split
    · rename_i hu
      subst hu
      exact iff_of_false (by simp [ThreadIpc.woken]) fun hn => hn.2 ⟨hlive, hheld⟩
    · rename_i hu
      rw [hR.awaiting]
      exact (and_iff_left fun hn => hu (hnamed u _ hn.2)).symm
  · show (k'.roster.thread u).generation = (k.roster.thread u).generation
    rw [hat, ← hR.generation u]
    split <;> rfl
  · exact (hl p.1 p.2 u g).trans (hrem.reply_iff p u g)
  · show (k'.roster.thread u).state = .ready
    rw [hat]
    split
    · rfl
    · exact hready u hu
  · show (k'.roster.thread u).state = .ready
    rw [hat, if_pos (hnamed u _ hh)]
    rfl

theorem drops_of_stale {q : Nat × Nat} {e : CapEntry} (hw : k.Waits)
    (hrem : k.ledger.Removed k'.ledger q.1 q.2) (hent : k.ledger.entry q.1 q.2 = e)
    (hstale : ¬ k.Matches e.object e.badge) (hr : k'.roster = k.roster) :
    k.book.Drops k'.book q := by
  -- nobody awaits it
  have hnone : ∀ u, k.book.waiting u → ¬ (k.book.live u ∧ k.book.holds q u (k.book.stamp u)) := by
    rintro u hu ⟨hlive, hh⟩
    have hh : (k.ledger.entry q.1 q.2).IsReply u (k.tcb u).replyGeneration := hh
    rw [hent] at hh
    obtain ⟨-, -, rfl, hbadge⟩ := hh
    refine hstale ⟨?_, hu, hbadge⟩
    have h0 : e.object ≠ 0 := hw.awaiting_ne_zero hu hlive
    have hlive : (k.tcb e.object).state ≠ .dead := hlive
    simp [isDead, h0, hlive]
  refine ⟨fun u => ?_, fun u => ?_, fun u => ?_, hrem.reply_iff, fun u hu => ?_, fun u hu hh => ?_⟩
  · show (k'.roster.thread u).state ≠ .dead ↔ (k.roster.thread u).state ≠ .dead
    rw [hr]
  · show (k'.roster.thread u).awaiting = true ↔ _
    rw [hr]
    exact ⟨fun hu => ⟨hu, hnone u hu⟩, fun hu => hu.1⟩
  · show (k'.roster.thread u).generation = _
    rw [hr]
    rfl
  · show (k'.roster.thread u).state = .ready
    rw [hr]
    exact hu
  · exact absurd ⟨hu.1, hh⟩ (hnone u hu.2)

theorem lookupCap_process_ne_zero {cap : Nat} {e : CapEntry} (hlook : k.lookupCap t cap = some e) :
    (k.tcb t).process ≠ 0 := by
  intro h0
  unfold lookupCap at hlook
  rw [if_pos h0] at hlook
  cases hlook

/-- **A reply cap is used up**: its ticket is dropped, and a stale one wakes nobody at all. -/
structure Redeems (k k' : State) (q : Nat × Nat) (e : CapEntry) : Prop where
  drops : k.book.Drops k'.book q
  stale : ¬ k.Matches e.object e.badge → k'.roster = k.roster

/-- **Closing a reply cap** uses it up: the thread that awaits this very reply is woken. -/
theorem closeCap_redeems (hL : k.ledger.Counted fresh) (hw : k.Waits) (ht : t ≠ 0) {cap : Nat}
    {e : CapEntry} (hlook : k.lookupCap t cap = some e) (hk : e.kind = .replyObject) (dying : Bool) :
    k.Redeems (k.closeCap t cap dying).2 ((k.tcb t).process, cap) e := by
  obtain ⟨hent, hv⟩ := lookupCap_eq_some hlook
  have hve : (k.ledger.entry (k.tcb t).process cap).valid = true := by
    rw [hent]
    exact hv
  have hrem : k.ledger.Removed (k.closeCap t cap dying).2.ledger (k.tcb t).process cap := by
    rcases closeCap_cases cap hL ht dying with ⟨-, -, hinv⟩ | ⟨-, hrem⟩
    · rw [hinv (lookupCap_process_ne_zero hlook)] at hve
      cases hve
    · exact hrem
  -- the roster is what the hook leaves
  have hroster : (k.closeCap t cap dying).2.roster = (k.failReplyTarget e.object e.badge).roster := by
    rcases roster_closeCap k t cap dying with heq | ⟨e', he', hr⟩
    · have hgone := hrem.entry (k.tcb t).process cap
      rw [heq, if_pos ⟨rfl, rfl⟩] at hgone
      rw [hgone] at hve
      cases hve
    · obtain rfl := Option.some.inj (hlook.symm.trans he')
      rw [hr]
      unfold cleanupThreadCapObject
      rw [if_neg (by simp [ht, hv]), hk]
  by_cases hm : k.Matches e.object e.badge
  · have hlive : e.object ≠ 0 ∧ (k.tcb e.object).state ≠ .dead := by simpa [isDead] using hm.1
    refine ⟨?_, fun hn => absurd hm hn⟩
    exact drops_of_woken hrem hent hk hlive.2 hm.2.2 (.refl _) (.refl _) (fun _ hu => hu)
      (hroster.trans (failReplyTarget_matching hw.sound hm))
  · rw [failReplyTarget_stale hm] at hroster
    exact ⟨drops_of_stale hw hrem hent hm hroster, fun _ => hroster⟩

theorem closeCap_wanes (hL : k.ledger.Counted fresh) (hw : k.Waits) (ht : t ≠ 0)
    (hd : k.roster.Detached t) (hB : k.book.Exact) (cap : Nat) (dying : Bool) :
    k.book.Wanes (k.closeCap t cap dying).2.book := by
  have hother : k.NoReply (k.tcb t).process [cap] →
      k.book.Wanes (k.closeCap t cap dying).2.book := by
    intro hn
    have hc := closeCap_calms_noReply hL hw ht hd hn dying
    exact (hc.book_same hw (closeCap_sameReplies hL ht hn dying)).wanes fun u _ => hc.ready u
  cases hlook : k.lookupCap t cap with
  | none =>
    -- nothing to close
    have hsame : (k.closeCap t cap dying).2 = k := by
      rcases roster_closeCap k t cap dying with heq | ⟨e, he, -⟩
      · exact heq
      · rw [hlook] at he
        cases he
    rw [hsame]
    exact .refl _
  | some e =>
    obtain ⟨hent, -⟩ := lookupCap_eq_some hlook
    by_cases hk : e.kind = .replyObject
    · exact (closeCap_redeems hL hw ht hlook hk dying).drops.wanes hB
    · apply hother
      intro i hi _
      obtain rfl : i = cap := by simpa using hi
      rw [hent]
      exact hk

/-! ## Closing many caps -/

theorem closeCaps_wanes (ht : t ≠ 0) (n cap : Nat) (k : State) (hL : k.ledger.Counted fresh)
    (hw : k.Waits) (hd : k.roster.Detached t) (hB : k.book.Exact) :
    k.book.Wanes (k.closeCaps t cap n).book := by
  induction n generalizing k cap with
  | zero => exact .refl _
  | succ n ih =>
    have hone := closeCap_wanes hL hw ht hd hB cap true
    have hc := closeCap_calms hL hw ht hd cap true
    have hs := closeCap_steps 0 (fun _ => False) cap hL ht true
    exact hone.trans (ih (cap + 1) _ (hs.counted (fun _ h => h.elim) hL) (hc.waits hw)
      (hc.calm.detached hd) (hone.exact hB))

theorem cleanupCapRefs_wanes (hL : k.ledger.Counted fresh) (hw : k.Waits)
    (hd : k.roster.Detached t) (hB : k.book.Exact) : k.book.Wanes (k.cleanupCapRefs t).book := by
  unfold cleanupCapRefs
  split
  · exact .refl _
  · rename_i h0
    rw [not_or] at h0
    exact closeCaps_wanes h0.1 _ _ _ hL hw hd hB

/-- A table without reply caps. -/
def Replyless (k : State) (p : Nat) : Prop := ∀ h t g, ¬ (k.ledger.entry p h).IsReply t g

theorem Replyless.noReply {p : Nat} (hn : k.Replyless p) (handles : List Nat) :
    k.NoReply p handles := fun h _ hv hk => hn h _ _ ⟨hv, hk, rfl, rfl⟩

theorem closeCaps_same (ht : t ≠ 0) (n cap : Nat) (k : State) (hL : k.ledger.Counted fresh)
    (hw : k.Waits) (hd : k.roster.Detached t) (hn : k.Replyless (k.tcb t).process) :
    k.book.Same (k.closeCaps t cap n).book := by
  induction n generalizing k cap with
  | zero => exact .refl _
  | succ n ih =>
    have hc := closeCap_calms_noReply hL hw ht hd (hn.noReply [cap]) true
    have hs := closeCap_steps 0 (fun _ => False) cap hL ht true
    have hr := closeCap_sameReplies hL ht (hn.noReply [cap]) true
    refine (hc.book_same hw hr).trans (ih (cap + 1) _ (hs.counted (fun _ h => h.elim) hL)
      (hc.waits hw) (hc.calm.detached hd) fun h u g hh => ?_)
    rw [process_of_steps hs t] at hh
    exact hn h u g ((hr _ h u g).mp hh)

/-! ## Messages -/

theorem rollback_sameReplies (ht : t ≠ 0) (handles : List Nat) (k : State)
    (hL : k.ledger.Counted fresh) (hn : k.NoReply (k.tcb t).process handles) :
    k.ledger.SameReplies (k.rollback t handles).ledger := by
  induction handles generalizing k with
  | nil => exact .refl _
  | cons h hs ih =>
    unfold rollback
    by_cases h0 : h = 0
    · rw [if_neg (by simp [h0])]
      exact ih k hL fun i hi => hn i (mem_cons_of_mem _ hi)
    · rw [if_pos h0]
      have hsteps := closeCap_steps 0 (fun _ => False) h hL ht false
      refine (closeCap_sameReplies hL ht (h := h) (fun i hi => hn i (by simp_all)) false).trans
        (ih _ (hsteps.counted (fun _ hf => hf.elim) hL) fun i hi hv => ?_)
      -- an entry that is still there was there before
      have hsame := hsteps.entry_untouched (p := ((k.closeCap t h false).2.tcb t).process) (fun hf => hf) i hv
      rw [hsame] at hv ⊢
      rw [process_of_steps hsteps t] at hv ⊢
      exact hn i (mem_cons_of_mem _ hi) hv

theorem transferCaps_sameReplies (sender : Nat) {receiver : Nat} (hr : receiver ≠ 0) (raws : List U64)
    (done : List Nat) (k : State) (hL : k.ledger.Counted fresh)
    (hp : (k.tcb receiver).process ≤ initProcess) (hn : k.NoReply (k.tcb receiver).process done) :
    k.ledger.SameReplies (k.transferCaps sender receiver raws done).2.ledger := by
  refine transferCaps_noReply (P := fun j => k.ledger.SameReplies j.ledger) sender hp ?_ ?_ ?_ raws done k
    (.refl _) hL rfl hn
  · exact fun j done hj hjL hjp hjn => hj.trans (rollback_sameReplies hr done j hjL (hjp ▸ hjn))
  · exact fun j h j' e hj hput hkind _ => hj.trans (hput.sameReplies hkind)
  · exact fun j j' hj hkept _ => hj.trans hkept.sameReplies

theorem transferMessage_sameReplies {sender receiver : Nat} {badge : U64} {s : IpcStatus}
    (hr : receiver ≠ 0) (hL : k.ledger.Counted fresh) (hp : (k.tcb receiver).process ≤ initProcess)
    (h : k.transferMessage sender receiver badge = (s, k')) : k.ledger.SameReplies k'.ledger := by
  unfold transferMessage at h
  split at h
  · rename_i sf rf _ _
    have hc := transferCaps_sameReplies sender hr ((range 4).map (k.memory sf).cap) [] k hL hp
      fun h hh => absurd hh not_mem_nil
    dsimp only at h
    split at h
    · rename_i k₁ hcaps
      rw [hcaps] at hc
      cases h
      exact hc
    · rename_i handles k₁ hcaps
      rw [hcaps] at hc
      cases h
      exact hc
  · cases h
    exact .refl _

/-! ## Deaths -/

theorem dies_wanes {D : Nat → Prop} (h : Dies D k.roster k'.roster)
    (hl : k.ledger.SameReplies k'.ledger) : k.book.Wanes k'.book where
  live u hu hdead := by
    have hstate : (k'.roster.thread u).state = .dead := by
      by_cases hD : D u
      · exact h.dead u hD
      · rcases h.state u hD with e | ⟨e, -⟩
        · exact e.trans hdead
        · cases e.symm.trans hdead
    exact hu hstate
  waiting u hu := (congrArg (· = true) (h.awaiting u)).mp hu.2
  stamp := h.generation
  holds q u g := (hl q.1 q.2 u g).mp
  ready u hu hr := by
    have hD : ¬ D u := fun hD => hu (h.dead u hD)
    rcases h.state u hD with e | ⟨-, e⟩
    · exact e.trans hr
    · exact e
  kept u _ q hq := (hl q.1 q.2 u _).mpr hq
  spent u _ hw hn := absurd ((congrArg (· = true) (h.awaiting u)).mpr hw) hn

section

variable (hl : k.ledger.SameReplies k'.ledger)

include hl

theorem slay_wanes (hr : k'.roster = k.roster.slay t) :
    k.book.Wanes k'.book := by
  have hat : ∀ u, k'.roster.thread u =
      { k.roster.thread u with state := if u = t then .dead else (k.roster.thread u).state } := by
    intro u
    rw [hr]
    exact slay_at k.roster t u
  have hlive : ∀ u, k'.book.live u → u ≠ t := by
    rintro u hu rfl
    have hu : (k'.roster.thread u).state ≠ .dead := hu
    rw [hat u] at hu
    simp at hu
  have hstate : ∀ u, k'.book.live u → (k'.tcb u).state = (k.tcb u).state := by
    intro u hu
    have h := congrArg ThreadIpc.state (hat u)
    rwa [if_neg (hlive u hu)] at h
  have haw : ∀ u, (k'.tcb u).awaitingReply = (k.tcb u).awaitingReply :=
    fun u => congrArg ThreadIpc.awaiting (hat u)
  exact {
    live := fun u hu hd => hu ((hstate u hu).trans hd)
    waiting := fun u hu => (congrArg (· = true) (haw u)).mp hu.2
    stamp := fun u => congrArg ThreadIpc.generation (hat u)
    holds := fun q u g hq => (hl q.1 q.2 u g).mp hq
    ready := fun u hu hready => (hstate u hu).trans hready
    kept := fun u _ q hq => (hl q.1 q.2 u _).mpr hq
    spent := fun u _ hw hn => absurd ((congrArg (· = true) (haw u)).mpr hw) hn }

theorem slay_renews (hr : k'.roster = k.roster.slay t)
    (hcalm : (k.tcb t).awaitingReply = false) : k.book.Renews k'.book t := by
  have hat : ∀ u, k'.roster.thread u =
      { k.roster.thread u with state := if u = t then .dead else (k.roster.thread u).state } := by
    intro u
    rw [hr]
    exact slay_at k.roster t u
  have haw : ∀ u, (k'.tcb u).awaitingReply = (k.tcb u).awaitingReply :=
    fun u => congrArg ThreadIpc.awaiting (hat u)
  have hstate : ∀ u, u ≠ t → (k'.tcb u).state = (k.tcb u).state := by
    intro u hu
    have h := congrArg ThreadIpc.state (hat u)
    rwa [if_neg hu] at h
  refine ⟨fun hw => ?_, ?_, fun u hu => ?_, fun u hu => ?_, fun u _ => congrArg ThreadIpc.generation (hat u),
    fun q u g => hl q.1 q.2 u g⟩
  · have hw : (k.tcb t).awaitingReply = true := hw.2
    rw [hcalm] at hw
    cases hw
  · show ¬ (k'.tcb t).awaitingReply = true
    rw [haw, hcalm]
    simp
  · show (k'.tcb u).state ≠ .dead ↔ (k.tcb u).state ≠ .dead
    rw [hstate u hu]
  · show (k'.tcb u).awaitingReply = true ↔ (k.tcb u).awaitingReply = true
    rw [haw]

theorem seat_renews {generation : Nat} (hidle : ¬ k.book.Awaits t)
    (hr : k'.roster.thread = (k.roster.setThread t (freshIpc generation)).thread) :
    k.book.Renews k'.book t ∧ k'.book.stamp t = UInt64.ofNat generation := by
  have hself : k'.roster.thread t = freshIpc generation := by
    rw [hr]
    simp
  have hother : ∀ u, u ≠ t → k'.roster.thread u = k.roster.thread u := by
    intro u hu
    rw [hr]
    simp [hu]
  refine ⟨⟨hidle, ?_, fun u hu => ?_, fun u hu => ?_, fun u hu => ?_, fun q u g => hl q.1 q.2 u g⟩,
    congrArg ThreadIpc.generation hself⟩
  · show ¬ (k'.roster.thread t).awaiting = true
    rw [hself]
    simp [freshIpc]
  · show (k'.roster.thread u).state ≠ .dead ↔ (k.roster.thread u).state ≠ .dead
    rw [hother u hu]
  · show (k'.roster.thread u).awaiting = true ↔ (k.roster.thread u).awaiting = true
    rw [hother u hu]
  · show (k'.roster.thread u).generation = (k.roster.thread u).generation
    rw [hother u hu]

end

end State

end Aegir.Kernel
