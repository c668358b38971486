/-
  Exactly when a handler comes back.

  Four things keep a handler from its end.  The lengths of a mount, or of a file name, are converted to
  `Natural` before anything looks at them; a driver that is called may never answer; where a driver's reply is
  passed on as it is, a client that does not take it ends the server; and a memory object that was named as a
  file has the size 2^64 - 1, so that a read near the end of the addresses maps what is not there.  Each
  handler has a condition on the tables, the message and the answers, and a theorem that it comes back
  exactly under it, with tables that fit.
-/
import Mathlib.Data.UInt
import Aegir.Fileserver.Waits

namespace Aegir.Fileserver

open Aegir.Lib List

namespace Vfs

variable {file : UInt64 → FileCap} {s : Vfs} {k : Kernel} {r : Request} {v : Volume} {name : Text}
  {first last slot number pos i : Nat} {volumes : List Volume}

/-- What a handler leaves: tables that fit. -/
def Leaves (file : UInt64 → FileCap) (x : Vfs × Answer) : Prop := Sound file x.1

theorem yields_leaves {a : Answer} (hs : Sound file s) : Yields (.ok (s, a) : Handled) (Leaves file) := yields_ok hs

theorem yields_refuse (hs : Sound file s) (status : Nat) : Yields (refuse s status) (Leaves file) :=
  yields_leaves hs

theorem sound_setVolume (hs : Sound file s)
    (hvolumes : ∀ x ∈ volumes, VolumeFits x) (hv : VolumeFits v) : Sound file (s.setVolume volumes i v) := by
  refine ⟨fun x hx => ?_, hs.assigns, hs.files⟩
  rcases mem_or_eq_of_mem_set hx with hx | rfl
  · exact hvolumes x hx
  · exact hv

/-! ## Mounts -/

variable {cap n : Nat} {words : Words} {room : Bool}

/-- The words that are converted to lengths are in the range of `Natural`. -/
def Short (r : Request) : Prop := (r.words 0).toNat < 2 ^ 31 ∧ (r.words 1).toNat < 2 ^ 31

theorem decides_natural (w : UInt64) : Decides (natural w) (w.toNat < 2 ^ 31) fun n => n = w.toNat := by
  unfold natural
  by_cases h : w.toNat < 2 ^ 31
  · rw [if_pos h]
    exact ⟨fun _ => yields_ok rfl, fun _ => h⟩
  · rw [if_neg h]
    exact decides_error h

theorem yields_fill {off : Nat} {f : Nat → UInt8} (hcap : pos + n ≤ cap)
    (hwords : off + pos + n ≤ (6 - first) * 8) : Yields (fill words first off cap n pos f) fun _ => True := by
  induction n generalizing pos f with
  | zero => exact yields_ok trivial
  | succ n ih =>
    refine (yields_unpack (by omega)).bind fun c _ => ?_
    refine (yields_demand (by omega)).bind fun _ _ => ?_
    exact ih (by omega) (by omega)

/-- A volume can be added: the names have lengths that fit, the cap is there if it has to be, and there is
    a slot. -/
structure Mountable (s : Vfs) (k : Kernel) (r : Request) (needsCap : Bool) : Prop where
  device : 1 ≤ (r.words 0).toNat ∧ (r.words 0).toNat ≤ 16
  label : 1 ≤ (r.words 1).toNat ∧ (r.words 1).toNat ≤ 16
  both : (r.words 0).toNat + (r.words 1).toNat ≤ 24
  cap : needsCap = true → r.caps 0 ≠ 0
  slot : k.room = true ∨ ∃ v ∈ s.volumes, v.valid = false

theorem allocVolume_eq_none :
    allocVolume volumes room = none ↔ ¬ (room = true ∨ ∃ v ∈ volumes, v.valid = false) := by
  unfold allocVolume
  cases hfind : volumes.findIdx? fun v => !v.valid with
  | some i =>
    obtain ⟨hi, hinvalid, -⟩ := findIdx?_eq_some_iff_getElem.mp hfind
    have hslot : ∃ v ∈ volumes, v.valid = false := ⟨_, getElem_mem hi, by simpa using hinvalid⟩
    simp [hslot]
  | none =>
    have hvalid := findIdx?_eq_none_iff.mp hfind
    have hslot : ¬ ∃ v ∈ volumes, v.valid = false := by
      rintro ⟨v, hmem, hv⟩
      have := hvalid v hmem
      rw [hv] at this
      cases this
    cases room <;> simp [hslot]

theorem allocVolume_fits {volumes' : List Volume}
    (hv : ∀ v ∈ volumes, VolumeFits v) (h : allocVolume volumes room = some (i, volumes')) :
    i < volumes'.length ∧ ∀ v ∈ volumes', VolumeFits v := by
  unfold allocVolume at h
  split at h
  · rename_i j hfind
    cases h
    exact ⟨(findIdx?_eq_some_iff_getElem.mp hfind).1, hv⟩
  · split at h
    · cases h
      refine ⟨by simp, fun v hmem => ?_⟩
      rcases mem_append.mp hmem with hmem | hmem
      · exact hv v hmem
      · rw [mem_singleton.mp hmem]
        exact ⟨Nat.zero_le _, Nat.zero_le _⟩
    · cases h

/-- **A mount** stops the server exactly when a length is too long for `Natural`. -/
theorem decides_mountVolume (hs : Sound file s) (needsCap : Bool) :
    Decides (mountVolume s k r needsCap) (Short r) fun o => (o.isSome = true ↔ Mountable s k r needsCap) ∧
      ∀ i v volumes, o = some (i, v, volumes) → VolumeFits v ∧ ∀ x ∈ volumes, VolumeFits x := by
  refine Decides.congr ((decides_natural (r.words 0)).bind
    (e := fun _ => (r.words 1).toNat < 2 ^ 31) fun devLen hrun hdev => ?_) ?_
  · refine (decides_natural (r.words 1)).bind_yields fun labLen hlab => ?_
    split
    · rename_i hlens
      refine yields_ok ⟨⟨fun h => (by cases h), fun h => ?_⟩, fun _ _ _ h => by cases h⟩
      obtain ⟨h0, h1, hboth, hcap, -⟩ := h
      rcases hlens with hlens | hlens | hlens | hlens | hlens | ⟨hneeds, hzero⟩
      case inr.inr.inr.inr.inr => exact absurd hzero (hcap hneeds)
      all_goals omega
    · rename_i hlens
      push Not at hlens
      cases halloc : allocVolume s.volumes k.room with
      | none =>
        refine yields_ok ⟨⟨fun h => (by cases h), fun h => ?_⟩, fun _ _ _ h => by cases h⟩
        exact absurd h.slot (allocVolume_eq_none.mp halloc)
      | some p =>
        obtain ⟨hi, hfits⟩ := allocVolume_fits hs.volumes halloc
        dsimp only
        rw [getElem?_eq_getElem hi]
        refine (yields_fill (by omega) (by omega)).bind fun device _ => ?_
        refine (yields_fill (by omega) (by omega)).bind fun label _ => ?_
        have hslot : k.room = true ∨ ∃ v ∈ s.volumes, v.valid = false := by
          by_contra hnone
          rw [allocVolume_eq_none.mpr hnone] at halloc
          cases halloc
        refine yields_ok ⟨⟨fun _ => ⟨by omega, by omega, by omega, hlens.2.2.2.2.2, hslot⟩, fun _ => rfl⟩,
          fun i v volumes h => ?_⟩
        cases h
        exact ⟨⟨by dsimp only; omega, by dsimp only; omega⟩, hfits⟩
  · constructor
    · rintro ⟨hdev, hlab⟩
      exact ⟨hdev, fun _ _ => hlab⟩
    · rintro ⟨hdev, hlab⟩
      obtain ⟨n, hn, -⟩ := (decides_natural (r.words 0)).1 hdev
      exact ⟨hdev, hlab n hn⟩

theorem decides_handleMount (hs : Sound file s) : Decides (handleMount s k r) (Short r) (Leaves file) := by
  refine (decides_mountVolume hs false).bind_yields fun o ho => ?_
  cases o with
  | none => exact yields_refuse hs _
  | some p =>
    obtain ⟨hv, hvolumes⟩ := ho.2 _ _ _ rfl
    exact yields_ok (sound_setVolume hs hvolumes hv)

/-- **A block volume** is asked for its size, if it can be added. -/
theorem decides_handleAddBlock (hs : Sound file s) :
    Decides (handleAddBlock s k r) (Short r ∧ (Mountable s k r true → k.call 0 ≠ .never)) (Leaves file) := by
  refine Decides.congr ((decides_mountVolume hs true).bind
    (e := fun o => o.isSome = true → k.call 0 ≠ .never) fun o _ ho => ?_) ?_
  · cases o with
    | none => exact (yields_refuse hs _).decides.congr (by simp)
    | some p =>
      obtain ⟨hv, hvolumes⟩ := ho.2 _ _ _ rfl
      refine ((decides_call k 0).bind_yields fun info _ => ?_).congr (by simp)
      exact yields_ok (sound_setVolume hs hvolumes ⟨hv.device, hv.label⟩)
  · refine and_congr_right fun hshort => ?_
    obtain ⟨o, ho, hiff, -⟩ := (decides_mountVolume (k := k) hs true).1 hshort
    constructor
    · intro h o' ho' hsome
      rw [ho] at ho'
      cases ho'
      exact h (hiff.mp hsome)
    · intro h hmount
      exact h o ho (hiff.mpr hmount)

/-! ## Assigns -/

variable {chars target : List UInt8} {assigns : List Assign} {t : Text}

theorem yields_store (h : chars.length ≤ cap) : Yields (store cap chars) fun _ => True := by
  unfold store
  rw [assign_eq (Nat.le_refl 1) h (by omega)]
  exact yields_ok trivial

section

variable (ha : ∀ a ∈ assigns, AssignFits a)

include ha

theorem yields_slotFrom {free : Nat}
    : Yields (slotFrom chars number free assigns) fun _ => True := by
  induction assigns generalizing number free with
  | nil => exact yields_ok trivial
  | cons a as ih =>
    have hrest := fun x hx => ha x (mem_cons_of_mem a hx)
    rw [slotFrom]
    by_cases hvalid : a.valid = true
    · rw [if_pos hvalid]
      refine (yields_matchText (ha a mem_cons_self).name).bind fun b _ => ?_
      cases b with
      | true => exact yields_ok trivial
      | false => exact ih hrest
    · rw [if_neg hvalid]
      exact ih hrest

theorem yields_setAssign :
    Yields (setAssign assigns room chars target) fun o => ∀ as, o = some as → ∀ a ∈ as, AssignFits a := by
  unfold setAssign
  split
  · exact yields_ok fun _ h => by cases h
  · rename_i hlens
    refine (yields_slotFrom ha).bind fun slots _ => ?_
    refine (yields_store (by omega)).bind fun text _ => ?_
    refine (yields_store (by omega)).bind fun goal _ => ?_
    have hnew : AssignFits ⟨true, text, chars.length, goal, target.length⟩ :=
      ⟨by dsimp only; omega, by dsimp only; omega⟩
    generalize (if slots.1 ≠ 0 then slots.1 else slots.2) = slot
    by_cases hslot : slot ≠ 0
    · rw [if_pos hslot]
      refine yields_ok fun as h a hmem => ?_
      cases h
      rcases mem_or_eq_of_mem_set hmem with hmem | rfl
      · exact ha a hmem
      · exact hnew
    · rw [if_neg hslot]
      by_cases hroom : room = true
      · rw [if_pos hroom]
        refine yields_ok fun as h a hmem => ?_
        cases h
        rcases mem_append.mp hmem with hmem | hmem
        · exact ha a hmem
        · rw [mem_singleton.mp hmem]
          exact hnew
      · rw [if_neg hroom]
        exact yields_ok fun _ h => by cases h

theorem yields_seedAssign :
    Yields (seedAssign assigns room chars target) fun as => ∀ a ∈ as, AssignFits a := by
  refine (yields_findAssign ha).bind fun i _ => ?_
  split
  · exact yields_ok ha
  · refine (yields_setAssign ha).bind fun o ho => ?_
    refine yields_ok fun a hmem => ?_
    cases o with
    | none => exact ha a hmem
    | some as => exact ho as rfl a hmem

theorem yields_seedAssigns
    (hv : VolumeFits v) : Yields (seedAssigns assigns room v) fun as => ∀ a ∈ as, AssignFits a := by
  refine (yields_slice (Nat.le_refl 1) hv.label).bind fun label hlabel => ?_
  have hmatch : Yields (matchText 3 (Text.ofList nameSys).chars 3 label true) fun b =>
      b = true → label.length = 3 := by
    unfold matchText
    by_cases hlen : 3 ≠ label.length
    · rw [if_pos hlen]
      exact yields_ok fun h => by cases h
    · rw [if_neg hlen]
      exact (yields_slice (Nat.le_refl 1) (Nat.le_refl 3)).bind fun _ _ => yields_ok fun _ => by omega
  refine hmatch.bind fun b hb => ?_
  cases b with
  | false => exact yields_ok ha
  | true =>
    have hlen := hb rfl
    have hC : tailC.length = 2 := rfl
    have hEnv : tailEnv.length = 10 := rfl
    refine (yields_demand (by omega)).bind fun _ _ => ?_
    refine (yields_seedAssign ha).bind fun as has => ?_
    refine (yields_demand (by omega)).bind fun _ _ => ?_
    exact yields_seedAssign has

end

theorem decides_handleAddFs (hs : Sound file s) : Decides (handleAddFs s k r) (Short r) (Leaves file) := by
  refine (decides_mountVolume hs true).bind_yields fun o ho => ?_
  cases o with
  | none => exact yields_refuse hs _
  | some p =>
    obtain ⟨hv, hvolumes⟩ := ho.2 _ _ _ rfl
    have hfits : VolumeFits { p.2.1 with isFs := true, fsEp := r.caps 0 } := ⟨hv.device, hv.label⟩
    refine (yields_seedAssigns hs.assigns hfits).bind fun as has => ?_
    have hset := sound_setVolume (i := p.1) hs hvolumes hfits
    exact yields_ok ⟨hset.volumes, has, hset.files⟩

theorem yields_targetFrom (hwords : pos + n ≤ 32) (ht : t.len ≤ pos) :
    Yields (targetFrom words n pos t) fun t' => t'.len ≤ 32 := by
  induction n generalizing pos t with
  | zero => exact yields_ok (by omega)
  | succ n ih =>
    refine (yields_unpack (by omega)).bind fun c _ => ?_
    by_cases hc : c = 0
    · rw [if_pos hc]
      exact yields_ok (by omega)
    · rw [if_neg hc]
      refine (yields_put (by omega)).bind fun t' ht' => ?_
      exact ih (by omega) (by omega)

theorem yields_handleAssign (hs : Sound file s) : Yields (handleAssign s k r) (Leaves file) := by
  refine (yields_nameOf (Nat.zero_le 1) (by omega)).bind fun o ho => ?_
  cases o with
  | none => exact yields_refuse hs _
  | some t =>
    refine (yields_slice (Nat.le_refl 1) (ho t rfl).2).bind fun chars _ => ?_
    split
    · exact yields_refuse hs _
    · refine (yields_targetFrom (t := Text.empty) (by omega) (Nat.zero_le _)).bind fun target htarget => ?_
      split
      · refine (yields_findAssign hs.assigns).bind fun i _ => ?_
        split
        · exact yields_refuse hs _
        · refine yields_ok ⟨hs.volumes, fun a hmem => ?_, hs.files⟩
          obtain ⟨j, hj, rfl⟩ := getElem_of_mem hmem
          rw [getElem_modify]
          rw [length_modify] at hj
          have hold := hs.assigns _ (getElem_mem hj)
          split
          · exact ⟨hold.name, hold.target⟩
          · exact hold
      · refine (yields_slice (Nat.le_refl 1) htarget).bind fun goal _ => ?_
        refine (yields_setAssign hs.assigns).bind fun o ho => ?_
        cases o with
        | none => exact yields_refuse hs _
        | some as => exact yields_ok ⟨hs.volumes, ho as rfl, hs.files⟩

theorem yields_putUpTo {stop : Nat} (hstop : stop ≤ cap) (ht : t.len ≤ stop) :
    Yields (putUpTo cap stop chars t) fun t' => t.len ≤ t'.len ∧ t'.len ≤ stop := by
  induction chars generalizing t with
  | nil => exact yields_ok ⟨Nat.le_refl _, ht⟩
  | cons c cs ih =>
    rw [putUpTo]
    by_cases hfull : t.len ≥ stop
    · rw [if_pos hfull]
      exact yields_ok ⟨Nat.le_refl _, ht⟩
    · rw [if_neg hfull]
      refine (yields_put (by omega)).bind fun t' ht' => ?_
      exact (ih (by omega)).mono fun t'' h => by omega

theorem yields_packWords (hcap : t.len ≤ cap) (hwords : t.len ≤ (6 - first) * 8)
    (hfirst : first ≤ 5) : Yields (packWords first cap t) fun _ => True := by
  refine (yields_slice (Nat.le_refl 1) hcap).bind fun _ _ => ?_
  exact (yields_demand (by omega)).bind fun _ _ => yields_ok trivial

theorem yields_handleAssignList (hs : Sound file s) : Yields (handleAssignList s r) (Leaves file) := by
  unfold handleAssignList
  cases hentry : (s.assigns.filter fun a => a.valid)[(r.words 0).toNat]? with
  | none => exact yields_refuse hs _
  | some a =>
    have ha := hs.assigns a (mem_filter.mp (mem_of_getElem? hentry)).1
    have h38 : Text.empty.len ≤ 38 := Nat.zero_le _
    refine (yields_slice (Nat.le_refl 1) ha.name).bind fun chars _ => ?_
    refine (yields_putUpTo (by omega) h38).bind fun line hline => ?_
    refine (yields_put (by omega)).bind fun line' hline' => ?_
    refine (yields_put (by omega)).bind fun line'' hline'' => ?_
    refine (yields_slice (Nat.le_refl 1) ha.target.2).bind fun target _ => ?_
    refine (yields_putUpTo (Nat.le_refl 40) (by omega)).bind fun full hfull => ?_
    refine (yields_packWords hfull.2 (by omega) (by omega)).bind fun _ _ => ?_
    exact yields_leaves hs

/-! ## Volumes and files -/

variable {files : List FileEntry}

theorem yields_handleVolumeList (hs : Sound file s) : Yields (handleVolumeList s r) (Leaves file) := by
  unfold handleVolumeList
  cases hentry : (s.volumes.filter fun v => v.valid)[(r.words 0).toNat]? with
  | none => exact yields_refuse hs _
  | some v =>
    have hv := hs.volumes v (mem_filter.mp (mem_of_getElem? hentry)).1
    have hpack : ∀ l : List UInt8, l.length ≤ 16 → Yields (packWords 2 16 (Text.ofList l)) fun _ => True := by
      intro l hl
      have hlen : (Text.ofList l).len = l.length := rfl
      exact yields_packWords (by omega) (by omega) (by omega)
    have hlabel := hv.label
    have hdevice := hv.device
    by_cases hnamed : v.labLen > 0
    · simp only [if_pos hnamed]
      refine (yields_slice (Nat.le_refl 1) hlabel).bind fun l hl => ?_
      exact (hpack l (by omega)).bind fun _ _ => yields_leaves hs
    · simp only [if_neg hnamed]
      refine (yields_slice (Nat.le_refl 1) hdevice).bind fun l hl => ?_
      exact (hpack l (by omega)).bind fun _ _ => yields_leaves hs

theorem allocFile_eq {files' : List FileEntry}
    (hf : ∀ f ∈ files, FileFits file f) (h : allocFile files room = some (i, files')) :
    i = files.length ∧ files' = files ++ [.zero] := by
  unfold allocFile at h
  split at h
  · rename_i j hfind
    obtain ⟨hj, hinvalid, -⟩ := findIdx?_eq_some_iff_getElem.mp hfind
    rw [(hf _ (getElem_mem hj)).valid] at hinvalid
    cases hinvalid
  · split at h
    · cases h
      exact ⟨rfl, rfl⟩
    · cases h

/-- **A file name** stops the server exactly when its length is too long for `Natural`. -/
theorem decides_handleSetName (hs : Sound file s) :
    Decides (handleSetName file s k r) ((r.words 1).toNat < 2 ^ 31) (Leaves file) := by
  refine (decides_natural (r.words 1)).bind_yields fun len _ => ?_
  split
  · exact yields_refuse hs _
  · rename_i hlens
    push Not at hlens
    unfold maxName at hlens
    cases halloc : allocFile s.files k.room with
    | none => exact yields_refuse hs _
    | some p =>
      obtain ⟨i, files⟩ := p
      obtain ⟨rfl, rfl⟩ := allocFile_eq hs.files halloc
      dsimp only
      rw [getElem?_concat_length]
      refine (yields_fill (by unfold maxName; omega) (by omega)).bind fun chars _ => ?_
      refine yields_ok ⟨hs.volumes, hs.assigns, fun f hf => ?_⟩
      rw [set_append_right _ _ (Nat.le_refl _), Nat.sub_self, set_cons_zero] at hf
      rcases mem_append.mp hf with hf | hf
      · exact hs.files f hf
      · rw [mem_singleton.mp hf]
        exact ⟨rfl, by unfold maxName; exact hlens.2.1, rfl, fun h => by cases h⟩

theorem decides_setNames (hs : Sound file s) :
    Decides (setNames file s k r) (r.words 0 ≠ 0 → (r.words 1).toNat < 2 ^ 31) (Leaves file) := by
  unfold setNames
  by_cases h0 : r.words 0 = 0
  · rw [if_pos h0]
    exact (yields_ok ⟨hs.volumes, hs.assigns, hs.files⟩).decides.congr (by simp [h0])
  · rw [if_neg h0]
    exact (decides_handleSetName hs).congr (by simp [h0])

/-! ## Paths and drivers -/

/-- A condition on what a request's path stands for. -/
def WhenFound (s : Vfs) (k : Kernel) (r : Request) (first last slot : Nat)
    (c : Volume → Nat → Text → Nat → Prop) : Prop :=
  ∀ v number name pos, locate s k r first last slot = .ok (.found v number name pos) → c v number name pos

theorem decides_located {f : Place → Handled} {c : Volume → Nat → Text → Nat → Prop} (hs : Sound file s)
    (hwords : first ≤ last ∧ last ≤ 5) (hrefused : ∃ n, f .refused = refuse s n)
    (hunknown : ∃ n, f .unknown = refuse s n)
    (hfound : ∀ v number name pos, v ∈ s.volumes → (1 ≤ pos ∧ pos ≤ name.len + 1 ∧ name.len ≤ maxExpanded) →
      Decides (f (.found v number name pos)) (c v number name pos) (Leaves file)) :
    Decides (locate s k r first last slot >>= f) (WhenFound s k r first last slot c) (Leaves file) := by
  obtain ⟨n, hrefused⟩ := hrefused
  obtain ⟨m, hunknown⟩ := hunknown
  refine ((yields_locate hs hwords.1 hwords.2).bind_when
    (e := fun p => ∀ v number name pos, p = .found v number name pos → c v number name pos)
    fun p hrun hp => ?_).congr ?_
  · cases p with
    | refused => exact hrefused ▸ (yields_refuse hs n).decides.congr (by simp)
    | unknown => exact hunknown ▸ (yields_refuse hs m).decides.congr (by simp)
    | found v number name pos =>
      obtain ⟨hmem, hpos⟩ := hp _ _ _ _ rfl
      refine (hfound v number name pos hmem hpos).congr ?_
      constructor
      · intro h
        exact h _ _ _ _ rfl
      · rintro h _ _ _ _ heq
        cases heq
        exact h
  · constructor
    · rintro h p hrun v number name pos rfl
      exact h v number name pos hrun
    · intro h v number name pos hrun
      exact h _ hrun v number name pos rfl

/-- The driver of the volume answers, if it is called; `c` is what its answer asks for. -/
def DriverAnswers (s : Vfs) (k : Kernel) (r : Request) (first last : Nat) (c : Prop) (v : Volume) (number : Nat)
    (name : Text) (pos : Nat) : Prop :=
  CallsFs s k r v number name pos first last → k.call 0 ≠ .never ∧ ((∃ w, k.call 0 = .replied w) → c)

theorem forwardPath_answered {w : Words} (hcalls : CallsFs s k r v number name pos first last)
    (hw : k.call 0 = .replied w) :
    ∃ s', forwardPath s k r v number name pos first last = .ok (s', .answered w) := by
  obtain ⟨s', proc, hstage, hproc, hend⟩ := hcalls
  obtain ⟨s'', hsome⟩ := Option.ne_none_iff_exists'.mp hend
  refine ⟨s'', ?_⟩
  have hcall : call k 0 = .ok (some w) := by
    unfold call
    rw [hw]
  simp only [forwardPath, hstage, hproc, hsome, hcall, bind, Except.bind]

theorem decides_forwarded {f : Vfs × Forwarded → Handled} {c : Prop} (hs : Sound file s)
    (hpos : 1 ≤ pos ∧ pos ≤ name.len + 1 ∧ name.len ≤ maxExpanded) (hlast : last ≤ 5)
    (hunstaged : ∀ s', Sound file s' → Yields (f (s', .unstaged)) (Leaves file))
    (hfailed : ∀ s', Sound file s' → Yields (f (s', .failed)) (Leaves file))
    (hanswered : ∀ s' w, Sound file s' → Decides (f (s', .answered w)) c (Leaves file)) :
    Decides (forwardPath s k r v number name pos first last >>= f) (DriverAnswers s k r first last c v number name pos)
      (Leaves file) := by
  have hforward : Decides (forwardPath s k r v number name pos first last) _ _ := decides_forwardPath hs hpos hlast
  refine (hforward.bind (e := fun x => ∀ w, x.2 = .answered w → c) fun x _ hx => ?_).congr ?_
  · obtain ⟨s', o⟩ := x
    cases o with
    | unstaged => exact (hunstaged s' hx.1).decides.congr (by simp)
    | failed => exact (hfailed s' hx.1).decides.congr (by simp)
    | answered w => exact (hanswered s' w hx.1).congr (by simp)
  · constructor
    · intro h
      refine ⟨fun hcalls => (h hcalls).1, fun x hrun w hw => ?_⟩
      obtain ⟨hcalls, hreplied⟩ := (hforward.result hrun).2 w hw
      exact (h hcalls).2 ⟨w, hreplied⟩
    · rintro ⟨hne, hc⟩ hcalls
      refine ⟨hne hcalls, ?_⟩
      rintro ⟨w, hw⟩
      obtain ⟨s', ho⟩ := forwardPath_answered hcalls hw
      exact hc _ ho w rfl

/-- A driver whose answer is taken apart has only to answer. -/
def Drives (s : Vfs) (k : Kernel) (r : Request) (first last : Nat) (v : Volume) (number : Nat) (name : Text)
    (pos : Nat) : Prop :=
  CallsFs s k r v number name pos first last → k.call 0 ≠ .never

theorem driverAnswers_true : DriverAnswers s k r first last True v number name pos ↔ Drives s k r first last v number name pos := by
  unfold DriverAnswers Drives
  simp

/-! ## Requests that are passed on as they are -/

/-- What a relay needs: an answer, which the client takes. -/
def RelayAnswers (s : Vfs) (k : Kernel) (r : Request) (caps : Bool) (slot : Nat) : Prop :=
  caps = true → WhenFound s k r 0 3 slot fun v number name pos =>
    v.isFs = true → DriverAnswers s k r 0 3 (k.replied = true) v number name pos

/-- **A relay comes back** exactly when the driver answers and the client takes the answer. -/
theorem decides_relay (hs : Sound file s) (caps : Bool) (slot notFs : Nat) :
    Decides (relay s k r caps slot notFs) (RelayAnswers s k r caps slot) (Leaves file) := by
  unfold relay RelayAnswers
  cases caps with
  | false => exact (yields_refuse hs _).decides.congr (by simp)
  | true =>
    simp only [forall_true_left]
    refine decides_located hs (by omega) ⟨_, rfl⟩ ⟨_, rfl⟩ fun v number name pos _ hpos => ?_
    dsimp only
    cases hfs : v.isFs with
    | false => exact (yields_refuse hs _).decides.congr (by simp)
    | true =>
      simp only [forall_true_left]
      refine decides_forwarded hs hpos (by omega) (fun s' hs' => yields_refuse hs' _)
        (fun s' hs' => yields_refuse hs' _) fun s' w hs' => ?_
      cases k.replied with
      | true => exact ⟨fun _ => yields_leaves hs', fun _ => rfl⟩
      | false => exact decides_error (by simp)

/-! ## Reads and writes -/

variable {length offset : UInt64} {calls : Nat → Nat → Nat → Nat → Nat}
  {loop : Nat → Nat → Nat → Nat → Nat → Act Bool} {path : List UInt8} {x : Handled}

/-- The calls of a block volume are answered; `calls` counts them. -/
def BlockAnswers (s : Vfs) (k : Kernel) (v : Volume) (offset length : UInt64)
    (calls : Nat → Nat → Nat → Nat → Nat) : Prop :=
  v.blkSize ≠ 0 → offset < v.blkSize → (s.blkBuf = true ∨ k.blkBuf = true) → k.bufMap = true →
    Answered k 0 (calls offset.toNat (min (min length (v.blkSize - offset)).toNat bufBytes)
      (min (min length (v.blkSize - offset)).toNat bufBytes + 1) 0)

theorem decides_blockIo (hs : Sound file s) (hloop : ∀ offset count, count ≤ bufBytes →
      Decides (loop offset count (count + 1) 0 0) (Answered k 0 (calls offset count (count + 1) 0)) fun _ => True) :
    Decides (blockIo s k v offset length loop) (BlockAnswers s k v offset length calls) (Leaves file) := by
  unfold blockIo BlockAnswers
  by_cases hrange : v.blkSize = 0 ∨ offset ≥ v.blkSize
  · rw [if_pos hrange]
    refine (yields_refuse hs _).decides.congr ?_
    refine iff_of_true (fun hsize hoffset => ?_) trivial
    rcases hrange with hrange | hrange
    · exact absurd hrange hsize
    · exact absurd hoffset (UInt64.not_lt.mpr hrange)
  · rw [if_neg hrange]
    push Not at hrange
    by_cases hpage : s.blkBuf = false ∧ k.blkBuf = false
    · rw [if_pos hpage]
      exact (yields_refuse hs _).decides.congr (by simp [hpage])
    · rw [if_neg hpage]
      have hpage' : s.blkBuf = true ∨ k.blkBuf = true := by
        simpa [or_iff_not_imp_left] using hpage
      have hs' : Sound file { s with blkBuf := true } := ⟨hs.volumes, hs.assigns, hs.files⟩
      cases k.bufMap with
      | false => exact (yields_refuse hs' _).decides.congr (by simp)
      | true =>
        have hoffset : offset < v.blkSize := UInt64.not_le.mp hrange.2
        refine ((hloop _ _ (Nat.min_le_right _ _)).bind_yields fun b _ => ?_).congr (by simp [hrange.1, hoffset, hpage'])
        cases b with
        | true => exact yields_leaves hs'
        | false => exact yields_refuse hs' _

theorem yields_findFile {insensitive : Bool} (hf : ∀ f ∈ files, FileFits file f) :
    Yields (findFile files path insensitive) fun x => x = 0 ∨ 1 ≤ x ∧ x ≤ files.length :=
  (yields_fileFrom hf).mono fun x hx => by omega

theorem ensureLeadIn_fits {f f' : FileEntry} (hf : FileFits file f) (h : ensureLeadIn file k f = some f') :
    FileFits file f' ∧ f'.size = f.size ∧ f'.handle = f.handle ∧
      (file f.handle).leadIn f.handle = some f'.leadIn := by
  unfold ensureLeadIn at h
  by_cases hknown : f.leadKnown = true
  · rw [if_pos hknown] at h
    cases h
    exact ⟨hf, rfl, rfl, hf.lead hknown⟩
  · rw [if_neg hknown] at h
    cases hlead : (file f.handle).leadIn f.handle with
    | none =>
      rw [hlead] at h
      cases h
    | some lead =>
      rw [hlead] at h
      dsimp only at h
      split at h
      · cases h
        exact ⟨⟨hf.valid, hf.name, hf.size, fun _ => hlead⟩, rfl, rfl, rfl⟩
      · cases h

/-- A file that is read at `offset`: its lead-in is found, and both windows get their pages. -/
structure Opened (file : UInt64 → FileCap) (k : Kernel) (f : FileEntry) (offset : UInt64) : Prop where
  inside : offset < f.size
  lead : f.leadKnown = true ∨ k.leadMap = true
  buffer : k.bufMap = true
  window : k.passMap 0 = true

/-- What a read of the file asks for: of a MEMORY OBJECT that was named as a file, an offset with which the
    window does not run off the object.  Its size is stored as 2^64 - 1, and its lead-in is its handle. -/
def FileAnswers (file : UInt64 → FileCap) (k : Kernel) (f : FileEntry) (offset : UInt64) : Prop :=
  Opened file k f offset → ∀ m, file f.handle = .memory m →
    ¬ RunsOff (.memory m) f.handle 0xFFFFFFFFFFFFFFFF offset

theorem fileAnswers_iff {f f' : FileEntry} {offset : UInt64} (hf : FileFits file f)
    (hinside : offset < f.size) (hbuf : k.bufMap = true) (h : ensureLeadIn file k f = some f') :
    FileAnswers file k f offset ↔
      (k.passMap 0 = true → ¬ RunsOff (file f'.handle) f'.leadIn f'.size offset) := by
  have hknown : f.leadKnown = true ∨ k.leadMap = true := by
    unfold ensureLeadIn at h
    split at h
    · exact .inl ‹_›
    · split at h
      · split at h
        · exact .inr ‹_›
        · cases h
      · cases h
  obtain ⟨-, hsize, hhandle, hlead⟩ := ensureLeadIn_fits hf h
  rw [hhandle, hsize, hf.size]
  have hlt := UInt64.lt_iff_toNat_lt.mp hinside
  rw [hf.size] at hlt
  unfold FileAnswers
  cases hcap : file f.handle with
  | boot b =>
    rw [hcap] at hlead hlt
    rw [← Option.some.inj hlead]
    exact iff_of_true (fun _ m hm => by cases hm) fun _ => boot_inside hlt
  | memory m =>
    rw [hcap] at hlead
    rw [← Option.some.inj hlead]
    constructor
    · intro hans hmap
      exact hans ⟨hinside, hknown, hbuf, hmap⟩ m rfl
    · rintro hans hopen _ hm
      cases hm
      exact hans hopen.window
  | other =>
    rw [hcap] at hlead
    cases hlead

/-- **A file is read** without a call; the read comes back unless it runs off a memory object. -/
theorem decides_readFile (hs : Sound file s) (hlength : length ≠ 0) :
    Decides (readFile file s k v path offset length)
      (∀ i f, findFile s.files path v.caseInsensitive = .ok i → i ≠ 0 → s.files[i - 1]? = some f →
        FileAnswers file k f offset) (Leaves file) := by
  refine ((yields_findFile hs.files).bind_when (e := fun i => ∀ f, i ≠ 0 → s.files[i - 1]? = some f →
    FileAnswers file k f offset) fun i _ hi => ?_).congr ⟨fun h i hi f => h i f hi, fun h i f hi => h i hi f⟩
  by_cases h0 : i = 0
  · rw [if_pos h0]
    exact (yields_refuse hs _).decides.congr (iff_of_true (fun _ hne => absurd h0 hne) trivial)
  · have hlt : i - 1 < s.files.length := by omega
    have hfits := hs.files _ (getElem_mem hlt)
    have hone : (∀ f, i ≠ 0 → s.files[i - 1]? = some f → FileAnswers file k f offset) ↔
        FileAnswers file k s.files[i - 1] offset := by
      rw [getElem?_eq_getElem hlt]
      simp [h0]
    rw [if_neg h0, hone, getElem?_eq_getElem hlt]
    dsimp only
    generalize hentry : s.files[i - 1] = f at hfits
    have hclosed {y : Handled} (hno : ¬ Opened file k f offset) (hy : Yields y (Leaves file)) :
        Decides y (FileAnswers file k f offset) (Leaves file) :=
      hy.decides.congr (iff_of_true (fun hopen => absurd hopen hno) trivial)
    by_cases hrange : offset ≥ f.size
    · rw [if_pos hrange]
      exact hclosed (fun h => absurd h.inside (UInt64.not_lt.mpr hrange)) (yields_refuse hs _)
    · have hinside : offset < f.size := UInt64.not_le.mp hrange
      rw [if_neg hrange]
      cases hlead : ensureLeadIn file k f with
      | none =>
        refine (yields_refuse hs _).decides.congr (iff_of_true (fun hopen m hm => ?_) trivial)
        -- of a memory object the lead-in is found
        simp only [ensureLeadIn, hm, FileCap.leadIn] at hlead
        rcases hopen.lead with h | h
        · simp [h] at hlead
        · cases hknown : f.leadKnown <;> simp [hknown, h] at hlead
      | some f' =>
        obtain ⟨hf, hsize, hhandle, -⟩ := ensureLeadIn_fits hfits hlead
        have hs' : Sound file { s with files := s.files.set (i - 1) f' } := by
          refine ⟨hs.volumes, hs.assigns, fun x hx => ?_⟩
          rcases mem_or_eq_of_mem_set hx with hx | rfl
          · exact hs.files x hx
          · exact hf
        dsimp only
        by_cases hmap : k.bufMap = false
        · rw [if_pos hmap]
          exact hclosed (fun h => by simp [h.buffer] at hmap) (yields_refuse hs' _)
        · rw [if_neg hmap, fileAnswers_iff hfits hinside (Bool.eq_true_of_not_eq_false hmap) hlead]
          have hcount : (min (min length (f'.size - offset)) (UInt64.ofNat bufBytes)).toNat =
              min (min length.toNat (f.size.toNat - offset.toNat)) bufBytes := by
            rw [hsize, toNat_min, toNat_min, UInt64.toNat_sub_of_le _ _ (UInt64.le_of_lt hinside)]
            rfl
          have hpos : 0 < length.toNat := by
            rw [Nat.pos_iff_ne_zero, ne_eq, ← UInt64.toNat_zero, UInt64.toNat_inj]
            exact hlength
          have hlt := UInt64.lt_iff_toNat_lt.mp hinside
          have hbytes : 0 < bufBytes := by decide
          refine (decides_readPasses (by omega) (by omega) (Nat.lt_succ_self _)).bind_yields fun b _ => ?_
          cases b with
          | true => exact yields_leaves hs'
          | false => exact yields_refuse hs' _

section

variable (hs : Sound file s)

include hs

theorem decides_driven {f : Vfs × Forwarded → Handled}
    (hpos : 1 ≤ pos ∧ pos ≤ name.len + 1 ∧ name.len ≤ maxExpanded)
    (hunstaged : ∀ s', ∃ n, f (s', .unstaged) = refuse s' n) (hfailed : ∀ s', ∃ n, f (s', .failed) = refuse s' n)
    (hanswered : ∀ s' w, Sound file s' → Yields (f (s', .answered w)) (Leaves file)) :
    Decides (forwardPath s k r v number name pos first 5 >>= f) (Drives s k r first 5 v number name pos)
      (Leaves file) := by
  rw [← driverAnswers_true]
  refine decides_forwarded hs hpos (Nat.le_refl 5) (fun s' hs' => ?_) (fun s' hs' => ?_) fun s' w hs' =>
    (hanswered s' w hs').decides
  · obtain ⟨n, hunstaged⟩ := hunstaged s'
    exact hunstaged ▸ yields_refuse hs' n
  · obtain ⟨n, hfailed⟩ := hfailed s'
    exact hfailed ▸ yields_refuse hs' n

/-- The path of a block volume is its only file. -/
def IsDisk (v : Volume) (name : Text) (pos : Nat) : Prop :=
  ∃ path, pathAt name pos = .ok path ∧ isDisk v path = .ok true

omit hs in
theorem decides_disk {y : Handled} {c : Prop} (hpos : 1 ≤ pos ∧ pos ≤ name.len + 1 ∧ name.len ≤ maxExpanded)
    (hx : Decides x c (Leaves file)) (hy : Yields y (Leaves file)) :
    Decides (do if ← isDisk v (← pathAt name pos) then x else y) (IsDisk v name pos → c) (Leaves file) := by
  refine ((yields_pathAt hpos.1 hpos.2.2).bind_when (e := fun path => isDisk v path = .ok true → c)
    fun path _ _ => ?_).congr ?_
  · refine ((yields_matchText (Nat.le_refl 4)).bind_when (e := fun b => b = true → c) fun b _ _ => ?_).congr ?_
    · cases b with
      | true => exact hx.congr (by simp)
      | false => exact hy.decides.congr (by simp)
    · constructor
      · rintro h b hb rfl
        exact h hb
      · intro h hb
        exact h true hb rfl
  · constructor
    · intro h path hpath hdisk
      exact h ⟨path, hpath, hdisk⟩
    · rintro h ⟨path, hpath, hdisk⟩
      exact h path hpath hdisk

theorem yields_pipe (hpos : 1 ≤ pos ∧ pos ≤ name.len + 1 ∧ name.len ≤ maxExpanded) (op : Op) :
    Yields (do .ok (s.pipe k r op (← pathAt name pos))) (Leaves file) :=
  (yields_pathAt hpos.1 hpos.2.2).bind fun _ _ => yields_ok ⟨hs.volumes, hs.assigns, hs.files⟩

/-- What a read or a write needs of the volume's driver; `c` is what it asks of the other volumes. -/
def TransferAnswers (s : Vfs) (k : Kernel) (r : Request) (calls : Nat → Nat → Nat → Nat → Nat)
    (c : Volume → Text → Nat → Prop) (v : Volume) (number : Nat) (name : Text) (pos : Nat) : Prop :=
  (v.isFs = true → Drives s k r 2 5 v number name pos) ∧
    (v.isFs = false → v.isBlock = true → IsDisk v name pos → BlockAnswers s k v (r.words 0) (r.words 1) calls) ∧
    (v.isFs = false → v.isBlock = false → c v name pos)

theorem decides_transfer {c : Volume → Text → Nat → Prop} {rest : Handled} (hpos : 1 ≤ pos ∧ pos ≤ name.len + 1 ∧ name.len ≤ maxExpanded)
    (hloop : ∀ offset count, count ≤ bufBytes →
      Decides (loop offset count (count + 1) 0 0) (Answered k 0 (calls offset count (count + 1) 0)) fun _ => True)
    (hrest : Decides rest (c v name pos) (Leaves file)) :
    Decides (if v.isFs then do
        match ← forwardPath s k r v number name pos 2 5 with
        | (s, .unstaged) => refuse s statusBadArgs
        | (s, .failed) => refuse s statusNotFound
        | (s, .answered w) => .ok (s, .status (w 0).toNat (w 1))
      else if v.isBlock then do
        if ← isDisk v (← pathAt name pos) then blockIo s k v (r.words 0) (r.words 1) loop
        else refuse s statusNotFound
      else rest)
      (TransferAnswers s k r calls c v number name pos) (Leaves file) := by
  refine (Decides.ite (c := Drives s k r 2 5 v number name pos) (fun _ => ?_) fun _ =>
    Decides.ite (c := IsDisk v name pos → BlockAnswers s k v (r.words 0) (r.words 1) calls) (fun _ => ?_) fun _ =>
      hrest).congr ?_
  · exact decides_driven hs hpos (fun _ => ⟨_, rfl⟩) (fun _ => ⟨_, rfl⟩) fun _ _ hs' => yields_leaves hs'
  · exact decides_disk hpos (decides_blockIo hs hloop) (yields_refuse hs _)
  · unfold TransferAnswers
    cases v.isFs <;> cases v.isBlock <;> simp

/-- What `Op_Read` and `Op_Write` need. -/
def IoAnswers (s : Vfs) (k : Kernel) (r : Request) (calls : Nat → Nat → Nat → Nat → Nat)
    (c : Volume → Text → Nat → Prop) : Prop :=
  s.server.namesDone = true → r.caps 0 ≠ 0 → r.words 1 ≠ 0 → WhenFound s k r 2 5 1 (TransferAnswers s k r calls c)

theorem decides_io {c : Volume → Text → Nat → Prop}
    (hx : r.words 1 ≠ 0 → Decides x (WhenFound s k r 2 5 1 (TransferAnswers s k r calls c)) (Leaves file)) :
    Decides (if s.server.namesDone = false then refuse s statusNotReady
      else if r.caps 0 = 0 ∨ r.words 1 = 0 then refuse s statusBadArgs
      else x)
      (IoAnswers s k r calls c) (Leaves file) := by
  refine (Decides.ite (fun _ => (yields_refuse hs _).decides) fun _ =>
    Decides.ite (fun _ => (yields_refuse hs _).decides) fun h => hx fun h1 => h (.inr h1)).congr ?_
  unfold IoAnswers
  simp only [implies_true, true_and, Bool.not_eq_false, not_or, ne_eq, and_imp]

/-- What `Op_Write` needs. -/
def WriteAnswers (s : Vfs) (k : Kernel) (r : Request) : Prop := IoAnswers s k r writeCalls fun _ _ _ => True

theorem decides_handleWrite :
    Decides (handleWrite s k r) (WriteAnswers s k r) (Leaves file) := by
  refine decides_io hs fun _ => ?_
  refine decides_located hs (by omega) ⟨_, rfl⟩ ⟨_, rfl⟩ fun v number name pos _ hpos => ?_
  refine decides_transfer hs hpos (fun offset count hcount => decides_blockWrite hcount (by omega)) ?_
  refine Yields.decides (.ite (fun _ => yields_leaves hs) fun _ => ?_)
  exact .ite (fun _ => yields_pipe hs hpos _) fun _ => yields_refuse hs _

/-- What `Op_Read` needs; a path of no driver is that of a named file. -/
def ReadAnswers (file : UInt64 → FileCap) (s : Vfs) (k : Kernel) (r : Request) : Prop :=
  IoAnswers s k r readCalls fun v name pos => v.isNil = false → v.isPipe = false →
    ∀ path, pathAt name pos = .ok path → ∀ i f, findFile s.files path v.caseInsensitive = .ok i → i ≠ 0 →
      s.files[i - 1]? = some f → FileAnswers file k f (r.words 0)

theorem decides_handleRead :
    Decides (handleRead file s k r) (ReadAnswers file s k r) (Leaves file) := by
  refine decides_io hs fun hlength => ?_
  refine decides_located hs (by omega) ⟨_, rfl⟩ ⟨_, rfl⟩ fun v number name pos _ hpos => ?_
  refine decides_transfer hs hpos (fun offset count hcount => decides_blockRead hcount (by omega)) ?_
  refine (Decides.ite (fun _ => (yields_leaves hs).decides) fun _ =>
    Decides.ite (fun _ => (yields_pipe hs hpos _).decides) fun _ => ?_).congr (by simp; rfl)
  exact (yields_pathAt hpos.1 hpos.2.2).bind_when fun path _ _ => decides_readFile hs hlength

/-! ## Paths -/

/-- What `Op_Stat` and `Op_Open` need. -/
def StatAnswers (s : Vfs) (k : Kernel) (r : Request) : Prop :=
  WhenFound s k r 0 5 0 fun v number name pos =>
    v.isNil = false → v.isPipe = false → v.isFs = true → Drives s k r 0 5 v number name pos

theorem decides_handleStatOrOpen (op : Op) :
    Decides (handleStatOrOpen s k r op) (StatAnswers s k r) (Leaves file) := by
  refine decides_located hs (by omega) ⟨_, rfl⟩ ⟨_, rfl⟩ fun v number name pos _ hpos => ?_
  refine (Decides.ite (fun _ => (yields_leaves hs).decides) fun _ =>
    Decides.ite (fun _ => (yields_pipe hs hpos _).decides) fun _ =>
    Decides.ite (fun _ => ?_) fun _ => Yields.decides ?_).congr (by simp; rfl)
  · exact decides_driven hs hpos (fun _ => ⟨_, rfl⟩) (fun _ => ⟨_, rfl⟩) fun _ _ hs' => yields_leaves hs'
  · refine .ite (fun _ => ?_) fun _ => ?_
    · refine (yields_pathAt hpos.1 hpos.2.2).bind fun path _ => ?_
      refine (yields_matchText (Nat.le_refl 4)).bind fun b _ => ?_
      exact .ite (fun _ => yields_leaves hs) fun _ => yields_refuse hs _
    · refine (yields_pathAt hpos.1 hpos.2.2).bind fun path _ => ?_
      refine (yields_findFile hs.files).bind fun i _ => ?_
      split
      · exact yields_refuse hs _
      · exact yields_leaves hs

/-- What `Op_Delete`, `Op_Truncate`, `Op_Mkdir` and `Op_Rmdir` need. -/
def PathOpAnswers (s : Vfs) (k : Kernel) (r : Request) : Prop :=
  s.server.namesDone = true → StatAnswers s k r

theorem decides_named {c : Prop} (hx : Decides x c (Leaves file)) :
    Decides (if s.server.namesDone = false then refuse s statusNotReady else x) (s.server.namesDone = true → c)
      (Leaves file) :=
  (Decides.ite (fun _ => (yields_refuse hs _).decides) fun _ => hx).congr (by simp)

theorem decides_handlePathOp (op : Op) :
    Decides (handlePathOp s k r op) (PathOpAnswers s k r) (Leaves file) := by
  refine decides_named hs ?_
  refine decides_located hs (by omega) ⟨_, rfl⟩ ⟨_, rfl⟩ fun v number name pos _ hpos => ?_
  refine (Decides.ite (fun _ => Yields.decides ?_) fun _ =>
    Decides.ite (fun _ => (yields_pipe hs hpos _).decides) fun _ =>
    Decides.ite (fun _ => ?_) fun _ => (yields_refuse hs _).decides).congr (by simp; rfl)
  · exact .ite (fun _ => yields_leaves hs) fun _ => yields_refuse hs _
  · exact decides_driven hs hpos (fun _ => ⟨_, rfl⟩) (fun _ => ⟨_, rfl⟩) fun _ _ hs' => yields_leaves hs'

/-- What `Op_Volume_Info` needs. -/
def InfoAnswers (s : Vfs) (k : Kernel) (r : Request) : Prop :=
  s.server.namesDone = true →
    WhenFound s k r 0 5 0 fun v number name pos => v.isFs = true → Drives s k r 0 5 v number name pos

theorem decides_handleVolumeInfo :
    Decides (handleVolumeInfo s k r) (InfoAnswers s k r) (Leaves file) := by
  refine decides_named hs ?_
  refine decides_located hs (by omega) ⟨_, rfl⟩ ⟨_, rfl⟩ fun v number name pos _ hpos => ?_
  refine (Decides.ite (fun _ => ?_) fun _ => (yields_refuse hs _).decides).congr (by simp; rfl)
  exact decides_driven hs hpos (fun _ => ⟨_, rfl⟩) (fun _ => ⟨_, rfl⟩) fun _ _ hs' => .ite (fun _ => yields_leaves hs') fun _ => yields_refuse hs' _

theorem yields_located {f : Place → Handled} (hwords : first ≤ last ∧ last ≤ 5)
    (hrefused : ∃ n, f .refused = refuse s n) (hunknown : ∃ n, f .unknown = refuse s n)
    (hfound : ∀ v number name pos, (1 ≤ pos ∧ pos ≤ name.len + 1 ∧ name.len ≤ maxExpanded) →
      Yields (f (.found v number name pos)) (Leaves file)) :
    Yields (locate s k r first last slot >>= f) (Leaves file) := by
  obtain ⟨n, hrefused⟩ := hrefused
  obtain ⟨m, hunknown⟩ := hunknown
  refine (yields_locate hs hwords.1 hwords.2).bind fun p hp => ?_
  cases p with
  | refused => exact hrefused ▸ yields_refuse hs n
  | unknown => exact hunknown ▸ yields_refuse hs m
  | found v number name pos => exact hfound v number name pos (hp _ _ _ _ rfl).2

theorem yields_handleVolumeCase : Yields (handleVolumeCase s k r) (Leaves file) := by
  refine .ite (fun _ => yields_refuse hs _) fun _ => ?_
  exact yields_located hs (by omega) ⟨_, rfl⟩ ⟨_, rfl⟩ fun v number name pos _ => yields_leaves hs

theorem yields_handleClose : Yields (handleClose s k r) (Leaves file) := by
  refine yields_located hs (by omega) ⟨_, rfl⟩ ⟨_, rfl⟩ fun v number name pos hpos => ?_
  exact .ite (fun _ => yields_pipe hs hpos _) fun _ => yields_leaves hs

omit hs in
theorem yields_bufferFrom {buffer : Nat → UInt8} (ht : t.len + n ≤ maxPath) :
    Yields (bufferFrom buffer n i t) fun t' => t'.len ≤ maxPath := by
  induction n generalizing i t with
  | zero => exact yields_ok (by omega)
  | succ n ih =>
    refine .ite (fun _ => yields_ok (by omega)) fun _ => ?_
    refine (yields_put (by omega)).bind fun t' ht' => ?_
    exact ih (by omega)

/-- What `Op_Rename` needs: when both names are in one volume of a driver, its answer. -/
def RenameAnswers (s : Vfs) (k : Kernel) (r : Request) : Prop :=
  s.server.namesDone = true → r.caps 0 ≠ 0 → WhenFound s k r 0 5 1 fun v number name pos =>
    v.isFs = true → k.bufMap = true → ∀ goal, bufferFrom k.buffer maxPath 0 Text.empty = .ok goal →
      goal.len ≠ 0 → ∀ x, resolveFull s.volumes s.assigns goal = .ok x → x.volume ≠ 0 → x.volume = number →
        Drives s k r 0 5 v number name pos

theorem decides_handleRename :
    Decides (handleRename s k r) (RenameAnswers s k r) (Leaves file) := by
  refine decides_named hs ?_
  refine (Decides.ite (fun _ => (yields_refuse hs _).decides) fun _ => ?_).congr (by simp; rfl)
  refine decides_located hs (by omega) ⟨_, rfl⟩ ⟨_, rfl⟩ fun v number name pos _ hpos => ?_
  refine (Decides.ite (fun _ => (yields_refuse hs _).decides) fun _ =>
    Decides.ite (fun _ => (yields_refuse hs _).decides) fun _ => ?_).congr (by simp; rfl)
  have hempty : Text.empty.len + maxPath ≤ maxPath := (Nat.zero_add _).le
  refine (yields_bufferFrom hempty).bind_when fun goal _ hgoal => ?_
  refine (Decides.ite (fun _ => (yields_refuse hs _).decides) fun _ => ?_).congr (by simp; rfl)
  refine (yields_resolveFull hs.volumes hs.assigns hgoal).bind_when fun x _ hx => ?_
  refine (Decides.ite (fun _ => (yields_refuse hs _).decides) fun h0 =>
    Decides.ite (fun _ => (yields_refuse hs _).decides) fun _ => ?_).congr (by simp; rfl)
  rcases hx with hx | ⟨-, hpath⟩
  · exact absurd hx h0
  · refine (yields_demand hpath.2.1).bind_decides fun _ _ _ => ?_
    refine (yields_pathAt hpath.1 hpath.2.2).bind_decides fun _ _ _ => ?_
    exact decides_driven hs hpos (fun _ => ⟨_, rfl⟩) (fun _ => ⟨_, rfl⟩) fun _ _ hs' => yields_leaves hs'

/-- Every driver is asked. -/
def SyncAnswers (s : Vfs) (k : Kernel) : Prop := ∀ j, j < fsCount s.volumes → k.call j ≠ .never

theorem decides_handleSync : Decides (handleSync s k) (SyncAnswers s k) (Leaves file) := by
  refine ((decides_syncFrom s.volumes statusOk).bind_yields fun _ _ => yields_leaves hs).congr ?_
  unfold SyncAnswers
  simp only [Nat.zero_add]

end

end Vfs

/-!
## Which messages the file server survives

`Harmless` is the condition of the handler that the label selects, for a message that the kernel delivers.
`turn_completes_iff` says that an iteration comes back to the receive exactly for the harmless messages, in
every state that the server can reach.  Not every message is harmless: a client that mounts a volume with a
length of 2^31 stops the server, and so does one that names a memory object and reads it near 2^64.
-/

namespace Vfs

variable {file : UInt64 → FileCap} {s : Vfs} {k : Kernel} {r : Request}

/-! ## One message -/

/-- The handler that the label selects comes back. -/
def Safe (file : UInt64 → FileCap) (s : Vfs) (k : Kernel) (r : Request) : Prop :=
  match r.label.toNat with
  | 0 => r.words 0 ≠ 0 → (r.words 1).toNat < 2 ^ 31
  | 1 | 2 | 8 | 9 | 10 | 11 => s.server.namesDone = true → StatAnswers s k r
  | 3 => ReadAnswers file s k r
  | 4 | 6 => Short r
  | 5 => Short r ∧ (Mountable s k r true → k.call 0 ≠ .never)
  | 7 => WriteAnswers s k r
  | 12 => SyncAnswers s k
  | 13 | 19 | 24 => s.server.namesDone = true → RelayAnswers s k r true 0
  | 16 => RenameAnswers s k r
  | 17 => InfoAnswers s k r
  | 20 | 21 | 23 | 25 => s.server.namesDone = true → RelayAnswers s k r (hasBuf r) 1
  | 22 => s.server.namesDone = true → RelayAnswers s k r (hasBuf r && decide (r.caps 1 ≠ 0)) 2
  | _ => True

/-- The kernel delivers the message, and its handler comes back. -/
def Harmless (file : UInt64 → FileCap) (s : Vfs) (k : Kernel) (r : Request) : Prop :=
  k.received = true ∧ Safe file s k r

theorem decides_whenNamed {x : Handled} {c : Prop} (hs : Sound file s) (hx : Decides x c (Leaves file)) :
    Decides (whenNamed s x) (s.server.namesDone = true → c) (Leaves file) := decides_named hs hx

theorem decides_serve (hs : Sound file s) : Decides (serve file s k r) (Safe file s k r) (Leaves file) := by
  unfold serve Safe
  generalize r.label.toNat = label
  match label with
  | 0 => exact decides_setNames hs
  | 1 => exact decides_whenNamed hs (decides_handleStatOrOpen hs _)
  | 2 => exact decides_whenNamed hs (decides_handleStatOrOpen hs _)
  | 3 => exact decides_handleRead hs
  | 4 => exact decides_handleMount hs
  | 5 => exact decides_handleAddBlock hs
  | 6 => exact decides_handleAddFs hs
  | 7 => exact decides_handleWrite hs
  | 8 => exact decides_handlePathOp hs _
  | 9 => exact decides_handlePathOp hs _
  | 10 => exact decides_handlePathOp hs _
  | 11 => exact decides_handlePathOp hs _
  | 12 => exact decides_handleSync hs
  | 13 => exact decides_whenNamed hs (decides_relay hs _ _ _)
  | 14 => exact (yields_handleAssign hs).decides
  | 15 => exact (yields_handleAssignList hs).decides
  | 16 => exact decides_handleRename hs
  | 17 => exact decides_handleVolumeInfo hs
  | 18 => exact (yields_handleClose hs).decides
  | 19 => exact decides_whenNamed hs (decides_relay hs _ _ _)
  | 20 => exact decides_whenNamed hs (decides_relay hs _ _ _)
  | 21 => exact decides_whenNamed hs (decides_relay hs _ _ _)
  | 22 => exact decides_whenNamed hs (decides_relay hs _ _ _)
  | 23 => exact decides_whenNamed hs (decides_relay hs _ _ _)
  | 24 => exact decides_whenNamed hs (decides_relay hs _ _ _)
  | 25 => exact decides_whenNamed hs (decides_relay hs _ _ _)
  | 26 => exact (yields_handleVolumeList hs).decides
  | 27 => exact (yields_handleVolumeCase hs).decides
  | n + 28 => exact (yields_refuse hs _).decides

/-- **One iteration**: it comes back exactly if the message is harmless, and the tables still fit. -/
theorem decides_turn (hs : Sound file s) : Decides (turn file s k r) (Harmless file s k r) (Leaves file) := by
  unfold turn Harmless
  cases k.received with
  | true => exact (decides_serve hs).congr (by simp)
  | false => exact decides_error (by simp)

/-! ## Every run -/

/-- The states between iterations. -/
inductive Reach (file : UInt64 → FileCap) : Vfs → Prop
  | start (room : Bool) : Reach file (start room)
  | turn {s s' : Vfs} {k : Kernel} {r : Request} {a : Answer} (hreach : Reach file s)
      (hturn : turn file s k r = .ok (s', a)) : Reach file s'

theorem virtualVolume_fits {name : List UInt8} {isPipe : Bool} (h : name.length ≤ 16) :
    VolumeFits (virtualVolume name isPipe) := ⟨h, h⟩

theorem sound_start (room : Bool) : Sound file (start room) := by
  refine ⟨fun v hv => ?_, fun a ha => absurd ha List.not_mem_nil, fun f hf => absurd hf List.not_mem_nil⟩
  cases room with
  | false => exact absurd hv List.not_mem_nil
  | true =>
    rcases List.mem_cons.mp hv with rfl | hv
    · exact virtualVolume_fits (by decide)
    · rw [List.mem_singleton.mp hv]
      exact virtualVolume_fits (by decide)

theorem Reach.sound (hreach : Reach file s) : Sound file s := by
  induction hreach with
  | start room => exact sound_start room
  | turn _ hturn ih => exact (decides_turn ih).result hturn

/-- **The file server comes back to its receive exactly after the harmless messages**, in every state that
    it can reach. -/
theorem turn_completes_iff (hreach : Reach file s) : Lib.Completes (turn file s k r) ↔ Harmless file s k r :=
  (decides_turn hreach.sound).completes_iff

/-- A kernel and drivers that refuse nothing. -/
def calm : Kernel where
  received := true
  replied := true
  pathMap := true
  pathPage := fun _ => 0
  bufMap := true
  buffer := fun _ => 0
  room := true
  stagePage := true
  blkBuf := true
  mint := some 1
  leadMap := true
  passMap := fun _ => true
  passUnmap := fun _ => true
  call := fun _ => .replied fun _ => 0

/-- A message with these first words, and one cap. -/
def message (label : UInt64) (words : List UInt64) (cap : UInt64) : Request where
  label := label
  words := fun i => words.getD i 0
  badge := 0
  caps := fun slot => if slot = 0 then cap else 0
  reply := 0

/-- The state after some messages. -/
def turns (file : UInt64 → FileCap) (k : Kernel) : List Request → Vfs → Vfs
  | [], s => s
  | r :: rs, s =>
    match turn file s k r with
    | .ok (s', _) => turns file k rs s'
    | .error _ => s

theorem Reach.runs (hreach : Reach file s) (rs : List Request) : Reach file (turns file k rs s) := by
  induction rs generalizing s with
  | nil => exact hreach
  | cons r rs ih =>
    rw [Vfs.turns]
    cases hturn : Vfs.turn file s k r with
    | ok x => exact ih (hreach.turn hturn)
    | error stop => exact hreach

theorem completes_of_isOk {x : Handled} (h : x.isOk = true) : Lib.Completes x := by
  cases x with
  | ok a => exact ⟨a, rfl⟩
  | error stop => cases h

theorem not_completes_of_isOk {x : Handled} (h : x.isOk = false) : ¬ Lib.Completes x := by
  rintro ⟨a, rfl⟩
  cases h

/-- Every cap is a memory object of 64 pages. -/
def objects : UInt64 → FileCap := fun _ => .memory ⟨64, by decide, by decide⟩

/-- A volume D is mounted, the cap 5 is named `f`, and the names are complete. -/
def named : Vfs :=
  turns objects calm [message 4 [1, 1, 0, 0x5644] 0, message 0 [1, 1, 0x66] 5, message 0 [0] 0] (start true)

/-- `Op_Read` of 16 bytes of `D:f`. -/
def readObject (offset : UInt64) : Request := message 3 [offset, 16, 0x663A44] 6

/-- A read of the object comes back at its beginning, and not where the window reaches round the addresses. -/
theorem turn_completes_iff_objects :
    (Lib.Completes (turn objects named calm (readObject 0)) ∧ Harmless objects named calm (readObject 0)) ∧
      ¬ Lib.Completes (turn objects named calm (readObject (0 - 4096 - 5))) ∧
      ¬ Harmless objects named calm (readObject (0 - 4096 - 5)) := by
  have hreach : Reach objects named := (Reach.start true).runs _
  have hcomes : Lib.Completes (turn objects named calm (readObject 0)) := completes_of_isOk (by decide +kernel)
  have hstops : ¬ Lib.Completes (turn objects named calm (readObject (0 - 4096 - 5))) :=
    not_completes_of_isOk (by decide +kernel)
  exact ⟨⟨hcomes, (turn_completes_iff hreach).mp hcomes⟩, hstops,
    fun h => hstops ((turn_completes_iff hreach).mpr h)⟩

/-- `Op_Mount`, with a length that no string has. -/
def longMount : Request := message 4 [2 ^ 31, 1, 1, 1, 1, 1] 0

/-- The server does not survive every message, though kernel and drivers refuse nothing. -/
theorem longMount_stops :
    ¬ ∀ file s, Reach file s → ∀ k r, Lib.Completes (turn file s k r) := by
  intro h
  obtain ⟨a, ha⟩ := h (fun _ => .other) (start true) (.start true) calm longMount
  cases ha

end Vfs

end Aegir.Fileserver
