/-
  One hop: what the receiver reads of what the sender staged.

  `Names` says, apart from any buffer, which path on which volume a name stands for; the file server's
  loop finds it.  For the hops, `Stageable` is when a sender sends at all and `Readable` when a receiver
  finds a path: a text of eight characters 255 at the front looks like the marker, and a page must be
  mapped.  The file server then reads the text that was sent, a driver `received`.
-/
import Mathlib.Data.List.TakeDrop
import Aegir.Vfs.Paths

namespace Aegir.Vfs

open Aegir.Lib List Function

/-! ## Names -/

/-- Which path on which volume a name stands for: the text behind the colon when a volume has the prefix,
    else what its expansion stands for. -/
inductive Names (volumes : List Volume) (assigns : List Assign) : Path → Nat → Path → Prop
  | volume {name path : Path} {v : Nat} (h : resolveVolume volumes name = some (v, path)) :
      Names volumes assigns name v path
  | assign {name front rest path : Path} {a : Assign} {v : Nat}
      (unknown : resolveVolume volumes name = none) (split : splitColon name = some (front, rest))
      (found : findAssign assigns front = some a)
      (h : Names volumes assigns (expand a.target rest) v path) : Names volumes assigns name v path

section Resolution

variable {volumes : List Volume} {assigns : List Assign} {name path path' front rest : Path} {v v' : Nat}

/-- **A name stands for one path.** -/
theorem Names.unique (h : Names volumes assigns name v path) (h' : Names volumes assigns name v' path') :
    v = v' ∧ path = path' := by
  induction h with
  | volume h =>
    cases h' with
    | volume h' =>
      rw [h] at h'
      cases h'
      exact ⟨rfl, rfl⟩
    | assign unknown =>
      rw [h] at unknown
      cases unknown
  | assign unknown split found h ih =>
    cases h' with
    | volume h' =>
      rw [unknown] at h'
      cases h'
    | assign unknown' split' found' h' =>
      rw [split] at split'
      cases split'
      rw [found] at found'
      cases found'
      exact ih h'

theorem resolveFrom_names (depth : Nat) (h : resolveFrom volumes assigns depth name = some (v, path)) :
    Names volumes assigns name v path := by
  induction depth generalizing name with
  | zero => cases h
  | succ depth ih =>
    rw [resolveFrom] at h
    cases hvol : resolveVolume volumes name with
    | some r =>
      rw [hvol] at h
      cases h
      exact .volume hvol
    | none =>
      rw [hvol] at h
      cases hsplit : splitColon name with
      | none =>
        rw [hsplit] at h
        cases h
      | some parts =>
        obtain ⟨front, rest⟩ := parts
        rw [hsplit] at h
        dsimp only at h
        split at h
        · cases h
        · rename_i a hfind
          split at h
          · cases h
          · exact .assign hvol hsplit hfind (ih h)

theorem splitColon_eq (h : splitColon name = some (front, rest)) : name = front ++ colon :: rest := by
  unfold splitColon at h
  rw [span_eq_takeWhile_dropWhile] at h
  have hparts := takeWhile_append_dropWhile (p := fun c : UInt8 => decide (c ≠ colon)) (l := name)
  have hhead := head?_dropWhile_not (fun c : UInt8 => decide (c ≠ colon)) name
  cases htail : name.dropWhile (fun c : UInt8 => decide (c ≠ colon)) with
  | nil =>
    rw [htail] at h
    cases h
  | cons c tail =>
    rw [htail] at h hparts hhead
    cases h
    have hc : c = colon := by simpa using hhead
    subst hc
    exact hparts.symm

theorem Names.text (h : Names volumes assigns name v path) (hname : ∀ c ∈ name, c ≠ 0) : ∀ c ∈ path, c ≠ 0 := by
  induction h with
  | @volume name path v h =>
    unfold resolveVolume at h
    split at h
    · cases h
    · rename_i parts hsplit
      split at h
      · cases h
      · cases h
        intro c hc
        apply hname
        rw [splitColon_eq hsplit]
        exact mem_append_right _ (mem_cons_of_mem _ hc)
  | @assign name front rest path a v unknown split found h ih =>
    apply ih
    intro c hc
    have hrest : ∀ d ∈ rest, d ≠ 0 := by
      intro d hd
      apply hname
      rw [splitColon_eq split]
      exact mem_append_right _ (mem_cons_of_mem _ hd)
    unfold expand at hc
    split at hc
    · rcases mem_append.mp hc with hc | hc
      · exact a.target_text c hc
      · rcases mem_cons.mp hc with rfl | hc
        · decide
        · exact hrest c hc
    · rcases mem_append.mp hc with hc | hc
      · exact a.target_text c hc
      · exact hrest c hc

end Resolution

theorem resolveFull_names {s : Setting} {name path : Path} {v : Nat}
    (h : resolveFull s name = some (v, path)) : Names s.volumes s.assigns name v path := by
  unfold resolveFull at h
  split at h
  · cases h
  · exact resolveFrom_names 4 h

@[simp] theorem check_eq_some {p : Prop} [Decidable p] {u : Unit} : check p = some u ↔ p := by
  unfold check
  split <;> simp [*]

theorem resolveFS_full {s : Setting} {name path : Path} {v : Nat}
    (h : resolveFS s name = some (v, path)) : resolveFull s name = some (v, path) := by
  simp only [resolveFS, Option.bind_eq_bind, Option.bind_eq_some_iff] at h
  obtain ⟨r, hr, _, -, _, -, hlast⟩ := h
  cases hlast
  exact hr

/-! ## Qualified names -/

theorem qualified_length_le (d name : Path) : (qualified d name).length ≤ maxPath := by
  unfold qualified
  split
  · split
    · assumption
    · exact Nat.zero_le _
  · split
    · simp
      omega
    · exact Nat.zero_le _

theorem qualified_text {d name : Path} (hd : ∀ c ∈ d, c ≠ 0) (hname : ∀ c ∈ name, c ≠ 0) :
    ∀ c ∈ qualified d name, c ≠ 0 := by
  intro c hc
  unfold qualified at hc
  split at hc
  · split at hc
    · exact hname c hc
    · cases hc
  · split at hc
    · rcases mem_append.mp hc with hc | hc
      · exact hd c hc
      · rcases mem_cons.mp hc with rfl | hc
        · decide
        · exact hname c hc
    · cases hc

/-! ## Texts in pages -/

theorem untilNul_textPage {old : Bytes} {text : Path} {n : Nat} (htext : ∀ c ∈ text, c ≠ 0)
    (hn : text.length ≤ n) : untilNul (textPage old text) n = text := by
  rw [untilNul_eq_take n htext, take_of_length_le hn]
  intro j _ hj
  rcases Nat.lt_or_eq_of_le hj with hlt | rfl
  · simp [textPage, hlt]
  · simp [textPage]

/-! ## One hop -/

/-- A text that looks like the marker: eight characters 255 at the front. -/
def Ones (path : Path) : Prop := ∀ k, k < 8 → path.getD k 0 = 255

instance (path : Path) : Decidable (Ones path) := inferInstanceAs (Decidable (∀ k, k < 8 → _))

/-- When a sender sends the path at all. -/
def Stageable (path : Path) (w : Wire) (page : Option Bytes) : Prop :=
  path.length ≤ w.room ∨ path.length ≤ maxPath ∧ page ≠ none

/-- When a receiver finds a path. -/
def Readable (path : Path) (w : Wire) (mapped : Bool) : Prop :=
  if path.length ≤ w.room then ¬ Ones path else mapped = true

/-- What a driver reads: 32 characters of what came inline, all of what came in a page. -/
def received (path : Path) (w : Wire) (mapped : Bool) : Path :=
  if path.length ≤ w.room then if Ones path then [] else path.take 32
  else if mapped then path else []

/-- The words of a path lie in order, and carry at least the 32 characters that a driver reads. -/
structure Wire.Sound (w : Wire) : Prop where
  le : w.first ≤ w.last
  least : 32 ≤ w.room
  most : w.room ≤ maxPath

theorem Op.wire_sound (op : Op) : op.wire.Sound := by
  cases op <;> exact ⟨by decide, by decide, by decide⟩

/-- What staging makes of a message. -/
inductive Staged (m : Message) (path : Path) (w : Wire) : Message → Prop
  | inline (fits : path.length ≤ w.room) :
      Staged m path w { m with words := pack m.words w.first w.last path }
  | paged (old : Bytes) (long : w.room < path.length) (short : path.length ≤ maxPath) :
      Staged m path w
        { words := update (clearWords m.words w.first w.last) w.first pathInBuf
          caps := update m.caps w.slot (some (textPage old path)) }

section Hop

variable {m m' : Message} {path : Path} {w : Wire} {page : Option Bytes}

theorem stage_staged (h : stage m path w page = some m') : Staged m path w m' := by
  unfold stage at h
  split at h
  · rename_i hfits
    cases h
    exact .inline hfits
  · rename_i hlong
    split at h
    · cases h
    · rename_i hshort
      cases page with
      | none => cases h
      | some old =>
        cases h
        exact .paged old (by omega) (by omega)

theorem stage_isSome_iff : (∃ m', stage m path w page = some m') ↔ Stageable path w page := by
  unfold stage Stageable
  by_cases hfits : path.length ≤ w.room
  · simp [hfits]
  · by_cases hshort : path.length > maxPath
    · simp [hfits, hshort]
    · cases page with
      | none => simp [hfits, hshort]
      | some old =>
        have hle : path.length ≤ maxPath := by omega
        simp [hfits, hshort, hle]

theorem Staged.outside (h : Staged m path w m') (hw : w.Sound) {i : Nat} (hi : i < w.first ∨ w.last < i) :
    m'.words i = m.words i := by
  have hle := hw.le
  cases h with
  | inline => exact pack_outside m.words path (by omega) hi
  | paged =>
    show update _ _ _ i = _
    rw [update_of_ne (by omega)]
    unfold clearWords
    rw [if_neg (by omega)]

theorem Staged.caps (h : Staged m path w m') {i : Nat} (hi : i ≠ w.slot) : m'.caps i = m.caps i := by
  cases h with
  | inline => rfl
  | paged => exact update_of_ne hi _ _

/-- **The file server reads the text that was sent**, or refuses. -/
theorem Staged.fetch (h : Staged m path w m') (hw : w.Sound) (hcap : m.caps w.slot = none)
    (htext : ∀ c ∈ path, c ≠ 0) (hne : path ≠ []) (mapped : Bool) {name : Path} :
    fetchPath m' w mapped = some name ↔ Readable path w mapped ∧ name = path := by
  have hmost := hw.most
  cases h with
  | inline fits =>
    unfold fetchPath Readable
    rw [if_pos fits]
    by_cases hones : Ones path
    · have hmark : pack m.words w.first w.last path w.first = pathInBuf :=
        (pack_eq_ones_iff m.words path hw.le).mpr hones
      rw [if_neg (not_not.mpr hmark), hcap]
      simp [hones]
    · have hmark : pack m.words w.first w.last path w.first ≠ pathInBuf := fun hm =>
        hones ((pack_eq_ones_iff m.words path hw.le).mp hm)
      have hread : untilNul (charAt (pack m.words w.first w.last path) w.first) w.room = path := by
        have hcut : untilNul (charAt (pack m.words w.first w.last path) w.first) w.room =
            path.take w.room := unpack_pack m.words htext (Nat.le_refl _)
        exact hcut.trans (take_of_length_le fits)
      have hle : ¬ (path.length > maxPath ∨ path = []) := by
        rintro (h | h)
        · omega
        · exact hne h
      rw [if_pos hmark]
      unfold nameOf
      rw [hread, if_neg hle]
      simp [hones, eq_comm]
  | paged old long short =>
    have hlong : ¬ path.length ≤ w.room := by omega
    have hmark : update (clearWords m.words w.first w.last) w.first pathInBuf w.first = pathInBuf :=
      update_self ..
    unfold fetchPath Readable
    dsimp only
    rw [if_neg (not_not.mpr hmark), update_self, if_neg hlong]
    dsimp only
    have hread : untilNul (textPage old path) (maxPath + 1) = path := untilNul_textPage htext (by omega)
    have hle : ¬ (path.length > maxPath ∨ path = []) := by
      rintro (h | h)
      · omega
      · exact hne h
    rw [hread, if_neg hle]
    cases mapped with
    | false => simp
    | true => simp [eq_comm]

theorem driverChar_eq (words : Words) (first pos : Nat) : driverChar words first pos = charAt words first pos := by
  have hk : pos % 8 < 8 := by omega
  unfold driverChar charAt
  generalize words (first + pos / 8) = x
  generalize pos % 8 = k at hk ⊢
  apply UInt8.toNat_inj.mp
  have hpow : (1 <<< UInt64.ofNat (8 * k) : UInt64).toNat = 2 ^ (8 * k) := by
    interval_cases k <;> decide
  have hmask : (0xFF : UInt64).toNat = 2 ^ 8 - 1 := by decide
  rw [wordByte_toNat x hk, UInt64.toNat_toUInt8, UInt64.toNat_and, UInt64.toNat_div, hpow, hmask,
    Nat.and_two_pow_sub_one_eq_mod, Nat.mod_mod, Nat.shiftRight_eq_div_pow]

/-- **What a driver reads of what was forwarded.** -/
theorem Staged.pathOf (h : Staged m path w m') (hw : w.Sound) (hcap : m.caps w.slot = none)
    (htext : ∀ c ∈ path, c ≠ 0) (mapped : Bool) :
    Vfs.pathOf m' w mapped = some (received path w mapped) := by
  have hchars : ∀ words : Words, driverChar words w.first = charAt words w.first :=
    fun words => funext fun pos => driverChar_eq words w.first pos
  cases h with
  | inline fits =>
    unfold Vfs.pathOf received
    rw [if_pos fits]
    by_cases hones : Ones path
    · have hmark : pack m.words w.first w.last path w.first = pathInBuf :=
        (pack_eq_ones_iff m.words path hw.le).mpr hones
      rw [if_neg (not_not.mpr hmark), hcap, if_pos hones]
    · have hmark : pack m.words w.first w.last path w.first ≠ pathInBuf := fun hm =>
        hones ((pack_eq_ones_iff m.words path hw.le).mp hm)
      rw [if_pos hmark, if_neg hones, hchars, unpack_pack m.words htext hw.least]
  | paged old long short =>
    have hlong : ¬ path.length ≤ w.room := by omega
    have hmark : update (clearWords m.words w.first w.last) w.first pathInBuf w.first = pathInBuf :=
      update_self ..
    unfold Vfs.pathOf received
    dsimp only
    rw [if_neg (not_not.mpr hmark), update_self, if_neg hlong]
    dsimp only
    have hread : untilNul (textPage old path) (maxPath + 1) = path := untilNul_textPage htext (by omega)
    rw [hread]
    cases mapped with
    | false => rfl
    | true =>
      have hle : ¬ path.length > maxPath := by omega
      simp [hle]

theorem pathOf_congr (hw : w.Sound) (hwords : ∀ i, w.first ≤ i → i ≤ w.last → m'.words i = m.words i)
    (hcaps : m'.caps = m.caps) (mapped : Bool) : Vfs.pathOf m' w mapped = Vfs.pathOf m w mapped := by
  have hle := hw.le
  have hleast := hw.least
  have hchars : untilNul (driverChar m'.words w.first) 32 = untilNul (driverChar m.words w.first) 32 := by
    apply untilNul_congr
    intro j hj
    unfold Wire.room at hleast
    unfold driverChar
    rw [hwords _ (by omega) (by omega)]
  unfold Vfs.pathOf
  rw [hwords w.first (Nat.le_refl _) hle, hchars, hcaps]

end Hop

end Aegir.Vfs
