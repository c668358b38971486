/-
  When partitions are isolated.

  `Proper` is what makes a slot safe: its size is that of the range its entry names, and the range ends
  below 2^64.  The slots of an MBR and of the whole device are always proper; a GPT slot is proper exactly
  when its entry is sound.  From there the checks of partmgr keep a request in the range, and the driver's
  `Sector + Count > Capacity` cannot wrap.  One entry that is not sound is enough to lose isolation.
-/
import Aegir.Block.Partitions

namespace Aegir.Partmgr

open Aegir.Lib List

/-! ## Proper slots -/

variable {ent : Nat}

/-- The slot is the range its entry names. -/
structure Part.Proper (p : Part) : Prop where
  first : p.first.toNat = p.lo
  size : p.lo + p.size.toNat = p.hi
  hi : p.hi < 2 ^ 64

theorem wholeDevice_proper (d : Disk) : (wholeDevice d).Proper :=
  ⟨rfl, Nat.zero_add _, d.capacity.toNat_lt⟩

theorem le32_lt (b : Bytes) (off : Nat) : (le32 b off).toNat < 2 ^ 32 := by
  have hlt := le_lt b off 4
  have hsmall : le b off 4 < 2 ^ 64 := by omega
  rw [le32, UInt64.toNat_ofNat_of_lt' hsmall]
  exact hlt

theorem mbrPart_proper {b : Bytes} {i : Nat} {p : Part} (h : mbrPart b i = some p) : p.Proper := by
  unfold mbrPart at h
  simp only [] at h
  split at h
  · injection h with h
    have h1 := le32_lt b (446 + i * 16 + 8)
    have h2 := le32_lt b (446 + i * 16 + 12)
    rw [← h]
    exact ⟨rfl, rfl, by show _ + _ < _; omega⟩
  · cases h

theorem toNat_sub_one {a b : UInt64} (h : b.toNat ≤ a.toNat) : (a - b).toNat = a.toNat - b.toNat :=
  UInt64.toNat_sub_of_le _ _ (UInt64.le_iff_toNat_le.mpr h)

theorem toNat_add_exact {a b : UInt64} (h : a.toNat + b.toNat < 2 ^ 64) : (a + b).toNat = a.toNat + b.toNat := by
  exact Nat.mod_eq_of_lt h

theorem gptPart_proper {b : Bytes} (hle : (entryFirst b ent).toNat ≤ (entryLast b ent).toNat)
    (hlt : (entryLast b ent).toNat + 1 < 2 ^ 64) : (gptPart b ent).Proper := by
  have hsub := toNat_sub_one hle
  have hadd : (entryLast b ent - entryFirst b ent + 1).toNat
      = (entryLast b ent).toNat - (entryFirst b ent).toNat + 1 := by
    rw [toNat_add_exact, hsub]
    · rfl
    · rw [hsub, show (1 : UInt64).toNat = 1 from rfl]
      omega
  refine ⟨rfl, ?_, hlt⟩
  show (entryFirst b ent).toNat + (entryLast b ent - entryFirst b ent + 1).toNat = (entryLast b ent).toNat + 1
  omega

/-! ## Forwarding -/

variable {buf count op sector capacity : UInt64}

theorem serve_forward {parts : List Part} {m : Message} (h : serve parts m = .forward op sector count buf) :
    badgeBase.toNat ≤ m.badge.toNat ∧ op = m.label ∧ (m.label = blkRead ∨ m.label = blkWrite) ∧
      count = m.word1 ∧ sector = m.word0 + firstLba parts (m.badge - badgeBase).toNat ∧
      m.word0.toNat < (partSize parts (m.badge - badgeBase).toNat).toNat ∧
      m.word1.toNat ≤ (partSize parts (m.badge - badgeBase).toNat).toNat - m.word0.toNat := by
  unfold serve at h
  simp only [] at h
  split at h
  · cases h
  · rename_i hbadge
    split at h
    · split at h <;> cases h
    · split at h
      · cases h
      · split at h
        · cases h
        · split at h
          · cases h
          · split at h
            · rename_i hop
              split at h
              · cases h
              · rename_i hbad
                injection h with h1 h2 h3 h4
                simp only [not_or] at hbadge hbad
                obtain ⟨-, -, -, -, hlt, hcount⟩ := hbad
                have hsector : m.word0.toNat < (partSize parts (m.badge - badgeBase).toNat).toNat :=
                  UInt64.lt_iff_toNat_lt.mp (UInt64.not_le.mp hlt)
                have hfits := UInt64.le_iff_toNat_le.mp (UInt64.not_lt.mp hcount)
                rw [toNat_sub_one (Nat.le_of_lt hsector)] at hfits
                refine ⟨UInt64.le_iff_toNat_le.mp (UInt64.not_lt.mp hbadge.1), h1.symm, hop, h3.symm, h2.symm,
                  hsector, hfits⟩
            · cases h

theorem executes_le (h : executes capacity op sector count = true)
    (hexact : sector.toNat + count.toNat < 2 ^ 64) : sector.toNat + count.toNat ≤ capacity.toNat := by
  have hle := (of_decide_eq_true h).2.2
  rw [← toNat_add_exact hexact]
  exact UInt64.le_iff_toNat_le.mp hle

theorem forward_inside {p : Probed} (hparts : ∀ part ∈ p.parts, part.Proper) {m : Message} (h : serve p.parts m = .forward op sector count buf) :
    ∃ part, p.parts[(m.badge - badgeBase).toNat]? = some part ∧
      firstLba p.parts (m.badge - badgeBase).toNat = part.first ∧
      partSize p.parts (m.badge - badgeBase).toNat = part.size ∧
      sector.toNat = m.word0.toNat + part.lo ∧ m.word0.toNat + m.word1.toNat ≤ part.size.toNat ∧
      part.lo + part.size.toNat = part.hi ∧ part.hi < 2 ^ 64 := by
  obtain ⟨-, -, -, -, rfl, hsector, hcount⟩ := serve_forward h
  cases hpart : p.parts[(m.badge - badgeBase).toNat]? with
  | none =>
    have hzero : partSize p.parts (m.badge - badgeBase).toNat = 0 := by
      rw [partSize, hpart]
      rfl
    rw [hzero] at hsector
    exact absurd hsector (Nat.not_lt_zero _)
  | some part =>
    have hprop := hparts part (mem_of_getElem? hpart)
    have hfirst : firstLba p.parts (m.badge - badgeBase).toNat = part.first := by
      rw [firstLba, hpart]
      rfl
    have hsize : partSize p.parts (m.badge - badgeBase).toNat = part.size := by
      rw [partSize, hpart]
      rfl
    rw [hsize] at hsector hcount
    have h1 := hprop.first
    have h2 := hprop.size
    have h3 := hprop.hi
    refine ⟨part, rfl, hfirst, hsize, ?_, by omega, h2, h3⟩
    rw [hfirst, toNat_add_exact (by omega), h1]

/-- **Proper slots are isolated.** -/
theorem isolated_of_proper {p : Probed} (hsums : ∀ a ∈ p.sums, a.Exact)
    (hparts : ∀ part ∈ p.parts, part.Proper) : Isolated capacity p := by
  refine ⟨hsums, ?_, ?_⟩
  · intro m op sector count buf hserve
    obtain ⟨part, hpart, hfirst, hsize, hsector, hfits, hhi, hlt⟩ := forward_inside hparts hserve
    have hprop := hparts part (mem_of_getElem? hpart)
    obtain ⟨hbadge, -, -, -, rfl, hin, -⟩ := serve_forward hserve
    simp only [forwardSums, mem_cons, not_mem_nil, or_false]
    rintro a (rfl | rfl | rfl | rfl)
    · exact hbadge
    · exact Nat.le_of_lt hin
    · show m.word0.toNat + (firstLba p.parts (m.badge - badgeBase).toNat).toNat < 2 ^ 64
      rw [hfirst, hprop.first]
      omega
    · show (m.word0 + firstLba p.parts (m.badge - badgeBase).toNat).toNat + m.word1.toNat < 2 ^ 64
      omega
  · intro m op sector count buf hserve hexec
    obtain ⟨part, hpart, -, -, hsector, hfits, hhi, hlt⟩ := forward_inside hparts hserve
    obtain ⟨-, -, -, rfl, -, -, -⟩ := serve_forward hserve
    have hcap := executes_le hexec (by omega)
    refine ⟨part, hpart, ?_⟩
    intro i hi
    have hi' : i < 2 ^ 64 := by omega
    have hin : (UInt64.ofNat i).toNat = i := UInt64.toNat_ofNat_of_lt' hi'
    rw [toNat_add_exact (by omega), hin]
    omega

/-! ## The walk -/

section Walk

variable {d : Disk} {array : UInt64}

/-- The parts and sums of the first `n` entries. -/
def partsUpTo (d : Disk) (array : UInt64) (n : Nat) : List Part :=
  (range n).filterMap fun e => match d.read (entrySector array e) with
    | none => none
    | some b => if used b e then some (gptPart b e) else none

def sumsUpTo (d : Disk) (array : UInt64) (n : Nat) : List Arith :=
  (range n).flatMap fun e => match d.read (entrySector array e) with
    | none => []
    | some b => entrySums array b e

theorem partsUpTo_succ (n : Nat) {b : Bytes} (hb : d.read (entrySector array n) = some b) :
    partsUpTo d array (n + 1) = if used b n then partsUpTo d array n ++ [gptPart b n] else partsUpTo d array n := by
  unfold partsUpTo
  rw [range_succ, filterMap_append]
  simp only [filterMap_cons, filterMap_nil, hb]
  split <;> rename_i h
  · split at h
    · cases h
    · rename_i hu
      rw [if_neg hu, append_nil]
  · split at h
    · rename_i hu
      injection h with h
      rw [if_pos hu, h]
    · cases h

theorem sumsUpTo_succ (n : Nat) {b : Bytes} (hb : d.read (entrySector array n) = some b) :
    sumsUpTo d array (n + 1) = sumsUpTo d array n ++ entrySums array b n := by
  unfold sumsUpTo
  rw [range_succ, flatMap_append]
  simp only [flatMap_cons, flatMap_nil, hb, append_nil]

theorem usedBefore_eq (n : Nat) : usedBefore d array n = (partsUpTo d array n).length := by
  unfold usedBefore partsUpTo
  induction n with
  | zero => rfl
  | succ n ih =>
    rw [range_succ, countP_append, filterMap_append, length_append, ih]
    congr 1
    cases hb : d.read (entrySector array n) with
    | none => simp [hb]
    | some b =>
      cases hu : used b n with
      | true => simp [hb, hu]
      | false => simp [hb, hu]

theorem usedBefore_mono {m n : Nat} (h : m ≤ n) : usedBefore d array m ≤ usedBefore d array n := by
  exact ((range_sublist.mpr h).countP_le)

/-- The walk examines the entries from 0 up to some `n`: all of them, or up to the eighth used one. -/
theorem gptWalk_spec {sums : List Arith} (left ent : Nat) {p : Probed}
    (h : gptWalk d array left ent ⟨partsUpTo d array ent, sums ++ sumsUpTo d array ent⟩ = some p)
    (hread : ∀ e, e < ent → (d.read (entrySector array e)).isSome = true ∧ usedBefore d array e < maxParts) :
    ∃ n, n ≤ left + ent ∧ p = ⟨partsUpTo d array n, sums ++ sumsUpTo d array n⟩ ∧
      (∀ e, e < n → (d.read (entrySector array e)).isSome = true ∧ usedBefore d array e < maxParts) ∧
      (n = left + ent ∨ maxParts ≤ usedBefore d array n) := by
  induction left generalizing ent with
  | zero =>
    injection h with h
    exact ⟨ent, by omega, h.symm, hread, .inl (by omega)⟩
  | succ left ih =>
    rw [gptWalk] at h
    by_cases hfull : (partsUpTo d array ent).length < maxParts
    · rw [if_pos hfull] at h
      split at h
      · cases h
      · rename_i b hb
        simp only [append_assoc] at h
        rw [← partsUpTo_succ ent hb, ← sumsUpTo_succ ent hb] at h
        obtain ⟨n, hn, hp, hall, hend⟩ := ih (ent + 1) h (by
          intro e he
          by_cases hlt : e < ent
          · exact hread e hlt
          · have hee : e = ent := by omega
            rw [hee, hb, usedBefore_eq]
            exact ⟨rfl, hfull⟩)
        refine ⟨n, by omega, hp, hall, ?_⟩
        rcases hend with hend | hend
        · exact .inl (by omega)
        · exact .inr hend
    · rw [if_neg hfull] at h
      injection h with h
      refine ⟨ent, by omega, h.symm, hread, .inr ?_⟩
      rw [usedBefore_eq]
      omega

theorem entrySums_exact {b : Bytes} (hent : ent < 2 ^ 60) :
    (∀ a ∈ entrySums array b ent, a.Exact) ↔ array.toNat + ent / 4 + 1 < 2 ^ 64 ∧
      (used b ent = true → (entryFirst b ent).toNat ≤ (entryLast b ent).toNat ∧
        (entryLast b ent).toNat - (entryFirst b ent).toNat + 1 < 2 ^ 64) := by
  have hidx : (UInt64.ofNat (ent * 128 / 512)).toNat = ent / 4 := by
    have hlt : ent * 128 / 512 < 2 ^ 64 := by omega
    rw [UInt64.toNat_ofNat_of_lt' hlt]
    omega
  have hone : (1 : UInt64).toNat = 1 := rfl
  have hmem : ∀ a, a ∈ entrySums array b ent ↔ a = .add array (UInt64.ofNat (ent * 128 / 512)) ∨
      a = .add (entrySector array ent) 1 ∨ (used b ent = true ∧
        (a = .sub (entryLast b ent) (entryFirst b ent) ∨ a = .add (entryLast b ent - entryFirst b ent) 1)) := by
    intro a
    unfold entrySums
    cases used b ent with
    | true => simp
    | false => simp
  constructor
  · intro h
    have h1 : array.toNat + (UInt64.ofNat (ent * 128 / 512)).toNat < 2 ^ 64 := h _ ((hmem _).mpr (.inl rfl))
    have h2 : (entrySector array ent).toNat + (1 : UInt64).toNat < 2 ^ 64 := h _ ((hmem _).mpr (.inr (.inl rfl)))
    rw [entrySector, toNat_add_exact h1, hidx, hone] at h2
    refine ⟨h2, fun hu => ?_⟩
    have h3 : (entryFirst b ent).toNat ≤ (entryLast b ent).toNat := h _ ((hmem _).mpr (.inr (.inr ⟨hu, .inl rfl⟩)))
    have h4 : (entryLast b ent - entryFirst b ent).toNat + (1 : UInt64).toNat < 2 ^ 64 :=
      h _ ((hmem _).mpr (.inr (.inr ⟨hu, .inr rfl⟩)))
    rw [toNat_sub_one h3, hone] at h4
    exact ⟨h3, h4⟩
  · rintro ⟨h1, h2⟩ a ha
    have hsum : array.toNat + (UInt64.ofNat (ent * 128 / 512)).toNat < 2 ^ 64 := by
      omega
    rcases (hmem a).mp ha with rfl | rfl | ⟨hu, rfl | rfl⟩
    · exact hsum
    · show (entrySector array ent).toNat + (1 : UInt64).toNat < 2 ^ 64
      rw [entrySector, toNat_add_exact hsum, hidx, hone]
      exact h1
    · exact (h2 hu).1
    · show (entryLast b ent - entryFirst b ent).toNat + (1 : UInt64).toNat < 2 ^ 64
      rw [toNat_sub_one (h2 hu).1, hone]
      exact (h2 hu).2

end Walk

/-! ## The condition is exact -/

variable {part : Part}

theorem last_sector_escapes {p : Probed} {k : Nat} (hk : k < maxParts)
    (hpart : p.parts[k]? = some part) (hsize : 0 < part.size.toNat)
    (hend : part.first.toNat + part.size.toNat = 2 ^ 64) : ¬ Isolated capacity p := by
  intro hiso
  have hk8 : k < 8 := hk
  have hk64 : k < 2 ^ 64 := by omega
  have hofk : (UInt64.ofNat k).toNat = k := UInt64.toNat_ofNat_of_lt' hk64
  have hkk : (badgeBase + UInt64.ofNat k - badgeBase).toNat = k := by
    rw [show badgeBase + UInt64.ofNat k - badgeBase = UInt64.ofNat k by grind]
    exact hofk
  have hfirst : firstLba p.parts k = part.first := by
    rw [firstLba, hpart]
    rfl
  have hpsize : partSize p.parts k = part.size := by
    rw [partSize, hpart]
    rfl
  have hne : part.size ≠ 0 := by
    intro h0
    rw [h0] at hsize
    exact absurd hsize (by decide)
  have hone : (1 : UInt64).toNat = 1 := rfl
  have hle : (1 : UInt64).toNat ≤ part.size.toNat := hsize
  have hword : (part.size - 1).toNat = part.size.toNat - 1 := toNat_sub_one hle
  have hsector : (part.size - 1 + part.first).toNat = 2 ^ 64 - 1 := by
    rw [toNat_add_exact (by rw [hword]; omega), hword]
    omega
  have hserve : serve p.parts ⟨badgeBase + UInt64.ofNat k, blkRead, part.size - 1, 1, 1⟩
      = .forward blkRead (part.size - 1 + part.first) 1 1 := by
    have hbadge : ¬ (badgeBase + UInt64.ofNat k < badgeBase ∨
        badgeBase + UInt64.ofNat k ≥ badgeBase + UInt64.ofNat maxParts) := by
      have hadd : (badgeBase + UInt64.ofNat k).toNat = 0x1000 + k := by
        rw [toNat_add_exact (by rw [hofk]; show 0x1000 + k < _; omega), hofk]
        rfl
      have htop : (badgeBase + UInt64.ofNat maxParts).toNat = 0x1008 := by decide
      rw [ge_iff_le, UInt64.lt_iff_toNat_lt, UInt64.le_iff_toNat_le, hadd, htop, show badgeBase.toNat = 0x1000 from rfl]
      omega
    have hin : ¬ part.size - 1 ≥ part.size := by
      rw [ge_iff_le, UInt64.le_iff_toNat_le, hword]
      omega
    have hfits : ¬ (1 : UInt64) > part.size - (part.size - 1) := by
      rw [gt_iff_lt, UInt64.lt_iff_toNat_lt, toNat_sub_one (by rw [hword]; omega), hword, hone]
      omega
    unfold serve
    simp only [hkk, hfirst, hpsize]
    rw [if_neg hbadge, if_neg (by decide), if_neg hne, if_neg (by decide), if_neg (by decide), if_pos (.inl trivial),
      if_neg]
    rintro (h | h | h | h | h | h)
    · exact absurd h (by decide)
    · exact absurd h (by decide)
    · exact absurd h.2 (by decide)
    · exact absurd h.1 (by decide)
    · exact hin h
    · exact hfits h
  have hexec : executes capacity blkRead (part.size - 1 + part.first) 1 = true := by
    have hwrap : part.size - 1 + part.first + 1 = 0 := by
      have hlast : part.size - 1 + part.first = UInt64.ofNat (2 ^ 64 - 1) := UInt64.toNat_inj.mp hsector
      rw [hlast]
      rfl
    unfold executes VirtioBlk.rangeOk
    rw [hwrap]
    simp [blkRead]
  obtain ⟨part', -, hrange⟩ := hiso.io _ _ _ _ _ hserve hexec
  have hbelow := (hrange 0 (by decide)).2.2
  rw [show part.size - 1 + part.first + UInt64.ofNat 0 = part.size - 1 + part.first by simp, hsector] at hbelow
  have hcap := capacity.toNat_lt
  omega

theorem partsUpTo_get {d : Disk} {array : UInt64} {n : Nat} {b : Bytes} (hent : ent < n)
    (hb : d.read (entrySector array ent) = some b) (hu : used b ent = true) :
    (partsUpTo d array n)[usedBefore d array ent]? = some (gptPart b ent) := by
  induction n with
  | zero => omega
  | succ n ih =>
    by_cases hlast : ent = n
    · rw [← hlast, partsUpTo_succ ent hb, if_pos hu, usedBefore_eq]
      exact getElem?_concat_length
    · have hlt : ent < n := by omega
      have hget := ih hlt
      have hlen := (List.getElem?_eq_some_iff.mp hget).1
      cases hbn : d.read (entrySector array n) with
      | none =>
        have hsame : partsUpTo d array (n + 1) = partsUpTo d array n := by
          unfold partsUpTo
          rw [range_succ, filterMap_append]
          simp only [filterMap_cons, filterMap_nil, hbn, append_nil]
        rw [hsame]
        exact hget
      | some b' =>
        rw [partsUpTo_succ n hbn]
        by_cases hu' : used b' n = true
        · rw [if_pos hu', getElem?_append_left hlen]
          exact hget
        · rw [if_neg hu']
          exact hget

theorem mem_partsUpTo {d : Disk} {array : UInt64} {n : Nat} (h : part ∈ partsUpTo d array n) :
    ∃ ent b, ent < n ∧ d.read (entrySector array ent) = some b ∧ used b ent = true ∧ part = gptPart b ent := by
  obtain ⟨ent, hent, heq⟩ := mem_filterMap.mp h
  rw [mem_range] at hent
  split at heq
  · cases heq
  · rename_i b hb
    by_cases hu : used b ent = true
    · simp only [if_pos hu, Option.some.injEq] at heq
      exact ⟨ent, b, hent, hb, hu, heq.symm⟩
    · simp only [if_neg hu] at heq
      cases heq

theorem mem_sumsUpTo {d : Disk} {array : UInt64} {n : Nat} {a : Arith} : a ∈ sumsUpTo d array n ↔
      ∃ ent b, ent < n ∧ d.read (entrySector array ent) = some b ∧ a ∈ entrySums array b ent := by
  unfold sumsUpTo
  rw [mem_flatMap]
  constructor
  · rintro ⟨ent, hent, ha⟩
    rw [mem_range] at hent
    split at ha
    · cases ha
    · rename_i b hb
      exact ⟨ent, b, hent, hb, ha⟩
  · rintro ⟨ent, b, hent, hb, ha⟩
    refine ⟨ent, mem_range.mpr hent, ?_⟩
    simp only [hb]
    exact ha

theorem gpt_isolated {d : Disk} {array : UInt64} {n : Nat} (hn : n ≤ 512)
    (hread : ∀ e, e < n → (d.read (entrySector array e)).isSome = true ∧ usedBefore d array e < maxParts) :
    Isolated d.capacity ⟨partsUpTo d array n, [.add 1 1] ++ sumsUpTo d array n⟩ ↔
      ∀ ent, ent < n → EntrySound d array ent := by
  constructor
  · intro hiso ent hent
    obtain ⟨hsome, hbefore⟩ := hread ent hent
    obtain ⟨b, hb⟩ := Option.isSome_iff_exists.mp hsome
    have hexact : ∀ a ∈ entrySums array b ent, a.Exact := by
      intro a ha
      exact hiso.sums a (mem_append_right _ (mem_sumsUpTo.mpr ⟨ent, b, hent, hb, ha⟩))
    obtain ⟨hplace, hrange⟩ := (entrySums_exact (by omega)).mp hexact
    refine ⟨hplace, ?_⟩
    intro b' hb' hu
    rw [hb] at hb'
    injection hb' with hb'
    subst hb'
    obtain ⟨hle, hsize⟩ := hrange hu
    refine ⟨hle, ?_⟩
    by_contra htop
    have hlast := (entryLast b ent).toNat_lt
    have hget := partsUpTo_get hent hb hu
    have hpsize : (gptPart b ent).size.toNat = (entryLast b ent).toNat - (entryFirst b ent).toNat + 1 := by
      show (entryLast b ent - entryFirst b ent + 1).toNat = _
      rw [toNat_add_exact (by rw [toNat_sub_one hle]; exact hsize), toNat_sub_one hle]
      rfl
    refine last_sector_escapes hbefore hget ?_ ?_ hiso
    · rw [hpsize]
      omega
    · show (entryFirst b ent).toNat + _ = _
      omega
  · intro hsound
    refine isolated_of_proper ?_ ?_
    · intro a ha
      rcases mem_append.mp ha with ha | ha
      · rw [mem_singleton.mp ha]
        show (1 : UInt64).toNat + (1 : UInt64).toNat < 2 ^ 64
        decide
      · obtain ⟨ent, b, hent, hb, ha⟩ := mem_sumsUpTo.mp ha
        obtain ⟨hplace, hrange⟩ := hsound ent hent
        refine (entrySums_exact (by omega)).mpr ⟨hplace, ?_⟩ a ha
        intro hu
        have hboth := hrange b hb hu
        refine ⟨hboth.1, ?_⟩
        omega
    · intro part hpart
      obtain ⟨ent, b, hent, hb, hu, rfl⟩ := mem_partsUpTo hpart
      have hboth := (hsound ent hent).2 b hb hu
      exact gptPart_proper hboth.1 hboth.2

/-- **Partitions are isolated exactly when the layout is sound.**  A GPT is sound when every entry up to
    the eighth used one lies below 2^64 and every used one ends no earlier than it starts, and before the
    last sector number of 64 bits.  An MBR and a device without a table always are. -/
theorem isolated_iff_layoutSound (d : Disk) (p : Probed) (h : probe d = some p) :
    Isolated d.capacity p ↔ LayoutSound d := by
  unfold probe at h
  split at h
  · cases h
  · rename_i b hb
    by_cases hmagic : gptMagic b = true
    · rw [if_pos hmagic] at h
      by_cases hbad : le32 b 80 > 512 ∨ le32 b 84 ≠ 128
      · rw [if_pos hbad] at h
        cases h
      · rw [if_neg hbad] at h
        rw [not_or] at hbad
        have hnum : (le32 b 80).toNat ≤ 512 := UInt64.le_iff_toNat_le.mp (UInt64.not_lt.mp hbad.1)
        have hwalk : gptWalk d (le64 b 72) (le32 b 80).toNat 0
            ⟨partsUpTo d (le64 b 72) 0, [.add 1 1] ++ sumsUpTo d (le64 b 72) 0⟩ = some p := h
        obtain ⟨n, hn, hp, hread, hend⟩ := gptWalk_spec _ 0 hwalk (fun e he => absurd he (Nat.not_lt_zero e))
        rw [hp, gpt_isolated (by omega) hread]
        constructor
        · intro hsound b' hb' _ ent hent hbefore
          rw [hb] at hb'
          injection hb' with hb'
          subst hb'
          refine hsound ent ?_
          rcases hend with hend | hend
          · omega
          · by_contra hge
            have hmono : usedBefore d (le64 b 72) n ≤ usedBefore d (le64 b 72) ent :=
              usedBefore_mono (Nat.le_of_not_lt hge)
            omega
        · intro hsound ent hent
          exact hsound b hb hmagic ent (by omega) (hread ent hent).2
    · rw [if_neg hmagic] at h
      have hsound : LayoutSound d := by
        intro b' hb' hmagic'
        rw [hb] at hb'
        injection hb' with hb'
        subst hb'
        exact absurd hmagic' hmagic
      refine ⟨fun _ => hsound, fun _ => ?_⟩
      split at h
      · cases h
      · rename_i m hb0
        injection h with h
        rw [← h]
        refine isolated_of_proper ?_ ?_
        · intro a ha
          simp only [mem_cons, not_mem_nil, or_false] at ha
          rcases ha with rfl | rfl
          · show (1 : UInt64).toNat + (1 : UInt64).toNat < 2 ^ 64
            decide
          · show (0 : UInt64).toNat + (1 : UInt64).toNat < 2 ^ 64
            decide
        · intro part hpart
          generalize hps : (if m 510 = 0x55 ∧ m 511 = 0xAA then (range 4).filterMap (mbrPart m) else []) = ps
            at hpart
          split at hpart
          · rw [mem_singleton.mp hpart]
            exact wholeDevice_proper d
          · rw [← hps] at hpart
            split at hpart
            · obtain ⟨i, -, hi⟩ := mem_filterMap.mp hpart
              exact mbrPart_proper hi
            · cases hpart

/-- A device with one MBR partition, of 4096 sectors from sector 2048 on. -/
def mbrDisk : Disk where
  capacity := 65536
  sector s := some fun i =>
    if s = 0 then
      match i with
      | 450 => 0x83
      | 455 => 8
      | 459 => 16
      | 510 => 0x55
      | 511 => 0xAA
      | _ => 0
    else 0

theorem isolated_iff_layoutSound_mbr :
    Isolated mbrDisk.capacity ⟨[⟨2048, 4096, 2048, 6144⟩], [.add 1 1, .add 0 1]⟩ ↔ LayoutSound mbrDisk :=
  isolated_iff_layoutSound mbrDisk _ (by decide +kernel)

/-- A GPT whose one entry starts at sector 100 and ends at sector 50. -/
def backwardsDisk : Disk where
  capacity := 65536
  sector s := some fun i =>
    if s = 1 then
      match i with
      | 0 => 0x45
      | 1 => 0x46
      | 2 => 0x49
      | 3 => 0x20
      | 4 => 0x50
      | 5 => 0x41
      | 6 => 0x52
      | 7 => 0x54
      | 72 => 2
      | 80 => 1
      | 84 => 128
      | _ => 0
    else if s = 2 then
      match i with
      | 0 => 1
      | 32 => 100
      | 40 => 50
      | _ => 0
    else 0

/-- Through that slot, sector 2^64 - 60 is sector 40 of the device. -/
theorem backwards_entry_escapes :
    ∃ p, probe backwardsDisk = some p ∧
      serve p.parts ⟨0x1000, blkRead, 0xFFFFFFFFFFFFFFC4, 1, 5⟩ = .forward blkRead 40 1 5 ∧
      executes backwardsDisk.capacity blkRead 40 1 = true ∧ ¬ Isolated backwardsDisk.capacity p := by
  have hprobe : probe backwardsDisk = some
      ⟨[⟨100, 0xFFFFFFFFFFFFFFCF, 100, 51⟩], [.add 1 1, .add 2 0, .add 2 1, .sub 50 100, .add 0xFFFFFFFFFFFFFFCE 1]⟩ := by
    decide +kernel
  refine ⟨_, hprobe, by decide +kernel, by decide +kernel, ?_⟩
  intro hiso
  have hsub : Arith.Exact (.sub 50 100) := hiso.sums (.sub 50 100) (by decide)
  exact absurd hsub (by decide : ¬ (100 : UInt64).toNat ≤ (50 : UInt64).toNat)

end Aegir.Partmgr
