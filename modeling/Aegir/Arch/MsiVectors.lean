/-
  Which message-signalled interrupts arrive.

  A vector gets the address of the 16-byte SLOT of its device in the page of messages, and the vector number as
  data.  The fault handler divides the offset in the page by 16 to get the device id back.  There are 256 slots
  in a page: a device with a larger id gets an address behind the page, where nothing is detected; and every
  address INSIDE a slot counts as the slot's.
-/
import Mathlib.Data.List.Basic
import Aegir.Arch.Iommu
import Aegir.Kernel.Boot

namespace Aegir.Arch.Iommu

open Aegir.Kernel Aegir.Kernel.State List

variable {s s' : Iommu} {calls : List (Nat × Nat)} {vectors : List MsiVector}

/-! ## Successful calls -/

variable {v : MsiVector} {deviceId : Nat}

/-- Calls of `MSI_Vector_Create` one after another, all of them successful: what they return. -/
def createAll (s : Iommu) : List (Nat × Nat) → Option (List MsiVector × Iommu)
  | [] => some ([], s)
  | c :: cs =>
    match s.msiVectorCreate c.1 c.2 with
    | (none, _) => none
    | (some v, s₁) =>
      match createAll s₁ cs with
      | none => none
      | some (vs, s₂) => some (v :: vs, s₂)

/-- The vectors that calls get when the table has `n` entries already, and their records. -/
def vectorsFrom : Nat → List (Nat × Nat) → List MsiVector
  | _, [] => []
  | n, c :: cs => ⟨msiVectorBase + n, msiAddressFor c.1, msiDataFor c.2⟩ :: vectorsFrom (n + 1) cs

def recordsFrom : Nat → List (Nat × Nat) → List MsiRecord
  | _, [] => []
  | n, c :: cs => ⟨c.1, msiDataFor c.2, msiVectorBase + n⟩ :: recordsFrom (n + 1) cs

theorem ensureDc_vectors (s : Iommu) (deviceId : Nat) :
    (s.ensureDc deviceId).2.msiVectors = s.msiVectors ∧ (s.ensureDc deviceId).2.msiSupported = s.msiSupported := by
  unfold ensureDc
  split
  · exact ⟨rfl, rfl⟩
  · exact ⟨rfl, rfl⟩

theorem ensureDevice_vectors (s : Iommu) (deviceId : Nat) : (s.ensureDevice deviceId).2.msiVectors = s.msiVectors ∧
      (s.ensureDevice deviceId).2.msiSupported = s.msiSupported := by
  have hdc := ensureDc_vectors s deviceId
  unfold ensureDevice
  split
  · exact ⟨rfl, rfl⟩
  · split
    · exact ⟨rfl, rfl⟩
    · split
      · rename_i heq
        rw [heq] at hdc
        exact hdc
      · rename_i heq
        rw [heq] at hdc
        split
        · exact hdc
        · exact hdc

/-- **One call**: it appends one record. -/
theorem msiVectorCreate_some {vector : Nat} (h : s.msiVectorCreate deviceId vector = (some v, s')) :
    v = ⟨msiVectorBase + s.msiVectors.length, msiAddressFor deviceId, msiDataFor vector⟩ ∧
    s'.msiVectors = s.msiVectors ++ [⟨deviceId, msiDataFor vector, msiVectorBase + s.msiVectors.length⟩] ∧
    s'.msiSupported = s.msiSupported ∧ s.msiSupported = true ∧ vector ≤ naturalLast / 2 := by
  have hdev := ensureDevice_vectors s deviceId
  unfold msiVectorCreate at h
  by_cases hbad : s.isAvailable = false ∨ s.msiSupported = false ∨ deviceId = noDeviceId ∨ vector > naturalLast / 2
  · rw [if_pos hbad] at h
    cases h
  rw [if_neg hbad] at h
  simp only [not_or] at hbad
  obtain ⟨-, hsupported, -, hvector⟩ := hbad
  cases hd : s.ensureDevice deviceId with
  | mk d s₁ =>
    rw [hd] at h hdev
    cases d with
    | none => cases h
    | some d =>
      dsimp only at h hdev
      by_cases hfull : maxMsiVectors ≤ s₁.msiVectors.length
      · rw [if_pos hfull] at h
        cases h
      rw [if_neg hfull] at h
      by_cases hsource : maxSources ≤ msiVectorBase + (s₁.msiVectors.length + 1) - 1
      · rw [if_pos hsource] at h
        cases h
      rw [if_neg hsource] at h
      cases h
      rw [← hdev.1, ← hdev.2]
      rw [← hdev.2] at hsupported
      exact ⟨rfl, rfl, rfl, by simpa using hsupported, Nat.not_lt.mp hvector⟩

/-- **A run of calls.** -/
theorem createAll_some (h : s.createAll calls = some (vectors, s')) :
    vectors = vectorsFrom s.msiVectors.length calls ∧
    s'.msiVectors = s.msiVectors ++ recordsFrom s.msiVectors.length calls ∧
    s'.msiSupported = s.msiSupported ∧ (calls ≠ [] → s.msiSupported = true) ∧
    ∀ c ∈ calls, c.2 ≤ naturalLast / 2 := by
  induction calls generalizing s vectors with
  | nil =>
    cases h
    refine ⟨rfl, (append_nil _).symm, rfl, fun hne => absurd rfl hne, fun c hc => ?_⟩
    exact absurd hc not_mem_nil
  | cons c cs ih =>
    unfold createAll at h
    cases hc : s.msiVectorCreate c.1 c.2 with
    | mk v s₁ =>
      rw [hc] at h
      cases v with
      | none => cases h
      | some v =>
        obtain ⟨hv, hrecords, hkeep, hsupported, hvector⟩ := msiVectorCreate_some hc
        dsimp only at h
        split at h
        · cases h
        · rename_i rest hrest
          cases h
          obtain ⟨hvs, hall, hsame, -, hsmall⟩ := ih hrest
          have hlen : s₁.msiVectors.length = s.msiVectors.length + 1 := by
            rw [hrecords, length_append, length_singleton]
          rw [hlen] at hvs hall
          refine ⟨?_, ?_, hsame.trans hkeep, fun _ => hsupported, fun x hx => ?_⟩
          · rw [hv, hvs]
            rfl
          · rw [hall, hrecords, append_assoc]
            rfl
          · rcases mem_cons.mp hx with rfl | hx
            · exact hvector
            · exact hsmall x hx

/-! ## The table -/

variable {n : Nat} {c : Nat × Nat}

theorem mem_vectorsFrom (hv : v ∈ vectorsFrom n calls) :
    ∃ c ∈ calls, v.address = msiAddressFor c.1 ∧ v.data = msiDataFor c.2 ∧ msiVectorBase + n ≤ v.source := by
  induction calls generalizing n with
  | nil => exact absurd hv not_mem_nil
  | cons c cs ih =>
    rcases mem_cons.mp hv with rfl | hv
    · exact ⟨c, mem_cons_self, rfl, rfl, Nat.le_refl _⟩
    · obtain ⟨d, hd, ha, hdat, hs⟩ := ih hv
      exact ⟨d, mem_cons_of_mem _ hd, ha, hdat, by omega⟩

theorem exists_vector (hc : c ∈ calls) :
    ∃ v ∈ vectorsFrom n calls, v.address = msiAddressFor c.1 ∧ v.data = msiDataFor c.2 := by
  induction calls generalizing n with
  | nil => exact absurd hc not_mem_nil
  | cons d cs ih =>
    rcases mem_cons.mp hc with rfl | hc
    · exact ⟨_, mem_cons_self, rfl, rfl⟩
    · obtain ⟨v, hv, ha⟩ := ih hc
      exact ⟨v, mem_cons_of_mem _ hv, ha⟩

theorem sources_nodup (n : Nat) (calls : List (Nat × Nat)) : ((vectorsFrom n calls).map MsiVector.source).Nodup := by
  induction calls generalizing n with
  | nil => exact nodup_nil
  | cons c cs ih =>
    refine nodup_cons.mpr ⟨fun hin => ?_, ih (n + 1)⟩
    obtain ⟨v, hv, he⟩ := mem_map.mp hin
    obtain ⟨-, -, -, -, hs⟩ := mem_vectorsFrom hv
    have he : v.source = msiVectorBase + n := he
    omega

theorem find_none {data : Nat} (h : ∀ c ∈ calls, ¬ (c.1 = deviceId ∧ msiDataFor c.2 = data)) :
    (recordsFrom n calls).find? (fun v => v.deviceId == deviceId && v.data == data) = none := by
  induction calls generalizing n with
  | nil => rfl
  | cons c cs ih =>
    have hhead : ¬ ((c.1 == deviceId && msiDataFor c.2 == data) = true) := by
      rw [Bool.and_eq_true, beq_iff_eq, beq_iff_eq]
      exact h c mem_cons_self
    rw [recordsFrom, find?_cons_of_neg (by exact hhead)]
    exact ih fun d hd => h d (mem_cons_of_mem _ hd)

/-- **First match**: with distinct pairs it is the record of the pair. -/
theorem find_some (hcalls : calls.Nodup)
    (hdata : ∀ c ∈ calls, c.2 ≤ naturalLast / 2) (hids : ∀ c ∈ calls, c.1 < 2 ^ 24) (hc : c ∈ calls)
    (hv : v ∈ vectorsFrom n calls) (haddress : v.address = msiAddressFor c.1) (hvdata : v.data = msiDataFor c.2) :
    ((recordsFrom n calls).find? fun r => r.deviceId == c.1 && r.data == msiDataFor c.2).map MsiRecord.source =
      some v.source := by
  have hinj : ∀ d ∈ calls, msiAddressFor d.1 = msiAddressFor c.1 → msiDataFor d.2 = msiDataFor c.2 → d = c := by
    intro d hd ha hdd
    have h1 := hids d hd
    have h2 := hids c hc
    have h3 := hdata d hd
    have h4 := hdata c hc
    unfold msiAddressFor add64 msiIovaBase at ha
    unfold msiDataFor at hdd
    unfold naturalLast at h3 h4
    refine Prod.ext ?_ ?_
    · omega
    · omega
  induction calls generalizing n with
  | nil => exact absurd hc not_mem_nil
  | cons d cs ih =>
    obtain ⟨hnot, hcs⟩ := nodup_cons.mp hcalls
    by_cases hdc : d = c
    · subst hdc
      rw [recordsFrom, find?_cons_of_pos (by simp)]
      rcases mem_cons.mp hv with rfl | hv
      · rfl
      · -- a later vector is another pair's
        obtain ⟨e, he, ha, hdat, -⟩ := mem_vectorsFrom hv
        have hed := hinj e (mem_cons_of_mem _ he) (ha.symm.trans haddress) (hdat.symm.trans hvdata)
        exact absurd (hed ▸ he) hnot
    · have hhead : ¬ ((d.1 == c.1 && msiDataFor d.2 == msiDataFor c.2) = true) := by
        rw [Bool.and_eq_true, beq_iff_eq, beq_iff_eq]
        rintro ⟨hid, hdd⟩
        exact hdc (hinj d mem_cons_self (by rw [hid]) hdd)
      have hcin : c ∈ cs := (mem_cons.mp hc).resolve_left fun e => hdc e.symm
      have hvin : v ∈ vectorsFrom (n + 1) cs := by
        rcases mem_cons.mp hv with rfl | hv
        · exact absurd (hinj d mem_cons_self haddress hvdata) hdc
        · exact hv
      rw [recordsFrom, find?_cons_of_neg (by exact hhead)]
      exact ih hcs (fun x hx => hdata x (mem_cons_of_mem _ hx)) (fun x hx => hids x (mem_cons_of_mem _ hx))
        hcin hvin fun x hx => hinj x (mem_cons_of_mem _ hx)

/-! ## Fault records -/

/-- The record carries the address and the data of a vector. -/
def Carries (r : FaultRecord) (v : MsiVector) : Prop := r.iova = v.address ∧ r.data % 2 ^ 32 = v.data

/-- The address lies in the page of messages. -/
def InPage (r : FaultRecord) : Prop := msiIovaBase ≤ r.iova ∧ r.iova < msiIovaBase + 4096

/-- What should be done with a record: that of a vector delivers its source, any other record of the page delivers
    nothing. -/
def Right (vectors : List MsiVector) (r : FaultRecord) (outcome : Option Nat) : Prop :=
  (∀ v ∈ vectors, Carries r v → outcome = some v.source) ∧
  ((∀ v ∈ vectors, ¬ Carries r v) → InPage r → outcome = none)

/-- The pairs whose data the record has: at the pair's address only if the device's slot is in the page, and not
    inside the slot. -/
def MsiCovered (calls : List (Nat × Nat)) (r : FaultRecord) : Prop :=
  ∀ c ∈ calls, r.data % 2 ^ 32 = msiDataFor c.2 →
    (r.iova = msiAddressFor c.1 → c.1 ≤ 255) ∧
    (c.1 ≤ 255 → ¬ (msiAddressFor c.1 < r.iova ∧ r.iova < msiAddressFor c.1 + 16))

theorem msiIovaMask_iff (r : FaultRecord) : msiIovaMask r.iova = msiIovaBase ↔ InPage r := by
  unfold msiIovaMask InPage msiIovaBase
  omega

theorem msiAddressFor_eq (h : deviceId < 2 ^ 24) : msiAddressFor deviceId = msiIovaBase + deviceId * 16 := by
  unfold msiAddressFor add64 msiIovaBase
  omega

theorem right_iff (hreset : s.msiVectors = []) (hcreated : s.createAll calls = some (vectors, s'))
    (hdistinct : calls.Nodup) (hids : ∀ c ∈ calls, c.1 < 2 ^ 24) (r : FaultRecord) :
    Right vectors r (s'.serveFault r) ↔ MsiCovered calls r := by
  obtain ⟨hvectors, hrecords, hkeep, hsupported, hdata⟩ := createAll_some hcreated
  rw [hreset] at hvectors hrecords
  have hrecords : s'.msiVectors = recordsFrom 0 calls := hrecords
  have hvectors : vectors = vectorsFrom 0 calls := hvectors
  have hpage := msiIovaMask_iff r
  have hserve : ∀ hin : InPage r, calls ≠ [] → s'.serveFault r = ((recordsFrom 0 calls).find? fun v =>
      v.deviceId == (r.iova - msiIovaBase) / 16 && v.data == r.data % 2 ^ 32).map MsiRecord.source := by
    intro hin hne
    unfold serveFault
    rw [if_pos ⟨hkeep.trans (hsupported hne), hpage.mpr hin⟩, hrecords]
  have hout : ¬ InPage r → s'.serveFault r = none := by
    intro hin
    exact if_neg fun h => hin (hpage.mp h.2)
  constructor
  · rintro ⟨hown, hother⟩ c hc hrdata
    have hne : calls ≠ [] := ne_nil_of_mem hc
    have haddress := msiAddressFor_eq (hids c hc)
    constructor
    · intro hiova
      -- the address of the pair lies in the page, or nothing is delivered
      by_contra hbig
      obtain ⟨v, hv, ha, hd⟩ := exists_vector (n := 0) hc
      rw [← hvectors] at hv
      have hgot := hown v hv ⟨hiova.trans ha.symm, hrdata.trans hd.symm⟩
      rw [hout ?_] at hgot
      · cases hgot
      · unfold InPage
        omega
    · rintro hsmall ⟨hlow, hhigh⟩
      have hin : InPage r := by
        unfold InPage
        omega
      have hnone : ∀ v ∈ vectors, ¬ Carries r v := by
        rintro v hv ⟨hiova, -⟩
        rw [hvectors] at hv
        obtain ⟨d, hd, ha, -, -⟩ := mem_vectorsFrom hv
        have had := msiAddressFor_eq (hids d hd)
        omega
      have hgot := hother hnone hin
      rw [hserve hin hne] at hgot
      have hslot : (r.iova - msiIovaBase) / 16 = c.1 := by omega
      obtain ⟨v, hv, ha, hd⟩ := exists_vector (n := 0) hc
      rw [hslot, hrdata, find_some hdistinct hdata hids hc hv ha hd] at hgot
      cases hgot
  · intro hcover
    refine ⟨fun v hv hcarry => ?_, fun hnone hin => ?_⟩
    · rw [hvectors] at hv
      obtain ⟨c, hc, ha, hd, -⟩ := mem_vectorsFrom hv
      have hiova := hcarry.1.trans ha
      have hrdata := hcarry.2.trans hd
      have hsmall := (hcover c hc hrdata).1 hiova
      have haddress := msiAddressFor_eq (hids c hc)
      have hin : InPage r := by
        unfold InPage
        omega
      have hslot : (r.iova - msiIovaBase) / 16 = c.1 := by omega
      rw [hserve hin (ne_nil_of_mem hc), hslot, hrdata]
      exact find_some hdistinct hdata hids hc hv ha hd
    · by_cases hne : calls = []
      · subst hne
        unfold serveFault
        rw [hrecords]
        split
        · rfl
        · rfl
      · rw [hserve hin hne, find_none ?_]
        · rfl
        · rintro c hc ⟨hslot, hrdata⟩
          have haddress := msiAddressFor_eq (hids c hc)
          obtain ⟨h1, h2⟩ := hcover c hc hrdata.symm
          obtain ⟨hlow, hhigh⟩ := hin
          have hiova : r.iova = msiAddressFor c.1 := by omega
          obtain ⟨v, hv, ha, hd⟩ := exists_vector (n := 0) hc
          rw [← hvectors] at hv
          exact hnone v hv ⟨hiova.trans ha.symm, hrdata.symm.trans hd.symm⟩

/-! ## The handler -/

/-- The records in the queue from `head` up to `tail`. -/
def pending (queue : Nat → FaultRecord) (tail : Nat) : Nat → Nat → List FaultRecord
  | _, 0 => []
  | head, n + 1 => if head = tail then [] else queue head :: pending queue tail ((head + 1) % queueEntries) n

theorem drainFaults_eq (s : Iommu) (queue : Nat → FaultRecord) (tail head n : Nat) :
    s.drainFaults queue tail head n = (pending queue tail head n).map s.serveFault := by
  induction n generalizing head with
  | zero => rfl
  | succ n ih =>
    unfold drainFaults pending
    split
    · rfl
    · rw [ih]
      rfl

/-- **Interrupts reach their vectors**: the handler does the right thing with every record, and the sources
    differ. -/
def MsiExact (s : Iommu) (vectors : List MsiVector) (queue : Nat → FaultRecord) (head tail : Nat) : Prop :=
  List.Forall₂ (Right vectors) (pending queue tail head queueEntries) (s.handleFaultInterrupt queue head tail) ∧
  (vectors.map MsiVector.source).Nodup

/-- **Exactly when interrupts reach their vectors.** -/
theorem msi_exact_iff (hreset : s.msiVectors = []) (hcreated : s.createAll calls = some (vectors, s'))
    (hdistinct : calls.Nodup) (hids : ∀ c ∈ calls, c.1 < 2 ^ 24) (queue : Nat → FaultRecord) (head tail : Nat) :
    MsiExact s' vectors queue head tail ↔ ∀ r ∈ pending queue tail head queueEntries, MsiCovered calls r := by
  have hone := fun r => right_iff hreset hcreated hdistinct hids r
  have hsources : (vectors.map MsiVector.source).Nodup := by
    rw [(createAll_some hcreated).1]
    exact sources_nodup _ calls
  unfold MsiExact handleFaultInterrupt
  rw [drainFaults_eq, forall₂_map_right_iff, forall₂_same]
  constructor
  · rintro ⟨hall, -⟩ r hr
    exact (hone r).mp (hall r hr)
  · intro hall
    exact ⟨fun r hr => (hone r).mpr (hall r hr), hsources⟩

/-! ## Two devices -/

/-- A driver right after its initialisation. -/
def onlineIommu : Iommu :=
  ⟨true, true, 64, 0x80401000, 0x80402000, [], [], ⟨fun _ _ => 0, smallMachine.pmm⟩⟩

/-- Vector 0 of a device on bus 0 arrives. -/
theorem msi_exact_iff_bus0 : ∃ vectors s', onlineIommu.createAll [(8, 0)] = some (vectors, s') ∧
    MsiExact s' vectors (fun _ => ⟨msiIovaBase + 128, 0⟩) 0 1 := by
  have hsome : (onlineIommu.createAll [(8, 0)]).isSome = true := by decide +kernel
  obtain ⟨⟨vectors, s'⟩, hcreated⟩ := Option.isSome_iff_exists.mp hsome
  refine ⟨vectors, s', hcreated, (msi_exact_iff rfl hcreated (by decide) (by decide) _ 0 1).mpr ?_⟩
  intro r hr c hc hdata
  obtain rfl := mem_singleton.mp hc
  obtain rfl : r = ⟨msiIovaBase + 128, 0⟩ := mem_singleton.mp hr
  decide

/-- **Vector 0 of a device on bus 1 does not arrive**: its slot is behind the page. -/
theorem msi_lost : ¬ ∀ (s s' : Iommu) (calls : List (Nat × Nat)) (vectors : List MsiVector)
    (queue : Nat → FaultRecord) (head tail : Nat), s.msiVectors = [] → s.createAll calls = some (vectors, s') →
    calls.Nodup → (∀ c ∈ calls, c.1 < 2 ^ 24) → MsiExact s' vectors queue head tail := by
  intro hall
  have hsome : (onlineIommu.createAll [(256, 0)]).isSome = true := by decide +kernel
  obtain ⟨⟨vectors, s'⟩, hcreated⟩ := Option.isSome_iff_exists.mp hsome
  have hexact := hall onlineIommu s' [(256, 0)] vectors (fun _ => ⟨msiIovaBase + 4096, 0⟩) 0 1 rfl hcreated
    (by decide) (by decide)
  -- the record is the one of the vector
  have hvectors := (createAll_some hcreated).1
  have hright := hexact.1
  unfold handleFaultInterrupt at hright
  rw [drainFaults_eq, forall₂_map_right_iff, forall₂_same] at hright
  have hgot := (hright _ mem_cons_self).1 ⟨msiVectorBase, msiAddressFor 256, 0⟩ (hvectors ▸ mem_cons_self)
    ⟨by decide, by decide⟩
  have hlost : s'.serveFault ⟨msiIovaBase + 4096, 0⟩ = none := if_neg fun h => absurd h.2 (by decide)
  rw [hlost] at hgot
  cases hgot

end Aegir.Arch.Iommu
