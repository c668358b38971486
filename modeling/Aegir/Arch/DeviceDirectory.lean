/-
  Where the hardware finds a device's context.

  The driver's directory is a tree of tables (`Lib.TableTree`): `node p` is the page at the end of the index path
  `p`, and no two paths share a page.  Two parties walk it.  The DRIVER always splits a device id into 9, 9 and
  6 bits.  The HARDWARE splits it by the size of a context: 9, 9 and 6 bits for contexts of 64 bytes, 8, 9 and 7
  for contexts of 32.  They meet in the same context exactly if the splits agree on the id: for 64-byte contexts
  always, for 32-byte contexts only below 64.
-/
import Aegir.Lib.TableTree
import Aegir.Kernel.Boot
import Aegir.Arch.Iommu

namespace Aegir.Kernel.Pmm

variable {p : Pmm}

/-- No frame that the allocator knows of lies above a bound. -/
structure Below (p : Pmm) (bound : Nat) : Prop where
  next_le : p.nextFrame ≤ bound
  limit_le : p.limit ≤ bound
  reserved_le : ∀ r ∈ p.reserved, r.last ≤ bound

theorem Below.allocateFrame {bound : Nat} (h : p.Below bound) : (p.allocateFrame).2.Below bound := by
  have hskip : p.skipReserved p.nextFrame 1 ≤ bound := by
    obtain ⟨-, hcase⟩ := skipReservedFrom_spec p.reserved 1 p.nextFrame (p.reserved.length + 1)
    unfold skipReserved
    rcases hcase with heq | ⟨r, hr, heq⟩
    · rw [heq]
      exact h.next_le
    · rw [heq]
      exact h.reserved_le r hr
  unfold Pmm.allocateFrame
  split
  · exact h
  · split
    · exact ⟨h.next_le, h.limit_le, h.reserved_le⟩
    · dsimp only
      split
      · exact ⟨hskip, h.limit_le, h.reserved_le⟩
      · rename_i hlimit
        exact ⟨(Nat.not_lt.mp hlimit).trans h.limit_le, h.limit_le, h.reserved_le⟩

end Aegir.Kernel.Pmm

namespace Aegir.Arch.Iommu

open Aegir.Kernel Aegir.Kernel.State Aegir.Lib Function

variable {s s' : Iommu} {m m' : Ram} {node node' : List Nat → Option Nat}

/-! ## What the hardware does -/

/-- The bits of a device id that index the three levels, for contexts of `stride` bytes. -/
def ddi2 (stride deviceId : Nat) : Nat := if stride = 64 then deviceId / 2 ^ 15 % 2 ^ 9 else deviceId / 2 ^ 16 % 2 ^ 8
def ddi1 (stride deviceId : Nat) : Nat := if stride = 64 then deviceId / 2 ^ 6 % 2 ^ 9 else deviceId / 2 ^ 7 % 2 ^ 9
def ddi0 (stride deviceId : Nat) : Nat := if stride = 64 then deviceId % 2 ^ 6 else deviceId % 2 ^ 7

/-- A directory entry: a page number in bits 53 to 10 and the valid bit; the other bits are reserved. -/
def ddteNext (ent : Nat) : Option Nat :=
  if ent % 2 ^ 10 = 1 ∧ ent < 2 ^ 54 then some (ent / 2 ^ 10 % 2 ^ 44 * pageSize) else none

/-- The page of contexts that the hardware's walk ends at. -/
def hardwareLeaf (s : Iommu) (deviceId : Nat) : Option Nat :=
  walkTables s.ram.words ddteNext [ddi2 s.dcStride deviceId, ddi1 s.dcStride deviceId] s.ddtRoot

/-! ## Entries -/

variable {pa : Nat}

/-- A physical address has 56 bits. -/
def physicalBound : Nat := 2 ^ 56

/-- The word for a table, or for none. -/
def ddte : Option Nat → Nat
  | none => 0
  | some pa => 1 ||| ppnField pa

theorem ddte_some (halign : pa % pageSize = 0) (hlt : pa < physicalBound) :
    ddte (some pa) = pa / pageSize * 1024 + 1 := by
  have hfield : ppnField pa = pa / pageSize * 1024 := by
    unfold ppnField pageSize physicalBound at *
    omega
  show 1 ||| ppnField pa = _
  rw [hfield, Nat.or_comm]
  exact word_eq (by decide) _

/-- **`PPN_Of` undoes `PPN_Field`**, and so does the hardware. -/
theorem ddte_spec (halign : pa % pageSize = 0) (hlt : pa < physicalBound) :
    ddte (some pa) % 2 = 1 ∧ ppnOf (ddte (some pa)) = pa ∧ ddteNext (ddte (some pa)) = some pa := by
  rw [ddte_some halign hlt]
  unfold physicalBound pageSize at *
  have hmask : (0xFFFFFFFFFFF : Nat) = 2 ^ 44 - 1 := by decide
  refine ⟨by omega, ?_, ?_⟩
  · unfold ppnOf
    rw [hmask, Nat.and_two_pow_sub_one_eq_mod, Nat.shiftRight_eq_div_pow, Nat.shiftLeft_eq]
    omega
  · unfold ddteNext pageSize
    rw [if_pos (by omega)]
    congr 1
    omega

/-! ## The directory -/

/-- The directory's pages: a tree of tables in frames that the allocator has handed out. -/
structure Directory (m : Ram) (node : List Nat → Option Nat) : Prop where
  wf : m.pmm.Wf
  below : m.pmm.Below physicalBound
  tree : TableTree m.words ddte 2 node
  frames : ∀ p f, node p = some f → f % pageSize = 0 ∧ f < physicalBound ∧ ¬ m.pmm.Available f
  short : ∀ p f, node p = some f → p.length ≤ 2

/-- Pages only come to a directory. -/
def Extends (node node' : List Nat → Option Nat) : Prop := ∀ p f, node p = some f → node' p = some f

theorem Extends.refl (node : List Nat → Option Nat) : Extends node node := fun _ _ h => h

theorem Extends.trans {node1 node2 node3 : List Nat → Option Nat} (h1 : Extends node1 node2)
    (h2 : Extends node2 node3) : Extends node1 node3 := fun p f h => h2 p f (h1 p f h)

namespace Directory

theorem next_ddte (h : Directory m node) (p : List Nat) : ddteNext (ddte (node p)) = node p := by
  cases hp : node p with
  | none => rfl
  | some f =>
    obtain ⟨halign, hlt, -⟩ := h.frames p f hp
    exact (ddte_spec halign hlt).2.2

/-- **An allocated page** is no page of the directory. -/
theorem allocPage (h : Directory m node) : Directory m.allocPage.2 node ∧ ∀ frame, m.allocPage.1 = some frame →
      frame % pageSize = 0 ∧ frame < physicalBound ∧ ¬ m.allocPage.2.pmm.Available frame ∧
      (∀ p, node p ≠ some frame) ∧ m.allocPage.2.words = update m.words frame fun _ => 0 := by
  have hbelow := h.below.allocateFrame
  unfold Ram.allocPage
  cases halloc : m.pmm.allocateFrame with
  | mk result p =>
    rw [halloc] at hbelow
    cases result with
    | error e =>
      obtain ⟨hwf, havailable, -⟩ := Pmm.allocateFrame_error h.wf halloc
      refine ⟨⟨hwf, hbelow, h.tree, fun q f hq => ?_, h.short⟩, fun frame hframe => by cases hframe⟩
      obtain ⟨halign, hlt, hnot⟩ := h.frames q f hq
      exact ⟨halign, hlt, fun hf => hnot (havailable f hf)⟩
    | ok frame =>
      obtain ⟨hwf, -, hgot, hvalid, hgone, havailable, -⟩ := Pmm.allocateFrame_ok h.wf halloc
      have hfresh : ∀ q, node q ≠ some frame := fun q hq => (h.frames q frame hq).2.2 hgot
      have hsmall : frame < physicalBound :=
        (Pmm.validFrame_iff.mp hvalid).2.1.trans_le hbelow.next_le
      refine ⟨⟨hwf, hbelow, h.tree.congr fun q a hq _ => ?_, fun q f hq => ?_, h.short⟩, ?_⟩
      · have hne : a ≠ frame := fun heq => hfresh q (heq ▸ hq)
        exact update_of_ne hne _ _
      · obtain ⟨halign, hlt, hnot⟩ := h.frames q f hq
        exact ⟨halign, hlt, fun hf => hnot (havailable f hf)⟩
      · intro frame' hframe
        obtain rfl := Option.some.inj hframe
        exact ⟨hgot.1, hsmall, hgone, hfresh, rfl⟩

/-- **The loop of `Ensure_DC`**: it returns the page at the end of its path, in a directory that has grown. -/
theorem ensurePath (h : Directory m node) {p : List Nat} {cur : Nat} (hp : node p = some cur) {is : List Nat}
    (hlen : p.length + is.length ≤ 2) :
    ∃ node', Directory (Iommu.ensurePath m is cur).2 node' ∧ Extends node node' ∧
      ∀ cur', (Iommu.ensurePath m is cur).1 = some cur' → node' (p ++ is) = some cur' := by
  induction is generalizing m node p cur with
  | nil =>
    refine ⟨node, h, .refl node, fun cur' hcur => ?_⟩
    obtain rfl := Option.some.inj hcur
    rwa [List.append_nil]
  | cons i is ih =>
    rw [List.length_cons] at hlen
    have hassoc : p ++ i :: is = (p ++ [i]) ++ is := by rw [List.append_assoc]; rfl
    have hlen' : (p ++ [i]).length + is.length ≤ 2 := by
      rw [List.length_append, List.length_singleton]
      omega
    have hentry : m.words cur i = ddte (node (p ++ [i])) := h.tree.entry hp (by omega) i
    unfold Iommu.ensurePath
    rw [hentry, hassoc]
    cases hnext : node (p ++ [i]) with
    | some f =>
      -- the table is there
      obtain ⟨halign, hlt, -⟩ := h.frames _ f hnext
      obtain ⟨hodd, hppn, -⟩ := ddte_spec halign hlt
      rw [if_neg (by omega), hppn]
      exact ih h hnext hlen'
    | none =>
      -- a new table
      obtain ⟨hdir, hgot⟩ := h.allocPage
      cases halloc : m.allocPage with
      | mk result m1 =>
        rw [halloc] at hdir hgot
        cases result with
        | none => exact ⟨node, hdir, .refl node, fun cur' hcur => by cases hcur⟩
        | some pa =>
          obtain ⟨halign, hlt, hgone, hfresh, hwords⟩ := hgot pa rfl
          have hne : cur ≠ pa := fun heq => hfresh p (heq ▸ hp)
          have hgrown : Directory (m1.store cur i (ddte (some pa))) (update node (p ++ [i]) (some pa)) := by
            refine ⟨hdir.wf, hdir.below, ?_, fun q f hq => ?_, fun q f hq => ?_⟩
            · refine h.tree.grow hp hnext hfresh (fun j => ?_) ?_ fun c hca hcb => ?_
              · show update m1.words cur _ pa j = 0
                rw [update_of_ne hne.symm, hwords, update_self]
              · show update m1.words cur _ cur = _
                rw [update_self, hwords, update_of_ne hne]
              · show update m1.words cur _ c = _
                rw [update_of_ne hca, hwords, update_of_ne hcb]
            · by_cases hqp : q = p ++ [i]
              · subst hqp
                rw [update_self] at hq
                obtain rfl := Option.some.inj hq
                exact ⟨halign, hlt, hgone⟩
              · rw [update_of_ne hqp] at hq
                exact hdir.frames q f hq
            · by_cases hqp : q = p ++ [i]
              · rw [hqp]
                omega
              · rw [update_of_ne hqp] at hq
                exact h.short q f hq
          have hextends : Extends node (update node (p ++ [i]) (some pa)) := by
            intro q f hq
            have hqp : q ≠ p ++ [i] := by
              rintro rfl
              rw [hnext] at hq
              cases hq
            rwa [update_of_ne hqp]
          have hself : update node (p ++ [i]) (some pa) (p ++ [i]) = some pa := update_self _ _ _
          obtain ⟨node', hdir', hmore, hend⟩ := ih hgrown hself hlen'
          refine ⟨node', ?_, hextends.trans hmore, ?_⟩
          · show Directory (Iommu.ensurePath (m1.store cur i (ddte (some pa))) is (ppnOf (ddte (some pa)))).2 node'
            rw [(ddte_spec halign hlt).2.1]
            exact hdir'
          · show ∀ cur', (Iommu.ensurePath (m1.store cur i (ddte (some pa))) is (ppnOf (ddte (some pa)))).1 =
              some cur' → _
            rw [(ddte_spec halign hlt).2.1]
            exact hend

end Directory

/-! ## Writes to a context -/

variable {leaf off va : Nat}

/-- Nothing but the words of one page differs. -/
structure SameBut (leaf : Nat) (m m' : Ram) : Prop where
  pmm : m'.pmm = m.pmm
  words : ∀ c, c ≠ leaf → m'.words c = m.words c

theorem SameBut.trans {m1 m2 m3 : Ram} (h1 : SameBut leaf m1 m2) (h2 : SameBut leaf m2 m3) :
    SameBut leaf m1 m3 := ⟨h2.pmm.trans h1.pmm, fun c hc => (h2.words c hc).trans (h1.words c hc)⟩

theorem write64_same (m : Ram) (halign : leaf % pageSize = 0) (hlt : leaf < physicalBound)
    (hoff : off < pageSize) (hva : va = add64 (physToVirt leaf) off) (value : Nat) :
    SameBut leaf m (m.write64 va value) := by
  have hpage : sub64 va physmapBase - sub64 va physmapBase % pageSize = leaf := by
    have hpa : sub64 va physmapBase = leaf + off := by
      unfold sub64 physToVirt add64 physmapBase physicalBound pageSize at *
      omega
    unfold pageSize at *
    omega
  unfold Ram.write64
  dsimp only
  rw [hpage]
  exact ⟨rfl, fun c hc => update_of_ne hc _ _⟩

theorem add64_add64 (a b c : Nat) : add64 (add64 a b) c = add64 a (b + c) := by
  unfold add64
  omega

theorem writeContext_same (m : Ram) (stride root : Nat) (halign : leaf % pageSize = 0)
    (hlt : leaf < physicalBound) (hoff : off + 56 < pageSize) (hva : va = add64 (physToVirt leaf) off) :
    SameBut leaf m (writeContext m stride va root) := by
  have hone : ∀ (m : Ram) (k value : Nat), k ≤ 56 → SameBut leaf m (m.write64 (add64 va k) value) := by
    intro m k value hk
    refine write64_same m halign hlt (by omega : off + k < pageSize) ?_ value
    rw [hva, add64_add64]
  have hfirst : SameBut leaf m (m.write64 va dcTcV) := write64_same m halign hlt (by omega) hva _
  have hhead := ((hfirst.trans (hone _ 8 0 (by omega))).trans (hone _ 16 0 (by omega))).trans
    (hone _ 24 (root / 4096 ||| fscSv39 <<< 60) (by omega))
  unfold writeContext
  split
  · exact (((hhead.trans (hone _ 32 0 (by omega))).trans (hone _ 40 0 (by omega))).trans
      (hone _ 48 0 (by omega))).trans (hone _ 56 0 (by omega))
  · exact hhead

/-- **The pages of contexts are not part of the walk.** -/
theorem Directory.sameBut (h : Directory m node) {p : List Nat} (hp : node p = some leaf)
    (hdeep : 2 ≤ p.length) (hsame : SameBut leaf m m') : Directory m' node := by
  refine ⟨hsame.pmm ▸ h.wf, hsame.pmm ▸ h.below, h.tree.congr fun q a hq hlt => ?_, fun q f hq => ?_, h.short⟩
  · refine hsame.words a fun heq => ?_
    have hqp : q = p := h.tree.distinct hq (heq ▸ hp)
    subst hqp
    omega
  · rw [hsame.pmm]
    exact h.frames q f hq

/-! ## The driver's invariant -/

variable {dcVa deviceId stride : Nat}

/-- The context that the driver takes for a device: a slot of the page at the end of the driver's path. -/
def AtSlot (stride : Nat) (node : List Nat → Option Nat) (deviceId dcVa : Nat) : Prop :=
  ∃ leaf, node [index2 deviceId, index1 deviceId] = some leaf ∧
    dcVa = add64 (physToVirt leaf) (index0 deviceId * stride)

theorem AtSlot.mono (h : AtSlot stride node deviceId dcVa)
    (hextends : Extends node node') : AtSlot stride node' deviceId dcVa := by
  obtain ⟨leaf, hleaf, hva⟩ := h
  exact ⟨leaf, hextends _ _ hleaf, hva⟩

/-- The directory hangs at the root, and every context that was returned (`trace`) or is on record is at its
    slot. -/
structure Placed (s : Iommu) (trace : List (Nat × Nat)) (node : List Nat → Option Nat) : Prop where
  stride : s.dcStride = 32 ∨ s.dcStride = 64
  directory : Directory s.ram node
  root : node [] = some s.ddtRoot
  trace : ∀ c ∈ trace, AtSlot s.dcStride node c.1 c.2
  devices : ∀ d ∈ s.devices, AtSlot s.dcStride node d.deviceId d.dcVa

theorem slot_room (hstride : stride = 32 ∨ stride = 64) (deviceId : Nat) :
    index0 deviceId * stride + 56 < pageSize := by
  unfold index0 pageSize
  rcases hstride with rfl | rfl
  · omega
  · omega

namespace Placed

variable {trace : List (Nat × Nat)}

/-- **`Ensure_DC`** returns a slot. -/
theorem ensureDc (h : Placed s trace node) (deviceId : Nat) :
    ∃ node', Extends node node' ∧ Placed (s.ensureDc deviceId).2 trace node' ∧
      ((s.ensureDc deviceId).1 ≠ 0 → AtSlot s.dcStride node' deviceId (s.ensureDc deviceId).1) := by
  have hlen : ([] : List Nat).length + [index2 deviceId, index1 deviceId].length ≤ 2 := Nat.le_refl _
  obtain ⟨node', hdir, hextends, hend⟩ := h.directory.ensurePath h.root hlen
  refine ⟨node', hextends, ?_⟩
  have hplaced : Placed { s with ram := (Iommu.ensurePath s.ram [index2 deviceId, index1 deviceId] s.ddtRoot).2 }
      trace node' :=
    ⟨h.stride, hdir, hextends _ _ h.root, fun c hc => (h.trace c hc).mono hextends,
      fun d hd => (h.devices d hd).mono hextends⟩
  unfold Iommu.ensureDc
  cases hpath : Iommu.ensurePath s.ram [index2 deviceId, index1 deviceId] s.ddtRoot with
  | mk result m =>
    rw [hpath] at hplaced hend
    cases result with
    | none => exact ⟨hplaced, fun hzero => absurd rfl hzero⟩
    | some cur => exact ⟨hplaced, fun _ => ⟨cur, hend cur rfl, rfl⟩⟩

theorem addTrace (h : Placed s trace node) {more : List (Nat × Nat)}
    (hmore : ∀ c ∈ more, AtSlot s.dcStride node c.1 c.2) : Placed s (trace ++ more) node := by
  refine ⟨h.stride, h.directory, h.root, fun c hc => ?_, h.devices⟩
  rcases List.mem_append.mp hc with hc | hc
  · exact h.trace c hc
  · exact hmore c hc

end Placed

/-! ## Runs -/

/-- What `Ensure_DC` returns inside a call of `Ensure_Device`, if it is called and succeeds. -/
def contextReturned (s : Iommu) (deviceId : Nat) : List (Nat × Nat) :=
  if s.findDevice deviceId = none ∧ s.devices.length < maxDevices ∧ (s.ensureDc deviceId).1 ≠ 0 then
    [(deviceId, (s.ensureDc deviceId).1)]
  else []

/-- The ways through `Ensure_Device`. -/
inductive EnsuredDevice (s : Iommu) (deviceId : Nat) (more : List (Nat × Nat)) (result : Option DeviceRecord × Iommu) :
    Prop
  | known (d : DeviceRecord) (hd : d ∈ s.devices) (hmore : more = []) (hresult : result = (some d, s))
  | full (hmore : more = []) (hresult : result = (none, s))
  | noTable (hmore : more = []) (hresult : result = (none, (s.ensureDc deviceId).2))
  | noRoot (m : Ram) (halloc : (s.ensureDc deviceId).2.ram.allocPage = (none, m))
      (hne : (s.ensureDc deviceId).1 ≠ 0) (hmore : more = [(deviceId, (s.ensureDc deviceId).1)])
      (hresult : result = (none, { (s.ensureDc deviceId).2 with ram := m }))
  | created (root : Nat) (m : Ram) (halloc : (s.ensureDc deviceId).2.ram.allocPage = (some root, m))
      (hne : (s.ensureDc deviceId).1 ≠ 0) (hmore : more = [(deviceId, (s.ensureDc deviceId).1)])
      (hresult : result = (some ⟨deviceId, (s.ensureDc deviceId).1, root⟩,
        { (s.ensureDc deviceId).2 with
          ram := writeContext m (s.ensureDc deviceId).2.dcStride (s.ensureDc deviceId).1 root
          devices := (s.ensureDc deviceId).2.devices ++ [⟨deviceId, (s.ensureDc deviceId).1, root⟩] }))

theorem ensureDevice_cases (s : Iommu) (deviceId : Nat) :
    EnsuredDevice s deviceId (s.contextReturned deviceId) (s.ensureDevice deviceId) := by
  unfold Iommu.ensureDevice contextReturned
  cases hfind : s.findDevice deviceId with
  | some d => exact .known d (List.mem_of_find?_eq_some hfind) (if_neg fun hn => by cases hn.1) rfl
  | none =>
    dsimp only
    by_cases hfull : maxDevices ≤ s.devices.length
    · rw [if_pos hfull]
      exact .full (if_neg fun hn => absurd hn.2.1 (Nat.not_lt.mpr hfull)) rfl
    · rw [if_neg hfull]
      have hroom : s.devices.length < maxDevices := Nat.not_le.mp hfull
      by_cases hzero : (s.ensureDc deviceId).1 = 0
      · have hpair : s.ensureDc deviceId = (0, (s.ensureDc deviceId).2) := Prod.ext hzero rfl
        refine .noTable (if_neg fun hn => hn.2.2 hzero) ?_
        rw [hpair]
        rfl
      · obtain ⟨va, hva⟩ := Nat.exists_eq_succ_of_ne_zero hzero
        have hpair : s.ensureDc deviceId = (va + 1, (s.ensureDc deviceId).2) := Prod.ext hva rfl
        cases halloc : (s.ensureDc deviceId).2.ram.allocPage with
        | mk result m =>
          cases result with
          | none =>
            refine .noRoot m halloc hzero (if_pos ⟨rfl, hroom, hzero⟩) ?_
            rw [hpair]
            split
            · rename_i heq
              cases heq
            · rename_i heq
              obtain ⟨rfl, rfl⟩ := Prod.mk.inj heq
              rw [halloc]
          | some root =>
            refine .created root m halloc hzero (if_pos ⟨rfl, hroom, hzero⟩) ?_
            rw [hpair]
            split
            · rename_i heq
              cases heq
            · rename_i heq
              obtain ⟨rfl, rfl⟩ := Prod.mk.inj heq
              rw [halloc]

/-- The same inside a call of `MSI_Vector_Create`. -/
def vectorReturned (s : Iommu) (deviceId vector : Nat) : List (Nat × Nat) :=
  if s.isAvailable = false ∨ s.msiSupported = false ∨ deviceId = noDeviceId ∨ vector > naturalLast / 2 then []
  else s.contextReturned deviceId

/-- The pages of the directory: the root, the tables and the pages of contexts below it. -/
def Owns (s : Iommu) (is : List Nat) (frame : Nat) : Prop :=
  is.length ≤ 2 ∧ walkTables s.ram.words ddteNext is s.ddtRoot = some frame

/-- One step, and the contexts that `Ensure_DC` returns in it with their device ids.  What the rest of the
    kernel does (`elsewhere`) neither writes the directory's tables nor frees its pages. -/
inductive Step : Iommu → List (Nat × Nat) → Iommu → Prop
  | device (s : Iommu) (deviceId : Nat) : Step s (s.contextReturned deviceId) (s.ensureDevice deviceId).2
  | vector (s : Iommu) (deviceId vector : Nat) :
      Step s (s.vectorReturned deviceId vector) (s.msiVectorCreate deviceId vector).2
  | elsewhere (s : Iommu) (m : Ram) (hwf : m.pmm.Wf) (hbelow : m.pmm.Below physicalBound)
      (hkept : ∀ is f, s.Owns is f → (is.length < 2 → m.words f = s.ram.words f) ∧ ¬ m.pmm.Available f) :
      Step s [] { s with ram := m }

/-- Steps one after another, and all contexts that were returned. -/
inductive Run (s : Iommu) : List (Nat × Nat) → Iommu → Prop
  | start : Run s [] s
  | step {trace more : List (Nat × Nat)} {s₁ s₂ : Iommu} (hrun : Run s trace s₁) (hstep : Step s₁ more s₂) :
      Run s (trace ++ more) s₂

/-- The driver with an empty root page, as `Initialize` leaves it. -/
structure Fresh (s : Iommu) : Prop where
  stride : s.dcStride = 32 ∨ s.dcStride = 64
  wf : s.ram.pmm.Wf
  below : s.ram.pmm.Below physicalBound
  aligned : s.ddtRoot % pageSize = 0
  physical : s.ddtRoot < physicalBound
  taken : ¬ s.ram.pmm.Available s.ddtRoot
  empty : ∀ i, s.ram.words s.ddtRoot i = 0
  devices : s.devices = []

theorem Fresh.placed (h : Fresh s) : ∃ node, Placed s [] node := by
  refine ⟨update (fun _ => none) [] (some s.ddtRoot), h.stride, ⟨h.wf, h.below, .single h.empty, ?_, ?_⟩,
    update_self _ _ _, fun c hc => absurd hc List.not_mem_nil, fun d hd => ?_⟩
  · intro p f hp
    by_cases hroot : p = []
    · subst hroot
      obtain rfl := Option.some.inj hp
      exact ⟨h.aligned, h.physical, h.taken⟩
    · rw [update_of_ne hroot] at hp
      cases hp
  · intro p f hp
    by_cases hroot : p = []
    · rw [hroot]
      exact Nat.zero_le 2
    · rw [update_of_ne hroot] at hp
      cases hp
  · rw [h.devices] at hd
    exact absurd hd List.not_mem_nil

namespace Placed

variable {trace : List (Nat × Nat)}

section

variable (h : Placed s trace node)

include h

theorem sameBut (hslot : AtSlot s.dcStride node deviceId dcVa)
    (hsame : ∀ leaf, leaf % pageSize = 0 → leaf < physicalBound →
      dcVa = add64 (physToVirt leaf) (index0 deviceId * s.dcStride) → SameBut leaf s.ram m) :
    Placed { s with ram := m } trace node := by
  obtain ⟨leaf, hleaf, hva⟩ := hslot
  obtain ⟨halign, hlt, -⟩ := h.directory.frames _ _ hleaf
  exact ⟨h.stride, h.directory.sameBut hleaf (Nat.le_refl _) (hsame leaf halign hlt hva), h.root, h.trace, h.devices⟩

/-- **`Ensure_Device`** keeps every context at its slot, the new one included. -/
theorem ensureDevice (deviceId : Nat) :
    ∃ node', Extends node node' ∧ Placed (s.ensureDevice deviceId).2 (trace ++ s.contextReturned deviceId) node' ∧
      ∀ d, (s.ensureDevice deviceId).1 = some d → d ∈ (s.ensureDevice deviceId).2.devices := by
  obtain ⟨node', hextends, hplaced, hslot⟩ := h.ensureDc deviceId
  have hstride : (s.ensureDc deviceId).2.dcStride = s.dcStride := by
    unfold Iommu.ensureDc
    split <;> rfl
  have htraced : (s.ensureDc deviceId).1 ≠ 0 →
      AtSlot (s.ensureDc deviceId).2.dcStride node' deviceId (s.ensureDc deviceId).1 ∧
      Placed (s.ensureDc deviceId).2 (trace ++ [(deviceId, (s.ensureDc deviceId).1)]) node' := by
    intro hne
    have hat := hstride ▸ hslot hne
    refine ⟨hat, hplaced.addTrace fun c hc => ?_⟩
    obtain rfl := List.mem_singleton.mp hc
    exact hat
  cases ensureDevice_cases s deviceId with
  | known d hd hmore hresult =>
    rw [hmore, hresult, List.append_nil]
    refine ⟨node, .refl node, h, fun d' hd' => ?_⟩
    obtain rfl := Option.some.inj hd'
    exact hd
  | full hmore hresult =>
    rw [hmore, hresult, List.append_nil]
    exact ⟨node, .refl node, h, fun d hd => by cases hd⟩
  | noTable hmore hresult =>
    rw [hmore, hresult, List.append_nil]
    exact ⟨node', hextends, hplaced, fun d hd => by cases hd⟩
  | noRoot m halloc hne hmore hresult =>
    obtain ⟨-, hnew⟩ := htraced hne
    obtain ⟨hdir, -⟩ := hnew.directory.allocPage
    rw [halloc] at hdir
    rw [hmore, hresult]
    exact ⟨node', hextends, ⟨hnew.stride, hdir, hnew.root, hnew.trace, hnew.devices⟩, fun d hd => by cases hd⟩
  | created root m halloc hne hmore hresult =>
    obtain ⟨hat, hnew⟩ := htraced hne
    obtain ⟨hdir, -⟩ := hnew.directory.allocPage
    rw [halloc] at hdir
    have hmoved : Placed { (s.ensureDc deviceId).2 with ram := m }
        (trace ++ [(deviceId, (s.ensureDc deviceId).1)]) node' :=
      ⟨hnew.stride, hdir, hnew.root, hnew.trace, hnew.devices⟩
    have hwritten := hmoved.sameBut hat fun leaf halign hlt hva =>
      writeContext_same m (s.ensureDc deviceId).2.dcStride root halign hlt (slot_room hnew.stride deviceId) hva
    rw [hmore, hresult]
    refine ⟨node', hextends, ⟨hwritten.stride, hwritten.directory, hwritten.root, hwritten.trace, ?_⟩, ?_⟩
    · intro d hd
      rcases List.mem_append.mp hd with hd | hd
      · exact hwritten.devices d hd
      · obtain rfl := List.mem_singleton.mp hd
        exact hat
    · intro d hd
      obtain rfl := Option.some.inj hd
      exact List.mem_append_right _ List.mem_cons_self

/-- **`MSI_Vector_Create`** writes into the context of its device. -/
theorem msiVectorCreate (deviceId vector : Nat) : ∃ node', Extends node node' ∧
      Placed (s.msiVectorCreate deviceId vector).2 (trace ++ s.vectorReturned deviceId vector) node' := by
  unfold Iommu.msiVectorCreate vectorReturned
  split
  · rw [List.append_nil]
    exact ⟨node, .refl node, h⟩
  · obtain ⟨node', hextends, hplaced, hmem⟩ := h.ensureDevice deviceId
    refine ⟨node', hextends, ?_⟩
    cases hdev : s.ensureDevice deviceId with
    | mk d s₁ =>
      rw [hdev] at hplaced hmem
      cases d with
      | none => exact hplaced
      | some d =>
        dsimp only
        split
        · exact hplaced
        · split
          · exact hplaced
          · -- three words in the second half of the context
            have hat := hplaced.devices d (hmem d rfl)
            have hwritten := hplaced.sameBut hat
              (m := ((s₁.ram.write64 (add64 d.dcVa 32) (ppnField s₁.msiPt ||| msiptpModeFlat)).write64
                (add64 d.dcVa 40) (2 ^ 64 - 0x1000)).write64 (add64 d.dcVa 48) msiIovaBase) ?_
            · exact ⟨hwritten.stride, hwritten.directory, hwritten.root, hwritten.trace, hwritten.devices⟩
            · intro leaf halign hlt hva
              have hroom : index0 d.deviceId * s₁.dcStride + 56 < pageSize := slot_room hplaced.stride d.deviceId
              have hone : ∀ (m : Ram) (k value : Nat), k ≤ 56 → SameBut leaf m (m.write64 (add64 d.dcVa k) value) := by
                intro m k value hk
                refine write64_same m halign hlt (by omega : index0 d.deviceId * s₁.dcStride + k < pageSize) ?_ value
                rw [hva, add64_add64]
              exact ((hone _ 32 _ (by omega)).trans (hone _ 40 _ (by omega))).trans (hone _ 48 _ (by omega))

/-- **One step.** -/
theorem step {more : List (Nat × Nat)} (hstep : Step s more s') :
    ∃ node', Placed s' (trace ++ more) node' := by
  cases hstep with
  | device deviceId =>
    obtain ⟨node', -, hplaced, -⟩ := h.ensureDevice deviceId
    exact ⟨node', hplaced⟩
  | vector deviceId vector =>
    obtain ⟨node', -, hplaced⟩ := h.msiVectorCreate deviceId vector
    exact ⟨node', hplaced⟩
  | elsewhere m hwf hbelow hkept =>
    have howns : ∀ q f, node q = some f → s.Owns q f := by
      intro q f hq
      have hshort := h.directory.short q f hq
      refine ⟨hshort, ?_⟩
      rw [h.directory.tree.walk_eq h.directory.next_ddte h.root (by rw [List.length_nil]; omega)]
      exact hq
    refine ⟨node, h.stride, ⟨hwf, hbelow, ?_, ?_, h.directory.short⟩, h.root, ?_, h.devices⟩
    · exact h.directory.tree.congr fun q a hq hlt => (hkept q a (howns q a hq)).1 hlt
    · intro q f hq
      obtain ⟨halign, hlt, -⟩ := h.directory.frames q f hq
      exact ⟨halign, hlt, (hkept q f (howns q f hq)).2⟩
    · rw [List.append_nil]
      exact h.trace

end

end Placed

theorem ensureDevice_stride (s : Iommu) (deviceId : Nat) : (s.ensureDevice deviceId).2.dcStride = s.dcStride := by
  have hdc : (s.ensureDc deviceId).2.dcStride = s.dcStride := by
    unfold ensureDc
    split <;> rfl
  cases ensureDevice_cases s deviceId with
  | known d hd hmore hresult => rw [hresult]
  | full hmore hresult => rw [hresult]
  | noTable hmore hresult => rw [hresult]; exact hdc
  | noRoot m halloc hne hmore hresult => rw [hresult]; exact hdc
  | created root m halloc hne hmore hresult => rw [hresult]; exact hdc

theorem Step.dcStride {more : List (Nat × Nat)} (h : Step s more s') : s'.dcStride = s.dcStride := by
  cases h with
  | device deviceId => exact ensureDevice_stride s deviceId
  | elsewhere m hwf hbelow hkept => rfl
  | vector deviceId vector =>
    have hdev := ensureDevice_stride s deviceId
    unfold msiVectorCreate
    split
    · rfl
    · cases hresult : s.ensureDevice deviceId with
      | mk d s₁ =>
        rw [hresult] at hdev
        cases d with
        | none => exact hdev
        | some d =>
          dsimp only
          split
          · exact hdev
          · split
            · exact hdev
            · exact hdev

/-- **A whole run**: every context that was ever returned is at its slot. -/
theorem Run.placed {trace : List (Nat × Nat)} (hfresh : Fresh s) (h : Run s trace s') :
    s'.dcStride = s.dcStride ∧ ∃ node, Placed s' trace node := by
  induction h with
  | start => exact ⟨rfl, hfresh.placed⟩
  | step hrun hstep ih =>
    obtain ⟨hstride, node, hplaced⟩ := ih
    exact ⟨hstep.dcStride.trans hstride, hplaced.step hstep⟩

/-! ## The two walks -/

/-- The driver's context of a device is the one that the hardware finds, and lies in its page. -/
def ContextFound (s : Iommu) (c : Nat × Nat) : Prop :=
  ∃ leaf, s.hardwareLeaf c.1 = some leaf ∧ c.2 = physToVirt (leaf + ddi0 s.dcStride c.1 * s.dcStride) ∧
    leaf % pageSize = 0 ∧ ddi0 s.dcStride c.1 * s.dcStride + s.dcStride ≤ pageSize

/-- Contexts of two devices do not overlap. -/
def ContextsApart (s : Iommu) (c d : Nat × Nat) : Prop := c.2 + s.dcStride ≤ d.2 ∨ d.2 + s.dcStride ≤ c.2

/-- **Contexts are where the hardware looks**, and apart. -/
def ContextsExact (s : Iommu) (trace : List (Nat × Nat)) : Prop :=
  (∀ c ∈ trace, ContextFound s c) ∧ ∀ c ∈ trace, ∀ d ∈ trace, c.1 ≠ d.1 → ContextsApart s c d

theorem ddi_eq_iff (hstride : stride = 32 ∨ stride = 64) (hid : deviceId < 2 ^ 24) :
    (ddi2 stride deviceId = index2 deviceId ∧ ddi1 stride deviceId = index1 deviceId) ↔
      stride = 64 ∨ deviceId < 64 := by
  unfold ddi2 ddi1 index2 index1
  rcases hstride with rfl | rfl
  · rw [if_neg (by decide), if_neg (by decide)]
    omega
  · rw [if_pos rfl, if_pos rfl]
    omega

theorem ddi0_eq (h : stride = 64 ∨ deviceId < 64) : ddi0 stride deviceId = index0 deviceId := by
  unfold ddi0 index0
  split
  · rfl
  · omega

theorem ddi0_room (hstride : stride = 32 ∨ stride = 64) (deviceId : Nat) :
    ddi0 stride deviceId * stride + stride ≤ pageSize := by
  unfold ddi0 pageSize
  rcases hstride with rfl | rfl
  · rw [if_neg (by decide)]
    omega
  · rw [if_pos rfl]
    omega

theorem same_page {leaf' off' : Nat} (halign : leaf % pageSize = 0) (halign' : leaf' % pageSize = 0)
    (hlt : leaf < physicalBound) (hlt' : leaf' < physicalBound) (hoff : off < pageSize) (hoff' : off' < pageSize)
    (heq : add64 (physToVirt leaf) off = physToVirt (leaf' + off')) : leaf = leaf' := by
  unfold physToVirt add64 physmapBase physicalBound pageSize at *
  omega

theorem add64_physToVirt (leaf off : Nat) : add64 (physToVirt leaf) off = physToVirt (leaf + off) := by
  exact add64_add64 _ _ _

namespace Placed

variable {trace : List (Nat × Nat)} {c d : Nat × Nat}

/-- **One context**: the hardware finds it exactly if the splits agree. -/
theorem found_iff (h : Placed s trace node) (hc : c ∈ trace) (hid : c.1 < 2 ^ 24) :
    ContextFound s c ↔ s.dcStride = 64 ∨ c.1 < 64 := by
  obtain ⟨leaf, hleaf, hva⟩ := h.trace c hc
  obtain ⟨halign, hlt, -⟩ := h.directory.frames _ _ hleaf
  have hwalk : s.hardwareLeaf c.1 = node [ddi2 s.dcStride c.1, ddi1 s.dcStride c.1] :=
    h.directory.tree.walk_eq h.directory.next_ddte h.root (Nat.le_refl _)
  unfold ContextFound
  rw [hwalk, ← ddi_eq_iff h.stride hid]
  constructor
  · -- one address, so one page, so one path
    rintro ⟨leaf', hleaf', hva', halign', hroom'⟩
    obtain ⟨-, hlt', -⟩ := h.directory.frames _ _ hleaf'
    have hpos : 0 < s.dcStride := by
      rcases h.stride with heq | heq
      · rw [heq]; decide
      · rw [heq]; decide
    have hslot := slot_room h.stride c.1
    obtain rfl := same_page halign halign' hlt hlt' (by omega) (by omega) (hva.symm.trans hva')
    have hpath := h.directory.tree.distinct hleaf' hleaf
    injection hpath with h2 htail
    injection htail with h1
    exact ⟨h2, h1⟩
  · rintro ⟨h2, h1⟩
    have hagree := (ddi_eq_iff h.stride hid).mp ⟨h2, h1⟩
    refine ⟨leaf, ?_, ?_, halign, ddi0_room h.stride c.1⟩
    · rw [h2, h1]
      exact hleaf
    · rw [ddi0_eq hagree, hva, add64_physToVirt]

/-- **Contexts of two devices** are different slots. -/
theorem apart (h : Placed s trace node) (hc : c ∈ trace) (hd : d ∈ trace) (hcid : c.1 < 2 ^ 24)
    (hdid : d.1 < 2 ^ 24) (hne : c.1 ≠ d.1) : ContextsApart s c d := by
  obtain ⟨leaf, hleaf, hva⟩ := h.trace c hc
  obtain ⟨leaf', hleaf', hva'⟩ := h.trace d hd
  obtain ⟨halign, hlt, -⟩ := h.directory.frames _ _ hleaf
  obtain ⟨halign', hlt', -⟩ := h.directory.frames _ _ hleaf'
  have hpaths : leaf = leaf' → index2 c.1 = index2 d.1 ∧ index1 c.1 = index1 d.1 := by
    rintro rfl
    have hpath := h.directory.tree.distinct hleaf hleaf'
    injection hpath with h2 htail
    injection htail with h1
    exact ⟨h2, h1⟩
  have hslots : leaf = leaf' → index0 c.1 ≠ index0 d.1 := by
    intro heq hzero
    unfold index2 index1 index0 at *
    omega
  have hroom : index0 c.1 < 64 ∧ index0 d.1 < 64 := ⟨Nat.mod_lt _ (by decide), Nat.mod_lt _ (by decide)⟩
  unfold ContextsApart
  rw [hva, hva']
  unfold physToVirt add64 physmapBase physicalBound pageSize at *
  rcases h.stride with hstride | hstride
  · rw [hstride]
    omega
  · rw [hstride]
    omega

end Placed

/-- **Exactly when contexts are where the hardware looks.** -/
theorem contexts_exact_iff {trace : List (Nat × Nat)} (hfresh : Fresh s) (hrun : Run s trace s')
    (hids : ∀ c ∈ trace, c.1 < 2 ^ 24) :
    ContextsExact s' trace ↔ s.dcStride = 64 ∨ ∀ c ∈ trace, c.1 < 64 := by
  obtain ⟨hstride, node, hplaced⟩ := hrun.placed hfresh
  have hfound : (∀ c ∈ trace, ContextFound s' c) ↔ s.dcStride = 64 ∨ ∀ c ∈ trace, c.1 < 64 := by
    rw [← hstride]
    constructor
    · intro hall
      by_cases hlarge : s'.dcStride = 64
      · exact .inl hlarge
      · refine .inr fun c hc => ?_
        exact ((hplaced.found_iff hc (hids c hc)).mp (hall c hc)).resolve_left hlarge
    · rintro hagree c hc
      exact (hplaced.found_iff hc (hids c hc)).mpr (hagree.imp_right fun hsmall => hsmall c hc)
  constructor
  · rintro ⟨hall, -⟩
    exact hfound.mp hall
  · intro hagree
    refine ⟨hfound.mpr hagree, fun c hc d hd hne => ?_⟩
    exact hplaced.apart hc hd (hids c hc) (hids d hd) hne

/-! ## One device -/

/-- The driver after its initialisation, for contexts of `stride` bytes. -/
def freshIommu (stride : Nat) : Iommu :=
  ⟨true, false, stride, 0x80401000, 0, [], [], ⟨fun _ _ => 0, smallMachine.pmm⟩⟩

theorem freshIommu_fresh (h : stride = 32 ∨ stride = 64) : Fresh (freshIommu stride) := by
  have hbelow : smallMachine.pmm.nextFrame ≤ physicalBound ∧ smallMachine.pmm.limit ≤ physicalBound := by decide
  have htaken : ¬ smallMachine.pmm.Available 0x80401000 := by
    rintro ⟨-, hfree | hnext⟩
    · exact absurd hfree (by decide)
    · exact absurd hnext (by decide)
  have hroot : 0x80401000 % pageSize = 0 ∧ 0x80401000 < physicalBound := by decide
  exact ⟨h, smallMachine.pmm_wf, ⟨hbelow.1, hbelow.2, fun r hr => absurd hr List.not_mem_nil⟩, hroot.1, hroot.2,
    htaken, fun _ => rfl, rfl⟩

/-- With contexts of 64 bytes, the hardware finds device 300. -/
theorem contexts_exact_iff_large : ∃ s' dcVa, Run (freshIommu 64) [(300, dcVa)] s' ∧
    ContextsExact s' [(300, dcVa)] := by
  have hreturned : (freshIommu 64).contextReturned 300 = [(300, ((freshIommu 64).ensureDc 300).1)] := by decide +kernel
  have hrun : Run (freshIommu 64) [(300, ((freshIommu 64).ensureDc 300).1)] ((freshIommu 64).ensureDevice 300).2 :=
    hreturned ▸ Run.step .start (.device (freshIommu 64) 300)
  refine ⟨_, _, hrun, (contexts_exact_iff (freshIommu_fresh (.inr rfl)) hrun ?_).mpr (.inl rfl)⟩
  intro c hc
  obtain rfl := List.mem_singleton.mp hc
  decide

/-- **With contexts of 32 bytes, the hardware does not find device 64.** -/
theorem context_missed : ¬ ∀ (s s' : Iommu) (trace : List (Nat × Nat)), Fresh s → Run s trace s' →
    (∀ c ∈ trace, c.1 < 2 ^ 24) → ContextsExact s' trace := by
  intro hall
  have hreturned : (freshIommu 32).contextReturned 64 = [(64, ((freshIommu 32).ensureDc 64).1)] := by decide +kernel
  have hrun : Run (freshIommu 32) [(64, ((freshIommu 32).ensureDc 64).1)] ((freshIommu 32).ensureDevice 64).2 :=
    hreturned ▸ Run.step .start (.device (freshIommu 32) 64)
  have hfresh : Fresh (freshIommu 32) := freshIommu_fresh (.inl rfl)
  have hids : ∀ c ∈ [(64, ((freshIommu 32).ensureDc 64).1)], c.1 < 2 ^ 24 := by
    intro c hc
    obtain rfl := List.mem_singleton.mp hc
    decide
  have hexact := hall _ _ _ hfresh hrun hids
  obtain ⟨hstride, node, hplaced⟩ := hrun.placed hfresh
  have hfound := hexact.1 _ List.mem_cons_self
  rcases (hplaced.found_iff List.mem_cons_self (hids _ List.mem_cons_self)).mp hfound with hlarge | hsmall
  · rw [hstride] at hlarge
    exact absurd hlarge (by decide)
  · exact absurd hsmall (by decide)

end Aegir.Arch.Iommu
