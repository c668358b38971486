/-
  What `Op_Read` returns.

  A read goes to the device for the sectors the cache misses and copies the cached ones over the buffer
  afterwards.  Neither step changes the cache, so each position ends with the sector's expected bytes.  The
  two paths differ in how they find the hits: the small read looks all of them up first, the large read one
  by one after the chain has completed.
-/
import Aegir.Block.DriverLaws

namespace Aegir.VirtioBlk

open List Function

open Driver (ReadLoop)

/-! ## Buffers -/

variable {i j : Nat}

@[simp]
theorem put_pages (b : Buffer) (i : Nat) (x : SectorData) : (b.put i x).pages = b.pages := by
  unfold Buffer.put
  split <;> rfl

theorem get_put_self (b : Buffer) (x : SectorData) (hi : i / 8 < b.pages) : (b.put i x).get i = some x := by
  rw [Buffer.put, if_pos hi]
  show (if i / 8 < b.pages then some (update b.content i x i) else none) = some x
  rw [if_pos hi, update_self]

theorem get_put_ne (b : Buffer) (x : SectorData) (h : j ≠ i) : (b.put i x).get j = b.get j := by
  unfold Buffer.put
  split
  · show (if j / 8 < b.pages then some (update b.content i x j) else none) = _
    rw [update_of_ne h]
    rfl
  · rfl

theorem get_putAll (f : Nat → SectorData) (is : List Nat) (b : Buffer) :
    (is.foldl (fun b i => b.put i (f i)) b).pages = b.pages ∧
      ∀ j, (j ∈ is → j / 8 < b.pages → (is.foldl (fun b i => b.put i (f i)) b).get j = some (f j)) ∧
        (j ∉ is → (is.foldl (fun b i => b.put i (f i)) b).get j = b.get j) := by
  induction is generalizing b with
  | nil => exact ⟨rfl, fun j => ⟨fun h => (nomatch h), fun _ => rfl⟩⟩
  | cons i is ih =>
    obtain ⟨hpages, hget⟩ := ih (b.put i (f i))
    rw [put_pages] at hpages
    refine ⟨hpages, fun j => ⟨?_, ?_⟩⟩
    · intro hj hpage
      rw [foldl_cons]
      by_cases hrest : j ∈ is
      · exact (hget j).1 hrest (by rw [put_pages]; exact hpage)
      · rcases mem_cons.mp hj with rfl | hj
        · rw [(hget j).2 hrest, get_put_self _ _ hpage]
        · exact absurd hj hrest
    · intro hj
      have hne : j ≠ i := fun h => hj (h ▸ mem_cons_self)
      rw [foldl_cons, (hget j).2 fun h => hj (mem_cons_of_mem _ h), get_put_ne _ _ hne]

theorem SameCache.findSlot {d d' : Driver} (h : SameCache d d') (s : UInt64) : d'.findSlot s = d.findSlot s := by
  unfold Driver.findSlot
  simp only [h.valid, h.sector]

/-! ## The misses -/

section Misses

variable {d : Driver} {sector : UInt64} {b : Buffer} {hit : Nat → Option (Fin cacheSlots)} {l : ReadLoop}

theorem readRun_spec (d : Driver) (sector : UInt64) (b : Buffer) (first count : Nat) :
    SameCache d (d.readRun sector b first count).1 ∧ (d.readRun sector b first count).2.1.pages = b.pages ∧
      ((d.readRun sector b first count).2.2 = 0 → ∀ j, (first ≤ j ∧ j < first + count → j / 8 < b.pages →
          (d.readRun sector b first count).2.1.get j = some (d.device (sector + UInt64.ofNat j))) ∧
        (¬ (first ≤ j ∧ j < first + count) → (d.readRun sector b first count).2.1.get j = b.get j)) := by
  have hall := get_putAll (fun i => d.device (sector + UInt64.ofNat i)) (range' first count) b
  have hsame := readDone_same d (sector + UInt64.ofNat first) count
  have hrun : d.readRun sector b first count = ((d.readDone (sector + UInt64.ofNat first) count).1,
      if d.fate d.requests = 0 then
        (range' first count).foldl (fun b i => b.put i (d.device (sector + UInt64.ofNat i))) b
      else b, d.fate d.requests) := rfl
  rw [hrun]
  refine ⟨hsame, ?_, ?_⟩
  · show (if _ then _ else b).pages = b.pages
    split
    · exact hall.1
    · rfl
  · intro hst j
    rw [if_pos hst]
    refine ⟨fun hj hpage => (hall.2 j).1 ?_ hpage, fun hj => (hall.2 j).2 ?_⟩
    · exact mem_range'_1.mpr hj
    · exact fun h => hj (mem_range'_1.mp h)

/-- The miss loop before position `i`: what lies before the open run has been read. -/
structure Missing (d : Driver) (hit : Nat → Option (Fin cacheSlots)) (sector : UInt64) (b : Buffer) (i : Nat)
    (l : ReadLoop) : Prop where
  same : SameCache d l.driver
  pages : l.buf.pages = b.pages
  got : l.status = 0 → ∀ j, j < i → hit j = none → (∀ first, l.runFrom = some first → j < first) →
    j / 8 < b.pages → l.buf.get j = some (d.device (sector + UInt64.ofNat j))
  opened : ∀ first, l.runFrom = some first → first < i
  unread : ∀ first, l.runFrom = some first → ∀ j, first ≤ j → j < i → hit j = none

theorem endRun_runFrom (l : ReadLoop) (sector : UInt64) (first i : Nat) : (l.endRun sector first i).runFrom = none := by
  unfold ReadLoop.endRun
  split <;> rfl

theorem Missing.endRun {first : Nat} (h : Missing d hit sector b i l) (hopen : l.runFrom = some first) :
    Missing d hit sector b i (l.endRun sector first i) := by
  unfold ReadLoop.endRun
  by_cases hst : l.status = 0
  · rw [if_pos hst]
    obtain ⟨hsame, hpages, hget⟩ := readRun_spec l.driver sector l.buf first (i - first)
    cases hr : l.driver.readRun sector l.buf first (i - first) with
    | mk d' rest =>
      cases rest with
      | mk b' status =>
        rw [hr] at hsame hpages hget
        refine ⟨h.same.trans hsame, hpages.trans h.pages, ?_, fun f hf => (nomatch hf), fun f hf => (nomatch hf)⟩
        intro hst' j hj hmiss _ hpage
        have hj' := hget hst' j
        rw [h.pages, h.same.device] at hj'
        by_cases hrun : first ≤ j
        · exact hj'.1 ⟨hrun, by omega⟩ hpage
        · rw [hj'.2 fun hc => hrun hc.1]
          refine h.got hst j hj hmiss ?_ hpage
          intro f hf
          rw [hopen] at hf
          injection hf with hf
          omega
  · rw [if_neg hst]
    exact ⟨h.same, h.pages, fun h0 => absurd h0 hst, fun f hf => (nomatch hf), fun f hf => (nomatch hf)⟩

theorem Missing.step
    (h : Missing d hit sector b i l) : Missing d hit sector b (i + 1) (ReadLoop.step hit sector l i) := by
  unfold ReadLoop.step
  cases hhit : hit i with
  | none =>
    cases hrun : l.runFrom with
    | none =>
      -- a run begins here
      refine ⟨h.same, h.pages, ?_, ?_, ?_⟩
      · intro hst j hj hmiss hbefore hpage
        have hji := hbefore i rfl
        exact h.got hst j hji hmiss (fun f hf => by rw [hrun] at hf; cases hf) hpage
      · intro first hf
        injection hf with hf
        omega
      · intro first hf j hfj hj
        injection hf with hf
        have hji : j = i := by omega
        rw [hji]
        exact hhit
    | some first =>
      -- the run goes on
      refine ⟨h.same, h.pages, ?_, fun f hf => Nat.lt_succ_of_lt (h.opened f hf), ?_⟩
      · intro hst j hj hmiss hbefore hpage
        have hfirst := hbefore first hrun
        have hlt := h.opened first hrun
        exact h.got hst j (by omega) hmiss hbefore hpage
      · intro f hf j hfj hj
        by_cases hji : j = i
        · rw [hji]
          exact hhit
        · exact h.unread f hf j hfj (by omega)
  | some s =>
    have hkeep : ∀ l' : ReadLoop, Missing d hit sector b i l' → l'.runFrom = none →
        Missing d hit sector b (i + 1) l' := by
      intro l' h' hnone
      have hclosed : ∀ f, l'.runFrom ≠ some f := fun f hf => by
        rw [hnone] at hf
        cases hf
      refine ⟨h'.same, h'.pages, ?_, fun f hf => absurd hf (hclosed f), fun f hf => absurd hf (hclosed f)⟩
      intro hst j hj hmiss hbefore hpage
      by_cases hji : j = i
      · rw [hji, hhit] at hmiss
        cases hmiss
      · exact h'.got hst j (by omega) hmiss hbefore hpage
    cases hrun : l.runFrom with
    | none => exact hkeep l h hrun
    | some first =>
      exact hkeep _ (h.endRun hrun) (endRun_runFrom l sector first i)

theorem readMisses_spec (d : Driver) (hit : Nat → Option (Fin cacheSlots)) (sector : UInt64) (b : Buffer)
    (count : Nat) : Missing d hit sector b count (d.readMisses hit sector b count) ∧
      (d.readMisses hit sector b count).runFrom = none := by
  have hloop : ∀ n, Missing d hit sector b n ((range n).foldl (ReadLoop.step hit sector) ⟨d, b, none, 0⟩) := by
    intro n
    induction n with
    | zero => exact ⟨SameCache.refl d, rfl, fun _ j hj => absurd hj (Nat.not_lt_zero j), fun f hf => (nomatch hf),
        fun f hf => (nomatch hf)⟩
    | succ n ih =>
      rw [range_succ, foldl_append]
      exact ih.step
  have h := hloop count
  unfold Driver.readMisses
  simp only []
  cases hrun : ((range count).foldl (ReadLoop.step hit sector) ⟨d, b, none, 0⟩).runFrom with
  | none => exact ⟨h, hrun⟩
  | some first =>
    exact ⟨h.endRun hrun, endRun_runFrom _ sector first count⟩

end Misses

/-! ## The hits -/

section Hits

variable {initial : UInt64 → SectorData} {d : Driver} {sector : UInt64} {b : Buffer}

theorem copyHits_other (hit : Nat → Option (Fin cacheSlots)) (is : List Nat) (d : Driver) (b : Buffer)
    (hj : j ∉ is) : (Driver.copyHits hit is (d, b)).2.get j = b.get j := by
  induction is generalizing d b with
  | nil => rfl
  | cons i is ih =>
    have hne : j ≠ i := fun h => hj (h ▸ mem_cons_self)
    have hj' : j ∉ is := fun h => hj (mem_cons_of_mem _ h)
    unfold Driver.copyHits
    cases hit i with
    | none => exact ih d b hj'
    | some s =>
      rw [ih _ _ hj', get_put_ne _ _ hne]

theorem copyHits_spec (hit : Nat → Option (Fin cacheSlots)) (is : List Nat) (d : Driver) (b : Buffer) :
    SameCache d (Driver.copyHits hit is (d, b)).1 ∧ (Driver.copyHits hit is (d, b)).2.pages = b.pages ∧
      ∀ j, (∀ s, j ∈ is → hit j = some s → j / 8 < b.pages →
          (Driver.copyHits hit is (d, b)).2.get j = some (d.slot s).data) ∧
        (hit j = none → (Driver.copyHits hit is (d, b)).2.get j = b.get j) := by
  induction is generalizing d b with
  | nil => exact ⟨SameCache.refl d, rfl, fun j => ⟨fun _ h => (nomatch h), fun _ => rfl⟩⟩
  | cons i is ih =>
    unfold Driver.copyHits
    cases hi : hit i with
    | none =>
      obtain ⟨hsame, hpages, hget⟩ := ih d b
      refine ⟨hsame, hpages, fun j => ⟨?_, (hget j).2⟩⟩
      intro s hj hs hpage
      rcases mem_cons.mp hj with rfl | hj
      · rw [hi] at hs
        cases hs
      · exact (hget j).1 s hj hs hpage
    | some t =>
      obtain ⟨hsame, hpages, hget⟩ := ih (d.touch t) (b.put i (d.slot t).data)
      have htouch := touch_same d t
      rw [put_pages] at hpages hget
      refine ⟨htouch.trans hsame, hpages, fun j => ⟨?_, ?_⟩⟩
      · intro s hj hs hpage
        by_cases hrest : j ∈ is
        · rw [← htouch.data]
          exact (hget j).1 s hrest hs hpage
        · rcases mem_cons.mp hj with rfl | hj
          · rw [hi] at hs
            injection hs with hs
            rw [copyHits_other hit is _ _ hrest, get_put_self _ _ hpage, hs]
          · exact absurd hj hrest
      · intro hnone
        have hne : j ≠ i := by
          intro h
          rw [h, hi] at hnone
          cases hnone
        rw [(hget j).2 hnone, get_put_ne _ _ hne]

theorem copyPages_eq {d0 : Driver} (sector : UInt64) (maps : Nat → Bool) (is : List Nat) (d : Driver) (b : Buffer)
    (status : UInt8) (hd : SameCache d0 d) (h : (Driver.copyPages sector maps is (d, b, status)).2.2 = 0) :
    status = 0 ∧ Driver.copyPages sector maps is (d, b, status)
      = ((Driver.copyHits (fun i => d0.findSlot (sector + UInt64.ofNat i)) is (d, b)).1,
        (Driver.copyHits (fun i => d0.findSlot (sector + UInt64.ofNat i)) is (d, b)).2, 0) := by
  induction is generalizing d b status with
  | nil =>
    have h0 : status = 0 := h
    exact ⟨h0, by rw [h0]; rfl⟩
  | cons i is ih =>
    unfold Driver.copyPages at h ⊢
    unfold Driver.copyHits
    rw [hd.findSlot] at h ⊢
    cases hf : d0.findSlot (sector + UInt64.ofNat i) with
    | none =>
      rw [hf] at h
      exact ih d b status hd h
    | some s =>
      rw [hf] at h
      simp only [] at h ⊢
      by_cases hmap : maps i = true ∧ i / 8 < b.pages
      · rw [if_pos hmap] at h ⊢
        exact ih _ _ status (hd.trans (touch_same d s)) h
      · rw [if_neg hmap] at h
        exact absurd (ih d b 1 hd h).1 (by decide)

theorem expected_of_parts {hit : Nat → Option (Fin cacheSlots)} (hc : Coherent initial d)
    (hhit : ∀ i, hit i = d.findSlot (sector + UInt64.ofNat i)) {x : Option SectorData}
    (hmiss : hit j = none → x = some (d.device (sector + UInt64.ofNat j)))
    (hfound : ∀ s, hit j = some s → x = some (d.slot s).data) :
    x = some (expected initial d.log (sector + UInt64.ofNat j)) := by
  cases hf : hit j with
  | none =>
    have hnone := findSlot_none ((hhit j).symm.trans hf)
    rw [hmiss hf, hc.absent _ hnone]
  | some s =>
    obtain ⟨hv, hs⟩ := findSlot_some ((hhit j).symm.trans hf)
    rw [hfound s hf, hc.holds s hv, hs]

theorem readSmall_eq {hit : Nat → Option (Fin cacheSlots)} (hlook : ∀ i, hit i = d.findSlot (sector + UInt64.ofNat i))
    (count : Nat) (b : Buffer) (mapped : Bool) : d.readSmall sector count b mapped =
      if (d.readMisses hit sector b count).status = 0 ∧ (range count).any (fun i => (hit i).isSome) then
        if mapped then
          match Driver.copyHits hit (range count) ((d.readMisses hit sector b count).driver,
            (d.readMisses hit sector b count).buf) with
          | (d, b) => (d, b, 0)
        else ((d.readMisses hit sector b count).driver, (d.readMisses hit sector b count).buf, 1)
      else ((d.readMisses hit sector b count).driver, (d.readMisses hit sector b count).buf,
        (d.readMisses hit sector b count).status) := by
  rw [show hit = fun i => d.findSlot (sector + UInt64.ofNat i) from funext hlook]
  rfl

theorem readSmall_same (d : Driver) (sector : UInt64) (count : Nat) (b : Buffer) (mapped : Bool) :
    SameCache d (d.readSmall sector count b mapped).1 := by
  rw [readSmall_eq (fun _ => rfl)]
  have hm := (readMisses_spec d (fun i => d.findSlot (sector + UInt64.ofNat i)) sector b count).1
  generalize d.readMisses (fun i => d.findSlot (sector + UInt64.ofNat i)) sector b count = l at hm
  split
  · split
    · exact hm.same.trans (copyHits_spec _ (range count) l.driver l.buf).1
    · exact hm.same
  · exact hm.same

theorem readSmall_spec (hc : Coherent initial d) (count : Nat) (b : Buffer) (mapped : Bool) :
    (d.readSmall sector count b mapped).2.2 = 0 → (d.readSmall sector count b mapped).2.1.pages = b.pages ∧
      ∀ j, j < count → j / 8 < b.pages → (d.readSmall sector count b mapped).2.1.get j
        = some (expected initial d.log (sector + UInt64.ofNat j)) := by
  generalize hhit : (fun i => d.findSlot (sector + UInt64.ofNat i)) = hit
  have hlook : ∀ i, hit i = d.findSlot (sector + UInt64.ofNat i) := fun i => by rw [← hhit]
  obtain ⟨hm, hclosed⟩ := readMisses_spec d hit sector b count
  rw [readSmall_eq hlook]
  generalize d.readMisses hit sector b count = l at hm hclosed
  have hmiss : l.status = 0 → ∀ j, j < count → j / 8 < b.pages → hit j = none →
      l.buf.get j = some (d.device (sector + UInt64.ofNat j)) := fun h0 j hj hpage hnone =>
    hm.got h0 j hj hnone (fun f hf => by rw [hclosed] at hf; cases hf) hpage
  by_cases hany : l.status = 0 ∧ ((range count).any fun i => (hit i).isSome) = true
  · rw [if_pos hany]
    split_ifs with hmap
    · obtain ⟨-, hpages, hget⟩ := copyHits_spec hit (range count) l.driver l.buf
      cases hcopy : Driver.copyHits hit (range count) (l.driver, l.buf) with
      | mk d' b' =>
        rw [hcopy] at hpages hget
        refine fun _ => ⟨hpages.trans hm.pages, fun j hj hpage => ?_⟩
        refine expected_of_parts hc hlook ?_ ?_
        · intro hnone
          rw [← hmiss hany.1 j hj hpage hnone]
          exact (hget j).2 hnone
        · intro s hs
          rw [← hm.same.data]
          exact (hget j).1 s (mem_range.mpr hj) hs (by rw [hm.pages]; exact hpage)
    · exact fun h => absurd (show (1 : UInt8) = 0 from h) (by decide)
  · rw [if_neg hany]
    refine fun h0 => ⟨hm.pages, fun j hj hpage => ?_⟩
    have hnone : hit j = none := by
      cases hf : hit j with
      | none => rfl
      | some s =>
        refine absurd ⟨h0, any_eq_true.mpr ⟨j, mem_range.mpr hj, ?_⟩⟩ hany
        rw [hf]
        rfl
    refine expected_of_parts hc hlook (hmiss h0 j hj hpage) ?_
    intro s hs
    rw [hnone] at hs
    cases hs

theorem copyPages_same (sector : UInt64) (maps : Nat → Bool) (is : List Nat) (d : Driver) (b : Buffer)
    (status : UInt8) : SameCache d (Driver.copyPages sector maps is (d, b, status)).1 := by
  induction is generalizing d b status with
  | nil => exact SameCache.refl d
  | cons i is ih =>
    unfold Driver.copyPages
    cases d.findSlot (sector + UInt64.ofNat i) with
    | none => exact ih d b status
    | some s =>
      simp only []
      split
      · exact (touch_same d s).trans (ih _ _ _)
      · exact ih d b 1

theorem readLarge_same (d : Driver) (sector : UInt64) (count : Nat) (b : Buffer) (maps : Nat → Bool) :
    SameCache d (d.readLarge sector count b maps).1 := by
  have hsame := (readRun_spec d sector b 0 count).1
  unfold Driver.readLarge
  cases hr : d.readRun sector b 0 count with
  | mk d1 rest =>
    rw [hr] at hsame
    simp only []
    split
    · exact hsame.trans (copyPages_same _ _ _ _ _ _)
    · exact hsame

theorem readLarge_spec (hc : Coherent initial d) (count : Nat) (b : Buffer) (maps : Nat → Bool) :
    (d.readLarge sector count b maps).2.2 = 0 → (d.readLarge sector count b maps).2.1.pages = b.pages ∧
        ∀ j, j < count → j / 8 < b.pages → (d.readLarge sector count b maps).2.1.get j
          = some (expected initial d.log (sector + UInt64.ofNat j)) := by
  obtain ⟨hsame, hpages, hget⟩ := readRun_spec d sector b 0 count
  unfold Driver.readLarge
  cases hr : d.readRun sector b 0 count with
  | mk d1 rest =>
    cases rest with
    | mk b1 status =>
      rw [hr] at hsame hpages hget
      simp only [] at hsame hpages hget ⊢
      by_cases hst : status = 0
      · rw [if_pos hst]
        intro h
        have heq := (copyPages_eq sector maps (range count) d1 b1 0 hsame h).2
        rw [heq]
        obtain ⟨-, hpages', hget'⟩ := copyHits_spec (fun i => d.findSlot (sector + UInt64.ofNat i))
          (range count) d1 b1
        refine ⟨hpages'.trans hpages, fun j hj hpage => ?_⟩
        refine expected_of_parts hc (fun i => rfl) ?_ ?_
        · intro hnone
          rw [← ((hget hst j).1 ⟨Nat.zero_le _, by omega⟩ hpage)]
          exact (hget' j).2 hnone
        · intro s hs
          rw [← hsame.data]
          exact (hget' j).1 s (mem_range.mpr hj) hs (by rw [hpages]; exact hpage)
      · rw [if_neg hst]
        exact fun h => absurd h hst

end Hits

/-- **What a message can do to the driver**: reads leave the cache alone, and the others are a pass or a copy
    loop. -/
theorem serve_induct {P : Driver → Prop} (d : Driver) (r : Request) (hsame : ∀ d', SameCache d d' → P d')
    (hflush : P (d.flushDirty true).1) (hwrite : ∀ sector b is, P (Driver.writeSectors sector b is d).1) :
    P (d.serve r).1 := by
  have hd := hsame d (SameCache.refl d)
  cases r with
  | notification => exact hd
  | info => exact hd
  | other => exact hd
  | flush => exact hflush
  | read sector count buf maps =>
    unfold Driver.serve
    cases buf with
    | none => exact hd
    | some b =>
      simp only []
      split
      · exact hd
      · split
        · exact hsame _ (readSmall_same d sector count.toNat b (maps 0))
        · exact hsame _ (readLarge_same d sector count.toNat b maps)
  | write sector count buf maps =>
    unfold Driver.serve
    cases buf with
    | none => exact hd
    | some b =>
      simp only []
      split
      · exact hd
      · split
        · exact hwrite sector b (range count.toNat)
        · exact hd

/-!
## Every turn of the service loop keeps the cache coherent

From that, for every history and every pattern of failing device requests: a sector has at most one valid
slot, a clean slot holds the bytes of the device, and a read with status 0 returns what was last
accepted.  The last holds for the sectors the client's buffer has PAGES for; the large read does not
refuse a buffer that is too small.
-/

section Turn

variable {initial : UInt64 → SectorData} {d : Driver} {reply : Reply}

theorem writeBack_requests (is : List (Fin cacheSlots)) (d : Driver) :
    Requests d.log (Driver.writeBack is d).1.log := by
  induction is generalizing d with
  | nil => exact Requests.refl _
  | cons s is ih =>
    unfold Driver.writeBack
    split
    · have hw := (writeSector_fst d (d.slot s).sector (d.slot s).data).2
      cases hws : d.writeSector (d.slot s).sector (d.slot s).data with
      | mk d' status =>
        rw [hws] at hw
        simp only []
        split
        · exact hw
        · exact hw.trans (ih _)
    · exact ih d

theorem flushDirty_requests (d : Driver) (force : Bool) : Requests d.log (d.flushDirty force).1.log := by
  unfold Driver.flushDirty
  split
  · exact Requests.refl _
  · have hw := writeBack_requests (List.finRange cacheSlots) d
    cases hwb : Driver.writeBack (List.finRange cacheSlots) d with
    | mk d' ok =>
      rw [hwb] at hw
      cases ok with
      | false => exact hw
      | true =>
        simp only []
        split
        · exact hw.trans (deviceFlush_same d').log
        · exact hw

theorem Coherent.serve (hc : Coherent initial d) (r : Request) : Coherent initial (d.serve r).1 :=
  serve_induct d r (fun _ hsame => hsame.coherent hc) (hc.flushDirty true) fun sector b is =>
    hc.writeSectors sector b is

theorem Coherent.turn (hc : Coherent initial d) (r : Request) : Coherent initial (d.turn r).1 :=
  (hc.flushDirty false).serve r

theorem Coherent.after (hc : Coherent initial d) (rs : List Request) : Coherent initial (d.after rs) := by
  induction rs generalizing d with
  | nil => exact hc
  | cons r rs ih => exact ih (hc.turn r)

/-- The reply's buffer holds these sectors. -/
def Reply.Returns (r : Reply) (count : Nat) (x : Nat → SectorData) : Prop :=
  ∃ b, r.buf = some b ∧ ∀ i, i < count → b.get i = some (x i)

theorem returns_iff {b : Buffer} {count pages : Nat} {x : Nat → SectorData} (hb : reply.buf = some b)
    (hpages : b.pages = pages) (hget : ∀ i, i < count → i / 8 < pages → b.get i = some (x i)) :
    reply.Returns count x ↔ count ≤ 8 * pages := by
  constructor
  · rintro ⟨b', hb', hall⟩
    rw [hb] at hb'
    injection hb' with hb'
    by_contra hlt
    have hmiss := hall (8 * pages) (by omega)
    rw [← hb', Buffer.get, if_neg (by omega)] at hmiss
    cases hmiss
  · intro hle
    exact ⟨b, hb, fun i hi => hget i hi (by omega)⟩

/-- **A read with status 0** returns what is expected, as far as the buffer has pages. -/
theorem Coherent.read_returns (hc : Coherent initial d) {sector count : UInt64} {b : Buffer} {maps : Nat → Bool} (hserve : (d.serve (.read sector count (some b) maps)).2 = some reply) (h0 : reply.status = 0) :
    reply.Returns count.toNat (fun i => expected initial d.log (sector + UInt64.ofNat i)) ↔
      count.toNat ≤ 8 * b.pages := by
  unfold Driver.serve at hserve
  simp only [] at hserve
  by_cases hbad : rangeOk d.capacity sector count 64 = false ∨ b.pages = 0
  · rw [if_pos hbad] at hserve
    injection hserve with hserve
    rw [← hserve] at h0
    exact absurd (show (3 : UInt64) = 0 from h0) (by decide)
  rw [if_neg hbad] at hserve
  have hstatus : ∀ st : UInt8, (if st = 0 then (0 : UInt64) else 1) = 0 → st = 0 := by
    intro st h
    by_contra hne
    rw [if_neg hne] at h
    exact absurd h (by decide)
  by_cases hsmall : count ≤ 8
  · rw [if_pos hsmall] at hserve
    injection hserve with hserve
    obtain ⟨hpages, hget⟩ := readSmall_spec hc count.toNat b (maps 0)
      (hstatus _ (by rw [← hserve] at h0; exact h0))
    refine returns_iff ?_ hpages hget
    rw [← hserve]
  · rw [if_neg hsmall] at hserve
    injection hserve with hserve
    obtain ⟨hpages, hget⟩ := readLarge_spec hc count.toNat b maps (hstatus _ (by rw [← hserve] at h0; exact h0))
    refine returns_iff ?_ hpages hget
    rw [← hserve]

end Turn

/-- No sector has two valid slots. -/
def Driver.OneSlotEach (d : Driver) : Prop :=
  ∀ i j, (d.slot i).valid = true → (d.slot j).valid = true → (d.slot i).sector = (d.slot j).sector → i = j

/-- The clean slots are copies of the device. -/
def Driver.CleanSlots (d : Driver) : Prop :=
  ∀ i, (d.slot i).valid = true → (d.slot i).dirty = false → (d.slot i).data = d.device (d.slot i).sector

/-- **The cache is transparent**, up to the size of the client's buffer. -/
theorem cache_transparent (device : UInt64 → SectorData) (fate : Nat → UInt8) (capacity : UInt64) (haveFlush : Bool)
    (rs : List Request) : ((Driver.online device fate capacity haveFlush).after rs).OneSlotEach ∧
      ((Driver.online device fate capacity haveFlush).after rs).CleanSlots ∧
      ∀ (sector count : UInt64) (b : Buffer) (maps : Nat → Bool) (reply : Reply),
        (((Driver.online device fate capacity haveFlush).after rs).turn (.read sector count (some b) maps)).2
            = some reply → reply.status = 0 →
          (reply.Returns count.toNat (fun i =>
            expected device ((Driver.online device fate capacity haveFlush).after rs).log (sector + UInt64.ofNat i)) ↔
              count.toNat ≤ 8 * b.pages) := by
  have hc := (online_coherent device fate capacity haveFlush).after rs
  refine ⟨hc.uniq, hc.clean, ?_⟩
  intro sector count b maps reply hturn h0
  have hret := (hc.flushDirty false).read_returns hturn h0
  have hexp : expected device (((Driver.online device fate capacity haveFlush).after rs).flushDirty false).1.log
      = expected device ((Driver.online device fate capacity haveFlush).after rs).log := by
    funext s
    rw [expected, (flushDirty_requests _ _).newest]
    rfl
  rw [hexp] at hret
  exact hret

/-! ## A buffer of one page -/

/-- A device of zeroes that never fails. -/
def blankDriver : Driver := Driver.online (fun _ _ => 0) (fun _ => 0) 16 true

/-- One page. -/
def onePage : Buffer := ⟨1, fun _ _ => 1⟩

/-- Sector 2 is written, then eight sectors are read. -/
theorem cache_transparent_page : ∃ reply : Reply,
    ((blankDriver.after [.write 2 1 (some onePage) fun _ => true]).turn (.read 0 8 (some onePage) fun _ => true)).2
        = some reply ∧
      (reply.Returns (8 : UInt64).toNat (fun i => expected (fun _ _ => 0)
        (blankDriver.after [.write 2 1 (some onePage) fun _ => true]).log (0 + UInt64.ofNat i)) ↔
          (8 : UInt64).toNat ≤ 8 * onePage.pages) := by
  have hrun : ((blankDriver.after [.write 2 1 (some onePage) fun _ => true]).turn
      (.read 0 8 (some onePage) fun _ => true)).2.map Reply.status = some 0 := by decide +kernel
  obtain ⟨reply, hreply, h0⟩ := Option.map_eq_some_iff.mp hrun
  exact ⟨reply, hreply, (cache_transparent (fun _ _ => 0) (fun _ => 0) 16 true
    [.write 2 1 (some onePage) fun _ => true]).2.2 0 8 onePage (fun _ => true) reply hreply h0⟩

/-- **Nine sectors into one page**: the reply is 0 and the ninth is nowhere. -/
theorem nine_sectors_one_page : ¬ ∀ (device : UInt64 → SectorData) (fate : Nat → UInt8) (capacity : UInt64)
    (haveFlush : Bool) (rs : List Request) (sector count : UInt64) (b : Buffer) (maps : Nat → Bool) (reply : Reply),
      (((Driver.online device fate capacity haveFlush).after rs).turn (.read sector count (some b) maps)).2
          = some reply → reply.status = 0 →
        reply.Returns count.toNat (fun i =>
          expected device ((Driver.online device fate capacity haveFlush).after rs).log (sector + UInt64.ofNat i)) := by
  intro hall
  have hrun : ((blankDriver.after []).turn (.read 0 9 (some onePage) fun _ => true)).2.map
      (fun r => (r.status, r.buf.map Buffer.pages)) = some (0, some 1) := by decide +kernel
  obtain ⟨reply, hreply, hr⟩ := Option.map_eq_some_iff.mp hrun
  rw [Prod.mk.injEq] at hr
  obtain ⟨b, hb, hget⟩ := hall (fun _ _ => 0) (fun _ => 0) 16 true [] 0 9 onePage (fun _ => true) reply hreply hr.1
  have hpages : b.pages = 1 := by
    have hp := hr.2
    rw [hb] at hp
    injection hp
  have hmiss := hget 8 (by decide)
  rw [Buffer.get, hpages, if_neg (by decide)] at hmiss
  cases hmiss

end Aegir.VirtioBlk
