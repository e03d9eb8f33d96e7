import HyveMind.PfAlloc
import HyveMind.Lib.Streak

/-! # The search loop of `__get_pages`

The loop visits the bits of the bitmap cyclically from the stored hint, breaks a streak where it
wraps around, and may look at bits twice while a streak is open.  `ScanInv a nr w run s` is its
invariant: after `w` wraps the scan stands in a segment that starts at the hint (`w = 0`) or at
bit `0`, and knows about it what `Lib.Streak` records.  `searchLoop_spec` concludes that the
loop ends within twice the number of bits, never reads outside the bitmap, and finds a run of
`nr` clear bits exactly when there is one (`search_spec`). -/

namespace HyveMind.PfAlloc

open Lib

variable {a : PfAlloc} {nr w run : ℕ} {s : Scan}

/-- The bit the scan looks at. -/
def Scan.pos (s : Scan) : ℕ := 8 * s.bytePos + s.bitPos

/-- The bit the stored hint points to. -/
def hint (a : PfAlloc) : ℕ := 8 * a.lastAllocByteHint + a.lastAllocBitHint

/-- The bitmap has the recorded size and the stored hint lies inside it. -/
structure HintOk (a : PfAlloc) : Prop where
  length : a.bitmap.length = a.bitmapSize
  byte_lt : a.lastAllocByteHint < a.bitmapSize
  bit_lt : a.lastAllocBitHint < 8

/-- The invariant of the search loop after `w` wrap-arounds. -/
structure ScanInv (a : PfAlloc) (nr w run : ℕ) (s : Scan) : Prop where
  bit_lt : s.bitPos < 8
  byte_lt : s.bytePos < a.bitmapSize
  streak : Streak (bitSet a.bitmap) nr (if w = 0 then a.hint else 0) s.pos run
  remaining : s.remainingNeeded = nr - run
  freeStreak : s.freeStreak = decide (0 < run)
  areaStart : 0 < run → s.freeContigAreaStart = s.pos - run
  explored : s.exploredBits + a.hint = w * (8 * a.bitmapSize) + s.pos
  covered : 1 ≤ w → ∀ b, a.hint ≤ b → ¬ FreeRun (bitSet a.bitmap) b nr
  coveredAll : 2 ≤ w → (∀ b, ¬ FreeRun (bitSet a.bitmap) b nr) ∧ run = 0 ∧ s.pos = 0
  wraps : w ≤ 2

theorem HintOk.lt (h : a.HintOk) : a.hint < 8 * a.bitmapSize := by
  have := h.byte_lt
  have := h.bit_lt
  unfold hint
  omega

theorem scanInv_init (h : a.HintOk) (hnr : 0 < nr) : ScanInv a nr 0 0 (a.initScan nr) where
  bit_lt := h.bit_lt
  byte_lt := h.byte_lt
  streak := Streak.init _ _ hnr
  remaining := rfl
  freeStreak := rfl
  areaStart := fun h => by omega
  explored := by simp [initScan, Scan.pos, hint]
  covered := fun h => by omega
  coveredAll := fun h => by omega
  wraps := by omega

theorem FreeRun.lt_bits {bm : List (BitVec 8)} {b : ℕ} (hnr : 0 < nr)
    (h : FreeRun (bitSet bm) b nr) : b + nr ≤ 8 * bm.length := by
  have := lt_of_bitSet_eq_false (h (b + nr - 1) (by omega) (by omega))
  omega

theorem ScanInv.pos_lt (inv : ScanInv a nr w run s) : s.pos < 8 * a.bitmapSize := by
  have := inv.bit_lt
  have := inv.byte_lt
  unfold Scan.pos
  omega

theorem Scan.pos_advance {size : ℕ} (hb : s.bitPos < 8) (hnext : s.pos + 1 < 8 * size) :
    (s.advance size nr).pos = s.pos + 1 := by
  simp only [Scan.advance, Scan.pos] at hnext ⊢
  by_cases h7 : s.bitPos = 7
  · have hbyte : s.bytePos + 1 < size := by omega
    simp only [h7, Nat.reduceAdd, Nat.mod_self, if_true, Nat.mod_eq_of_lt hbyte]
    omega
  · have hbit : (s.bitPos + 1) % 8 = s.bitPos + 1 := by omega
    simp only [hbit, if_neg (Nat.succ_ne_zero _)]
    omega

/-- Moving on from the last bit: the segment is done, and a new one starts at bit 0. -/
theorem scanInv_wrap (h : a.HintOk) (inv : ScanInv a nr w run s) (hw : w ≤ 1)
    (hwrap : s.pos + 1 = 8 * a.bitmapSize) {run' : ℕ} (s' : Scan)
    (hst : Streak (bitSet a.bitmap) nr (if w = 0 then a.hint else 0) (s.pos + 1) run')
    (hbit : s'.bitPos = s.bitPos) (hbyte : s'.bytePos = s.bytePos)
    (hexp : s'.exploredBits = s.exploredBits) :
    ScanInv a nr (w + 1) 0 (s'.advance a.bitmapSize nr) := by
  have hb := inv.bit_lt
  have hB := inv.byte_lt
  have hexp' := inv.explored
  have hnr : 0 < nr := lt_of_le_of_lt (Nat.zero_le _) hst.lt
  have hpos : s.pos = 8 * s.bytePos + s.bitPos := rfl
  have e1 : (s.bitPos + 1) % 8 = 0 := by omega
  have e2 : (s.bytePos + 1) % a.bitmapSize = 0 := by
    have : s.bytePos + 1 = a.bitmapSize := by omega
    rw [this, Nat.mod_self]
  have hdone : ∀ b, (if w = 0 then a.hint else 0) ≤ b → ¬ FreeRun (bitSet a.bitmap) b nr := by
    intro b hb hf
    refine hst.noRun b hb ?_ hf
    have := FreeRun.lt_bits hnr hf
    rw [h.length] at this
    omega
  have hz : (s'.advance a.bitmapSize nr).pos = 0 := by
    simp [Scan.advance, Scan.pos, hbit, hbyte, e1, e2]
  constructor
  · simp [Scan.advance, hbit, e1]
  · simp only [Scan.advance, hbit, hbyte, e1, e2, if_true]; omega
  · rw [hz, if_neg (by omega)]
    exact Streak.init _ 0 hnr
  · simp [Scan.advance, hbit, hbyte, e1, e2]
  · simp [Scan.advance, hbit, hbyte, e1, e2]
  · intro h; omega
  · rw [hz, Nat.add_mul]
    simp only [Scan.advance, hexp]
    omega
  · intro _ b hb
    refine hdone b ?_
    split_ifs <;> omega
  · intro h2
    refine ⟨fun b => hdone b ?_, rfl, hz⟩
    rw [if_neg (by omega)]
    exact Nat.zero_le _
  · omega

/-- Moving on inside the bitmap, with the streak already adjusted to the bit just read. -/
theorem scanInv_inside (inv : ScanInv a nr w run s) (hw : w ≤ 1)
    (hnext : s.pos + 1 < 8 * a.bitmapSize) {run' : ℕ} (s' : Scan)
    (hst : Streak (bitSet a.bitmap) nr (if w = 0 then a.hint else 0) (s.pos + 1) run')
    (hbit : s'.bitPos = s.bitPos) (hbyte : s'.bytePos = s.bytePos)
    (hexp : s'.exploredBits = s.exploredBits) (hrem : s'.remainingNeeded = nr - run')
    (hfree : s'.freeStreak = decide (0 < run'))
    (harea : 0 < run' → s'.freeContigAreaStart = s.pos + 1 - run') :
    ScanInv a nr w run' (s'.advance a.bitmapSize nr) := by
  have hb := inv.bit_lt
  have hB := inv.byte_lt
  have hexp' := inv.explored
  have hpos : s'.pos = s.pos := by rw [Scan.pos, hbit, hbyte, Scan.pos]
  have e3 : (s'.advance a.bitmapSize nr).pos = s.pos + 1 := by
    rw [Scan.pos_advance (by omega) (by omega), hpos]
  have hnw : ¬ ((if (s.bitPos + 1) % 8 = 0 then (s.bytePos + 1) % a.bitmapSize
      else s.bytePos) = 0 ∧ (s.bitPos + 1) % 8 = 0) := by
    rintro ⟨h1, h2⟩
    rw [if_pos h2] at h1
    simp only [Scan.advance, Scan.pos, hbit, hbyte, h1, h2, if_true] at e3
    omega
  constructor
  · simp only [Scan.advance]; omega
  · simp only [Scan.advance, hbit, hbyte]
    split_ifs
    · exact Nat.mod_lt _ (by omega)
    · exact hB
  · rw [e3]; exact hst
  · simp [Scan.advance, hbit, hbyte, hnw, hrem]
  · simp [Scan.advance, hbit, hbyte, hnw, hfree]
  · intro h
    rw [e3]
    exact harea h
  · rw [e3]
    simp only [Scan.advance, hexp]
    omega
  · exact inv.covered
  · intro h2; omega
  · omega

theorem scanInv_advance (h : a.HintOk) (inv : ScanInv a nr w run s) (hw : w ≤ 1) {run' : ℕ}
    (s' : Scan) (hst : Streak (bitSet a.bitmap) nr (if w = 0 then a.hint else 0) (s.pos + 1) run')
    (hbit : s'.bitPos = s.bitPos) (hbyte : s'.bytePos = s.bytePos)
    (hexp : s'.exploredBits = s.exploredBits) (hrem : s'.remainingNeeded = nr - run')
    (hfree : s'.freeStreak = decide (0 < run'))
    (harea : 0 < run' → s'.freeContigAreaStart = s.pos + 1 - run') :
    ∃ w' run'', ScanInv a nr w' run'' (s'.advance a.bitmapSize nr) := by
  rcases Nat.lt_or_ge (s.pos + 1) (8 * a.bitmapSize) with hnext | hwrap
  · exact ⟨w, run', scanInv_inside inv hw hnext s' hst hbit hbyte hexp hrem hfree harea⟩
  · have hpos := inv.pos_lt
    exact ⟨w + 1, 0, scanInv_wrap h inv hw (by omega) s' hst hbit hbyte hexp⟩

theorem scanInv_read (h : a.HintOk) (inv : ScanInv a nr w run s) :
    ∃ entry, a.bitmap[s.bytePos]? = some entry ∧
      (entry &&& bitMask s.bitPos = 0 ↔ bitSet a.bitmap s.pos = false) := by
  have hlt : s.bytePos < a.bitmap.length := by rw [h.length]; exact inv.byte_lt
  have hb := inv.bit_lt
  have e1 : s.pos / 8 = s.bytePos := by unfold Scan.pos; omega
  have e2 : s.pos % 8 = s.bitPos := by unfold Scan.pos; omega
  refine ⟨a.bitmap[s.bytePos], List.getElem?_eq_getElem hlt, ?_⟩
  simp [bitSet, e1, e2, List.getElem?_eq_getElem hlt]

/-- While the loop goes on, the scan has wrapped around at most once. -/
theorem ScanInv.wraps_le_one (h : a.HintOk) (inv : ScanInv a nr w run s)
    (hc : s.exploredBits < 8 * a.bitmapSize ∨ s.freeStreak = true) : w ≤ 1 := by
  by_contra hw2
  have hexp := inv.explored
  have hhint := h.lt
  have hw := inv.wraps
  obtain ⟨-, hr, hp⟩ := inv.coveredAll (by omega)
  have hf := inv.freeStreak
  obtain rfl : w = 2 := by omega
  simp only [hr, lt_irrefl, decide_false] at hf
  simp only [hf, Bool.false_eq_true, or_false] at hc
  omega

/-- When the loop has ended, everything was looked at and no streak is open. -/
theorem ScanInv.no_freeRun (h : a.HintOk) (inv : ScanInv a nr w run s)
    (hc : ¬ ((s.exploredBits < 8 * a.bitmapSize ∨ s.freeStreak = true) ∧ s.remainingNeeded ≠ 0))
    (b : ℕ) : ¬ FreeRun (bitSet a.bitmap) b nr := by
  have hpos := inv.pos_lt
  have hexp := inv.explored
  have hhint := h.lt
  have hw := inv.wraps
  have hlt := inv.streak.lt
  have hrem := inv.remaining
  have hrun : run = 0 ∧ 8 * a.bitmapSize ≤ s.exploredBits := by
    have hf := inv.freeStreak
    by_cases hr : run = 0
    · subst hr
      simp only [lt_irrefl, decide_false] at hf
      refine ⟨rfl, ?_⟩
      by_contra hlt'
      exact hc ⟨Or.inl (by omega), by omega⟩
    · exact absurd ⟨Or.inr (by simp [hf]; omega), by omega⟩ hc
  obtain ⟨rfl, hall⟩ := hrun
  have hst := inv.streak
  interval_cases w
  · omega
  · by_cases hb : a.hint ≤ b
    · exact inv.covered (le_refl _) b hb
    · exact hst.not_freeRun (Nat.zero_le _) (by omega)
  · exact (inv.coveredAll (le_refl _)).1 b

/-! ### The body of the loop -/

/-- The body of the search loop: the jump to `out_found_area`, or the variables for the next test. -/
def searchBody (a : PfAlloc) (nr : ℕ) (s : Scan) : Option (ℕ ⊕ Scan) :=
  match a.bitmap[s.bytePos]? with
  | none => none
  | some entry =>
      if entry &&& bitMask s.bitPos = 0 then
        let start :=
          if s.remainingNeeded = nr then (s.bytePos <<< 3) + s.bitPos else s.freeContigAreaStart
        if s.remainingNeeded - 1 = 0 then some (.inl start)
        else
          some (.inr ({ s with
              freeContigAreaStart := start
              freeStreak := true
              remainingNeeded := s.remainingNeeded - 1 }.advance a.bitmapSize nr))
      else some (.inr ({ s with remainingNeeded := nr, freeStreak := false }.advance a.bitmapSize nr))

/-- The test of the search loop. -/
def SearchTest (a : PfAlloc) (s : Scan) : Prop :=
  (s.exploredBits < 8 * a.bitmapSize ∨ s.freeStreak = true) ∧ s.remainingNeeded ≠ 0

instance (a : PfAlloc) (s : Scan) : Decidable (SearchTest a s) :=
  inferInstanceAs (Decidable (_ ∧ _))

theorem searchLoop_succ (a : PfAlloc) (nr fuel : ℕ) (s : Scan) :
    searchLoop a nr (fuel + 1) s =
      if SearchTest a s then
        (searchBody a nr s).bind (Sum.elim (fun start => some (some start)) (searchLoop a nr fuel))
      else some none := by
  have htotal : a.bitmapSize <<< 3 = 8 * a.bitmapSize := by
    simp [Nat.shiftLeft_eq, Nat.mul_comm]
  by_cases hc : SearchTest a s
  · have htest : (s.exploredBits < 8 * a.bitmapSize ∨ s.freeStreak = true) ∧ s.remainingNeeded ≠ 0 := hc
    rw [if_pos hc]
    simp only [searchLoop, searchBody, htotal]
    rw [if_pos htest]
    cases a.bitmap[s.bytePos]? with
    | none => rfl
    | some entry =>
        dsimp only
        split_ifs <;> rfl
  · have htest : ¬ ((s.exploredBits < 8 * a.bitmapSize ∨ s.freeStreak = true) ∧ s.remainingNeeded ≠ 0) :=
      hc
    rw [if_neg hc]
    simp only [searchLoop, htotal]
    rw [if_neg htest]

/-- The number of bits that the scan passes before it gets to `b`. -/
def scanDistance (a : PfAlloc) (b : ℕ) : ℕ :=
  if a.hint ≤ b then b - a.hint else b + 8 * a.bitmapSize - a.hint

/-- The first run of `nr` clear bits, in the order of the scan. -/
structure FirstFit (a : PfAlloc) (nr start : ℕ) : Prop where
  free : FreeRun (bitSet a.bitmap) start nr
  le : ∀ b, FreeRun (bitSet a.bitmap) b nr → a.scanDistance start ≤ a.scanDistance b

theorem firstFit_of_found (h : a.HintOk) (inv : ScanInv a nr w run s) (hw : w ≤ 1)
    (hfree : bitSet a.bitmap s.pos = false) (hlast : run + 1 = nr) : a.FirstFit nr (s.pos - run) := by
  have hhint := h.lt
  have hpos := inv.pos_lt
  have hle := inv.streak.le
  refine ⟨inv.streak.found hfree hlast, fun b hb => ?_⟩
  have hlt := FreeRun.lt_bits (by omega) hb
  rw [h.length] at hlt
  have hfirst := fun hge => inv.streak.le_of_freeRun hlast hge hb
  unfold scanDistance
  rcases Nat.le_one_iff_eq_zero_or_eq_one.mp hw with rfl | rfl
  · rw [if_pos rfl] at hle hfirst
    split_ifs <;> omega
  · rw [if_neg one_ne_zero] at hle hfirst
    have hbehind : b < a.hint := by
      by_contra hge
      exact inv.covered le_rfl b (by omega) hb
    have := hfirst (Nat.zero_le b)
    split_ifs <;> omega

/-- One round: it finds the first run, or the invariant holds for the next one. -/
theorem scanInv_round (h : a.HintOk) (inv : ScanInv a nr w run s) (hc : SearchTest a s) :
    (∃ start, searchBody a nr s = some (.inl start) ∧ a.FirstFit nr start) ∨
      ∃ s' w' run', searchBody a nr s = some (.inr s') ∧ ScanInv a nr w' run' s' ∧
        s'.exploredBits = s.exploredBits + 1 := by
  have hw1 := inv.wraps_le_one h hc.1
  have hlt := inv.streak.lt
  have hrem := inv.remaining
  obtain ⟨entry, hget, hentry⟩ := scanInv_read h inv
  simp only [searchBody, hget]
  by_cases hz : entry &&& bitMask s.bitPos = 0
  · have hfree := hentry.mp hz
    have hstart : (if s.remainingNeeded = nr then s.bytePos <<< 3 + s.bitPos
        else s.freeContigAreaStart) = s.pos - run := by
      split_ifs with hfull
      · have : run = 0 := by omega
        simp [this, Scan.pos, Nat.shiftLeft_eq, Nat.mul_comm]
      · exact inv.areaStart (by omega)
    rw [if_pos hz, hstart]
    by_cases hlast : s.remainingNeeded - 1 = 0
    · rw [if_pos hlast]
      exact Or.inl ⟨_, rfl, firstFit_of_found h inv hw1 hfree (by omega)⟩
    · rw [if_neg hlast]
      have hst := inv.streak.extend hfree (by omega)
      have hle := inv.streak.le
      obtain ⟨w', run', inv'⟩ := scanInv_advance h inv hw1
        { s with
          freeContigAreaStart := s.pos - run
          freeStreak := true
          remainingNeeded := s.remainingNeeded - 1 }
        hst rfl rfl rfl (by simp only; omega) (by simp) (fun _ => by simp only; omega)
      exact Or.inr ⟨_, w', run', rfl, inv', rfl⟩
  · have hused : bitSet a.bitmap s.pos = true := by
      by_contra hne
      exact hz (hentry.mpr (by simpa using hne))
    rw [if_neg hz]
    obtain ⟨w', run', inv'⟩ := scanInv_advance h inv hw1
      { s with remainingNeeded := nr, freeStreak := false } (inv.streak.reset hused) rfl rfl rfl
      (by simp) (by simp) (fun h => by omega)
    exact Or.inr ⟨_, w', run', rfl, inv', rfl⟩

/-- The loop has looked at less than twice the number of bits when it goes on. -/
theorem ScanInv.explored_lt (h : a.HintOk) (inv : ScanInv a nr w run s) (hc : SearchTest a s) :
    s.exploredBits < 2 * (8 * a.bitmapSize) := by
  have hw1 := inv.wraps_le_one h hc.1
  have hexp := inv.explored
  have hpos := inv.pos_lt
  rcases Nat.le_one_iff_eq_zero_or_eq_one.mp hw1 with rfl | rfl <;> omega

/-- The search loop from any state that satisfies its invariant. -/
theorem searchLoop_spec (h : a.HintOk) (fuel : ℕ) (s : Scan) (w run : ℕ)
    (inv : ScanInv a nr w run s)
    (hfuel : 2 * (8 * a.bitmapSize) + 1 ≤ fuel + s.exploredBits) :
    ∃ r, searchLoop a nr fuel s = some r ∧ (∀ start, r = some start → a.FirstFit nr start) ∧
      (r = none → ∀ b, ¬ FreeRun (bitSet a.bitmap) b nr) := by
  induction fuel generalizing s w run with
  | zero =>
      exfalso
      have hexp := inv.explored
      have hpos := inv.pos_lt
      have hhint := h.lt
      have hw := inv.wraps
      have h2 := inv.coveredAll
      interval_cases w <;> omega
  | succ fuel ih =>
      rw [searchLoop_succ]
      by_cases hc : SearchTest a s
      · rw [if_pos hc]
        rcases scanInv_round h inv hc with ⟨start, hbody, hfit⟩ | ⟨s', w', run', hbody, inv', hexp⟩
        · rw [hbody]
          refine ⟨some start, rfl, ?_, fun h => by cases h⟩
          rintro start ⟨⟩
          exact hfit
        · rw [hbody]
          exact ih s' w' run' inv' (by omega)
      · rw [if_neg hc]
        exact ⟨none, rfl, nofun, fun _ => inv.no_freeRun h hc⟩

theorem search_firstFit (h : a.HintOk) (hnr : 0 < nr) :
    ∃ r, a.search nr = some r ∧ (∀ start, r = some start → a.FirstFit nr start) ∧
      (r = none → ∀ b, ¬ FreeRun (bitSet a.bitmap) b nr) := by
  refine searchLoop_spec h _ _ 0 0 (scanInv_init h hnr) ?_
  simp only [initScan, Nat.shiftLeft_eq]
  omega

/-- **The frame search.**  With the hint inside the bitmap the search of `__get_pages` ends,
stays inside the bitmap, and reports a run of `nr` clear bits iff the bitmap contains one. -/
theorem search_spec (h : a.HintOk) (hnr : 0 < nr) :
    ∃ r, a.search nr = some r ∧
      (∀ start, r = some start → FreeRun (bitSet a.bitmap) start nr) ∧
      (r = none → ∀ b, ¬ FreeRun (bitSet a.bitmap) b nr) := by
  obtain ⟨r, hr, hfound, hnone⟩ := search_firstFit h hnr
  exact ⟨r, hr, fun start hstart => (hfound start hstart).free, hnone⟩

end HyveMind.PfAlloc
