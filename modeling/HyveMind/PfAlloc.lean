import HyveMind.PhysMm
import Mathlib.Data.Finset.Card
import Mathlib.Order.Interval.Finset.Nat

/-! # The page-frame allocator

`pf_alloc.c`: a first-fit bitmap allocator.  Frame `pfn` owns bit `7 - pfn % 8` of byte
`pfn / 8`; a set bit means "used".  The state `PfAlloc` is `struct pf_bitmap_allocator`, its
bitmap a list of bytes.

Functions that touch the bitmap return an `Option`: `none` is an access outside the bitmap (or,
for the search loop, one that would not end), so a theorem that produces `some` also says that
the code stays inside its memory.  An inner `Option` is the `int` result of the C function:
`none` for `-1`.  The spinlock around each operation only serialises the callers and is left
out, as is all printing. -/

namespace HyveMind

/-- `struct pf_bitmap_allocator`. -/
structure PfAlloc where
  bitmap : List (BitVec 8)
  bitmapSize : ℕ
  lastAllocByteHint : ℕ
  lastAllocBitHint : ℕ
  allocatableFrames : ℕ
  allocatedPageFrames : ℕ
deriving DecidableEq, Repr

/-- `sizeof(struct pf_bitmap_allocator)`. -/
abbrev pfAllocStructSize : ℕ := 48

/-- `BYTE_LEN_TO_PAGES`. -/
def byteLenToPages (len : ℕ) : ℕ := len / pageSize + (if len % pageSize ≠ 0 then 1 else 0)

/-- `U8_RSHIFT(128, bit)`. -/
def bitMask (bit : ℕ) : BitVec 8 := 128#8 >>> bit

/-- The bit of frame `pfn` is set (frames behind the bitmap count as used). -/
def bitSet (bm : List (BitVec 8)) (pfn : ℕ) : Bool :=
  match bm[pfn / 8]? with
  | none => true
  | some byte => byte &&& bitMask (pfn % 8) != 0

namespace PfAlloc

/-- `find_contiguous_memory_region`: the first usable region longer than the request. -/
def findContiguousMemoryRegion (mm : List LimineMemmapEntry) (offset reqRegionSize : ℕ) :
    Option ℕ :=
  match mm with
  | [] => none
  | e :: mm =>
      if e.type ≠ .usable then findContiguousMemoryRegion mm offset reqRegionSize
      else if reqRegionSize < e.length then some (physToVirtAt e.base offset)
      else findContiguousMemoryRegion mm offset reqRegionSize

/-- `init_pf_allocator_metadata`. -/
def initPfAllocatorMetadata (bitmapLength : ℕ) : PfAlloc where
  bitmap := List.replicate bitmapLength 0xFF#8
  bitmapSize := bitmapLength
  lastAllocByteHint := 0
  lastAllocBitHint := 0
  allocatableFrames := 0
  allocatedPageFrames := 0

/-- `allocated_nr_frames`. -/
def allocatedNrFrames (a : PfAlloc) (nr : ℕ) : PfAlloc :=
  { a with
    allocatedPageFrames := u64 (a.allocatedPageFrames + nr)
    allocatableFrames := u64Sub a.allocatableFrames nr }

/-- `freed_nr_frames`. -/
def freedNrFrames (a : PfAlloc) (nr : ℕ) : PfAlloc :=
  { a with
    allocatableFrames := u64 (a.allocatableFrames + nr)
    allocatedPageFrames := u64Sub a.allocatedPageFrames nr }

/-- The read-modify-write of one bitmap byte shared by `set_bitmap_entry` and
`clear_bitmap_entry`; `none` when the byte lies outside the bitmap. -/
def updateBitmapEntry (f : BitVec 8 → BitVec 8 → BitVec 8) (a : PfAlloc) (addr : ℕ) :
    Option PfAlloc :=
  let pfn := physToPfn addr
  let byteIndex := pfn >>> 3
  let bitIndex := pfn % 8
  match a.bitmap[byteIndex]? with
  | none => none
  | some byte => some { a with bitmap := a.bitmap.set byteIndex (f byte (bitMask bitIndex)) }

/-- `set_bitmap_entry`. -/
def setBitmapEntry : PfAlloc → ℕ → Option PfAlloc :=
  updateBitmapEntry fun byte mask => byte ||| mask

/-- `clear_bitmap_entry`. -/
def clearBitmapEntry : PfAlloc → ℕ → Option PfAlloc :=
  updateBitmapEntry fun byte mask => byte &&& ~~~mask

/-- The loop of `set_bitmap_region` and `clear_bitmap_region`: `entry` on the first `nr` frames
from `startAddr`. -/
def bitmapRegion (entry : PfAlloc → ℕ → Option PfAlloc) (a : PfAlloc) (startAddr : ℕ) :
    ℕ → Option PfAlloc
  | 0 => some a
  | i + 1 => do
      let a' ← bitmapRegion entry a startAddr i
      entry a' (u64 (startAddr + i * pageSize))

/-- `set_bitmap_region`. -/
def setBitmapRegion (a : PfAlloc) (startAddr nr : ℕ) : Option PfAlloc :=
  bitmapRegion setBitmapEntry a startAddr nr

/-- `clear_bitmap_region`. -/
def clearBitmapRegion (a : PfAlloc) (startAddr nr : ℕ) : Option PfAlloc :=
  bitmapRegion clearBitmapEntry a startAddr nr

/-- The loop of `early_initialize_pf_bitmap` over the memory map. -/
def clearUsableRegions (a : PfAlloc) : List LimineMemmapEntry → Option PfAlloc
  | [] => some a
  | e :: mm =>
      if e.type ≠ .usable then clearUsableRegions a mm
      else do
        let a' ← clearBitmapRegion a e.base (byteLenToPages e.length)
        clearUsableRegions
          { a' with allocatableFrames := u64 (a'.allocatableFrames + byteLenToPages e.length) } mm

/-- `early_initialize_pf_bitmap`; `region` is the address `pf_allocator` points to. -/
def earlyInitializePfBitmap (a : PfAlloc) (mm : List LimineMemmapEntry) (region offset : ℕ) :
    Option PfAlloc := do
  let a ← clearUsableRegions a mm
  let allocatorBase := virtToPhysAt region offset
  let allocatorUsedPages := byteLenToPages (pfAllocStructSize + a.bitmapSize)
  let a ← setBitmapRegion a allocatorBase allocatorUsedPages
  return a.allocatedNrFrames allocatorUsedPages

/-- The size of the bitmap computed by `early_init_page_frame_allocator`. -/
def bitmapSizeOf (nrOfPfns : ℕ) : ℕ := (nrOfPfns >>> 3) + (if nrOfPfns % 8 ≠ 0 then 1 else 0)

/-- `early_init_page_frame_allocator`; the inner `none` is the result `-1`. -/
def earlyInitPageFrameAllocator (memInfo : SysMemInfo) (mm : List LimineMemmapEntry)
    (offset : ℕ) : Option (Option PfAlloc) :=
  let bitmapSize := bitmapSizeOf memInfo.nrOfPfns
  match findContiguousMemoryRegion mm offset (pfAllocStructSize + bitmapSize) with
  | none => some none
  | some region =>
      (earlyInitializePfBitmap (initPfAllocatorMetadata bitmapSize) mm region offset).map some

/-! ### Allocation -/

/-- The local variables of the search loop of `__get_pages`. -/
structure Scan where
  bitPos : ℕ
  bytePos : ℕ
  freeContigAreaStart : ℕ
  exploredBits : ℕ
  freeStreak : Bool
  remainingNeeded : ℕ
deriving DecidableEq, Repr

/-- The end of one iteration of the search loop: advance by one bit, and break off any streak
where the position wraps around. -/
def Scan.advance (s : Scan) (bitmapSize nr : ℕ) : Scan :=
  let bitPos := (s.bitPos + 1) % 8
  let bytePos := if bitPos = 0 then (s.bytePos + 1) % bitmapSize else s.bytePos
  let wraps := bytePos = 0 ∧ bitPos = 0
  { s with
    exploredBits := s.exploredBits + 1
    bitPos := bitPos
    bytePos := bytePos
    remainingNeeded := if wraps then nr else s.remainingNeeded
    freeStreak := if wraps then false else s.freeStreak }

/-- The search loop of `__get_pages`.  `some (some start)` is the jump to `out_found_area`,
`some none` the regular end of the loop; `none` is a read outside the bitmap or a loop that is
still running after `fuel` iterations. -/
def searchLoop (a : PfAlloc) (nr : ℕ) : ℕ → Scan → Option (Option ℕ)
  | 0, _ => none
  | fuel + 1, s =>
      let totalBits := a.bitmapSize <<< 3
      if (s.exploredBits < totalBits ∨ s.freeStreak = true) ∧ s.remainingNeeded ≠ 0 then
        match a.bitmap[s.bytePos]? with
        | none => none
        | some entry =>
            if entry &&& bitMask s.bitPos = 0 then
              let start :=
                if s.remainingNeeded = nr then (s.bytePos <<< 3) + s.bitPos
                else s.freeContigAreaStart
              if s.remainingNeeded - 1 = 0 then some (some start)
              else
                searchLoop a nr fuel
                  ({ s with
                      freeContigAreaStart := start
                      freeStreak := true
                      remainingNeeded := s.remainingNeeded - 1 }.advance a.bitmapSize nr)
            else
              searchLoop a nr fuel
                ({ s with remainingNeeded := nr, freeStreak := false }.advance a.bitmapSize nr)
      else some none

/-- The state of the search loop at its first iteration: the scan starts at the stored hint. -/
def initScan (a : PfAlloc) (nr : ℕ) : Scan where
  bitPos := a.lastAllocBitHint
  bytePos := a.lastAllocByteHint
  freeContigAreaStart := (a.lastAllocByteHint <<< 3) + a.lastAllocBitHint
  exploredBits := 0
  freeStreak := false
  remainingNeeded := nr

/-- The search of `__get_pages`, with more iterations than it ever needs. -/
def search (a : PfAlloc) (nr : ℕ) : Option (Option ℕ) :=
  searchLoop a nr (2 * (a.bitmapSize <<< 3) + 1) (a.initScan nr)

/-- The free-frame count `__get_pages` compares the request with. -/
def freeFrames (a : PfAlloc) : ℕ := u64Sub a.allocatableFrames a.allocatedPageFrames

/-- The hint stored after an allocation of `nr` frames at bit `areaBitIndex` of byte
`areaByteIndex`. -/
def storeHint (a : PfAlloc) (areaByteIndex areaBitIndex nr : ℕ) : PfAlloc :=
  let bitHint := (areaBitIndex + nr % 8) % 8
  let byteHintOffset := nr / 8 + (if nr % 8 = 0 then 1 else 0)
  { a with
    lastAllocBitHint := bitHint
    lastAllocByteHint :=
      if bitHint = 0 then (areaByteIndex + 1 + byteHintOffset) % a.bitmapSize
      else (areaByteIndex + byteHintOffset) % a.bitmapSize }

/-- `__get_pages`: the new state and `*start_addr` (`none` for the result `-1`). -/
def getPagesImpl (a : PfAlloc) (nr : ℕ) : Option (PfAlloc × Option ℕ) :=
  if nr = 0 ∨ a.freeFrames < nr then some (a, none)
  else
    match a.search nr with
    | none => none
    | some none => some (a, none)
    | some (some areaStart) => do
        let areaBitIndex := areaStart % 8
        let areaByteIndex := areaStart >>> 3
        let pfn := (areaByteIndex <<< 3) + areaBitIndex
        let a' ← a.setBitmapRegion (pfnToPhys pfn) nr
        return ((a'.allocatedNrFrames nr).storeHint areaByteIndex areaBitIndex nr,
          some (pfnToPhys pfn))

/-- `get_pages_raw`. -/
def getPagesRaw (a : PfAlloc) (nr : ℕ) : Option (PfAlloc × Option ℕ) := a.getPagesImpl nr

/-- `get_page_raw`. -/
def getPageRaw (a : PfAlloc) : Option (PfAlloc × Option ℕ) := a.getPagesImpl 1

/-- `get_pages`: the address of the frames in the direct mapping. -/
def getPages (a : PfAlloc) (nr : ℕ) : Option (PfAlloc × Option ℕ) := do
  let (a', addr) ← a.getPagesImpl nr
  return (a', addr.map physToVirt)

/-- `free_pages_raw`. -/
def freePagesRaw (a : PfAlloc) (nr addr : ℕ) : Option PfAlloc := do
  let a' ← a.clearBitmapRegion addr nr
  return a'.freedNrFrames nr

/-- `free_page_raw`. -/
def freePageRaw (a : PfAlloc) (addr : ℕ) : Option PfAlloc := a.freePagesRaw 1 addr

/-- `free_pages`. -/
def freePages (a : PfAlloc) (nr addr : ℕ) : Option PfAlloc := a.freePagesRaw nr (virtToPhys addr)

/-- `free_page`. -/
def freePage (a : PfAlloc) (addr : ℕ) : Option PfAlloc := a.freePageRaw (virtToPhys addr)

end PfAlloc

/-! ### One bit of the bitmap -/

theorem getLsbD_bitMask {i k : ℕ} (hi : i < 8) (hk : k < 8) :
    (bitMask i).getLsbD k = decide (k = 7 - i) := by
  have h : ∀ i k : Fin 8, (bitMask i).getLsbD k = decide ((k : ℕ) = 7 - i) := by decide
  exact h ⟨i, hi⟩ ⟨k, hk⟩

theorem and_bitMask_eq_zero (b : BitVec 8) {i : ℕ} (hi : i < 8) :
    b &&& bitMask i = 0 ↔ b.getLsbD (7 - i) = false := by
  constructor
  · intro h
    have := congrArg (fun v => v.getLsbD (7 - i)) h
    simpa [getLsbD_bitMask hi (show 7 - i < 8 by omega)] using this
  · intro h
    apply BitVec.eq_of_getLsbD_eq
    intro k hk
    rw [BitVec.getLsbD_and, getLsbD_bitMask hi hk]
    by_cases e : k = 7 - i
    · subst e; simp [h]
    · simp [e]

theorem or_bitMask_and (b : BitVec 8) {i j : ℕ} (hi : i < 8) (hj : j < 8) :
    (b ||| bitMask i) &&& bitMask j = 0 ↔ i ≠ j ∧ b &&& bitMask j = 0 := by
  rw [and_bitMask_eq_zero _ hj, and_bitMask_eq_zero _ hj, BitVec.getLsbD_or,
    getLsbD_bitMask hi (by omega), Bool.or_eq_false_iff, decide_eq_false_iff_not]
  constructor
  · rintro ⟨h1, h2⟩
    exact ⟨by omega, h1⟩
  · rintro ⟨h1, h2⟩
    exact ⟨h2, by omega⟩

theorem and_not_bitMask_and (b : BitVec 8) {i j : ℕ} (hi : i < 8) (hj : j < 8) :
    (b &&& ~~~bitMask i) &&& bitMask j = 0 ↔ i = j ∨ b &&& bitMask j = 0 := by
  rw [and_bitMask_eq_zero _ hj, and_bitMask_eq_zero _ hj, BitVec.getLsbD_and, BitVec.getLsbD_not,
    getLsbD_bitMask hi (by omega)]
  by_cases e : i = j
  · simp [e]
  · simp [e, show ¬ 7 - j = 7 - i by omega, show 7 - j < 8 by omega]

/-- `f` writes the value `v` into the bit a mask selects and keeps the seven others. -/
def WritesBit (f : BitVec 8 → BitVec 8 → BitVec 8) (v : Bool) : Prop :=
  ∀ (b : BitVec 8) (i j : ℕ), i < 8 → j < 8 →
    (f b (bitMask i) &&& bitMask j != 0) = if i = j then v else (b &&& bitMask j != 0)

theorem writesBit_or : WritesBit (fun byte mask => byte ||| mask) true := by
  intro b i j hi hj
  have h := or_bitMask_and b hi hj
  by_cases e : i = j
  · simp_all
  · simp only [e, if_false, ne_eq, not_false_iff, true_and] at h ⊢
    exact Bool.eq_iff_iff.mpr (by simp only [bne_iff_ne, ne_eq, h])

theorem writesBit_and_not : WritesBit (fun byte mask => byte &&& ~~~mask) false := by
  intro b i j hi hj
  have h := and_not_bitMask_and b hi hj
  by_cases e : i = j
  · simp_all
  · simp only [e, if_false, false_or] at h ⊢
    exact Bool.eq_iff_iff.mpr (by simp only [bne_iff_ne, ne_eq, h])

theorem bitSet_of_le {bm : List (BitVec 8)} {pfn : ℕ} (h : 8 * bm.length ≤ pfn) :
    bitSet bm pfn = true := by
  have : bm[pfn / 8]? = none := List.getElem?_eq_none (by omega)
  simp [bitSet, this]

theorem lt_of_bitSet_eq_false {bm : List (BitVec 8)} {pfn : ℕ} (h : bitSet bm pfn = false) :
    pfn < 8 * bm.length := by
  by_contra hlt
  rw [bitSet_of_le (by omega)] at h
  cases h

theorem bitmap_ext {bm bm' : List (BitVec 8)} (hlen : bm'.length = bm.length)
    (h : ∀ q, bitSet bm' q = bitSet bm q) : bm' = bm := by
  refine List.ext_getElem hlen fun i hi' hi => ?_
  apply BitVec.eq_of_getLsbD_eq
  intro k hk
  have hq := h (8 * i + (7 - k))
  have hdiv : (8 * i + (7 - k)) / 8 = i := by omega
  have hmod : (8 * i + (7 - k)) % 8 = 7 - k := by omega
  simp only [bitSet, hdiv, hmod, List.getElem?_eq_getElem hi, List.getElem?_eq_getElem hi'] at hq
  have hbit : bm'[i] &&& bitMask (7 - k) = 0 ↔ bm[i] &&& bitMask (7 - k) = 0 := by
    rw [← not_iff_not, ← ne_eq, ← ne_eq, ← bne_iff_ne, ← bne_iff_ne, hq]
  rw [and_bitMask_eq_zero _ (by omega), and_bitMask_eq_zero _ (by omega),
    show 7 - (7 - k) = k by omega] at hbit
  rw [Bool.eq_iff_iff, ← not_iff_not]
  simpa using hbit

theorem bitSet_replicate (n pfn : ℕ) : bitSet (List.replicate n 0xFF#8) pfn = true := by
  by_cases h : pfn / 8 < n
  · have hmask : 0xFF#8 &&& bitMask (pfn % 8) ≠ 0 := by
      rw [ne_eq, and_bitMask_eq_zero _ (by omega)]
      have : pfn % 8 < 8 := Nat.mod_lt _ (by norm_num)
      interval_cases pfn % 8 <;> decide
    simpa [bitSet, h] using hmask
  · exact bitSet_of_le (by simp only [List.length_replicate]; omega)

namespace PfAlloc

/-! ### Regions of the bitmap -/

/-- Writing one bit: the state is unchanged but for that bit. -/
theorem updateBitmapEntry_spec {f : BitVec 8 → BitVec 8 → BitVec 8} {v : Bool}
    (hf : WritesBit f v) (a : PfAlloc) (addr : ℕ) (h : physToPfn addr < 8 * a.bitmap.length) :
    ∃ bm, updateBitmapEntry f a addr = some { a with bitmap := bm } ∧
      bm.length = a.bitmap.length ∧
      ∀ q, bitSet bm q = if q = physToPfn addr then v else bitSet a.bitmap q := by
  set p := physToPfn addr with hp
  have hbyte : p >>> 3 = p / 8 := by simp [Nat.shiftRight_eq_div_pow]
  have hlt : p / 8 < a.bitmap.length := by omega
  refine ⟨a.bitmap.set (p / 8) (f a.bitmap[p / 8] (bitMask (p % 8))), ?_, by simp, ?_⟩
  · simp [updateBitmapEntry, ← hp, hbyte, List.getElem?_eq_getElem hlt]
  · intro q
    by_cases hq : q / 8 = p / 8
    · have hw := hf a.bitmap[p / 8] (p % 8) (q % 8) (by omega) (by omega)
      have e : (p % 8 = q % 8) ↔ q = p := by omega
      simp only [e] at hw
      simp only [bitSet, hq, List.getElem?_eq_getElem hlt, List.getElem?_set_self hlt]
      exact hw
    · have hne : q ≠ p := by rintro rfl; exact hq rfl
      have hpq : p / 8 ≠ q / 8 := fun e => hq e.symm
      simp only [bitSet, List.getElem?_set_ne hpq, hne, if_false]

theorem bitmapRegion_spec {f : BitVec 8 → BitVec 8 → BitVec 8} {v : Bool} (hf : WritesBit f v)
    (a : PfAlloc) {p nr : ℕ} (h : p + nr ≤ 8 * a.bitmap.length) (h52 : p + nr ≤ 2 ^ 52) :
    ∃ bm, bitmapRegion (updateBitmapEntry f) a (p * 4096) nr = some { a with bitmap := bm } ∧
      bm.length = a.bitmap.length ∧
      ∀ q, bitSet bm q = if p ≤ q ∧ q < p + nr then v else bitSet a.bitmap q := by
  induction nr with
  | zero => exact ⟨a.bitmap, rfl, rfl, fun q => by simp⟩
  | succ i ih =>
      obtain ⟨bm, hbm, hlen, hbits⟩ := ih (by omega) (by omega)
      have hpfn : physToPfn (u64 (p * 4096 + i * pageSize)) = p + i := by
        rw [u64_of_lt (by simp only [pageSize]; omega), physToPfn_eq]
        simp only [pageSize]
        omega
      obtain ⟨bm', hbm', hlen', hbits'⟩ := updateBitmapEntry_spec hf { a with bitmap := bm }
        (u64 (p * 4096 + i * pageSize)) (by rw [hpfn]; simp only [hlen]; omega)
      refine ⟨bm', ?_, hlen'.trans hlen, fun q => ?_⟩
      · simp [bitmapRegion, hbm, hbm']
      · rw [hbits', hpfn]
        simp only [hbits]
        split_ifs <;> first | rfl | omega

end PfAlloc

end HyveMind
