import HyveMind.Lib.ByteMem
import HyveMind.PfAlloc

/-! # The heap allocator

`halloc.c`: power-of-two free lists on top of the page-frame allocator.  The links of the free lists
lie in the free chunks themselves and the per-page records in `alloc_pages_array`, both in the same
byte-addressed memory that the clients write to.

A call that spins on a lock which is never released has no result. -/

namespace HyveMind

open Lib

/-- `struct bin_config`. -/
structure BinConfig where
  binIndex : ℕ
  chunkShift : ℕ
  nrOfInitPages : ℕ
  repopulateNrPages : ℕ
deriving DecidableEq, Repr, Inhabited

/-- The page-frame allocator, the memory, `ptfl_allocator` and `global_halloc_lock`. -/
structure Halloc where
  pf : PfAlloc
  mem : ℕ → ℕ
  bins : ℕ → ℕ
  allocPagesArray : ℕ
  lock : Bool

namespace Halloc

/-- `HALLOC_FLAGS_CLEAR`. -/
abbrev hallocFlagsClear : ℕ := 0

/-- `HALLOC_FLAGS_PAGE_GRANULARITY`. -/
abbrev hallocFlagsPageGranularity : ℕ := 16

/-- `HALLOC_FLAGS_MANAGED`. -/
abbrev hallocFlagsManaged : ℕ := 32

/-- `HALLOC_FLAGS_BIN_INDEX_MASK`. -/
abbrev hallocFlagsBinIndexMask : ℕ := 7

/-- `INVALID_BIN_INDEX`. -/
abbrev invalidBinIndex : ℕ := 10

/-- `MAX_SUPPORTED_ALLOCATION_SIZE`. -/
abbrev maxSupportedAllocationSize : ℕ := 1 <<< (12 + 8)

/-- `HALLOC_DEFAULT_ALIGNMENT`. -/
abbrev hallocDefaultAlignment : ℕ := 8

/-- `sizeof(struct alloc_page)`: one byte of flags and one byte for `contig_allocated`. -/
abbrev allocPageSize : ℕ := 2

/-- `bin_configs`. -/
def binConfigs : List BinConfig :=
  [⟨0, 5, 1, 1⟩, ⟨1, 6, 1, 1⟩, ⟨2, 7, 1, 1⟩, ⟨3, 8, 1, 1⟩, ⟨4, 9, 1, 2⟩, ⟨5, 10, 4, 4⟩, ⟨6, 11, 8, 8⟩]

/-- `ROUND_UP` on 64-bit operands. -/
def roundUp (x y : ℕ) : ℕ := u64 (x + (y - 1)) / y

/-- `IS_POWER_OF_TWO`. -/
def isPowerOfTwo (x : ℕ) : Bool := x &&& (x - 1) == 0

/-! ### Per-page records -/

/-- The address of `alloc_pages_array[pfn]`. -/
def allocPageAddr (s : Halloc) (pfn : ℕ) : ℕ := s.allocPagesArray + allocPageSize * pfn

/-- `page->halloc_flags`. -/
def hallocFlags (s : Halloc) (pfn : ℕ) : ℕ := s.mem (s.allocPageAddr pfn)

/-- `page->contig_allocated`. -/
def contigAllocated (s : Halloc) (pfn : ℕ) : ℕ := s.mem (s.allocPageAddr pfn + 1)

/-- `page->halloc_flags = flags`. -/
def setHallocFlags (s : Halloc) (pfn flags : ℕ) : Halloc :=
  { s with mem := Function.update s.mem (s.allocPageAddr pfn) (flags % 256) }

/-- `page->contig_allocated = nr`. -/
def setContigAllocated (s : Halloc) (pfn nr : ℕ) : Halloc :=
  { s with mem := Function.update s.mem (s.allocPageAddr pfn + 1) (nr % 256) }

/-- `set_page_range_halloc_flags`. -/
def setPageRangeHallocFlags (s : Halloc) (start nrPages flags : ℕ) : Halloc :=
  (List.range nrPages).foldl
    (fun s i => s.setHallocFlags (physToPfn (virtToPhys (u64 (start + i * pageSize)))) flags) s

/-- `spinlock_acquire` of a lock that nobody else will release. -/
def spinlockAcquire (s : Halloc) : Option Halloc :=
  if s.lock then none else some { s with lock := true }

/-- `spinlock_release`. -/
def spinlockRelease (s : Halloc) : Halloc := { s with lock := false }

/-! ### Bins -/

/-- The loop of `populate_bin`; no result if `fuel` chunks are not enough. -/
def populateLoop (pagesStart chunkSize : ℕ) : ℕ → (ℕ → ℕ) → ℕ → ℕ → Option ((ℕ → ℕ) × ℕ)
  | 0, _, _, _ => none
  | fuel + 1, mem, next, chunkPos =>
      if pagesStart ≤ chunkPos then
        populateLoop pagesStart chunkSize fuel (store64 mem chunkPos next) chunkPos
          (u64Sub chunkPos chunkSize)
      else some (mem, next)

/-- `populate_bin`: `false` for the result `-1`. -/
def populateBin (s : Halloc) (binIndex chunkShift nrPages : ℕ) : Option (Halloc × Bool) := do
  let (pf, addr) ← s.pf.getPages nrPages
  match addr with
  | none => return ({ s with pf := pf }, false)
  | some pagesStart => do
      let s' := setPageRangeHallocFlags { s with pf := pf } pagesStart nrPages
        (hallocFlagsManaged ||| binIndex)
      let chunkSize := 1 <<< chunkShift
      let chunkPos := u64Sub (u64 (pagesStart + nrPages <<< pageShift)) chunkSize
      let (mem, next) ← populateLoop pagesStart chunkSize
        ((nrPages <<< pageShift) / chunkSize + 1) s'.mem 0 chunkPos
      return ({ s' with mem := mem, bins := Function.update s'.bins binIndex next }, true)

/-- `repopulate_bin`. -/
def repopulateBin (s : Halloc) (binIndex : ℕ) (config : BinConfig) : Option (Halloc × Bool) :=
  s.populateBin binIndex config.chunkShift config.repopulateNrPages

/-- The loop of `init_halloc`. -/
def populateBins : List BinConfig → Halloc → Option (Halloc × Bool)
  | [], s => some (s, true)
  | config :: configs, s => do
      let (s', ok) ← s.populateBin config.binIndex config.chunkShift config.nrOfInitPages
      if ok then populateBins configs s' else return (s', false)

/-- `init_halloc`: `false` for the result `-1`. -/
def initHalloc (memInfo : SysMemInfo) (pf : PfAlloc) (mem : ℕ → ℕ) : Option (Halloc × Bool) := do
  let neededPages := roundUp (u64 (memInfo.nrOfPfns * allocPageSize)) pageSize
  let (pf', addr) ← pf.getPages neededPages
  match addr with
  | none => return (⟨pf', mem, fun _ => 0, 0, false⟩, false)
  | some allocPagesArray => do
      let (s, ok) ← populateBins binConfigs ⟨pf', mem, fun _ => 0, allocPagesArray, false⟩
      if ok then return (s, true)
      else do
        let pf'' ← s.pf.freePages neededPages s.allocPagesArray
        return ({ s with pf := pf'' }, false)

/-- `size_to_bin_index`. -/
def sizeToBinIndex (size : ℕ) : ℕ :=
  if size ≤ 32 then 0
  else if size ≤ 64 then 1
  else if size ≤ 128 then 2
  else if size ≤ 256 then 3
  else if size ≤ 512 then 4
  else if size ≤ 1024 then 5
  else if size ≤ 2048 then 6
  else invalidBinIndex

/-! ### Allocation and release -/

/-- `pf_fallback_allocation`. -/
def pfFallbackAllocation (s : Halloc) (req : ℕ) : Option (Halloc × ℕ) := do
  let pagesNeeded := roundUp req pageSize
  let (pf, addr) ← s.pf.getPages pagesNeeded
  match addr with
  | none => return ({ s with pf := pf }, 0)
  | some pagesStart => do
      let s₁ ← spinlockAcquire { s with pf := pf }
      let pfn := physToPfn (virtToPhys pagesStart)
      let s₂ := s₁.setContigAllocated pfn pagesNeeded
      let s₃ := s₂.setHallocFlags pfn (hallocFlagsPageGranularity ||| hallocFlagsManaged)
      return (s₃.spinlockRelease, pagesStart)

/-- The part of `hmalloc_align` that takes the first chunk of a bin. -/
def takeChunk (s : Halloc) (binIndex : ℕ) (config : BinConfig) : Halloc × ℕ :=
  let header := s.bins binIndex
  (spinlockRelease { s with
    bins := Function.update s.bins binIndex (load64 s.mem header)
    mem := fillZero s.mem header (1 <<< config.chunkShift) }, header)

/-- `hmalloc_align`: the address of the block, `0` for `NULL`.  The lock stays taken when no page is left. -/
def hmallocAlign (s : Halloc) (req alignment : ℕ) : Option (Halloc × ℕ) :=
  if req = 0 ∨ isPowerOfTwo alignment = false then some (s, 0)
  else
    let actualReq := max req alignment
    let binIndex := sizeToBinIndex actualReq
    if binIndex = invalidBinIndex then
      if maxSupportedAllocationSize < actualReq then some (s, 0)
      else s.pfFallbackAllocation actualReq
    else do
      let s₁ ← s.spinlockAcquire
      let config := binConfigs.getD binIndex default
      if s₁.bins binIndex = 0 then do
        let (s₂, ok) ← s₁.repopulateBin binIndex config
        if ok then return s₂.takeChunk binIndex config else return (s₂, 0)
      else return s₁.takeChunk binIndex config

/-- `hmalloc`. -/
def hmalloc (s : Halloc) (req : ℕ) : Option (Halloc × ℕ) := s.hmallocAlign req hallocDefaultAlignment

/-- `hfree`. -/
def hfree (s : Halloc) (ptr : ℕ) : Option Halloc := do
  let s₁ ← s.spinlockAcquire
  let pfn := physToPfn (virtToPhys ptr)
  let flags := s₁.hallocFlags pfn
  if flags &&& hallocFlagsManaged = 0 then return s₁.spinlockRelease
  else if flags &&& hallocFlagsPageGranularity ≠ 0 then do
    let nrPages := s₁.contigAllocated pfn
    let s₂ := s₁.setPageRangeHallocFlags ptr nrPages hallocFlagsClear
    let pf ← s₂.pf.freePages nrPages ptr
    return spinlockRelease { s₂ with pf := pf }
  else
    let binIndex := flags &&& hallocFlagsBinIndexMask
    return spinlockRelease { s₁ with
      mem := store64 s₁.mem ptr (s₁.bins binIndex)
      bins := Function.update s₁.bins binIndex ptr }

end Halloc

end HyveMind
