import HyveMind.Ept
import HyveMind.Lib.PageFill

/-! # The direct mapping

`arch/x64/direct_mapping.c` with the index arithmetic and the entry accessors of `asm/pgtables.h`: the
construction of an address space that maps physical memory at a fixed offset.

The machine state is the allocator behind `get_page_raw`, which is a parameter, together with the
physical memory.  The page tables are reached through the running address space, which has all of
physical memory at `curr_offset`: the word behind a pointer is that at the pointer minus
`curr_offset`.  `none` is a fault of the allocator or a loop that does not end; a result `true` is the
source's `0` and `false` its `-1`. -/

namespace HyveMind.DirectMapping

open Lib Lib.PageTable Ept

/-- `struct mapping_info`, without the pointer to the address space. -/
structure MappingInfo where
  targetOffset : ℕ
  currOffset : ℕ
  psFlags : ℕ
  nopsFlags : ℕ
deriving DecidableEq, Repr

/-- `PGTABLE_PRESENT`. -/
abbrev pgtablePresent : ℕ := 1

/-- `max_phys_addr`. -/
abbrev maxPhysAddr : ℕ := 0xFFFFFFFFFFFFF

/-- `supports_1gb_pages`. -/
def supports1gbPages : Bool := false

/-! ### Entries -/

/-- `pgtable_entry_present`. -/
def pgtableEntryPresent (rawEntry : ℕ) : Bool := rawEntry &&& 0x01 != 0

/-- `pgtable_entry_maps_page`. -/
def pgtableEntryMapsPage (rawEntry : ℕ) : Bool := rawEntry &&& 2 ^ 7 != 0

/-- `is_aligned`. -/
def isAligned (val alignment : ℕ) : Bool := val &&& (alignment - 1) == 0

/-- `eligible_for_gb_mapping`. -/
def eligibleForGbMapping (start stop : ℕ) : Bool :=
  if !isAligned start (1 <<< 30) then false
  else if u64Sub stop start < 2 ^ 30 - 1 then false
  else true

/-- `eligible_for_mb_mapping`, which refuses everything. -/
def eligibleForMbMapping (start stop : ℕ) : Bool :=
  if !isAligned start (1 <<< 21) then false
  else if u64Sub stop start < 2 ^ 21 - 1 then false
  else false

/-- `pml4_entry_index`. -/
def pml4EntryIndex (addr : ℕ) : ℕ := u64 (addr <<< 16) >>> 55

/-- `pdpt_entry_index`. -/
def pdptEntryIndex (addr : ℕ) : ℕ := u64 (addr <<< 25) >>> 55

/-- `pdt_entry_index`. -/
def pdtEntryIndex (addr : ℕ) : ℕ := u64 (addr <<< 34) >>> 55

/-- `pt_entry_index`. -/
def ptEntryIndex (addr : ℕ) : ℕ := u64 (addr <<< 43) >>> 55

/-- `read_paddr_from_cr3`. -/
def readPaddrFromCr3 (cr3 : ℕ) : ℕ := readPaddr cr3

/-- `read_paddr_from_nops_entry`. -/
def readPaddrFromNopsEntry (rawEntry : ℕ) : ℕ := readPaddr rawEntry

/-- The common body of the setters of addresses. -/
def writePaddr (raw paddr : ℕ) : ℕ := setPaddrField raw ((paddr &&& maxPhysAddr) >>> pageShift)

/-- `write_paddr_to_cr3`. -/
def writePaddrToCr3 (cr3 paddr : ℕ) : ℕ := writePaddr cr3 paddr

/-- `write_paddr_to_pml4e`. -/
def writePaddrToPml4e (rawEntry paddr : ℕ) : ℕ := writePaddr rawEntry paddr

/-- `write_paddr_to_pdpte_nops`. -/
def writePaddrToPdpteNops (rawEntry paddr : ℕ) : ℕ := writePaddr rawEntry paddr

/-- `write_paddr_to_pdte_nops`. -/
def writePaddrToPdteNops (rawEntry paddr : ℕ) : ℕ := writePaddr rawEntry paddr

/-- `write_paddr_to_pte`. -/
def writePaddrToPte (rawEntry paddr : ℕ) : ℕ := writePaddr rawEntry paddr

/-! ### Tables -/

variable {σ : Type*} (getPageRaw : σ → Option (σ × Option ℕ)) (info : MappingInfo)

/-- The physical address behind a pointer of the running address space. -/
def cell (ptr : ℕ) : ℕ := virtToPhysAt ptr info.currOffset

/-- `__get_pgtable_entry`. -/
def getPgtableEntry (pgtableAddr entryIndex : ℕ) : ℕ :=
  physToVirtAt (pgtableAddr + entryIndex <<< 3) info.currOffset

/-- `zero_pgtable_struct`. -/
def zeroPgtableStruct (paddr : ℕ) (h : Heap σ) : Heap σ :=
  { h with mem := memsetZero h.mem (cell info (physToVirtAt paddr info.currOffset)) pageSize }

/-- `_init_cr3`. -/
def initCr3 (cr3 : ℕ) (h : Heap σ) : Option ((Heap σ × ℕ) × Bool) := do
  let (a, addr) ← getPageRaw h.alloc
  match addr with
  | none => return ((⟨a, h.mem⟩, cr3), false)
  | some paddr =>
      return ((zeroPgtableStruct info paddr ⟨a, h.mem⟩, writePaddrToCr3 cr3 paddr), true)

/-- `generic_init_nops_entry_raw`; `entry` is the address of the entry. -/
def genericInitNopsEntryRaw (entry flags : ℕ) (writePaddr : ℕ → ℕ → ℕ) (h : Heap σ) :
    Option (Heap σ × Bool) := do
  let (a, addr) ← getPageRaw h.alloc
  match addr with
  | none => return (⟨a, h.mem⟩, false)
  | some paddr =>
      return ((⟨a, h.mem⟩ : Heap σ).write entry (writePaddr (h.mem entry ||| flags) paddr), true)

/-- The common body of the three functions that link a new table at `entry`. -/
def initNopsEntry (writePaddr : ℕ → ℕ → ℕ) (entry : ℕ) (h : Heap σ) : Option (Heap σ × Bool) := do
  let (h', ok) ←
    genericInitNopsEntryRaw getPageRaw entry (info.nopsFlags ||| pgtablePresent) writePaddr h
  if ok then return (zeroPgtableStruct info (readPaddrFromNopsEntry (h'.mem entry)) h', true)
  else return (h', false)

/-- `_init_pml4_entry`. -/
def initPml4Entry (entry : ℕ) (h : Heap σ) : Option (Heap σ × Bool) :=
  initNopsEntry getPageRaw info writePaddrToPml4e entry h

/-- `_init_pdpte_nops_entry`. -/
def initPdpteNopsEntry (entry : ℕ) (h : Heap σ) : Option (Heap σ × Bool) :=
  initNopsEntry getPageRaw info writePaddrToPdpteNops entry h

/-- `_init_pdt_nops_entry`. -/
def initPdtNopsEntry (entry : ℕ) (h : Heap σ) : Option (Heap σ × Bool) :=
  initNopsEntry getPageRaw info writePaddrToPdteNops entry h

/-! ### The loops -/

/-- `pt_map_range`. -/
def ptMapRange (h : Heap σ) (ptPtr start stop : ℕ) : Option (Heap σ × Bool) :=
  overBlocks true 12
    (fun h currVaddrStart _ =>
      let entry := cell info (getPgtableEntry info ptPtr (ptEntryIndex currVaddrStart))
      if !pgtableEntryPresent (h.mem entry) then
        some (h.write entry (writePaddrToPte (h.mem entry ||| (info.psFlags ||| pgtablePresent))
          (virtToPhysAt currVaddrStart info.targetOffset)), true)
      else some (h, true))
    h (physToVirtAt start info.targetOffset) (physToVirtAt stop info.targetOffset)

/-- `pdt_map_range`. -/
def pdtMapRange (h : Heap σ) (pdtPtr start stop : ℕ) : Option (Heap σ × Bool) :=
  overBlocks true 21
    (fun h currVaddrStart currVaddrEnd =>
      let entry := cell info (getPgtableEntry info pdtPtr (pdtEntryIndex currVaddrStart))
      let present := pgtableEntryPresent (h.mem entry)
      if present && pgtableEntryMapsPage (h.mem entry) then some (h, true)
      else if !present && eligibleForMbMapping currVaddrStart currVaddrEnd then some (h, true)
      else do
        let (h', ok) ←
          if !present then initPdtNopsEntry getPageRaw info entry h else some (h, true)
        if ok then
          ptMapRange info h' (readPaddrFromNopsEntry (h'.mem entry))
            (virtToPhysAt currVaddrStart info.targetOffset)
            (virtToPhysAt currVaddrEnd info.targetOffset)
        else return (h', false))
    h (physToVirtAt start info.targetOffset) (physToVirtAt stop info.targetOffset)

/-- `pdpt_map_range`. -/
def pdptMapRange (h : Heap σ) (pdptPtr start stop : ℕ) : Option (Heap σ × Bool) :=
  overBlocks true 30
    (fun h currVaddrStart currVaddrEnd =>
      let entry := cell info (getPgtableEntry info pdptPtr (pdptEntryIndex currVaddrStart))
      let present := pgtableEntryPresent (h.mem entry)
      if supports1gbPages && (present && pgtableEntryMapsPage (h.mem entry)) then some (h, true)
      else if supports1gbPages && (!present && eligibleForGbMapping currVaddrStart currVaddrEnd) then
        some (h, true)
      else do
        let (h', ok) ←
          if !present then initPdpteNopsEntry getPageRaw info entry h else some (h, true)
        if ok then
          pdtMapRange getPageRaw info h' (readPaddrFromNopsEntry (h'.mem entry))
            (virtToPhysAt currVaddrStart info.targetOffset)
            (virtToPhysAt currVaddrEnd info.targetOffset)
        else return (h', false))
    h (physToVirtAt start info.targetOffset) (physToVirtAt stop info.targetOffset)

/-- `pml4_map_range`. -/
def pml4MapRange (h : Heap σ) (pml4Ptr start stop : ℕ) : Option (Heap σ × Bool) :=
  overBlocks true 39
    (fun h currVaddrStart currVaddrEnd => do
      let entry := cell info (getPgtableEntry info pml4Ptr (pml4EntryIndex currVaddrStart))
      let (h', ok) ←
        if !pgtableEntryPresent (h.mem entry) then initPml4Entry getPageRaw info entry h
        else some (h, true)
      if ok then
        pdptMapRange getPageRaw info h' (readPaddrFromNopsEntry (h'.mem entry))
          (virtToPhysAt currVaddrStart info.targetOffset)
          (virtToPhysAt currVaddrEnd info.targetOffset)
      else return (h', false))
    h (physToVirtAt start info.targetOffset) (physToVirtAt stop info.targetOffset)

/-- `directly_map_phys_range`; the state holds the value of `*addr_space`. -/
def directlyMapPhysRange (s : Heap σ × ℕ) (start stop : ℕ) : Option ((Heap σ × ℕ) × Bool) := do
  let alignedStart := pageAlign start
  let ((h, cr3), ok) ←
    if readPaddrFromCr3 s.2 = 0 then initCr3 getPageRaw info s.2 s.1 else some (s, true)
  if ok then
    let (h', ok) ← pml4MapRange getPageRaw info h (readPaddrFromCr3 cr3) alignedStart stop
    return ((h', cr3), ok)
  else return ((h, cr3), false)

/-- The entries that get mapped. -/
def isMappedType (type : MemmapRegionType) : Bool :=
  !(type != .usable && type != .hypervisor && type != .bootloaderReclaimable)

/-- `raw_setup_direct_mapping_from_memmap`. -/
def rawSetupDirectMappingFromMemmap :
    List MemmapEntry → Heap σ × ℕ → Option ((Heap σ × ℕ) × Bool)
  | [], s => some (s, true)
  | entry :: memMap, s =>
      if !isMappedType entry.type then rawSetupDirectMappingFromMemmap memMap s
      else do
        let (s', ok) ← directlyMapPhysRange getPageRaw info s entry.start entry.stop
        if ok then rawSetupDirectMappingFromMemmap memMap s' else return (s', false)

/-! ### The processor's walk -/

/-- How the processor reads the entries: unlike `readPaddr` it takes the whole field. -/
def pgFormat : Format where
  present := pgtableEntryPresent
  leaf := fun d e => d == 3 || (d != 0 && pgtableEntryMapsPage e)
  next := fun e => paddrField e * 4096

/-- The root table of the processor. -/
def rootTable (cr3 : ℕ) : ℕ := paddrField cr3 * 4096

/-- `is_paging_canonical`. -/
def isPagingCanonical (vaddr : ℕ) : Bool :=
  let untranslatedBits := vaddr >>> 47
  untranslatedBits = 0 || untranslatedBits = 2 ^ 17 - 1

/-- The bits of an entry outside of its address field. -/
def flagBits (rawEntry : ℕ) : ℕ := setPaddrField rawEntry 0

/-- The translation of a canonical address: the physical address and the flags of the leaf. -/
def pageWalk (mem : ℕ → ℕ) (cr3 vaddr : ℕ) : Option (ℕ × ℕ) :=
  if isPagingCanonical vaddr then
    (lookup pgFormat mem (rootTable cr3) vaddr).map fun leaf =>
      (leafTarget vaddr leaf, flagBits leaf.2)
  else none

end HyveMind.DirectMapping
