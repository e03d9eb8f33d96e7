import HyveMind.Lib.PageMap
import HyveMind.PfAlloc

/-! # Extended page tables

`arch/x64/vmx/ept.c` with the entry accessors of `vmx/ept_types.h` and the index arithmetic of
`vmx/ept.h`: the construction of a VM's guest-physical address space, mapping by mapping, and its
teardown.

The machine state is the page-frame allocator together with the memory, a function from
direct-mapping addresses to 64-bit words.  `none` is a fault of the allocator or, in the teardown,
a recursion deeper than the fuel.  `maxPhysAddr` is the per-CPU value behind `MAX_PHYS_ADDR`.  The
signed `offset` of a mapping is the word that represents it, so that adding it is addition modulo
`2 ^ 64`.  Printing is left out. -/

namespace HyveMind

open Lib Lib.PageTable

/-- `enum ept_error`. -/
inductive EptError
  | success | rangeAlreadyMapped | partsOfRangeAlreadyMapped | error
deriving DecidableEq, Repr

/-- `struct ept_mapping_info`. -/
structure EptMappingInfo where
  guestPaddrStart : ℕ
  reqBytes : ℕ
  offset : ℕ
  noPageFlags : ℕ
  pageMapFlags : ℕ
  useGbMappings : Bool
  useMbMappings : Bool
deriving DecidableEq, Repr

/-- The allocator and the memory. -/
abbrev EptHeap := Heap PfAlloc

namespace Ept

/-- `EPT_RWX`. -/
abbrev eptRwx : ℕ := 7

/-- `EPT_MAPS_PAGE`. -/
abbrev eptMapsPage : ℕ := 128

/-- `EPT_MEM_TYPE_WB_FLAG`. -/
abbrev eptMemTypeWbFlag : ℕ := 48

/-- `EPT_MEM_TYPE_UC_FLAG`. -/
abbrev eptMemTypeUcFlag : ℕ := 0

/-- `create_ept_mapping_info`. -/
def createEptMappingInfo (guestPaddrStart reqBytes targetHostPaddr : ℕ) : EptMappingInfo where
  guestPaddrStart := guestPaddrStart
  reqBytes := reqBytes
  offset := u64Sub targetHostPaddr guestPaddrStart
  noPageFlags := 0
  pageMapFlags := 0
  useGbMappings := false
  useMbMappings := false

/-! ### Entries -/

/-- The 40-bit field `paddr` of `eptp` and of every kind of entry. -/
def paddrField (raw : ℕ) : ℕ := raw / 2 ^ 12 % 2 ^ 40

/-- The word with the field `paddr` replaced. -/
def setPaddrField (raw val : ℕ) : ℕ :=
  raw % 2 ^ 12 + val % 2 ^ 40 * 2 ^ 12 + raw / 2 ^ 52 * 2 ^ 52

/-- The common body of the setters for table addresses. -/
def setPaddr (maxPhysAddr raw paddr : ℕ) : ℕ :=
  setPaddrField raw ((paddr >>> pageShift) &&& maxPhysAddr)

/-- `eptp_set_paddr`. -/
def eptpSetPaddr (maxPhysAddr eptp paddr : ℕ) : ℕ := setPaddr maxPhysAddr eptp paddr

/-- `ept_pml4e_set_paddr`. -/
def eptPml4eSetPaddr (maxPhysAddr pml4e paddr : ℕ) : ℕ := setPaddr maxPhysAddr pml4e paddr

/-- `ept_pdpte_set_paddr`. -/
def eptPdpteSetPaddr (maxPhysAddr pdpte paddr : ℕ) : ℕ := setPaddr maxPhysAddr pdpte paddr

/-- `ept_pde_set_paddr`. -/
def eptPdeSetPaddr (maxPhysAddr pde paddr : ℕ) : ℕ := setPaddr maxPhysAddr pde paddr

/-- `ept_pte_set_paddr`. -/
def eptPteSetPaddr (maxPhysAddr pte paddr : ℕ) : ℕ := setPaddr maxPhysAddr pte paddr

/-- `ept_pdpte_set_pf_paddr`. -/
def eptPdpteSetPfPaddr (maxPhysAddr pdpte paddr : ℕ) : ℕ :=
  setPaddrField pdpte (((paddr &&& maxPhysAddr) >>> 30) <<< 18)

/-- `ept_pde_set_pf_paddr`. -/
def eptPdeSetPfPaddr (maxPhysAddr pde paddr : ℕ) : ℕ :=
  setPaddrField pde (((paddr &&& maxPhysAddr) >>> 20) <<< 9)

/-- The common body of the readers of table addresses.  The shift of the field is one of 40 bits, as the
field is. -/
def readPaddr (raw : ℕ) : ℕ := (paddrField raw <<< pageShift) % 2 ^ 40

/-- `eptp_read_paddr`. -/
def eptpReadPaddr (eptp : ℕ) : ℕ := readPaddr eptp

/-- `ept_pml4e_read_paddr`. -/
def eptPml4eReadPaddr (pml4e : ℕ) : ℕ := readPaddr pml4e

/-- `ept_pdpte_read_paddr`. -/
def eptPdpteReadPaddr (pdpte : ℕ) : ℕ := readPaddr pdpte

/-- `ept_pde_read_paddr`. -/
def eptPdeReadPaddr (pde : ℕ) : ℕ := readPaddr pde

/-- `is_ept_entry_present`. -/
def isEptEntryPresent (rawEntry : ℕ) : Bool := !(rawEntry &&& 7 == 0) || rawEntry &&& 2 ^ 10 != 0

/-- `ept_entry_maps_page`, also the field `maps_page`. -/
def eptEntryMapsPage (rawEntry : ℕ) : Bool := rawEntry &&& eptMapsPage != 0

/-! ### Indices and blocks -/

/-- `__get_ept_xentry_index`. -/
def getEptXentryIndex (addr msbPos : ℕ) : ℕ := u64 (addr <<< (63 - msbPos)) >>> 55

/-- `get_ept_pml4_index`. -/
def getEptPml4Index (addr : ℕ) : ℕ := getEptXentryIndex addr 47

/-- `get_ept_pdpt_index`. -/
def getEptPdptIndex (addr : ℕ) : ℕ := getEptXentryIndex addr 38

/-- `get_ept_pd_index`. -/
def getEptPdIndex (addr : ℕ) : ℕ := getEptXentryIndex addr 29

/-- `get_ept_pt_index`. -/
def getEptPtIndex (addr : ℕ) : ℕ := getEptXentryIndex addr 20

/-- `SCALE_BLOCK_INDEX`. -/
def scaleBlockIndex (rawIndex : ℕ) : ℕ := rawIndex <<< 3

/-- The common body of `should_do_gb_mapping` and `should_do_mb_mapping`. -/
def shouldDoMapping (enabled : Bool) (size gpaStart gpaEnd : ℕ) (info : EptMappingInfo) : Bool :=
  if !enabled then false
  else if u64 (u64Sub gpaEnd gpaStart + 1) < size then false
  else if gpaStart % size ≠ 0 then false
  else if u64 (gpaStart + info.offset) % size ≠ 0 then false
  else true

/-- `should_do_gb_mapping`. -/
def shouldDoGbMapping (gpaStart gpaEnd : ℕ) (info : EptMappingInfo) : Bool :=
  shouldDoMapping info.useGbMappings (2 ^ 30) gpaStart gpaEnd info

/-- `should_do_mb_mapping`. -/
def shouldDoMbMapping (gpaStart gpaEnd : ℕ) (info : EptMappingInfo) : Bool :=
  shouldDoMapping info.useMbMappings (2 ^ 20) gpaStart gpaEnd info

/-! ### Construction -/

/-- `memset(addr, 0, len)`. -/
def memsetZero (mem : ℕ → ℕ) (addr len : ℕ) : ℕ → ℕ :=
  fun b => if addr ≤ b ∧ b < addr + len then 0 else mem b

/-- `__allocate_ept_paging_structure`: the physical address of an empty page, `0` on failure. -/
def allocateEptPagingStructure (h : EptHeap) : Option (EptHeap × ℕ) := do
  let (a, addr) ← h.alloc.getPageRaw
  match addr with
  | none => return (⟨a, h.mem⟩, 0)
  | some eptTablePtr => return (⟨a, memsetZero h.mem (physToVirt eptTablePtr) pageSize⟩, eptTablePtr)

/-- The common body of the three functions that link a new table at `entry`; `false` for the result
`-1`. -/
def initTableEntry (setEntryPaddr : ℕ → ℕ → ℕ) (entry : ℕ) (info : EptMappingInfo) (h : EptHeap) :
    Option (EptHeap × Bool) := do
  let (h', tablePtr) ← allocateEptPagingStructure h
  if tablePtr = 0 then return (h', false)
  else return (h'.write entry (setEntryPaddr (h'.mem entry) tablePtr ||| info.noPageFlags), true)

variable (maxPhysAddr : ℕ)

/-- `__init_pd_table_entry`. -/
def initPdTableEntry (entry : ℕ) (info : EptMappingInfo) (h : EptHeap) : Option (EptHeap × Bool) :=
  initTableEntry (eptPdeSetPaddr maxPhysAddr) entry info h

/-- `__init_pdpt_entry`. -/
def initPdptEntry (entry : ℕ) (info : EptMappingInfo) (h : EptHeap) : Option (EptHeap × Bool) :=
  initTableEntry (eptPdpteSetPaddr maxPhysAddr) entry info h

/-- `__init_pml4_entry`. -/
def initPml4Entry (entry : ℕ) (info : EptMappingInfo) (h : EptHeap) : Option (EptHeap × Bool) :=
  initTableEntry (eptPml4eSetPaddr maxPhysAddr) entry info h

/-- `do_ept_pt_mapping`. -/
def doEptPtMapping (info : EptMappingInfo) (h : EptHeap) (ptTablePtr guestStart guestEnd : ℕ) :
    Option (EptHeap × EptError) :=
  overBlocks EptError.success 12
    (fun h currStart _ =>
      let entry := ptTablePtr + scaleBlockIndex (getEptPtIndex currStart)
      if isEptEntryPresent (h.mem entry) then some (h, .rangeAlreadyMapped)
      else
        some (h.write entry (eptPteSetPaddr maxPhysAddr (h.mem entry) (u64 (currStart + info.offset))
          ||| info.pageMapFlags), .success))
    h guestStart guestEnd

/-- `do_ept_pd_mapping`. -/
def doEptPdMapping (info : EptMappingInfo) (h : EptHeap) (pdTablePtr guestStart guestEnd : ℕ) :
    Option (EptHeap × EptError) :=
  overBlocks EptError.success 21
    (fun h currStart currEnd =>
      let entry := pdTablePtr + scaleBlockIndex (getEptPdIndex currStart)
      let isPresent := isEptEntryPresent (h.mem entry)
      if isPresent && eptEntryMapsPage (h.mem entry) then some (h, .rangeAlreadyMapped)
      else if isPresent && shouldDoMbMapping currStart currEnd info then
        some (h, .partsOfRangeAlreadyMapped)
      else if !isPresent && shouldDoMbMapping currStart currEnd info then
        some (h.write entry
          (eptPdeSetPfPaddr maxPhysAddr (h.mem entry) (u64 (currStart + info.offset))
            ||| info.pageMapFlags), .success)
      else do
        let (h', ok) ← if isPresent then some (h, true) else initPdTableEntry maxPhysAddr entry info h
        if ok then
          doEptPtMapping maxPhysAddr info h' (physToVirt (eptPdeReadPaddr (h'.mem entry)))
            currStart currEnd
        else return (h', .error))
    h guestStart guestEnd

/-- `do_ept_pdpt_mapping`. -/
def doEptPdptMapping (info : EptMappingInfo) (h : EptHeap) (pdpt guestStart guestEnd : ℕ) :
    Option (EptHeap × EptError) :=
  overBlocks EptError.success 30
    (fun h currStart currEnd =>
      let entry := pdpt + scaleBlockIndex (getEptPdptIndex currStart)
      let isPresent := isEptEntryPresent (h.mem entry)
      if isPresent && eptEntryMapsPage (h.mem entry) then some (h, .rangeAlreadyMapped)
      else if isPresent && shouldDoGbMapping currStart currEnd info then
        some (h, .partsOfRangeAlreadyMapped)
      else if !isPresent && shouldDoGbMapping currStart currEnd info then
        some (h.write entry
          (eptPdpteSetPfPaddr maxPhysAddr (h.mem entry) (u64 (currStart + info.offset))
            ||| info.pageMapFlags), .success)
      else do
        let (h', ok) ← if isPresent then some (h, true) else initPdptEntry maxPhysAddr entry info h
        if ok then
          doEptPdMapping maxPhysAddr info h' (physToVirt (eptPdpteReadPaddr (h'.mem entry)))
            currStart currEnd
        else return (h', .error))
    h guestStart guestEnd

/-- `do_ept_pml4_mapping`. -/
def doEptPml4Mapping (info : EptMappingInfo) (h : EptHeap)
    (pml4 guestPaddrStart guestPaddrEnd : ℕ) : Option (EptHeap × EptError) :=
  overBlocks EptError.success 39
    (fun h currStart currEnd => do
      let entry := pml4 + scaleBlockIndex (getEptPml4Index currStart)
      let (h', ok) ←
        if !isEptEntryPresent (h.mem entry) then initPml4Entry maxPhysAddr entry info h
        else some (h, true)
      if ok then
        doEptPdptMapping maxPhysAddr info h' (physToVirt (eptPml4eReadPaddr (h'.mem entry)))
          currStart currEnd
      else return (h', .error))
    h guestPaddrStart guestPaddrEnd

/-- `add_ept_mapping`. -/
def addEptMapping (eptp : ℕ) (info : EptMappingInfo) (h : EptHeap) : Option (EptHeap × EptError) :=
  doEptPml4Mapping maxPhysAddr info h (physToVirt (eptpReadPaddr eptp))
    (pageAlign info.guestPaddrStart) (u64 (info.guestPaddrStart + info.reqBytes))

/-- `eptp->raw` with write-back memory type and a walk of length four. -/
def eptpInit : ℕ := 6 + 3 * 2 ^ 3

/-- `create_ept_mapping` (with an `eptp` that is not `NULL`): the new `eptp` and the result. -/
def createEptMapping (info : EptMappingInfo) (h : EptHeap) : Option (EptHeap × ℕ × EptError) := do
  let (h', pml4Ptr) ← allocateEptPagingStructure h
  if pml4Ptr = 0 then return (h', eptpInit, .error)
  else do
    let eptp := eptpSetPaddr maxPhysAddr eptpInit pml4Ptr
    let (h'', ret) ← addEptMapping maxPhysAddr eptp info h'
    return (h'', eptp, ret)

/-! ### Teardown -/

/-- `destroy_ept_table`, with a bound on the depth of the recursion.  `entry` is a pointer to
8-byte entries that is moved by `SCALE_BLOCK_INDEX(i)` entries, and the descendant is looked for at
`entry->paddr >> 12`. -/
def destroyEptTable : ℕ → ℕ → EptHeap → Option EptHeap
  | 0, _, _ => none
  | fuel + 1, tablePtr, h => do
      let h' ← (List.range 512).foldlM (fun h i =>
        let raw := h.mem (u64 (tablePtr + 8 * scaleBlockIndex i))
        if isEptEntryPresent raw && !eptEntryMapsPage raw then
          destroyEptTable fuel (physToVirt (paddrField raw >>> 12)) h
        else some h) h
      let a ← h'.alloc.freePage tablePtr
      return { h' with alloc := a }

/-- `destroy_ept_mapping`: the new `eptp`. -/
def destroyEptMapping (fuel eptp : ℕ) (h : EptHeap) : Option (EptHeap × ℕ) :=
  let pml4Ptr := eptpReadPaddr eptp
  if pml4Ptr = 0 then some (h, eptp)
  else do
    let h' ← destroyEptTable fuel (physToVirt pml4Ptr) h
    return (h', eptpSetPaddr maxPhysAddr eptp 0)

/-! ### The processor's walk -/

/-- How the processor reads the entries, with all 52 bits of an address.  Pointers are followed in the
direct mapping. -/
def eptFormat : Format where
  present := isEptEntryPresent
  leaf := fun d e => d == 3 || (d != 0 && eptEntryMapsPage e)
  next := fun e => physToVirt (paddrField e * 4096)

/-- The host address that a leaf of depth `d` gives to `gpa`: bits 51:12, 51:21 or 51:30 of the leaf
above the bits of the page offset. -/
def leafTarget (gpa : ℕ) (leaf : ℕ × ℕ) : ℕ :=
  leaf.2 / 2 ^ shift leaf.1 % 2 ^ (52 - shift leaf.1) * 2 ^ shift leaf.1 + gpa % 2 ^ shift leaf.1

/-- The translation of a guest-physical address. -/
def eptWalk (mem : ℕ → ℕ) (eptp gpa : ℕ) : Option ℕ :=
  if gpa < 2 ^ 48 then
    (lookup eptFormat mem (physToVirt (paddrField eptp * 4096)) gpa).map (leafTarget gpa)
  else none

end Ept

end HyveMind
