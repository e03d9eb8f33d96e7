import HyveMind.Types

/-! # The boot memory map

`limine.h` memory-map entries, the hypervisor's own copy of the map (`get_boot_mem_info` in
`phys_mm.c`) and the summary computed from it (`init_system_memory_info`).  Only the memory-map
part of `boot_mem_info_t` is modelled; the address of the hypervisor image is not used by any
function of this development. -/

namespace HyveMind

/-- The `LIMINE_MEMMAP_*` entry types. -/
inductive LimineMemmapType where
  | usable
  | reserved
  | acpiReclaimable
  | acpiNvs
  | badMemory
  | bootloaderReclaimable
  | executableAndModules
  | framebuffer
  | reservedMapped
deriving DecidableEq, Repr

/-- `struct limine_memmap_entry`. -/
structure LimineMemmapEntry where
  base : ℕ
  length : ℕ
  type : LimineMemmapType
deriving DecidableEq, Repr

/-- `enum memmap_region_type`. -/
inductive MemmapRegionType where
  | usable
  | bootloaderReclaimable
  | hypervisor
  | reserved
deriving DecidableEq, Repr

/-- `struct memmap_entry`; `stop` is the source's inclusive `end`. -/
structure MemmapEntry where
  start : ℕ
  stop : ℕ
  length : ℕ
  type : MemmapRegionType
deriving DecidableEq, Repr

/-- `limine_memmap_type_to_hyv_type`. -/
def limineMemmapTypeToHyvType : LimineMemmapType → MemmapRegionType
  | .usable => .usable
  | .bootloaderReclaimable => .bootloaderReclaimable
  | .executableAndModules => .hypervisor
  | _ => .reserved

/-- The memory-map loop of `get_boot_mem_info`. -/
def getBootMemInfo (mm : List LimineMemmapEntry) : List MemmapEntry :=
  mm.map fun e =>
    ⟨e.base, u64Sub (u64 (e.base + e.length)) 1, e.length, limineMemmapTypeToHyvType e.type⟩

/-- `struct system_memory_info`. -/
structure SysMemInfo where
  totalSize : ℕ
  earlyUsableMemory : ℕ
  totalUsableMemory : ℕ
  lowestMappedAddr : ℕ
  highestMappedAddr : ℕ
  largestMappedPfn : ℕ
  nrOfPfns : ℕ
deriving DecidableEq, Repr

/-- The accumulators of the loop in `init_system_memory_info`. -/
structure MemInfoAcc where
  earlyUsableSize : ℕ := 0
  totalUsableSize : ℕ := 0
  lowestMappedPaddr : ℕ := 2 ^ 64 - 1
  highestMappedPaddr : ℕ := 0

/-- One iteration of the loop in `init_system_memory_info`. -/
def MemInfoAcc.add (acc : MemInfoAcc) (e : MemmapEntry) : MemInfoAcc where
  lowestMappedPaddr := min e.start acc.lowestMappedPaddr
  highestMappedPaddr := max e.stop acc.highestMappedPaddr
  earlyUsableSize :=
    if e.type = .usable then u64 (acc.earlyUsableSize + e.length) else acc.earlyUsableSize
  totalUsableSize :=
    if e.type = .usable ∨ e.type = .bootloaderReclaimable then
      u64 (acc.totalUsableSize + e.length)
    else acc.totalUsableSize

/-- `init_system_memory_info`; the source never adds anything to `total_size`. -/
def initSystemMemoryInfo (mm : List MemmapEntry) : SysMemInfo :=
  let acc := mm.foldl MemInfoAcc.add {}
  let largestPfn := physToPfn acc.highestMappedPaddr
  { totalSize := 0
    earlyUsableMemory := acc.earlyUsableSize
    totalUsableMemory := acc.totalUsableSize
    lowestMappedAddr := acc.lowestMappedPaddr
    highestMappedAddr := acc.highestMappedPaddr
    largestMappedPfn := largestPfn
    nrOfPfns := u64 (largestPfn + 1) }

theorem foldl_add_highest (mm : List MemmapEntry) (acc : MemInfoAcc) :
    acc.highestMappedPaddr ≤ (mm.foldl MemInfoAcc.add acc).highestMappedPaddr ∧
      ∀ e ∈ mm, e.stop ≤ (mm.foldl MemInfoAcc.add acc).highestMappedPaddr := by
  induction mm generalizing acc with
  | nil => exact ⟨le_refl _, fun e he => by cases he⟩
  | cons d mm ih =>
      obtain ⟨h1, h2⟩ := ih (acc.add d)
      have hd : d.stop ≤ (acc.add d).highestMappedPaddr := le_max_left _ _
      have ha : acc.highestMappedPaddr ≤ (acc.add d).highestMappedPaddr := le_max_right _ _
      refine ⟨ha.trans h1, fun e he => ?_⟩
      rcases List.mem_cons.mp he with rfl | he
      · exact hd.trans h1
      · exact h2 e he

theorem foldl_add_highest_lt (mm : List MemmapEntry) (acc : MemInfoAcc)
    (ha : acc.highestMappedPaddr < 2 ^ 64) (hm : ∀ e ∈ mm, e.stop < 2 ^ 64) :
    (mm.foldl MemInfoAcc.add acc).highestMappedPaddr < 2 ^ 64 := by
  induction mm generalizing acc with
  | nil => exact ha
  | cons d mm ih =>
      refine ih (acc.add d) (max_lt (hm d (by simp)) ha) (fun e he => hm e (by simp [he]))

theorem getBootMemInfo_stop_lt (mm : List LimineMemmapEntry) :
    ∀ e ∈ getBootMemInfo mm, e.stop < 2 ^ 64 := by
  intro e he
  obtain ⟨d, _, rfl⟩ := List.mem_map.mp he
  exact u64_lt _

/-- The frame count is at least one and fits the physical address space. -/
theorem nrOfPfns_bounds (mm : List LimineMemmapEntry) :
    1 ≤ (initSystemMemoryInfo (getBootMemInfo mm)).nrOfPfns ∧
      (initSystemMemoryInfo (getBootMemInfo mm)).nrOfPfns ≤ 2 ^ 52 := by
  have h := foldl_add_highest_lt (getBootMemInfo mm) {} (by decide) (getBootMemInfo_stop_lt mm)
  simp only [initSystemMemoryInfo, physToPfn_eq, u64]
  omega

/-- Every frame of a map entry has a number below `nr_of_pfns`. -/
theorem pfn_lt_nrOfPfns {mm : List LimineMemmapEntry} {e : LimineMemmapEntry} (he : e ∈ mm)
    (hend : e.base + e.length ≤ 2 ^ 64) {addr : ℕ} (h1 : e.base ≤ addr)
    (h2 : addr < e.base + e.length) :
    physToPfn addr < (initSystemMemoryInfo (getBootMemInfo mm)).nrOfPfns := by
  have hlt := foldl_add_highest_lt (getBootMemInfo mm) {} (by decide) (getBootMemInfo_stop_lt mm)
  have hmem : (⟨e.base, u64Sub (u64 (e.base + e.length)) 1, e.length,
      limineMemmapTypeToHyvType e.type⟩ : MemmapEntry) ∈ getBootMemInfo mm :=
    List.mem_map.mpr ⟨e, he, rfl⟩
  have hle := (foldl_add_highest (getBootMemInfo mm) {}).2 _ hmem
  have hstop : u64Sub (u64 (e.base + e.length)) 1 = e.base + e.length - 1 := by
    unfold u64Sub u64
    omega
  simp only [hstop] at hle
  simp only [initSystemMemoryInfo, physToPfn_eq, u64]
  omega

end HyveMind
