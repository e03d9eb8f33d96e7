import HyveMind.CString
import HyveMind.PfAlloc
import HyveMind.Lib.Blocks
import HyveMind.Lib.Prog

/-! # The Linux loader

`arch/x64/loader/linux_loader.c` with the functions of `arch/x64/vm/vm.c` that it copies through.
`load_linux_32bit_direct_boot_for_vm` checks the setup header of a bzImage and writes five
components into the memory of a VM: the protected-mode kernel, the initramfs, a boot GDT, the
command line and the zero page.

The program is instrumented: `LoaderState.accesses` records every read from the two files and every
write to the VM's memory, as a base, an offset and a length.  The two pages that the loader fills
before it copies them are values of the model, only their allocation is part of the state. -/

namespace HyveMind

open Lib Lib.Prog

/-! ### Packed structures -/

/-- The fields of `struct setup_header`, in order. -/
inductive SetupField
  | setupSects | rootFlags | syssize | ramSize | vidMode | rootDev | bootFlag | jump | header
  | version | realmodeSwtch | startSysSeg | kernelVersion | typeOfLoader | loadflags | setupMoveSize
  | code32Start | ramdiskImage | ramdiskSize | bootsectKludge | heapEndPtr | extLoaderVer
  | extLoaderType | cmdLinePtr | initrdAddrMax | kernelAlignment | relocatableKernel | minAlignment
  | xloadflags | cmdlineSize | hardwareSubarch | hardwareSubarchData | payloadOffset | payloadLength
  | setupData | prefAddress | initSize | handoverOffset | kernelInfoOffset
deriving DecidableEq, Repr

namespace SetupField

/-- `struct setup_header`: the fields with their sizes in bytes. -/
def layout : List (SetupField × ℕ) :=
  [(setupSects, 1), (rootFlags, 2), (syssize, 4), (ramSize, 2), (vidMode, 2), (rootDev, 2),
    (bootFlag, 2), (jump, 2), (header, 4), (version, 2), (realmodeSwtch, 4), (startSysSeg, 2),
    (kernelVersion, 2), (typeOfLoader, 1), (loadflags, 1), (setupMoveSize, 2), (code32Start, 4),
    (ramdiskImage, 4), (ramdiskSize, 4), (bootsectKludge, 4), (heapEndPtr, 2), (extLoaderVer, 1),
    (extLoaderType, 1), (cmdLinePtr, 4), (initrdAddrMax, 4), (kernelAlignment, 4),
    (relocatableKernel, 1), (minAlignment, 1), (xloadflags, 2), (cmdlineSize, 4),
    (hardwareSubarch, 4), (hardwareSubarchData, 8), (payloadOffset, 4), (payloadLength, 4),
    (setupData, 8), (prefAddress, 8), (initSize, 4), (handoverOffset, 4), (kernelInfoOffset, 4)]

/-- The size of a field. -/
def width (f : SetupField) : ℕ := (layout.lookup f).getD 0

/-- The offset of a field: the structure is packed. -/
def offset (f : SetupField) : ℕ := ((layout.takeWhile (·.1 ≠ f)).map (·.2)).sum

end SetupField

/-- `sizeof(struct setup_header)`. -/
def setupHeaderSize : ℕ := (SetupField.layout.map (·.2)).sum

/-- `SETUP_HEADER_OFFSET`. -/
abbrev setupHeaderOffset : ℕ := 0x1F1

/-- `SETUP_HEADER_MAGIC_NUMBER`. -/
abbrev setupHeaderMagicNumber : ℕ := 0xAA55

/-- `SETUP_HEADER_MAGIC_SIG_RAW`. -/
abbrev setupHeaderMagicSigRaw : ℕ := 0x53726448

/-- `SETUP_HEADER_MAGIC_SIG_OFFSET`. -/
abbrev setupHeaderMagicSigOffset : ℕ := 0x202

/-- `SETUP_HEADER_JMP_OPCODE`. -/
abbrev setupHeaderJmpOpcode : ℕ := 0xEB

/-- `LINUX_BOOT_MIN_PROTOCOL_VERSION`. -/
abbrev linuxBootMinProtocolVersion : ℕ := 0x020F

/-- `BZIMAGE_MIN_BOOT_PROTOCOL_VERSION`. -/
abbrev bzImageMinBootProtocolVersion : ℕ := 0x0200

/-- `SETUP_LOADFLAGS_LOADED_HIGH`. -/
abbrev setupLoadflagsLoadedHigh : ℕ := 1

/-- `LINUX_BOOT_SECTOR_SIZE`. -/
abbrev linuxBootSectorSize : ℕ := 512

/-- `LINUX_E820_TYPE_RAM`. -/
abbrev linuxE820TypeRam : ℕ := 1

/-- `LINUX_GUEST_DEFAULT_GDT_GPADDR`. -/
abbrev linuxGuestDefaultGdtGpaddr : ℕ := 0x10000

/-- `LINUX_GUEST_DEFAULT_COMMAND_LINE_GPADDR`. -/
abbrev linuxGuestDefaultCommandLineGpaddr : ℕ := 0x20000

/-- `LINUX_GUEST_DEFAULT_ZERO_PAGE_GPADDR`. -/
abbrev linuxGuestDefaultZeroPageGpaddr : ℕ := 0x30000

/-- The offset of `ext_ramdisk_image` in `struct boot_params`. -/
abbrev bootParamsExtRamdiskImage : ℕ := 0xC0

/-- The offset of `e820_entries` in `struct boot_params`. -/
abbrev bootParamsE820Entries : ℕ := 0x1E8

/-- The offset of `hdr` in `struct boot_params`. -/
abbrev bootParamsHdr : ℕ := 0x1F1

/-- The offset of `e820_table` in `struct boot_params`; an entry has an address, a size and a type of
8, 8 and 4 bytes. -/
abbrev bootParamsE820Table : ℕ := 0x2D0

/-! ### Files and the VM's memory -/

/-- `struct file_info`, with the contents of the file. -/
structure FileInfo where
  addr : ℕ
  bytes : List UInt8
  inMemory : addr + bytes.length < 2 ^ 64

/-- The `size` of a file. -/
def FileInfo.size (f : FileInfo) : ℕ := f.bytes.length

/-- `struct linux_boot_info`; the command line is a C string. -/
structure LinuxBootInfo where
  bzImage : FileInfo
  initramfs : FileInfo
  cmdlineStr : List UInt8
  noNul : 0 ∉ cmdlineStr

/-- The field of the setup header in the bzImage. -/
def LinuxBootInfo.hdr (info : LinuxBootInfo) (f : SetupField) : ℕ :=
  field info.bzImage.bytes (setupHeaderOffset + f.offset) f.width

/-- `struct vm_physical_memory`: the host-physical addresses `[memStart, memEnd]`. -/
structure VmPhysicalMemory where
  memStart : ℕ
  memEnd : ℕ
  le : memStart ≤ memEnd
  lt : memEnd < 2 ^ 64

/-- `get_vm_memory_size`. -/
def getVmMemorySize (vm : VmPhysicalMemory) : ℕ := u64 (u64Sub vm.memEnd vm.memStart + 1)

/-- `vm_memory_contig_range_fits`. -/
def vmMemoryContigRangeFits (vm : VmPhysicalMemory) (start size : ℕ) : Bool :=
  let totalSize := getVmMemorySize vm
  let highestAddr := u64Sub totalSize 1
  start ≤ highestAddr && size ≤ u64Sub totalSize start

/-- `memcpy` to `dst`. -/
def memcpy (mem : ℕ → UInt8) (dst : ℕ) : List UInt8 → ℕ → UInt8
  | [] => mem
  | b :: bs => memcpy (Function.update mem dst b) (u64 (dst + 1)) bs

/-! ### The instrumented loader -/

/-- What the loader reads from and writes to. -/
inductive Object
  | bzImage
  | initramfs
  | vmMemory
deriving DecidableEq, Repr

/-- An access to `size` bytes from `base + offset` on. -/
structure Access where
  object : Object
  base : ℕ
  offset : ℕ
  size : ℕ
deriving DecidableEq, Repr

/-- The address of byte `i` of an access, as the code computes it.  The VM's memory is written through
the direct mapping: there it is the physical address of the byte. -/
def Access.addr (a : Access) (i : ℕ) : ℕ :=
  match a.object with
  | .vmMemory => virtToPhys (u64 (physToVirt (u64 (a.base + a.offset)) + i))
  | _ => u64 (u64 (a.base + a.offset) + i)

/-- The allocator, the host's memory by virtual address, and the accesses so far. -/
structure LoaderState where
  alloc : PfAlloc
  mem : ℕ → UInt8
  accesses : List Access

/-- How the loader ends early: with a return code, or because the frame allocator reads outside of
its bitmap. -/
inductive Exit
  | code (ret : ℤ)
  | fault
deriving DecidableEq, Repr

/-- The loader's programs. -/
abbrev Loader : Type → Type := Prog Exit LoaderState

/-- Records an access. -/
def access (a : Access) : Loader Unit := modify fun s => { s with accesses := s.accesses ++ [a] }

/-- `get_page_zeroed`: the address of the page. -/
def getPageZeroed : Loader (Option ℕ) := fun s =>
  match s.alloc.getPages 1 with
  | none => (.error .fault, s)
  | some (a, addr) => (.ok addr, { s with alloc := a })

/-- `free_page`. -/
def freePage (addr : ℕ) : Loader Unit := fun s =>
  match s.alloc.freePage addr with
  | none => (.error .fault, s)
  | some a => (.ok (), { s with alloc := a })

/-- A page of zeros. -/
def zeroedPage : List UInt8 := List.replicate pageSize 0

/-- A read of the setup header. -/
def readHdr (info : LinuxBootInfo) (f : SetupField) : Loader ℕ := do
  access ⟨.bzImage, info.bzImage.addr, setupHeaderOffset + f.offset, f.width⟩
  pure (info.hdr f)

/-- The pointers that the loader copies from. -/
inductive Ptr
  | bzImage (offset : ℕ)
  | initramfs
  | commandLine
  | page (bytes : List UInt8)

namespace Ptr

/-- The bytes from the pointer to the end of the object. -/
def bytes (info : LinuxBootInfo) : Ptr → List UInt8
  | .bzImage offset => info.bzImage.bytes.drop offset
  | .initramfs => info.initramfs.bytes
  | .commandLine => info.cmdlineStr ++ [0]
  | .page bytes => bytes

/-- The reads from the two files when `size` bytes are copied from the pointer. -/
def reads (info : LinuxBootInfo) (size : ℕ) : Ptr → List Access
  | .bzImage offset => [⟨.bzImage, info.bzImage.addr, offset, size⟩]
  | .initramfs => [⟨.initramfs, info.initramfs.addr, 0, size⟩]
  | _ => []

end Ptr

/-- `copy_to_vm_gpaddr`. -/
def copyToVmGpaddr (vm : VmPhysicalMemory) (info : LinuxBootInfo) (start : ℕ) (data : Ptr)
    (size : ℕ) : Loader ℤ := fun s =>
  if vmMemoryContigRangeFits vm start size = false then (.ok (-1), s)
  else
    let hostPaStart := u64 (vm.memStart + start)
    (.ok 0, { s with
      mem := memcpy s.mem (physToVirt hostPaStart) ((data.bytes info).take size)
      accesses := s.accesses ++ data.reads info size ++ [⟨.vmMemory, vm.memStart, start, size⟩] })

/-! ### The boot GDT -/

/-- `enum descriptor_type`. -/
inductive DescType
  | systemSegmentDesc
  | codeDataSegmentDesc
deriving DecidableEq, Repr

/-- `struct segment_descriptor`. -/
structure SegmentDescriptor where
  limit0 : ℕ
  lowBase : ℕ
  midBase : ℕ
  type : ℕ
  s : ℕ
  dpl : ℕ
  p : ℕ
  limit1 : ℕ
  avl : ℕ
  l : ℕ
  db : ℕ
  g : ℕ
  highBase : ℕ

/-- The eight bytes of a segment descriptor, whose bit fields follow each other. -/
def SegmentDescriptor.bytes (d : SegmentDescriptor) : List UInt8 :=
  toBytes 8 (d.limit0 + d.lowBase <<< 16 + d.midBase <<< 32 + d.type <<< 40 + d.s <<< 44 +
    d.dpl <<< 45 + d.p <<< 47 + d.limit1 <<< 48 + d.avl <<< 52 + d.l <<< 53 + d.db <<< 54 +
    d.g <<< 55 + d.highBase <<< 56)

/-- `CODE_EXECUTE_READ_ACCESSED`. -/
abbrev codeExecuteReadAccessed : ℕ := 11

/-- `DATA_RW_ACCESSED`. -/
abbrev dataRwAccessed : ℕ := 3

/-- The flat 4 GiB segment of the given type. -/
def flatSegment (type : ℕ) : SegmentDescriptor :=
  { limit0 := 0xFFFF, limit1 := 0xF, lowBase := 0, midBase := 0, highBase := 0, p := 1, type := type,
    s := 1, dpl := 0, avl := 0, l := 0, g := 1, db := 1 }

/-- `write_gdt_entry` on the page of the GDT. -/
def writeGdtEntry (gdt desc : List UInt8) (index : ℕ) (type : DescType) : List UInt8 :=
  let size := if type = .systemSegmentDesc then 16 else 8
  splice gdt (8 * index) (desc.take size)

/-- The page that `load_32bit_boot_gdt` copies into the VM. -/
def bootGdt : List UInt8 :=
  let csDesc := flatSegment codeExecuteReadAccessed
  let dsDesc := flatSegment dataRwAccessed
  writeGdtEntry (writeGdtEntry zeroedPage csDesc.bytes 2 .codeDataSegmentDesc) dsDesc.bytes 3
    .codeDataSegmentDesc

/-- `load_32bit_boot_gdt`. -/
def load32bitBootGdt (vm : VmPhysicalMemory) (info : LinuxBootInfo) (loadAddr : ℕ) : Loader ℤ := do
  let page ← getPageZeroed
  match page with
  | none => pure (-1)
  | some gdtVaddr => do
      let ret ← copyToVmGpaddr vm info loadAddr (.page bootGdt) pageSize
      freePage gdtVaddr
      pure (if ret ≠ 0 then -1 else 0)

/-! ### The setup header -/

/-- `valid_linux_setup_header`.  The last check returns `-1` as a `bool`, which is `true`: a header of
another length is not refused. -/
def validLinuxSetupHeader (info : LinuxBootInfo) : Loader Bool := do
  let bootFlag ← readHdr info .bootFlag
  if bootFlag ≠ setupHeaderMagicNumber then pure false
  else do
    let header ← readHdr info .header
    if header ≠ setupHeaderMagicSigRaw then pure false
    else do
      let jump ← readHdr info .jump
      if jump &&& 0xFF ≠ setupHeaderJmpOpcode then pure false
      else do
        let jump ← readHdr info .jump
        let declaredSetupHdrEnd := setupHeaderMagicSigOffset + ((jump >>> 8) &&& 0xFF)
        let expectedSetupHdrEnd := setupHeaderOffset + setupHeaderSize
        if declaredSetupHdrEnd ≠ expectedSetupHdrEnd then pure ((-1 : ℤ) != 0)
        else pure true

/-- `verify_bzImage`. -/
def verifyBzImage (info : LinuxBootInfo) : Loader Bool := do
  let version ← readHdr info .version
  if version < bzImageMinBootProtocolVersion then pure false
  else do
    let loadflags ← readHdr info .loadflags
    if loadflags &&& setupLoadflagsLoadedHigh = 0 then pure false
    else pure true

/-! ### Loading -/

/-- `struct linux_load_info`. -/
structure LinuxLoadInfo where
  pmKernel : ℕ
  pmKernelSize : ℕ
  pmKernelEntryPoint : ℕ
  gdtPage : ℕ
  zeroPage : ℕ
  commandLineString : ℕ
deriving DecidableEq, Repr

/-- The first part of `load_linux_32bit_direct_boot_for_vm`, up to the copy of the protected-mode
kernel: `gpaddr_pm_kernel_load_addr`, `declared_pm_kernel_size` and
`effective_pm_kernel_load_size`. -/
def loadPmKernel (vm : VmPhysicalMemory) (info : LinuxBootInfo) : Loader (ℕ × ℕ × ℕ) := do
  exitIf (info.bzImage.size < setupHeaderOffset + setupHeaderSize) (.code (-1))
  let valid ← validLinuxSetupHeader info
  exitIf (valid = false) (.code (-1))
  let isBzImage ← verifyBzImage info
  exitIf (isBzImage = false) (.code (-1))
  let version ← readHdr info .version
  exitIf (version < linuxBootMinProtocolVersion) (.code (-1))
  let hdrSetupSects ← readHdr info .setupSects
  let setupSects := if hdrSetupSects = 0 then 4 else hdrSetupSects
  let pmKernelOffset := (setupSects + 1) * linuxBootSectorSize
  exitIf (info.bzImage.size ≤ pmKernelOffset) (.code (-1))
  let availablePmKernelSize := u64Sub info.bzImage.size pmKernelOffset
  let syssize ← readHdr info .syssize
  let declaredPmKernelSize := u64 (syssize <<< 4)
  exitIf (declaredPmKernelSize = 0) (.code (-1))
  exitIf (availablePmKernelSize < declaredPmKernelSize) (.code (-1))
  let code32Start ← readHdr info .code32Start
  exitIf (code32Start = 0) (.code (-1))
  let initSize ← readHdr info .initSize
  let effectivePmKernelLoadSize := max declaredPmKernelSize initSize
  exitIf (vmMemoryContigRangeFits vm code32Start effectivePmKernelLoadSize = false) (.code (-1))
  let ret ← copyToVmGpaddr vm info code32Start (.bzImage pmKernelOffset) declaredPmKernelSize
  exitIf (ret ≠ 0) (.code (-1))
  pure (code32Start, declaredPmKernelSize, effectivePmKernelLoadSize)

/-- The second part, up to the copy of the initramfs: `initramfs_gpaddr`. -/
def loadInitramfs (vm : VmPhysicalMemory) (info : LinuxBootInfo) (effectivePmKernelLoadSize : ℕ) :
    Loader ℕ := do
  let prefAddress ← readHdr info .prefAddress
  let initramfsGpaddr := alignForward (u64 (prefAddress + effectivePmKernelLoadSize + 1)) pageSize
  exitIf (vmMemoryContigRangeFits vm initramfsGpaddr info.initramfs.size = false) (.code (-1))
  let ret ← copyToVmGpaddr vm info initramfsGpaddr .initramfs info.initramfs.size
  exitIf (ret ≠ 0) (.code (-1))
  pure initramfsGpaddr

/-- The third part, the command line.  Its length is kept in a `uint32_t`. -/
def loadCommandLine (vm : VmPhysicalMemory) (info : LinuxBootInfo) : Loader Unit := do
  let commandLineLen := info.cmdlineStr.length % 2 ^ 32
  let cmdlineSize ← readHdr info .cmdlineSize
  exitIf (cmdlineSize < commandLineLen) (.code 1)
  let ret ← copyToVmGpaddr vm info linuxGuestDefaultCommandLineGpaddr .commandLine
    ((commandLineLen + 1) % 2 ^ 32)
  exitIf (ret ≠ 0) (.code (-1))

/-- A field of the header in `struct boot_params`. -/
def setHdr (bootParams : List UInt8) (f : SetupField) (v : ℕ) : List UInt8 :=
  setField bootParams (bootParamsHdr + f.offset) f.width v

/-- The zero page, as it is filled from a page of zeros. -/
def bootParamsPage (vm : VmPhysicalMemory) (info : LinuxBootInfo) (initramfsGpaddr : ℕ) :
    List UInt8 :=
  let bootParams := splice zeroedPage bootParamsHdr
    ((info.bzImage.bytes.drop setupHeaderOffset).take setupHeaderSize)
  let bootParams := setHdr bootParams .typeOfLoader 0xFF
  let bootParams := setHdr bootParams .loadflags
    (field bootParams (bootParamsHdr + SetupField.loadflags.offset) 1 &&& 0x7F)
  let bootParams := setHdr bootParams .cmdLinePtr linuxGuestDefaultCommandLineGpaddr
  let bootParams := setHdr bootParams .ramdiskImage initramfsGpaddr
  let bootParams := setHdr bootParams .ramdiskSize info.initramfs.size
  let bootParams := setField bootParams bootParamsE820Entries 1 1
  let bootParams := setField bootParams bootParamsE820Table 8 0
  let bootParams := setField bootParams (bootParamsE820Table + 8) 8 (getVmMemorySize vm)
  setField bootParams (bootParamsE820Table + 16) 4 linuxE820TypeRam

/-- The last part, the zero page. -/
def loadZeroPage (vm : VmPhysicalMemory) (info : LinuxBootInfo) (initramfsGpaddr : ℕ) :
    Loader Unit := do
  let page ← getPageZeroed
  match page with
  | none => exit (.code (-1))
  | some bootParamsRawAddr => do
      access ⟨.bzImage, info.bzImage.addr, setupHeaderOffset, setupHeaderSize⟩
      let ret ← copyToVmGpaddr vm info linuxGuestDefaultZeroPageGpaddr
        (.page (bootParamsPage vm info initramfsGpaddr)) pageSize
      freePage bootParamsRawAddr
      exitIf (ret ≠ 0) (.code (-1))

/-- `load_linux_32bit_direct_boot_for_vm`: a regular end stands for the result `0`. -/
def loadLinux32bitDirectBootForVm (vm : VmPhysicalMemory) (info : LinuxBootInfo) :
    Loader LinuxLoadInfo := do
  let (pmKernelLoadAddr, declaredPmKernelSize, effectivePmKernelLoadSize) ← loadPmKernel vm info
  let initramfsGpaddr ← loadInitramfs vm info effectivePmKernelLoadSize
  let ret ← load32bitBootGdt vm info linuxGuestDefaultGdtGpaddr
  exitIf (ret ≠ 0) (.code (-1))
  loadCommandLine vm info
  loadZeroPage vm info initramfsGpaddr
  pure {
    gdtPage := linuxGuestDefaultGdtGpaddr
    commandLineString := linuxGuestDefaultCommandLineGpaddr
    pmKernel := pmKernelLoadAddr
    pmKernelSize := declaredPmKernelSize
    pmKernelEntryPoint := pmKernelLoadAddr
    zeroPage := linuxGuestDefaultZeroPageGpaddr }

end HyveMind
