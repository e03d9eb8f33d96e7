import HyveMind.LinuxLoader
import HyveMind.Lib.ByteMem
import HyveMind.Lib.Run

/-! # Descriptor tables

`arch/x64/gdt_idt.c` and `arch/x64/segmentation.c`: the gates of the shared IDT, and per CPU a GDT with a
TSS and its interrupt stacks, all of them written as bytes into memory.  `deliver` is the other side: what
the processor makes of these bytes when an interrupt arrives (type, presence and limits checked, the code
segment looked up in the GDT, the stack taken from the TSS).

`interrupts_delivered`: whatever gates were registered, and however the CPUs come up, each CPU that has
loaded its tables enters the handler that was registered last for the vector, in the hypervisor's 64-bit code
segment and, with the stack indices that the hypervisor uses, on its own stack. -/

namespace HyveMind

namespace GdtIdt

open Lib

/-! ### Descriptors -/

/-- `struct segment_selector` -/
structure SegmentSelector where
  rpl : BitVec 2
  ti : BitVec 1
  index : BitVec 13
deriving DecidableEq, Repr

def SegmentSelector.raw (s : SegmentSelector) : ℕ := s.rpl.toNat + 2 ^ 2 * (s.ti.toNat + 2 ^ 1 * s.index.toNat)

/-- `GDT_SELECTOR(index, TI_GDT, 0)` -/
def gdtSelector (index : ℕ) : SegmentSelector := ⟨0, 0, BitVec.ofNat 13 index⟩

def hyvemindCsSegmentIndex : ℕ := 1
def hyvemindDataSegmentIndex : ℕ := 2
def hyvemindTssIndex : ℕ := 3
def gdtEntries : ℕ := 5
def idtEntries : ℕ := 256

/-- `enum system_segment_type` -/
inductive SysSegType
  | ia32eLdt | ia3216bitTssBusy | ia32eTss | ia32eTssBusy | ia32eInterruptGate | ia32eTrapGate
deriving DecidableEq, Repr

def SysSegType.val : SysSegType → BitVec 4
  | .ia32eLdt => 2
  | .ia3216bitTssBusy => 3
  | .ia32eTss => 9
  | .ia32eTssBusy => 11
  | .ia32eInterruptGate => 14
  | .ia32eTrapGate => 15

/-- `struct idt_bits` -/
structure IdtBits where
  ist : BitVec 3
  zero1 : BitVec 5
  type : BitVec 4
  zero2 : BitVec 1
  dpl : BitVec 2
  p : BitVec 1
deriving DecidableEq, Repr

def IdtBits.raw (b : IdtBits) : ℕ :=
  b.ist.toNat + 2 ^ 3 * (b.zero1.toNat + 2 ^ 5 * (b.type.toNat + 2 ^ 4 * (b.zero2.toNat +
    2 ^ 1 * (b.dpl.toNat + 2 ^ 2 * b.p.toNat))))

/-- `struct idt_gate` -/
structure IdtGate where
  lowOffset : BitVec 16
  selector : SegmentSelector
  idtBits : IdtBits
  midOffset : BitVec 16
  highOffset : BitVec 32
  reserved : BitVec 32
deriving DecidableEq, Repr

/-- The sixteen bytes of a gate. -/
def IdtGate.raw (g : IdtGate) : ℕ :=
  g.lowOffset.toNat + 2 ^ 16 * (g.selector.raw + 2 ^ 16 * (g.idtBits.raw + 2 ^ 16 * (g.midOffset.toNat +
    2 ^ 16 * (g.highOffset.toNat + 2 ^ 32 * g.reserved.toNat))))

/-- `set_idt_gate_offset` -/
def setIdtGateOffset (g : IdtGate) (offset : BitVec 64) : IdtGate :=
  { g with
    lowOffset := offset.extractLsb' 0 16
    midOffset := offset.extractLsb' 16 16
    highOffset := offset.extractLsb' 32 32 }

/-- `create_idt_gate` -/
def createIdtGate (handlerAddr : BitVec 64) (type : SysSegType) (istIndex : ℤ) : IdtGate :=
  setIdtGateOffset
    ⟨0, gdtSelector hyvemindCsSegmentIndex, ⟨BitVec.ofInt 3 istIndex, 0, type.val, 0, 0, 1⟩, 0, 0, 0⟩ handlerAddr

/-- The eight bytes of a segment descriptor. -/
def segmentRaw (d : SegmentDescriptor) : ℕ :=
  d.limit0 + d.lowBase <<< 16 + d.midBase <<< 32 + d.type <<< 40 + d.s <<< 44 + d.dpl <<< 45 + d.p <<< 47 +
    d.limit1 <<< 48 + d.avl <<< 52 + d.l <<< 53 + d.db <<< 54 + d.g <<< 55 + d.highBase <<< 56

theorem segment_bytes (d : SegmentDescriptor) : d.bytes = toBytes 8 (segmentRaw d) := rfl

/-- `DEFINE_SEGMENT_DESCRIPTOR`, for a segment with `descriptor_type` `CODE_DATA_SEGMENT_DESC`. -/
def defineSegmentDescriptor (segType dpl l : ℕ) : SegmentDescriptor where
  limit0 := 0
  limit1 := 0
  lowBase := 0
  midBase := 0
  highBase := 0
  s := 1
  type := segType
  dpl := dpl
  p := 1
  avl := 0
  l := l
  db := 0
  g := 0

/-- `CODE_EXECUTE_ONLY_ACCESSED` -/
def codeExecuteOnlyAccessed : ℕ := 9

/-- `DATA_RW_EXPAND_DOWN` -/
def dataRwExpandDown : ℕ := 6

def hyvemindCsSegmentDesc : SegmentDescriptor := defineSegmentDescriptor codeExecuteOnlyAccessed 0 1

def hyvemindDataSegmentDesc : SegmentDescriptor := defineSegmentDescriptor dataRwExpandDown 0 0

/-- `struct tss_descriptor` -/
structure TssDescriptor where
  limit0 : BitVec 16
  base0 : BitVec 16
  base1 : BitVec 8
  type : BitVec 4
  reserved0 : BitVec 1
  dpl : BitVec 2
  p : BitVec 1
  limit1 : BitVec 4
  avl : BitVec 1
  reserved1 : BitVec 2
  g : BitVec 1
  base2 : BitVec 8
  base3 : BitVec 32
  reserved2 : BitVec 32
deriving DecidableEq, Repr

/-- The sixteen bytes of a TSS descriptor. -/
def TssDescriptor.raw (d : TssDescriptor) : ℕ :=
  d.limit0.toNat + 2 ^ 16 * (d.base0.toNat + 2 ^ 16 * (d.base1.toNat + 2 ^ 8 * (d.type.toNat +
    2 ^ 4 * (d.reserved0.toNat + 2 ^ 1 * (d.dpl.toNat + 2 ^ 2 * (d.p.toNat + 2 ^ 1 * (d.limit1.toNat +
      2 ^ 4 * (d.avl.toNat + 2 ^ 1 * (d.reserved1.toNat + 2 ^ 2 * (d.g.toNat + 2 ^ 1 * (d.base2.toNat +
        2 ^ 8 * (d.base3.toNat + 2 ^ 32 * d.reserved2.toNat))))))))))))

/-- `sizeof(tss_t)`: the structure is aligned to a page. -/
def sizeofTss : ℕ := 4096

/-- `set_tss_desc_limit` -/
def setTssDescLimit (d : TssDescriptor) (limit : BitVec 32) : TssDescriptor :=
  { d with limit0 := limit.extractLsb' 0 16, limit1 := limit.extractLsb' 16 4 }

/-- `set_tss_desc_base` -/
def setTssDescBase (d : TssDescriptor) (base : BitVec 64) : TssDescriptor :=
  { d with
    base0 := base.extractLsb' 0 16
    base1 := base.extractLsb' 16 8
    base2 := base.extractLsb' 24 8
    base3 := base.extractLsb' 32 32 }

/-- `create_tss_desc` -/
def createTssDesc (tssSegment : BitVec 64) (dpl : BitVec 8) : TssDescriptor :=
  setTssDescBase (setTssDescLimit ⟨0, 0, 0, SysSegType.ia32eTss.val, 0, dpl.extractLsb' 0 2, 1, 0, 0, 0, 0, 0, 0, 0⟩
    (BitVec.ofNat 32 (sizeofTss - 1))) tssSegment

/-- `get_base_from_tss_descriptor` -/
def getBaseFromTssDescriptor (d : TssDescriptor) : BitVec 64 :=
  d.base0.setWidth 64 ||| d.base1.setWidth 64 <<< 16 ||| d.base2.setWidth 64 <<< 24 ||| d.base3.setWidth 64 <<< 32

/-! ### The tables in memory -/

/-- `memcpy` of a gate to its place in the IDT. -/
def writeIdtEntry (mem : ℕ → ℕ) (idt index : ℕ) (gate : IdtGate) : ℕ → ℕ :=
  storeBytes mem (idt + index * 16) 16 gate.raw

/-- `register_idt_handler` -/
def registerIdtHandler (mem : ℕ → ℕ) (idt index : ℕ) (type : SysSegType) (handler : BitVec 64)
    (istIndex : ℤ) : ℕ → ℕ :=
  writeIdtEntry mem idt index (createIdtGate handler type istIndex)

/-- The symbols of the handlers that `init_shared_idt` registers. -/
structure Handlers where
  asmDivExceptionHandler : BitVec 64
  asmIrqApicTimerHandler : BitVec 64
  asmIrqCpuKickHandler : BitVec 64

def irqDivideErrorVector : ℕ := 0x00
def irqApicTimerVector : ℕ := 0x30
def irqCpuKickVector : ℕ := 0xf0

/-- `init_shared_idt`.  The array of the table has half the size, the alignment makes up for it. -/
def initSharedIdt (mem : ℕ → ℕ) (idt : ℕ) (h : Handlers) : ℕ → ℕ :=
  let mem := fillZero mem idt 4096
  let mem := registerIdtHandler mem idt irqDivideErrorVector .ia32eTrapGate h.asmDivExceptionHandler 0
  let mem := registerIdtHandler mem idt irqApicTimerVector .ia32eInterruptGate h.asmIrqApicTimerHandler 1
  registerIdtHandler mem idt irqCpuKickVector .ia32eInterruptGate h.asmIrqCpuKickHandler 1

/-- `write_gdt_entry` -/
def writeGdtEntry (mem : ℕ → ℕ) (gdt raw index : ℕ) (type : DescType) : ℕ → ℕ :=
  storeBytes mem (gdt + 8 * index) (if type = .systemSegmentDesc then 16 else 8) raw

/-- `init_new_gdt`, with the table of the CPU. -/
def initNewGdt (mem : ℕ → ℕ) (gdt : ℕ) : ℕ → ℕ :=
  let mem := fillZero mem gdt 4096
  let mem := writeGdtEntry mem gdt (segmentRaw hyvemindCsSegmentDesc) hyvemindCsSegmentIndex .codeDataSegmentDesc
  writeGdtEntry mem gdt (segmentRaw hyvemindDataSegmentDesc) hyvemindDataSegmentIndex .codeDataSegmentDesc

/-- `TSS_IST_DEFAULT_SIZE_PAGES` -/
def tssIstDefaultSizePages : ℕ := 4

/-- The offset of `ist` in `struct tss`. -/
def istOffset : ℕ := 36

/-- `allocate_tss_ist`, with the pages that it gets. -/
def allocateTssIst (mem : ℕ → ℕ) (tss index nrStackPages stackBot : ℕ) : ℕ → ℕ :=
  let mem := fillZero mem stackBot (nrStackPages * 4096)
  let stackStart := u64 (stackBot + nrStackPages * 4096 - 8)
  let mem := storeBytes mem (tss + istOffset + 8 * (index - 1)) 4 (stackStart % 2 ^ 32)
  storeBytes mem (tss + istOffset + 8 * (index - 1) + 4) 4 (stackStart / 2 ^ 32)

/-- What `install_new_tss` gets from the page frame allocator: the page of the TSS and two stacks. -/
structure TssPages where
  tss : ℕ
  stack1 : ℕ
  stack2 : ℕ

/-- `init_default_tss` -/
def initDefaultTss (mem : ℕ → ℕ) (pages : TssPages) : ℕ → ℕ :=
  let mem := fillZero mem pages.tss sizeofTss
  let mem := allocateTssIst mem pages.tss 1 tssIstDefaultSizePages pages.stack1
  allocateTssIst mem pages.tss 2 tssIstDefaultSizePages pages.stack2

/-- `install_new_tss` -/
def installNewTss (mem : ℕ → ℕ) (gdt : ℕ) (pages : TssPages) : ℕ → ℕ :=
  let mem := fillZero mem pages.tss 4096
  let mem := initDefaultTss mem pages
  writeGdtEntry mem gdt (createTssDesc (BitVec.ofNat 64 pages.tss) 0).raw hyvemindTssIndex .systemSegmentDesc

/-! ### The processor -/

/-- `idt_ptr_t` and `gdt_ptr_t` -/
structure TablePtr where
  limit : ℕ
  base : ℕ
deriving DecidableEq, Repr

/-- The task register, with its hidden part. -/
structure Tr where
  selector : ℕ
  base : ℕ
  limit : ℕ
deriving DecidableEq, Repr

/-- The registers of a CPU that the delivery of interrupts looks at. -/
structure Regs where
  idtr : TablePtr
  gdtr : TablePtr
  cs : ℕ
  tr : Tr
deriving DecidableEq, Repr

/-- `LTR`: the descriptor must be an available 64-bit TSS; it becomes busy. -/
def ltr (mem : ℕ → ℕ) (r : Regs) (selector : ℕ) : Option ((ℕ → ℕ) × Regs) :=
  let d := r.gdtr.base + 8 * (selector / 8)
  let access := loadBytes mem (d + 5) 1
  if 8 * (selector / 8) + 15 ≤ r.gdtr.limit ∧ selector / 8 ≠ 0 ∧ selector / 4 % 2 = 0 ∧
      access / 128 = 1 ∧ access % 32 = 9 then
    some (storeBytes mem (d + 5) 1 (access + 2),
      { r with tr := {
          selector := selector
          base := loadBytes mem (d + 2) 3 + 2 ^ 24 * loadBytes mem (d + 7) 5
          limit := loadBytes mem d 2 + 2 ^ 16 * (loadBytes mem (d + 6) 1 % 16) } })
  else none

/-- A selector of a present 64-bit code segment with privilege level `0`. -/
def codeSegmentOk (mem : ℕ → ℕ) (r : Regs) (selector : ℕ) : Bool :=
  let d := r.gdtr.base + 8 * (selector / 8)
  let access := loadBytes mem (d + 5) 1
  let flags := loadBytes mem (d + 6) 1
  decide (8 * (selector / 8) + 7 ≤ r.gdtr.limit ∧ selector / 8 ≠ 0 ∧ selector / 4 % 2 = 0 ∧
    access / 128 = 1 ∧ access / 32 % 4 = 0 ∧ access / 16 % 2 = 1 ∧ access / 8 % 2 = 1 ∧
    flags / 32 % 2 = 1 ∧ flags / 64 % 2 = 0)

/-- A selector of a present writable data segment with privilege level `0`. -/
def stackSegmentOk (mem : ℕ → ℕ) (r : Regs) (selector : ℕ) : Bool :=
  let access := loadBytes mem (r.gdtr.base + 8 * (selector / 8) + 5) 1
  decide (8 * (selector / 8) + 7 ≤ r.gdtr.limit ∧ selector / 8 ≠ 0 ∧ selector / 4 % 2 = 0 ∧
    access / 128 = 1 ∧ access / 32 % 4 = 0 ∧ access / 16 % 2 = 1 ∧ access / 8 % 2 = 0 ∧ access / 2 % 2 = 1)

/-- A segment whose selector is loaded becomes accessed. -/
def setAccessed (mem : ℕ → ℕ) (r : Regs) (selector : ℕ) : ℕ → ℕ :=
  let a := r.gdtr.base + 8 * (selector / 8) + 5
  if loadBytes mem a 1 % 2 = 0 then storeBytes mem a 1 (loadBytes mem a 1 + 1) else mem

/-- Where the processor goes on. -/
structure Entry where
  rip : ℕ
  cs : ℕ
  rsp : ℕ
  /-- The interrupts are off. -/
  masked : Bool
deriving DecidableEq, Repr

/-- The stack of the interrupt, aligned to sixteen bytes: the current one, or the one of the TSS. -/
def interruptStack (mem : ℕ → ℕ) (r : Regs) (ist rsp : ℕ) : Option ℕ :=
  if ist = 0 then some (rsp / 16 * 16)
  else if istOffset + 8 * (ist - 1) + 7 ≤ r.tr.limit then
    some (loadBytes mem (r.tr.base + istOffset + 8 * (ist - 1)) 8 / 16 * 16)
  else none

/-- An interrupt on a CPU in 64-bit mode, without change of privilege.  Nothing is said of handlers and stacks
whose addresses are not canonical.  `none`: another exception takes its place. -/
def deliver (mem : ℕ → ℕ) (r : Regs) (vec rsp : ℕ) : Option Entry :=
  let a := r.idtr.base + 16 * vec
  let access := loadBytes mem (a + 5) 1
  let selector := loadBytes mem (a + 2) 2
  if 16 * vec + 15 ≤ r.idtr.limit ∧ (access % 32 = 14 ∨ access % 32 = 15) ∧ access / 128 = 1 ∧
      codeSegmentOk mem r selector then
    (interruptStack mem r (loadBytes mem (a + 4) 1 % 8) rsp).map fun rsp =>
      { rip := loadBytes mem a 2 + 2 ^ 16 * loadBytes mem (a + 6) 6
        cs := selector
        rsp := rsp
        masked := decide (access % 32 = 14) }
  else none

/-- `load_gdt`: `LGDT`, the far return to the new `CS`, `SS` and `LTR`.  The null selectors of the data
segments load without checks, and the code segment is accessed from the start.  `none`: an exception. -/
def loadGdt (mem : ℕ → ℕ) (r : Regs) (gdt : ℕ) : Option ((ℕ → ℕ) × Regs) :=
  let r := { r with gdtr := ⟨gdtEntries * 8 - 1, gdt⟩ }
  let cs := (gdtSelector hyvemindCsSegmentIndex).raw
  let ss := (gdtSelector hyvemindDataSegmentIndex).raw
  if codeSegmentOk mem r cs ∧ stackSegmentOk mem r ss then
    ltr (setAccessed mem r ss) { r with cs := cs } (gdtSelector hyvemindTssIndex).raw
  else none

/-- `load_shared_idt` -/
def loadSharedIdt (r : Regs) (idt : ℕ) : Regs := { r with idtr := ⟨idtEntries * 16 - 1, idt⟩ }

/-- `struct tss_descriptor` at an address. -/
def tssDescAt (mem : ℕ → ℕ) (d : ℕ) : TssDescriptor where
  limit0 := BitVec.ofNat 16 (loadBytes mem d 2)
  base0 := BitVec.ofNat 16 (loadBytes mem (d + 2) 2)
  base1 := BitVec.ofNat 8 (loadBytes mem (d + 4) 1)
  type := BitVec.ofNat 4 (loadBytes mem (d + 5) 1)
  reserved0 := BitVec.ofNat 1 (loadBytes mem (d + 5) 1 / 16)
  dpl := BitVec.ofNat 2 (loadBytes mem (d + 5) 1 / 32)
  p := BitVec.ofNat 1 (loadBytes mem (d + 5) 1 / 128)
  limit1 := BitVec.ofNat 4 (loadBytes mem (d + 6) 1)
  avl := BitVec.ofNat 1 (loadBytes mem (d + 6) 1 / 16)
  reserved1 := BitVec.ofNat 2 (loadBytes mem (d + 6) 1 / 32)
  g := BitVec.ofNat 1 (loadBytes mem (d + 6) 1 / 128)
  base2 := BitVec.ofNat 8 (loadBytes mem (d + 7) 1)
  base3 := BitVec.ofNat 32 (loadBytes mem (d + 8) 4)
  reserved2 := BitVec.ofNat 32 (loadBytes mem (d + 12) 4)

/-- `get_current_tss_base`, through `SGDT` and `STR`. -/
def getCurrentTssBase (mem : ℕ → ℕ) (r : Regs) : BitVec 64 :=
  getBaseFromTssDescriptor (tssDescAt mem (r.gdtr.base + 8 * (r.tr.selector / 8)))

/-! ### What the processor reads -/

section Decode

variable {mem : ℕ → ℕ} {r : Regs} {a gdt vec rsp tss : ℕ} {handler : BitVec 64} {type : SysSegType} {ist : ℤ}

theorem val_lt (type : SysSegType) : type.val.toNat < 16 := type.val.isLt

theorem createIdtGate_raw (handler : BitVec 64) (type : SysSegType) (ist : ℤ) :
    (createIdtGate handler type ist).raw = handler.toNat % 2 ^ 16 + 2 ^ 16 * (8 + 2 ^ 16 *
      ((BitVec.ofInt 3 ist).toNat + 2 ^ 8 * (type.val.toNat + 2 ^ 7) + 2 ^ 16 * (handler.toNat / 2 ^ 16))) := by
  have hlt := handler.isLt
  simp only [createIdtGate, setIdtGateOffset, IdtGate.raw, IdtBits.raw, SegmentSelector.raw, gdtSelector,
    hyvemindCsSegmentIndex, BitVec.extractLsb'_toNat, Nat.shiftRight_eq_div_pow, BitVec.ofNat_eq_ofNat,
    BitVec.toNat_ofNat]
  generalize (BitVec.ofInt 3 ist).toNat = n
  norm_num
  omega

theorem add_mul_div_pow {lo k hi : ℕ} (h : lo < 256 ^ k) : (lo + 256 ^ k * hi) / 256 ^ k = hi := by
  rw [Nat.add_mul_div_left _ _ (by positivity), Nat.div_eq_of_lt h, Nat.zero_add]

theorem gate_parts (h : Holds mem a 16 (createIdtGate handler type ist).raw) :
    loadBytes mem (a + 2) 2 = 8 ∧ loadBytes mem (a + 4) 1 % 8 = (BitVec.ofInt 3 ist).toNat ∧
      loadBytes mem (a + 5) 1 = type.val.toNat + 2 ^ 7 ∧
      loadBytes mem a 2 + 2 ^ 16 * loadBytes mem (a + 6) 6 = handler.toNat := by
  have hlt := handler.isLt
  have hist := (BitVec.ofInt 3 ist).isLt
  have htype := val_lt type
  have h0 := h.part (k := 0) (m := 2) (by omega)
  have h2 := h.part (k := 2) (m := 2) (by omega)
  have h4 := h.part (k := 4) (m := 1) (by omega)
  have h5 := h.part (k := 5) (m := 1) (by omega)
  have h6 := h.part (k := 6) (m := 6) (by omega)
  have hraw := createIdtGate_raw handler type ist
  generalize (createIdtGate handler type ist).raw = raw at *
  generalize (BitVec.ofInt 3 ist).toNat = n at *
  generalize type.val.toNat = t at *
  generalize handler.toNat = o at *
  have e2 : raw = o % 2 ^ 16 + 256 ^ 2 * (8 + 2 ^ 16 * (n + 2 ^ 8 * (t + 2 ^ 7) + 2 ^ 16 * (o / 2 ^ 16))) := by
    rw [hraw]
    ring
  have e4 : raw = o % 2 ^ 16 + 2 ^ 19 + 256 ^ 4 * (n + 2 ^ 8 * (t + 2 ^ 7 + 2 ^ 8 * (o / 2 ^ 16))) := by
    rw [e2]
    ring
  have e5 : raw = o % 2 ^ 16 + 2 ^ 19 + 2 ^ 32 * n + 256 ^ 5 * (t + 2 ^ 7 + 2 ^ 8 * (o / 2 ^ 16)) := by
    rw [e4]
    ring
  have e6 : raw = o % 2 ^ 16 + 2 ^ 19 + 2 ^ 32 * n + 2 ^ 40 * (t + 2 ^ 7) + 256 ^ 6 * (o / 2 ^ 16) := by
    rw [e5]
    ring
  rw [e2, add_mul_div_pow (by omega)] at h2
  rw [e4, add_mul_div_pow (by omega)] at h4
  rw [e5, add_mul_div_pow (by omega)] at h5
  rw [e6, add_mul_div_pow (by omega)] at h6
  rw [e2, pow_zero, Nat.div_one, Nat.add_zero] at h0
  refine ⟨?_, ?_, ?_, ?_⟩ <;> omega

/-- A present interrupt or trap gate, and the hypervisor's code segment. -/
theorem deliver_gate (hlimit : 16 * vec + 15 ≤ r.idtr.limit)
    (h : Holds mem (r.idtr.base + 16 * vec) 16 (createIdtGate handler type ist).raw)
    (hcs : codeSegmentOk mem r 8 = true) :
    deliver mem r vec rsp = if type = .ia32eInterruptGate ∨ type = .ia32eTrapGate then
      (interruptStack mem r (BitVec.ofInt 3 ist).toNat rsp).map fun rsp =>
        { rip := handler.toNat, cs := 8, rsp := rsp, masked := decide (type = .ia32eInterruptGate) }
      else none := by
  obtain ⟨hsel, hist, haccess, hrip⟩ := gate_parts h
  have htype : (type.val.toNat + 2 ^ 7) % 32 = type.val.toNat ∧ (type.val.toNat + 2 ^ 7) / 128 = 1 := by
    have := val_lt type
    omega
  have hval : (type.val.toNat = 14 ↔ type = .ia32eInterruptGate) ∧ (type.val.toNat = 15 ↔ type = .ia32eTrapGate) := by
    cases type <;> decide
  simp only [deliver, hsel, hist, haccess, hrip, htype.1, htype.2, hval.1, hval.2, hcs, hlimit, true_and, and_true]

theorem deliver_zero (h : Holds mem (r.idtr.base + 16 * vec) 16 0) : deliver mem r vec rsp = none := by
  have haccess := h.part (k := 5) (m := 1) (by omega)
  rw [Nat.zero_div, Nat.zero_mod] at haccess
  simp [deliver, haccess]

theorem codeSegmentOk_of (hbase : r.gdtr.base = gdt) (hlimit : r.gdtr.limit = 39)
    (h : Holds mem (gdt + 8) 8 (segmentRaw hyvemindCsSegmentDesc)) : codeSegmentOk mem r 8 = true := by
  have hraw : segmentRaw hyvemindCsSegmentDesc = 0x0020990000000000 := rfl
  have haccess := h.part (k := 5) (m := 1) (by omega)
  have hflags := h.part (k := 6) (m := 1) (by omega)
  rw [hraw] at haccess hflags
  have hsel : 8 * (8 / 8) = 8 := rfl
  refine decide_eq_true ?_
  rw [hbase, hlimit, hsel, haccess, hflags]
  norm_num

theorem tssDescriptor_sum (b0 b1 b2 b3 : ℕ) :
    4095 + 2 ^ 16 * (b0 + 2 ^ 16 * (b1 + 2 ^ 8 * (9 + 2 ^ 4 * (0 + 2 ^ 1 * (0 + 2 ^ 2 * (1 + 2 ^ 1 * (0 +
        2 ^ 4 * (0 + 2 ^ 1 * (0 + 2 ^ 2 * (0 + 2 ^ 1 * (b2 + 2 ^ 8 * (b3 + 2 ^ 32 * 0)))))))))))) =
      4095 + 2 ^ 16 * (b0 + 2 ^ 16 * b1 + 2 ^ 24 * (0x89 + 2 ^ 16 * (b2 + 2 ^ 8 * b3))) := by
  ring

theorem tssDescriptor_raw (b0 : BitVec 16) (b1 b2 : BitVec 8) (b3 : BitVec 32) :
    TssDescriptor.raw ⟨4095, b0, b1, 9, 0, 0, 1, 0, 0, 0, 0, b2, b3, 0⟩ = 4095 + 2 ^ 16 *
      (b0.toNat + 2 ^ 16 * b1.toNat + 2 ^ 24 * (0x89 + 2 ^ 16 * (b2.toNat + 2 ^ 8 * b3.toNat))) :=
  tssDescriptor_sum _ _ _ _

theorem createTssDesc_raw (tss : BitVec 64) : (createTssDesc tss 0).raw = 4095 + 2 ^ 16 * (tss.toNat % 2 ^ 24 +
    2 ^ 24 * (0x89 + 2 ^ 16 * (tss.toNat / 2 ^ 24))) := by
  have hdesc : createTssDesc tss 0 = ⟨4095, tss.extractLsb' 0 16, tss.extractLsb' 16 8, 9, 0, 0, 1, 0, 0, 0, 0,
      tss.extractLsb' 24 8, tss.extractLsb' 32 32, 0⟩ := rfl
  have hlt := tss.isLt
  have hlow : (tss.extractLsb' 0 16).toNat + 2 ^ 16 * (tss.extractLsb' 16 8).toNat = tss.toNat % 2 ^ 24 := by
    simp only [BitVec.extractLsb'_toNat, Nat.shiftRight_eq_div_pow]
    omega
  have hhigh : (tss.extractLsb' 24 8).toNat + 2 ^ 8 * (tss.extractLsb' 32 32).toNat = tss.toNat / 2 ^ 24 := by
    simp only [BitVec.extractLsb'_toNat, Nat.shiftRight_eq_div_pow]
    omega
  rw [hdesc, tssDescriptor_raw, hlow, hhigh]

theorem tssDesc_parts (h : Holds mem a 16 (createTssDesc (BitVec.ofNat 64 tss) 0).raw) (ht : tss < 2 ^ 64) :
    loadBytes mem a 2 = 4095 ∧ loadBytes mem (a + 5) 1 = 0x89 ∧ loadBytes mem (a + 6) 1 = 0 ∧
      Holds mem (a + 2) 3 (tss % 2 ^ 24) ∧ Holds mem (a + 7) 5 (tss / 2 ^ 24) := by
  have hraw := createTssDesc_raw (BitVec.ofNat 64 tss)
  rw [BitVec.toNat_ofNat, Nat.mod_eq_of_lt ht] at hraw
  rw [hraw] at h
  have e2 : 4095 + 2 ^ 16 * (tss % 2 ^ 24 + 2 ^ 24 * (0x89 + 2 ^ 16 * (tss / 2 ^ 24))) =
      4095 + 256 ^ 2 * (tss % 2 ^ 24 + 256 ^ 3 * (0x89 + 2 ^ 16 * (tss / 2 ^ 24))) := by ring
  have e5 : 4095 + 2 ^ 16 * (tss % 2 ^ 24 + 2 ^ 24 * (0x89 + 2 ^ 16 * (tss / 2 ^ 24))) =
      4095 + 2 ^ 16 * (tss % 2 ^ 24) + 256 ^ 5 * (0x89 + 2 ^ 16 * (tss / 2 ^ 24)) := by ring
  have e6 : 4095 + 2 ^ 16 * (tss % 2 ^ 24 + 2 ^ 24 * (0x89 + 2 ^ 16 * (tss / 2 ^ 24))) =
      4095 + 2 ^ 16 * (tss % 2 ^ 24) + 2 ^ 40 * 0x89 + 256 ^ 6 * (2 ^ 8 * (tss / 2 ^ 24)) := by ring
  have e7 : 4095 + 2 ^ 16 * (tss % 2 ^ 24 + 2 ^ 24 * (0x89 + 2 ^ 16 * (tss / 2 ^ 24))) =
      4095 + 2 ^ 16 * (tss % 2 ^ 24) + 2 ^ 40 * 0x89 + 256 ^ 7 * (tss / 2 ^ 24) := by ring
  have h0 := h.part (k := 0) (m := 2) (by omega)
  have h2 := h.sub (k := 2) (m := 3) (by omega)
  have h5 := h.part (k := 5) (m := 1) (by omega)
  have h6 := h.part (k := 6) (m := 1) (by omega)
  have h7 := h.sub (k := 7) (m := 5) (by omega)
  rw [e2, pow_zero, Nat.div_one, Nat.add_zero] at h0
  rw [e2, add_mul_div_pow (by omega)] at h2
  rw [e5, add_mul_div_pow (by omega)] at h5
  rw [e6, add_mul_div_pow (by omega)] at h6
  rw [e7, add_mul_div_pow (by omega)] at h7
  refine ⟨by omega, by omega, by omega, ?_, h7⟩
  rwa [← holds_mod_iff, Nat.add_mul_mod_self_left, Nat.mod_eq_of_lt (by omega)] at h2

/-- The code segment of a table. -/
def CsOk (mem : ℕ → ℕ) (gdt : ℕ) : Prop := Holds mem (gdt + 8) 8 (segmentRaw hyvemindCsSegmentDesc)

/-- The data segment of a table, before it is loaded. -/
def DataOk (mem : ℕ → ℕ) (gdt : ℕ) : Prop := Holds mem (gdt + 16) 8 (segmentRaw hyvemindDataSegmentDesc)

/-- The descriptor of the TSS, before it is loaded. -/
def DescOk (mem : ℕ → ℕ) (gdt tss : ℕ) : Prop := Holds mem (gdt + 24) 16 (createTssDesc (BitVec.ofNat 64 tss) 0).raw

/-- The base in the descriptor of the TSS: the busy bit lies outside of it. -/
def BaseOk (mem : ℕ → ℕ) (gdt tss : ℕ) : Prop :=
  Holds mem (gdt + 26) 3 (tss % 2 ^ 24) ∧ Holds mem (gdt + 31) 5 (tss / 2 ^ 24)

theorem stackSegmentOk_of (hbase : r.gdtr.base = gdt) (hlimit : r.gdtr.limit = 39) (h : DataOk mem gdt) :
    stackSegmentOk mem r 16 = true := by
  have hraw : segmentRaw hyvemindDataSegmentDesc = 0x0000960000000000 := rfl
  have haccess := h.part (k := 5) (m := 1) (by omega)
  rw [hraw] at haccess
  have hsel : 8 * (16 / 8) = 16 := rfl
  refine decide_eq_true ?_
  rw [hbase, hlimit, hsel, haccess]
  norm_num

theorem setAccessed_of_notMem (hbase : r.gdtr.base = gdt) {b : ℕ} (h : b ≠ gdt + 21) :
    setAccessed mem r 16 b = mem b := by
  have hsel : r.gdtr.base + 8 * (16 / 8) + 5 = gdt + 21 := by
    rw [hbase]
  rw [setAccessed, hsel]
  split
  · exact storeBytes_of_notMem (by omega)
  · rfl

theorem ltr_of (hbase : r.gdtr.base = gdt) (hlimit : r.gdtr.limit = 39) (h : DescOk mem gdt tss)
    (ht : tss < 2 ^ 64) :
    ltr mem r 24 = some (storeBytes mem (gdt + 29) 1 0x8b, { r with tr := ⟨24, tss, 4095⟩ }) := by
  obtain ⟨hlow, haccess, hflags, hbase0, hbase1⟩ := tssDesc_parts h ht
  have hload : loadBytes mem (gdt + 24 + 2) 3 + 2 ^ 24 * loadBytes mem (gdt + 24 + 7) 5 = tss := by
    rw [hbase0.load (by omega), hbase1.load (by omega)]
    omega
  have hsel : gdt + 8 * (24 / 8) = gdt + 24 := rfl
  have hcond : 8 * (24 / 8) + 15 ≤ 39 ∧ 24 / 8 ≠ 0 ∧ 24 / 4 % 2 = 0 ∧ 0x89 / 128 = 1 ∧ 0x89 % 32 = 9 := by decide
  simp only [ltr, hbase, hlimit, hsel, haccess, hcond, hlow, hflags, hload]
  rfl

/-- `load_gdt` on the table that `init_new_gdt` and `install_new_tss` filled: no exception, and only the
accessed bit and the busy bit are written. -/
theorem loadGdt_of (hcs : CsOk mem gdt) (hdata : DataOk mem gdt) (hdesc : DescOk mem gdt tss) (ht : tss < 2 ^ 64) :
    ∃ mem', loadGdt mem r gdt = some (mem', ⟨r.idtr, ⟨39, gdt⟩, 8, ⟨24, tss, 4095⟩⟩) ∧
      ∀ b, b ≠ gdt + 21 → b ≠ gdt + 29 → mem' b = mem b := by
  have hacc : ∀ b, b ≠ gdt + 21 → setAccessed mem { r with gdtr := ⟨39, gdt⟩ } 16 b = mem b :=
    fun b hb => setAccessed_of_notMem rfl hb
  have hdesc' : DescOk (setAccessed mem { r with gdtr := ⟨39, gdt⟩ } 16) gdt tss :=
    hdesc.congr fun b h1 h2 => hacc b (by omega)
  have hltr := ltr_of (r := { r with gdtr := ⟨39, gdt⟩, cs := 8 }) rfl rfl hdesc' ht
  have hsegments : codeSegmentOk mem { r with gdtr := ⟨39, gdt⟩ } 8 = true ∧
      stackSegmentOk mem { r with gdtr := ⟨39, gdt⟩ } 16 = true :=
    ⟨codeSegmentOk_of rfl rfl hcs, stackSegmentOk_of rfl rfl hdata⟩
  refine ⟨storeBytes (setAccessed mem { r with gdtr := ⟨39, gdt⟩ } 16) (gdt + 29) 1 0x8b,
    (if_pos hsegments).trans hltr, fun b h1 h2 => ?_⟩
  rw [storeBytes_of_notMem (by omega), hacc b h1]

theorem toNat_or_shiftLeft {x y : BitVec 64} {k : ℕ} (hx : x.toNat < 2 ^ k) (hy : 2 ^ k * y.toNat < 2 ^ 64) :
    (x ||| y <<< k).toNat = x.toNat + 2 ^ k * y.toNat := by
  rw [BitVec.toNat_or, BitVec.toNat_shiftLeft, Nat.shiftLeft_eq, mul_comm y.toNat, Nat.mod_eq_of_lt hy, Nat.or_comm,
    ← Nat.two_pow_add_eq_or_of_lt hx, Nat.add_comm]

theorem getBase_toNat (d : TssDescriptor) : (getBaseFromTssDescriptor d).toNat =
    d.base0.toNat + 2 ^ 16 * d.base1.toNat + 2 ^ 24 * d.base2.toNat + 2 ^ 32 * d.base3.toNat := by
  have h0 := d.base0.isLt
  have h1 := d.base1.isLt
  have h2 := d.base2.isLt
  have h3 := d.base3.isLt
  have w0 : (d.base0.setWidth 64).toNat = d.base0.toNat := BitVec.toNat_setWidth_of_le (by omega)
  have w1 : (d.base1.setWidth 64).toNat = d.base1.toNat := BitVec.toNat_setWidth_of_le (by omega)
  have w2 : (d.base2.setWidth 64).toNat = d.base2.toNat := BitVec.toNat_setWidth_of_le (by omega)
  have w3 : (d.base3.setWidth 64).toNat = d.base3.toNat := BitVec.toNat_setWidth_of_le (by omega)
  have e1 := toNat_or_shiftLeft (x := d.base0.setWidth 64) (y := d.base1.setWidth 64) (k := 16) (by omega) (by omega)
  have e2 := toNat_or_shiftLeft (x := d.base0.setWidth 64 ||| d.base1.setWidth 64 <<< 16)
    (y := d.base2.setWidth 64) (k := 24) (by omega) (by omega)
  have e3 := toNat_or_shiftLeft (x := d.base0.setWidth 64 ||| d.base1.setWidth 64 <<< 16 |||
    d.base2.setWidth 64 <<< 24) (y := d.base3.setWidth 64) (k := 32) (by omega) (by omega)
  rw [getBaseFromTssDescriptor, e3, e2, e1, w0, w1, w2, w3]

theorem getCurrentTssBase_of (hgdtr : r.gdtr.base = gdt) (htr : r.tr.selector = 24) (h : BaseOk mem gdt tss)
    (ht : tss < 2 ^ 64) : getCurrentTssBase mem r = BitVec.ofNat 64 tss := by
  have h0 := h.1.part (k := 0) (m := 2) (by omega)
  have h1 := h.1.part (k := 2) (m := 1) (by omega)
  have h2 := h.2.part (k := 0) (m := 1) (by omega)
  have h3 := h.2.part (k := 1) (m := 4) (by omega)
  rw [Nat.add_zero, pow_zero, Nat.div_one] at h0 h2
  refine BitVec.eq_of_toNat_eq ?_
  have hsel : r.gdtr.base + 8 * (r.tr.selector / 8) = gdt + 24 := by
    rw [hgdtr, htr]
  rw [getCurrentTssBase, hsel, getBase_toNat]
  simp only [tssDescAt, BitVec.toNat_ofNat, h0, h1, h2, h3]
  omega

/-- What the slots of `ist` hold after `init_default_tss`; the last five stay zero. -/
def istEntry (pages : TssPages) : ℕ → ℕ
  | 0 => pages.stack1 + tssIstDefaultSizePages * 4096 - 8
  | 1 => pages.stack2 + tssIstDefaultSizePages * 4096 - 8
  | _ => 0

def TssOk (mem : ℕ → ℕ) (pages : TssPages) : Prop :=
  ∀ k < 7, Holds mem (pages.tss + istOffset + 8 * k) 8 (istEntry pages k)

/-- The stack for `ist`, aligned. -/
def istStack (pages : TssPages) (rsp : ℕ) : ℕ → ℕ
  | 0 => rsp / 16 * 16
  | n + 1 => istEntry pages n / 16 * 16

theorem interruptStack_of {pages : TssPages} (htr : r.tr = ⟨24, pages.tss, 4095⟩) (h : TssOk mem pages)
    (hlt : ∀ k, istEntry pages k < 2 ^ 64) {n : ℕ} (hn : n < 8) :
    interruptStack mem r n rsp = some (istStack pages rsp n) := by
  cases n with
  | zero => rfl
  | succ n =>
      have hload := (h n (by omega)).load (hlt n)
      have hlimit : istOffset + 8 * n + 7 ≤ 4095 := by
        have : istOffset = 36 := rfl
        omega
      simp [interruptStack, htr, istStack, hload, hlimit]

end Decode

/-! ### What the calls write -/

section Writes

variable {mem : ℕ → ℕ} {idt gdt : ℕ}

theorem initNewGdt_eq : initNewGdt mem gdt =
    storeBytes (storeBytes (fillZero mem gdt 4096) (gdt + 8) 8 (segmentRaw hyvemindCsSegmentDesc)) (gdt + 16) 8
      (segmentRaw hyvemindDataSegmentDesc) := rfl

theorem initNewGdt_of_notMem {b : ℕ} (h : b < gdt ∨ gdt + 4096 ≤ b) : initNewGdt mem gdt b = mem b := by
  rw [initNewGdt_eq, storeBytes_of_notMem (by omega), storeBytes_of_notMem (by omega), fillZero_of_notMem h]

theorem initNewGdt_segments : CsOk (initNewGdt mem gdt) gdt ∧ DataOk (initNewGdt mem gdt) gdt := by
  rw [initNewGdt_eq]
  exact ⟨holds_storeBytes.congr fun b h1 h2 => storeBytes_of_notMem (by omega), holds_storeBytes⟩

theorem allocateTssIst_holds {tss index nr stackBot : ℕ} (h : stackBot + nr * 4096 ≤ 2 ^ 64) :
    Holds (allocateTssIst mem tss index nr stackBot) (tss + istOffset + 8 * (index - 1)) 8
      (stackBot + nr * 4096 - 8) := by
  have hu : u64 (stackBot + nr * 4096 - 8) = stackBot + nr * 4096 - 8 := Nat.mod_eq_of_lt (by omega)
  rw [allocateTssIst, hu]
  generalize stackBot + nr * 4096 - 8 = v
  have hlow : Holds (storeBytes (fillZero mem stackBot (nr * 4096)) (tss + istOffset + 8 * (index - 1)) 4 (v % 2 ^ 32))
      (tss + istOffset + 8 * (index - 1)) 4 v := holds_mod_iff.mp holds_storeBytes
  exact (hlow.congr fun b h1 h2 => storeBytes_of_notMem (by omega)).append holds_storeBytes

theorem allocateTssIst_of_notMem {tss index nr stackBot b : ℕ} (h : b < stackBot ∨ stackBot + nr * 4096 ≤ b)
    (h' : b < tss + istOffset + 8 * (index - 1) ∨ tss + istOffset + 8 * (index - 1) + 8 ≤ b) :
    allocateTssIst mem tss index nr stackBot b = mem b := by
  rw [allocateTssIst, storeBytes_of_notMem (by omega), storeBytes_of_notMem (by omega), fillZero_of_notMem h]

/-- The objects that `install_new_tss` works on do not overlap. -/
structure TssPages.Apart (pages : TssPages) (gdt : ℕ) : Prop where
  pair : pages.stack1 + 16384 ≤ pages.stack2 ∨ pages.stack2 + 16384 ≤ pages.stack1
  tss1 : pages.tss + 4096 ≤ pages.stack1 ∨ pages.stack1 + 16384 ≤ pages.tss
  tss2 : pages.tss + 4096 ≤ pages.stack2 ∨ pages.stack2 + 16384 ≤ pages.tss
  gdt : gdt + 4096 ≤ pages.tss ∨ pages.tss + 4096 ≤ gdt
  fits1 : pages.stack1 + 16384 ≤ 2 ^ 64
  fits2 : pages.stack2 + 16384 ≤ 2 ^ 64

variable {pages : TssPages}

theorem installNewTss_eq : installNewTss mem gdt pages =
    storeBytes (allocateTssIst (allocateTssIst (fillZero (fillZero mem pages.tss 4096) pages.tss 4096) pages.tss 1 4
      pages.stack1) pages.tss 2 4 pages.stack2) (gdt + 24) 16 (createTssDesc (BitVec.ofNat 64 pages.tss) 0).raw := rfl

theorem installNewTss_of_notMem {b : ℕ} (hgdt : b < gdt + 24 ∨ gdt + 40 ≤ b)
    (htss : b < pages.tss ∨ pages.tss + 4096 ≤ b) (h1 : b < pages.stack1 ∨ pages.stack1 + 16384 ≤ b)
    (h2 : b < pages.stack2 ∨ pages.stack2 + 16384 ≤ b) : installNewTss mem gdt pages b = mem b := by
  have hist : istOffset = 36 := rfl
  rw [installNewTss_eq, storeBytes_of_notMem (by omega), allocateTssIst_of_notMem (by omega) (by omega),
    allocateTssIst_of_notMem (by omega) (by omega), fillZero_of_notMem htss, fillZero_of_notMem htss]

theorem installNewTss_desc : DescOk (installNewTss mem gdt pages) gdt pages.tss := holds_storeBytes

theorem installNewTss_tss (h : pages.Apart gdt) : TssOk (installNewTss mem gdt pages) pages := by
  obtain ⟨hpair, htss1, htss2, hgdt, hfits1, hfits2⟩ := h
  have hist : istOffset = 36 := rfl
  intro k hk
  rw [installNewTss_eq]
  refine Holds.congr ?_ fun b h1 h2 => storeBytes_of_notMem (by omega)
  match k with
  | 0 =>
      exact Holds.congr (allocateTssIst_holds (by omega)) fun b h1 h2 =>
        allocateTssIst_of_notMem (by omega) (by omega)
  | 1 => exact allocateTssIst_holds (by omega)
  | k + 2 =>
      refine holds_zero fun b h1 h2 => ?_
      rw [allocateTssIst_of_notMem (by omega) (by omega), allocateTssIst_of_notMem (by omega) (by omega)]
      exact fillZero_of_mem (by omega) (by omega)

/-! ### The gates -/

/-- A registered gate. -/
structure Gate where
  type : SysSegType
  handler : BitVec 64
  ist : ℤ

/-- The bytes of an entry of the IDT. -/
def gateRaw : Option Gate → ℕ
  | none => 0
  | some g => (createIdtGate g.handler g.type g.ist).raw

def IdtHolds (mem : ℕ → ℕ) (idt : ℕ) (g : ℕ → Option Gate) : Prop :=
  ∀ v < 256, Holds mem (idt + 16 * v) 16 (gateRaw (g v))

theorem registerIdtHandler_of_notMem {index b : ℕ} {type : SysSegType} {handler : BitVec 64} {ist : ℤ}
    (hindex : index < 256) (h : b < idt ∨ idt + 4096 ≤ b) :
    registerIdtHandler mem idt index type handler ist b = mem b :=
  storeBytes_of_notMem (by omega)

theorem IdtHolds.register {g : ℕ → Option Gate} (h : IdtHolds mem idt g) (index : ℕ) (type : SysSegType)
    (handler : BitVec 64) (ist : ℤ) : IdtHolds (registerIdtHandler mem idt index type handler ist) idt
      (Function.update g index (some ⟨type, handler, ist⟩)) := by
  intro v hv
  by_cases hvi : v = index
  · rw [hvi, Function.update_self, mul_comm]
    exact holds_storeBytes
  · rw [Function.update_of_ne hvi]
    exact (h v hv).congr fun b h1 h2 => storeBytes_of_notMem (by omega)

/-- The gates of `init_shared_idt`. -/
def sharedGates (h : Handlers) : ℕ → Option Gate :=
  Function.update (Function.update (Function.update (fun _ => none)
    irqDivideErrorVector (some ⟨.ia32eTrapGate, h.asmDivExceptionHandler, 0⟩))
    irqApicTimerVector (some ⟨.ia32eInterruptGate, h.asmIrqApicTimerHandler, 1⟩))
    irqCpuKickVector (some ⟨.ia32eInterruptGate, h.asmIrqCpuKickHandler, 1⟩)

theorem initSharedIdt_holds (h : Handlers) : IdtHolds (initSharedIdt mem idt h) idt (sharedGates h) := by
  have hzero : IdtHolds (fillZero mem idt 4096) idt fun _ => none :=
    fun v hv => holds_zero fun b h1 h2 => fillZero_of_mem (by omega) (by omega)
  exact ((hzero.register _ _ _ _).register _ _ _ _).register _ _ _ _

theorem initSharedIdt_of_notMem {h : Handlers} {b : ℕ} (hb : b < idt ∨ idt + 4096 ≤ b) :
    initSharedIdt mem idt h b = mem b := by
  rw [initSharedIdt, registerIdtHandler_of_notMem (by decide) hb, registerIdtHandler_of_notMem (by decide) hb,
    registerIdtHandler_of_notMem (by decide) hb, fillZero_of_notMem hb]

end Writes

/-! ### CPUs that come up -/

/-- Where the tables of the CPUs and the pages of their TSSs lie. -/
structure Layout (ι : Type*) where
  idt : ℕ
  gdt : ι → ℕ
  pages : ι → TssPages
  handlers : Handlers

/-- The objects in memory. -/
inductive Obj (ι : Type*)
  | idt
  | gdt (i : ι)
  | tss (i : ι)
  | stack1 (i : ι)
  | stack2 (i : ι)

/-- How far a CPU is in its setup. -/
inductive Stage
  | reset | gdt | tss | loaded | ready
deriving DecidableEq

structure State (ι : Type*) where
  mem : ℕ → ℕ
  regs : ι → Regs
  stage : ι → Stage

/-- The calls, and what else is stored. -/
inductive Call (ι : Type*)
  | initSharedIdt
  | registerIdtHandler (index : ℕ) (type : SysSegType) (handler : BitVec 64) (istIndex : ℤ)
  | initNewGdt (i : ι)
  | installNewTss (i : ι)
  | loadGdt (i : ι)
  | loadSharedIdt (i : ι)
  | store (b v : ℕ)

section Run

variable {ι : Type*} {L : Layout ι}

namespace Layout

def base (L : Layout ι) : Obj ι → ℕ
  | .idt => L.idt
  | .gdt i => L.gdt i
  | .tss i => (L.pages i).tss
  | .stack1 i => (L.pages i).stack1
  | .stack2 i => (L.pages i).stack2

def size : Obj ι → ℕ
  | .idt | .gdt _ | .tss _ => 4096
  | .stack1 _ | .stack2 _ => 16384

/-- The byte `b` belongs to the object. -/
def Mem (L : Layout ι) (x : Obj ι) (b : ℕ) : Prop := L.base x ≤ b ∧ b < L.base x + size x

/-- Pages of their own for all objects. -/
structure Ok (L : Layout ι) : Prop where
  apart : ∀ x y, x ≠ y → L.base x + size x ≤ L.base y ∨ L.base y + size y ≤ L.base x
  fits : ∀ x, L.base x + size x ≤ 2 ^ 64

theorem Ok.outside (hL : L.Ok) {x y : Obj ι} {b : ℕ} (hb : L.Mem x b) (hne : x ≠ y) :
    b < L.base y ∨ L.base y + size y ≤ b := by
  have h := hL.apart x y hne
  unfold Mem at hb
  omega

theorem Ok.pages_apart (hL : L.Ok) (i : ι) : (L.pages i).Apart (L.gdt i) where
  pair := hL.apart (.stack1 i) (.stack2 i) (by simp)
  tss1 := hL.apart (.tss i) (.stack1 i) (by simp)
  tss2 := hL.apart (.tss i) (.stack2 i) (by simp)
  gdt := hL.apart (.gdt i) (.tss i) (by simp)
  fits1 := hL.fits (.stack1 i)
  fits2 := hL.fits (.stack2 i)

theorem Ok.tss_lt (hL : L.Ok) (i : ι) : (L.pages i).tss < 2 ^ 64 := by
  have h : (L.pages i).tss + 4096 ≤ 2 ^ 64 := hL.fits (.tss i)
  omega

theorem Ok.istEntry_lt (hL : L.Ok) (i : ι) (k : ℕ) : istEntry (L.pages i) k < 2 ^ 64 := by
  have h1 := (hL.pages_apart i).fits1
  have h2 := (hL.pages_apart i).fits2
  have hsize : tssIstDefaultSizePages = 4 := rfl
  unfold istEntry
  split <;> omega

end Layout

/-- One call on a CPU, in the order of `arch_setup_bsp` and `arch_setup_ap`; the gates may change at any time, but
no interrupt comes between the bytes of one registration.  The rest of the program stores to the interrupt stacks
and outside of all objects. -/
inductive Step [DecidableEq ι] (L : Layout ι) : State ι → Call ι → State ι → Prop
  | initSharedIdt {s} : Step L s .initSharedIdt { s with mem := initSharedIdt s.mem L.idt L.handlers }
  | registerIdtHandler {s index type handler ist} (h : index < 256) :
      Step L s (.registerIdtHandler index type handler ist)
        { s with mem := registerIdtHandler s.mem L.idt index type handler ist }
  | initNewGdt {s i} (h : s.stage i = .reset) :
      Step L s (.initNewGdt i) { s with
        mem := initNewGdt s.mem (L.gdt i)
        stage := Function.update s.stage i .gdt }
  | installNewTss {s i} (h : s.stage i = .gdt) :
      Step L s (.installNewTss i) { s with
        mem := installNewTss s.mem (L.gdt i) (L.pages i)
        stage := Function.update s.stage i .tss }
  | loadGdt {s i mem r} (h : s.stage i = .tss) (hload : loadGdt s.mem (s.regs i) (L.gdt i) = some (mem, r)) :
      Step L s (.loadGdt i) ⟨mem, Function.update s.regs i r, Function.update s.stage i .loaded⟩
  | loadSharedIdt {s i} (h : s.stage i = .loaded) :
      Step L s (.loadSharedIdt i) { s with
        regs := Function.update s.regs i (loadSharedIdt (s.regs i) L.idt)
        stage := Function.update s.stage i .ready }
  | store {s b v} (h : ∀ x, L.Mem x b → ∃ i, x = .stack1 i ∨ x = .stack2 i) :
      Step L s (.store b v) { s with mem := Function.update s.mem b v }

/-- The gates after a call. -/
def Call.gates (L : Layout ι) (g : ℕ → Option Gate) : Call ι → ℕ → Option Gate
  | .initSharedIdt => sharedGates L.handlers
  | .registerIdtHandler index type handler ist => Function.update g index (some ⟨type, handler, ist⟩)
  | .initNewGdt _ | .installNewTss _ | .loadGdt _ | .loadSharedIdt _ | .store .. => g

/-- The gates after the calls: the last one that was registered for the vector, since the table was
initialized. -/
def gates (L : Layout ι) (calls : List (Call ι)) : ℕ → Option Gate :=
  calls.foldl (Call.gates L) fun _ => none

/-- What a gate does on a CPU with these pages.  The TSS holds stacks for the indices `1` and `2` only; gates of
other types fault. -/
def Gate.entry (g : Gate) (pages : TssPages) (rsp : ℕ) : Option Entry :=
  if g.type = .ia32eInterruptGate ∨ g.type = .ia32eTrapGate then
    some {
      rip := g.handler.toNat
      cs := 8
      rsp := istStack pages rsp (BitVec.ofInt 3 g.ist).toNat
      masked := decide (g.type = .ia32eInterruptGate) }
  else none

/-! ### The invariant -/

/-- A CPU whose task register is loaded. -/
structure Loaded (L : Layout ι) (mem : ℕ → ℕ) (i : ι) (r : Regs) : Prop where
  cs : CsOk mem (L.gdt i)
  base : BaseOk mem (L.gdt i) (L.pages i).tss
  tss : TssOk mem (L.pages i)
  gdtr : r.gdtr = ⟨39, L.gdt i⟩
  tr : r.tr = ⟨24, (L.pages i).tss, 4095⟩

/-- What is in memory and in the registers for a CPU. -/
def CpuOk (L : Layout ι) (mem : ℕ → ℕ) (i : ι) (r : Regs) : Stage → Prop
  | .reset => True
  | .gdt => CsOk mem (L.gdt i) ∧ DataOk mem (L.gdt i)
  | .tss => CsOk mem (L.gdt i) ∧ DataOk mem (L.gdt i) ∧ DescOk mem (L.gdt i) (L.pages i).tss ∧ TssOk mem (L.pages i)
  | .loaded => Loaded L mem i r
  | .ready => Loaded L mem i r ∧ r.idtr = ⟨4095, L.idt⟩

/-- An object is the same in two memories. -/
def Same (L : Layout ι) (mem mem' : ℕ → ℕ) (x : Obj ι) : Prop := ∀ b, L.Mem x b → mem' b = mem b

/-- What is known about a CPU speaks of its GDT and the page of its TSS only. -/
theorem CpuOk.congr {mem mem' : ℕ → ℕ} {i : ι} {r : Regs} {stage : Stage} (h : CpuOk L mem i r stage)
    (hg : Same L mem mem' (.gdt i)) (ht : Same L mem mem' (.tss i)) : CpuOk L mem' i r stage := by
  have hg' : ∀ b, L.gdt i ≤ b → b < L.gdt i + 4096 → mem' b = mem b := fun b h1 h2 => hg b ⟨h1, h2⟩
  have ht' : ∀ b, (L.pages i).tss ≤ b → b < (L.pages i).tss + 4096 → mem' b = mem b := fun b h1 h2 => ht b ⟨h1, h2⟩
  have hist : istOffset = 36 := rfl
  have hcs : CsOk mem (L.gdt i) → CsOk mem' (L.gdt i) :=
    fun h => h.congr fun b h1 h2 => hg' b (by omega) (by omega)
  have hdata : DataOk mem (L.gdt i) → DataOk mem' (L.gdt i) :=
    fun h => h.congr fun b h1 h2 => hg' b (by omega) (by omega)
  have hdesc : DescOk mem (L.gdt i) (L.pages i).tss → DescOk mem' (L.gdt i) (L.pages i).tss :=
    fun h => h.congr fun b h1 h2 => hg' b (by omega) (by omega)
  have htss : TssOk mem (L.pages i) → TssOk mem' (L.pages i) :=
    fun h k hk => (h k hk).congr fun b h1 h2 => ht' b (by omega) (by omega)
  have hloaded : Loaded L mem i r → Loaded L mem' i r := fun h =>
    ⟨hcs h.cs, ⟨h.base.1.congr fun b h1 h2 => hg' b (by omega) (by omega),
      h.base.2.congr fun b h1 h2 => hg' b (by omega) (by omega)⟩, htss h.tss, h.gdtr, h.tr⟩
  cases stage with
  | reset => trivial
  | gdt => exact ⟨hcs h.1, hdata h.2⟩
  | tss => exact ⟨hcs h.1, hdata h.2.1, hdesc h.2.2.1, htss h.2.2.2⟩
  | loaded => exact hloaded h
  | ready => exact ⟨hloaded h.1, h.2⟩

/-- The objects that a call writes. -/
def Call.Writes : Call ι → Obj ι → Prop
  | .initSharedIdt, x | .registerIdtHandler .., x => x = .idt
  | .initNewGdt i, x | .loadGdt i, x => x = .gdt i
  | .installNewTss i, x => x = .gdt i ∨ x = .tss i ∨ x = .stack1 i ∨ x = .stack2 i
  | .loadSharedIdt _, _ => False
  | .store .., x => ∃ i, x = .stack1 i ∨ x = .stack2 i

/-- The CPU that makes a call for itself. -/
def Call.cpu : Call ι → Option ι
  | .initNewGdt i | .installNewTss i | .loadGdt i | .loadSharedIdt i => some i
  | .initSharedIdt | .registerIdtHandler .. | .store .. => none

variable {s s' : State ι} {l : Call ι}

theorem loadGdt_run (hL : L.Ok) {i : ι} (hcpu : CpuOk L s.mem i (s.regs i) .tss) :
    ∃ mem', loadGdt s.mem (s.regs i) (L.gdt i) =
        some (mem', ⟨(s.regs i).idtr, ⟨39, L.gdt i⟩, 8, ⟨24, (L.pages i).tss, 4095⟩⟩) ∧
      ∀ b, b ≠ L.gdt i + 21 → b ≠ L.gdt i + 29 → mem' b = s.mem b :=
  loadGdt_of hcpu.1 hcpu.2.1 hcpu.2.2.1 (hL.tss_lt i)

theorem gates_snoc (calls : List (Call ι)) (l : Call ι) : gates L (calls ++ [l]) = Call.gates L (gates L calls) l := by
  rw [gates, List.foldl_append]
  rfl

structure Inv (L : Layout ι) (calls : List (Call ι)) (s : State ι) : Prop where
  idt : IdtHolds s.mem L.idt (gates L calls)
  cpus : ∀ i, CpuOk L s.mem i (s.regs i) (s.stage i)

theorem Inv.deliver (hL : L.Ok) {calls : List (Call ι)} (hi : Inv L calls s) {i : ι} (hready : s.stage i = .ready)
    {v : ℕ} (hv : v < 256) (rsp : ℕ) :
    deliver s.mem (s.regs i) v rsp = (gates L calls v).bind (·.entry (L.pages i) rsp) := by
  have hcpu := hi.cpus i
  rw [hready] at hcpu
  obtain ⟨hloaded, hidtr⟩ := hcpu
  have hidt : (s.regs i).idtr.base = L.idt ∧ (s.regs i).idtr.limit = 4095 := by rw [hidtr]; exact ⟨rfl, rfl⟩
  have hcs := codeSegmentOk_of (r := s.regs i) (by rw [hloaded.gdtr]) (by rw [hloaded.gdtr]) hloaded.cs
  have hgate := hi.idt v hv
  rw [← hidt.1] at hgate
  cases hg : gates L calls v with
  | none =>
      rw [hg] at hgate
      exact deliver_zero hgate
  | some g =>
      rw [hg] at hgate
      have hstack : interruptStack s.mem (s.regs i) (BitVec.ofInt 3 g.ist).toNat rsp = _ :=
        interruptStack_of hloaded.tr hloaded.tss (hL.istEntry_lt i) (BitVec.ofInt 3 g.ist).isLt
      rw [deliver_gate (by omega) hgate hcs, hstack, Option.bind_some, Gate.entry, Option.map_some]

variable [DecidableEq ι]

theorem step_same (hL : L.Ok) (h : Step L s l s') (hcpu : ∀ i, CpuOk L s.mem i (s.regs i) (s.stage i)) {x : Obj ι}
    (hx : ¬ l.Writes x) : Same L s.mem s'.mem x := by
  intro b hb
  cases h with
  | initSharedIdt => exact initSharedIdt_of_notMem (hL.outside hb hx)
  | registerIdtHandler hindex => exact registerIdtHandler_of_notMem hindex (hL.outside hb hx)
  | initNewGdt => exact initNewGdt_of_notMem (hL.outside hb hx)
  | @installNewTss i =>
      simp only [Call.Writes, not_or] at hx
      obtain ⟨hgdt, htss, h1, h2⟩ := hx
      have hout := hL.outside hb hgdt
      simp only [Layout.base, Layout.size] at hout
      exact installNewTss_of_notMem (by omega) (hL.outside hb htss) (hL.outside hb h1) (hL.outside hb h2)
  | @loadGdt i mem r hstage hload =>
      have hok := hcpu i
      rw [hstage] at hok
      obtain ⟨mem', hload', hmem⟩ := loadGdt_run hL hok
      have hout := hL.outside hb hx
      simp only [Layout.base, Layout.size] at hout
      rw [hload, Option.some.injEq, Prod.mk.injEq] at hload'
      rw [← hload'.1] at hmem
      exact hmem b (by omega) (by omega)
  | loadSharedIdt => rfl
  | @store b' v hfree =>
      refine Function.update_of_ne ?_ _ _
      rintro rfl
      exact hx (hfree x hb)

theorem step_other (h : Step L s l s') {j : ι} (hj : l.cpu ≠ some j) :
    s'.regs j = s.regs j ∧ s'.stage j = s.stage j ∧ ¬ l.Writes (.gdt j) ∧ ¬ l.Writes (.tss j) := by
  cases h with
  | initSharedIdt | registerIdtHandler | store => simp [Call.Writes]
  | initNewGdt | installNewTss | loadGdt | loadSharedIdt =>
      have hne : j ≠ _ := fun h => hj (congrArg some h.symm)
      simp [Call.Writes, hne]

theorem step_self (hL : L.Ok) (h : Step L s l s') {j : ι} (hj : l.cpu = some j)
    (hcpu : CpuOk L s.mem j (s.regs j) (s.stage j)) : CpuOk L s'.mem j (s'.regs j) (s'.stage j) := by
  cases h with
  | initSharedIdt | registerIdtHandler | store => simp [Call.cpu] at hj
  | @initNewGdt i =>
      obtain rfl : i = j := Option.some.inj hj
      simp only [Function.update_self]
      exact initNewGdt_segments
  | @installNewTss i hstage =>
      obtain rfl : i = j := Option.some.inj hj
      rw [hstage] at hcpu
      have hgdt := (hL.pages_apart i).gdt
      have htss : (L.pages i).tss + 4096 ≤ (L.pages i).stack1 ∨ (L.pages i).stack1 + 16384 ≤ (L.pages i).tss :=
        (hL.pages_apart i).tss1
      have hg1 : L.gdt i + 4096 ≤ (L.pages i).stack1 ∨ (L.pages i).stack1 + 16384 ≤ L.gdt i :=
        hL.apart (.gdt i) (.stack1 i) (by simp)
      have hg2 : L.gdt i + 4096 ≤ (L.pages i).stack2 ∨ (L.pages i).stack2 + 16384 ≤ L.gdt i :=
        hL.apart (.gdt i) (.stack2 i) (by simp)
      have hmem : ∀ b, L.gdt i ≤ b → b < L.gdt i + 24 →
          installNewTss s.mem (L.gdt i) (L.pages i) b = s.mem b := fun b h1 h2 =>
        installNewTss_of_notMem (by omega) (by omega) (by omega) (by omega)
      simp only [Function.update_self]
      exact ⟨hcpu.1.congr fun b h1 h2 => hmem b (by omega) (by omega),
        hcpu.2.congr fun b h1 h2 => hmem b (by omega) (by omega), installNewTss_desc,
        installNewTss_tss (hL.pages_apart i)⟩
  | @loadGdt i mem r hstage hload =>
      obtain rfl : i = j := Option.some.inj hj
      rw [hstage] at hcpu
      obtain ⟨mem', hload', hmem⟩ := loadGdt_run hL hcpu
      rw [hload, Option.some.injEq, Prod.mk.injEq] at hload'
      obtain ⟨rfl, rfl⟩ := hload'
      have hbase := tssDesc_parts hcpu.2.2.1 (hL.tss_lt i)
      have hgdt : L.gdt i + 4096 ≤ (L.pages i).tss ∨ (L.pages i).tss + 4096 ≤ L.gdt i := (hL.pages_apart i).gdt
      have hist : istOffset = 36 := rfl
      simp only [Function.update_self]
      exact {
        cs := hcpu.1.congr fun b h1 h2 => hmem b (by omega) (by omega)
        base := ⟨hbase.2.2.2.1.congr fun b h1 h2 => hmem b (by omega) (by omega),
          hbase.2.2.2.2.congr fun b h1 h2 => hmem b (by omega) (by omega)⟩
        tss := fun k hk => (hcpu.2.2.2 k hk).congr fun b h1 h2 => hmem b (by omega) (by omega)
        gdtr := rfl
        tr := rfl }
  | @loadSharedIdt i hstage =>
      obtain rfl : i = j := Option.some.inj hj
      rw [hstage] at hcpu
      simp only [Function.update_self]
      exact ⟨⟨hcpu.cs, hcpu.base, hcpu.tss, hcpu.gdtr, hcpu.tr⟩, rfl⟩

theorem Inv.step (hL : L.Ok) {calls : List (Call ι)} (hi : Inv L calls s) (h : Step L s l s') :
    Inv L (calls ++ [l]) s' where
  idt := by
    have hframe : ¬ l.Writes .idt → IdtHolds s'.mem L.idt (gates L calls) := fun hw v hv =>
      (hi.idt v hv).congr fun b h1 h2 => step_same hL h hi.cpus hw b
        ⟨by simp only [Layout.base]; omega, by simp only [Layout.base, Layout.size]; omega⟩
    rw [gates_snoc]
    cases h with
    | initSharedIdt => exact initSharedIdt_holds L.handlers
    | registerIdtHandler => exact hi.idt.register _ _ _ _
    | initNewGdt | installNewTss | loadGdt | loadSharedIdt | store => exact hframe (by simp [Call.Writes])
  cpus j := by
    by_cases hj : l.cpu = some j
    · exact step_self hL h hj (hi.cpus j)
    · obtain ⟨hregs, hstage, hg, ht⟩ := step_other h hj
      rw [hregs, hstage]
      exact (hi.cpus j).congr (step_same hL h hi.cpus hg) (step_same hL h hi.cpus ht)

theorem Inv.run (hL : L.Ok) {s₀ : State ι} {calls : List (Call ι)} (hidt : ∀ b, L.Mem .idt b → s₀.mem b = 0)
    (hreset : ∀ i, s₀.stage i = .reset) (hrun : Run (Step L) s₀ calls s) : Inv L calls s := by
  refine hrun.history ⟨fun v hv => ?_, fun i => ?_⟩ fun calls s l s' hi h => hi.step hL h
  · refine holds_zero fun b h1 h2 => hidt b ⟨?_, ?_⟩
    · simp only [Layout.base]
      omega
    · simp only [Layout.base, Layout.size]
      omega
  · rw [hreset i]
    trivial

/-- **Interrupts enter the registered handlers.**  In every interleaving of the CPUs' setup with
registrations and with the stores of the rest of the program: `load_gdt` raises no exception,
`get_current_tss_base` is the CPU's own TSS, and a CPU that has loaded the IDT does for every vector what the gate
that was registered last says. -/
theorem interrupts_delivered (hL : L.Ok) {s₀ : State ι} {calls : List (Call ι)}
    (hidt : ∀ b, L.Mem .idt b → s₀.mem b = 0) (hreset : ∀ i, s₀.stage i = .reset) (hrun : Run (Step L) s₀ calls s)
    (i : ι) :
    (s.stage i = .tss → (loadGdt s.mem (s.regs i) (L.gdt i)).isSome) ∧
      (s.stage i = .loaded ∨ s.stage i = .ready →
        getCurrentTssBase s.mem (s.regs i) = BitVec.ofNat 64 (L.pages i).tss) ∧
      (s.stage i = .ready → ∀ v < 256, ∀ rsp,
        deliver s.mem (s.regs i) v rsp = (gates L calls v).bind (·.entry (L.pages i) rsp)) := by
  have hi := Inv.run hL hidt hreset hrun
  have hcpu := hi.cpus i
  have hbase : Loaded L s.mem i (s.regs i) →
      getCurrentTssBase s.mem (s.regs i) = BitVec.ofNat 64 (L.pages i).tss := fun h =>
    getCurrentTssBase_of (by rw [h.gdtr]) (by rw [h.tr]) h.base (hL.tss_lt i)
  refine ⟨fun hstage => ?_, ?_, fun hready v hv rsp => hi.deliver hL hready hv rsp⟩
  · rw [hstage] at hcpu
    obtain ⟨mem', hload, -⟩ := loadGdt_run hL hcpu
    rw [hload]
    rfl
  · rintro (hstage | hstage) <;> rw [hstage] at hcpu
    · exact hbase hcpu
    · exact hbase hcpu.1

/-- Two CPUs with their tables one behind the other. -/
def sampleLayout : Layout Bool where
  idt := 0x1000
  gdt i := 0x2000 + 0x1000 * i.toNat
  pages i := ⟨0x4000 + 0x1000 * i.toNat, 0x8000 + 0x8000 * i.toNat, 0xc000 + 0x8000 * i.toNat⟩
  handlers := ⟨0x100, 0x200, 0x300⟩

theorem sampleLayout_ok : sampleLayout.Ok where
  apart x y hne := by
    cases x <;> cases y <;> simp only [Layout.base, Layout.size, sampleLayout, ne_eq, Obj.gdt.injEq, Obj.tss.injEq,
      Obj.stack1.injEq, Obj.stack2.injEq, reduceCtorEq, not_true_eq_false] at hne ⊢ <;>
      first | omega | (rename_i i j; cases i <;> cases j <;> simp at hne ⊢)
  fits x := by
    cases x <;> simp only [Layout.base, Layout.size, sampleLayout] <;>
      first | omega | (rename_i i; have := i.toNat_lt; omega)

theorem interrupts_delivered_sample : ∃ (calls : List (Call Bool)) (s : State Bool),
    Run (Step sampleLayout) ⟨fun _ => 0, fun _ => ⟨⟨0, 0⟩, ⟨0, 0⟩, 0, ⟨0, 0, 0⟩⟩, fun _ => .reset⟩ calls s ∧
      deliver s.mem (s.regs false) irqApicTimerVector 5 = some ⟨0x200, 8, 0xbff0, true⟩ := by
  let s₀ : State Bool := ⟨fun _ => 0, fun _ => ⟨⟨0, 0⟩, ⟨0, 0⟩, 0, ⟨0, 0, 0⟩⟩, fun _ => .reset⟩
  have h0 : Run (Step sampleLayout) s₀ [] s₀ := Run.nil s₀
  have h1 := (h0.snoc (.initNewGdt (i := false) rfl)).snoc (.installNewTss (i := false) rfl)
  have hi := Inv.run sampleLayout_ok (fun _ _ => rfl) (fun _ => rfl) h1
  obtain ⟨mem', hload, -⟩ := loadGdt_run sampleLayout_ok (hi.cpus false)
  have h2 := ((h1.snoc (.loadGdt (i := false) rfl hload)).snoc .initSharedIdt).snoc (.loadSharedIdt (i := false) rfl)
  exact ⟨_, _, h2, (interrupts_delivered sampleLayout_ok (fun _ _ => rfl) (fun _ => rfl) h2 false).2.2 rfl _
    (by decide) 5⟩

end Run

end GdtIdt

end HyveMind
