import HyveMind.Lib.Locks
import HyveMind.VpicDelivery

/-! # Interrupts of the legacy controllers

`arch/x64/irq.c` and `arch/x64/pic.c`: contexts on any CPUs register handlers for the lines of the two 8259
chips (`request_legacy_irq`), and the interrupts that the chips deliver go through
`common_legacy_irq_trampoline`.  An `irq_desc` has a lock of its own, and the chips have `pic_lock`; the steps
of all contexts interleave in any way.

The interrupts come in on one CPU, the BSP, with its interrupts disabled: `Lock.bsp` is its interrupt flag,
which the delivery takes and `iretq` gives back.  The handlers of devices are opaque; what is called and which
ends of interrupt are sent, in their order, is the result of an interrupt. -/

namespace HyveMind

namespace Irq

open Lib Vpic Rules

/-! ### The chips -/

/-- Where a chip is in its initialisation. -/
inductive PicInit
  | icw2 | icw3 | icw4 | ready
deriving DecidableEq, Repr

/-- An 8259 chip. -/
structure PicChip where
  init : PicInit
  icw1 : BitVec 8
  imr : BitVec 8
  irr : BitVec 8
  isr : BitVec 8
  offset : BitVec 8
  /-- The command port reads the in-service register. -/
  readIsr : Bool
deriving DecidableEq, Repr

namespace PicChip

/-- A write to the command port: an `ICW1`, an `OCW3`, or the `OCW2` for the end of an interrupt. -/
def writeCmd (c : PicChip) (v : BitVec 8) : PicChip :=
  if v.getLsbD 4 then { c with init := .icw2, icw1 := v, imr := 0, readIsr := false }
  else if v.getLsbD 3 then
    if v.getLsbD 1 then { c with readIsr := v.getLsbD 0 } else c
  else if v = 0x20 then { c with isr := c.isr &&& (c.isr - 1) }
  else c

/-- A write to the data port. -/
def writeData (c : PicChip) (v : BitVec 8) : PicChip :=
  match c.init with
  | .icw2 =>
      { c with
        offset := v &&& 0xF8
        init := if c.icw1.getLsbD 1 then (if c.icw1.getLsbD 0 then .icw4 else .ready) else .icw3 }
  | .icw3 => { c with init := if c.icw1.getLsbD 0 then .icw4 else .ready }
  | .icw4 => { c with init := .ready }
  | .ready => { c with imr := v }

def readCmd (c : PicChip) : BitVec 8 := if c.readIsr then c.isr else c.irr

/-- The line that the chip asks for. -/
structure Offers (c : PicChip) (n : ℕ) : Prop where
  lt : n < 8
  requested : c.irr.getLsbD n = true
  unmasked : c.imr.getLsbD n = false
  /-- Nothing of the same or a higher priority is in service. -/
  idle : ∀ m ≤ n, c.isr.getLsbD m = false

def ack (c : PicChip) (n : ℕ) : PicChip :=
  { c with irr := c.irr &&& ~~~bit8 n, isr := c.isr ||| bit8 n }

end PicChip

/-! ### The tables -/

def pic1Cmd : ℕ := 0x0020
def pic1Data : ℕ := 0x0021
def pic2Cmd : ℕ := 0x00A0
def pic2Data : ℕ := 0x00A1
def picEoiCmd : BitVec 8 := 0x20

/-- `OCW3_BASE | OCW3_READ_ISR` -/
def ocw3ReadIsrCmd : BitVec 8 := 0x0B

def irqLegacyVectorNr : ℕ := 16
def irqLegacyBaseVector : ℕ := 0x20

/-- `IRQ_LEGACY_VECTOR` -/
def irqLegacyVector (x : ℕ) : ℕ := irqLegacyBaseVector + x

/-- An `int` as `uint8_t`. -/
def u8 (x : ℤ) : ℕ := (x % 256).toNat

/-- The fields of `struct irq_desc` besides the lock; a handler is an `η`. -/
structure IrqDesc (η : Type) where
  used : Bool
  deviceIrq : ℤ
  irqVector : ℕ
  handlerChain : Option η

/-- The two chips and the table of descriptors. -/
structure Irqs (η : Type) where
  pic1 : PicChip
  pic2 : PicChip
  desc : ℕ → IrqDesc η

variable {η γ : Type}

namespace Irqs

def outb (u : Irqs η) (port : ℕ) (v : BitVec 8) : Irqs η :=
  if port = pic1Cmd then { u with pic1 := u.pic1.writeCmd v }
  else if port = pic1Data then { u with pic1 := u.pic1.writeData v }
  else if port = pic2Cmd then { u with pic2 := u.pic2.writeCmd v }
  else if port = pic2Data then { u with pic2 := u.pic2.writeData v }
  else u

def inb (u : Irqs η) (port : ℕ) : BitVec 8 :=
  if port = pic1Cmd then u.pic1.readCmd
  else if port = pic1Data then u.pic1.imr
  else if port = pic2Cmd then u.pic2.readCmd
  else if port = pic2Data then u.pic2.imr
  else 0xFF

/-- An assignment to fields of a descriptor. -/
def setDesc (u : Irqs η) (vec : ℕ) (f : IrqDesc η → IrqDesc η) : Irqs η :=
  { u with desc := Function.update u.desc vec (f (u.desc vec)) }

/-- `init_pic` -/
def initPic (u : Irqs η) : Irqs η :=
  [(pic1Cmd, 0x11#8), (pic1Data, 0x20), (pic1Data, 0x04), (pic1Data, 0x01),
    (pic2Cmd, 0x11), (pic2Data, 0x28), (pic2Data, 0x02), (pic2Data, 0x01),
    (pic1Data, 0xFF), (pic2Data, 0xFF)].foldl (fun u w => u.outb w.1 w.2) u

/-- The processor takes an interrupt with a vector. -/
inductive Delivers : Irqs η → ℕ → Irqs η → Prop
  | master {u : Irqs η} {n : ℕ} (h : u.pic1.Offers n) (hn : n ≠ 2) :
      Delivers u (u.pic1.offset.toNat + n) { u with pic1 := u.pic1.ack n }
  /-- The slave is behind line `2` of the master. -/
  | slave {u : Irqs η} {n : ℕ} (h : u.pic1.Offers 2) (hn : u.pic2.Offers n) :
      Delivers u (u.pic2.offset.toNat + n) { u with pic1 := u.pic1.ack 2, pic2 := u.pic2.ack n }
  /-- The request is gone by the time it is acknowledged. -/
  | spurious {u : Irqs η} : Delivers u (u.pic1.offset.toNat + 7) u
  | spuriousSlave {u : Irqs η} (h : u.pic1.Offers 2) :
      Delivers u (u.pic2.offset.toNat + 7) { u with pic1 := u.pic1.ack 2 }

/-- Devices raise and lower lines. -/
def Env (u u' : Irqs η) : Prop :=
  ∃ irr1 irr2, u' = { u with pic1 := { u.pic1 with irr := irr1 }, pic2 := { u.pic2 with irr := irr2 } }

end Irqs

/-! ### The functions -/

inductive Lock
  | desc (vec : ℕ)
  | pic
  | bsp
deriving DecidableEq, Repr

abbrev Prog (η γ : Type) := Cmd Lock (Irqs η) γ

/-- `unmask_irq` -/
def unmaskIrq (deviceIrq : ℤ) (next : Prog η γ) : Prog η γ :=
  let targetPort := if deviceIrq < 8 then pic1Data else pic2Data
  let val := u8 (if deviceIrq < 8 then deviceIrq else deviceIrq - 8)
  .acquire .pic <| .read (·.inb targetPort) fun imr =>
    .write (·.outb targetPort (imr &&& ~~~bit8 val)) <| .release .pic next

/-- `is_spurious` -/
def isSpurious (irqVec : ℕ) (next : Bool → Prog η γ) : Prog η γ :=
  let deviceIrq : ℤ := irqVec - irqLegacyBaseVector
  let targetPort := if deviceIrq < 8 then pic1Cmd else pic2Cmd
  let val := u8 (if deviceIrq < 8 then deviceIrq else deviceIrq - 8)
  .acquire .pic <| .write (·.outb targetPort ocw3ReadIsrCmd) <| .read (·.inb targetPort) fun isr =>
    .release .pic <| next (!isSet isr (bit8 val))

/-- What an interrupt does: a handler is called with a vector, or the end of the interrupt is sent to a port. -/
inductive Event (η : Type)
  | handler (h : η) (vec : ℕ)
  | eoi (port : ℕ)
deriving DecidableEq

/-- `spurious_eoi` -/
def spuriousEoi (irqVec : ℕ) (next : List (Event η) → Prog η γ) : Prog η γ :=
  .acquire .pic <|
    if irqLegacyVector 8 ≤ irqVec then
      .write (·.outb pic1Cmd picEoiCmd) (.release .pic (next [.eoi pic1Cmd]))
    else .release .pic (next [])

/-- `signal_eoi` -/
def signalEoi (hwIrq : ℕ) (next : List (Event η) → Prog η γ) : Prog η γ :=
  let master sent := .write (·.outb pic1Cmd picEoiCmd) (.release .pic (next (sent ++ [.eoi pic1Cmd])))
  .acquire .pic <|
    if 8 ≤ hwIrq then .write (·.outb pic2Cmd picEoiCmd) (master [.eoi pic2Cmd]) else master []

/-- `execute_irq_handler_chain` -/
def executeIrqHandlerChain (vec : ℕ) (next : List (Event η) → Prog η γ) : Prog η γ :=
  .read (fun u => (u.desc vec).handlerChain) fun
    | none => next []
    | some h => .read (fun u => (u.desc vec).irqVector) fun irqVector => next [.handler h irqVector]

/-- `__common_legacy_irq_trampoline` -/
def commonLegacyIrqTrampolineImpl (vec : ℕ) (next : List (Event η) → Prog η γ) : Prog η γ :=
  let eoi (called : List (Event η)) : Prog η γ :=
    .read (fun u => (u.desc vec).deviceIrq) fun deviceIrq =>
      signalEoi (u8 deviceIrq) fun sent => next (called ++ sent)
  .read (fun u => (u.desc vec).used) fun used =>
    if used then executeIrqHandlerChain vec eoi else eoi []

/-- `common_legacy_irq_trampoline` -/
def commonLegacyIrqTrampoline (vec : ℕ) (next : List (Event η) → Prog η γ) : Prog η γ :=
  .acquire (.desc vec) <| commonLegacyIrqTrampolineImpl vec fun events => .release (.desc vec) (next events)

/-- `common_legacy_irq_trampoline_spurious` -/
def commonLegacyIrqTrampolineSpurious (vec : ℕ) (next : List (Event η) → Prog η γ) : Prog η γ :=
  .acquire (.desc vec) <| isSpurious vec fun spurious =>
    if spurious then spuriousEoi vec fun events => .release (.desc vec) (next events)
    else commonLegacyIrqTrampolineImpl vec fun events => .release (.desc vec) (next events)

/-- The C function that the entry point of a vector calls, as the loop in `entry.S` chooses it. -/
def legacyIrqAsmTrampoline (vec : ℕ) (next : List (Event η) → Prog η γ) : Prog η γ :=
  if vec = 7 ∨ vec = 15 then commonLegacyIrqTrampolineSpurious vec next
  else commonLegacyIrqTrampoline vec next

/-- The loop compares vectors, which begin at `0x20`, with the numbers of lines: no vector gets the trampoline
that looks for spurious interrupts. -/
theorem legacyIrqAsmTrampoline_eq (d : ℕ) (next : List (Event η) → Prog η γ) :
    legacyIrqAsmTrampoline (irqLegacyVector d) next = commonLegacyIrqTrampoline (irqLegacyVector d) next := by
  refine if_neg ?_
  unfold irqLegacyVector irqLegacyBaseVector
  omega

inductive Result (η : Type)
  | vector (vec : ℕ)
  /-- `-ERR_INVAL` -/
  | inval
  /-- `-ERR_BUSY` -/
  | busy
  /-- The end of an interrupt. -/
  | handled (events : List (Event η))

/-- `irq_domain` is set for the vectors of the chips; elsewhere it is a null pointer. -/
def HasDomain (vec : ℕ) : Prop := irqLegacyVector 0 ≤ vec ∧ vec < irqLegacyVector irqLegacyVectorNr

instance (vec : ℕ) : Decidable (HasDomain vec) := inferInstanceAs (Decidable (_ ∧ _))

/-- A call through a null pointer does not go on. -/
def nullCall : Prog η γ := .act (ν := Empty) (fun _ _ _ => False) nofun

/-- `request_legacy_irq` -/
def requestLegacyIrq (handler : η) (deviceIrq : ℤ) : Prog η (Result η) :=
  if irqLegacyVectorNr ≤ deviceIrq then .ret .inval
  else
    let irqVec := u8 (irqLegacyBaseVector + deviceIrq)
    .acquire (.desc irqVec) <| .read (fun u => (u.desc irqVec).used) fun used =>
      if used || deviceIrq == 2 then .release (.desc irqVec) (.ret .busy)
      else
        .write (·.setDesc irqVec ({ · with used := true })) <|
        .write (·.setDesc irqVec ({ · with deviceIrq := deviceIrq })) <|
        .write (·.setDesc irqVec ({ · with irqVector := irqVec })) <|
        .write (·.setDesc irqVec ({ · with handlerChain := some handler })) <|
        if HasDomain irqVec then unmaskIrq deviceIrq <| .release (.desc irqVec) (.ret (.vector irqVec))
        else nullCall

inductive Call (η : Type)
  | request (handler : η) (deviceIrq : ℤ)
  | irq (vec : ℕ)

/-- The contexts and the interrupts; `asked` says for which lines the handlers may be registered. -/
def system (asked : η → ℤ → Prop) : Threads Lock (Irqs η) (Call η) (Result η) where
  program
    | .request h d => requestLegacyIrq h d
    | .irq vec => legacyIrqAsmTrampoline vec fun events => .release .bsp (.ret (.handled events))
  start
    | .request h d => fun u u' => asked h d ∧ u' = u
    | .irq vec => fun u u' => u.Delivers vec u'
  takes
    | .request _ _ => []
    | .irq _ => [.bsp]
  env := Irqs.Env

/-! ### What the contexts may do -/

namespace Irqs

/-- The mask bit of a line. -/
def masked (u : Irqs η) (d : ℕ) : Bool :=
  if d < 8 then u.pic1.imr.getLsbD d else u.pic2.imr.getLsbD (d - 8)

/-- The chips are initialised, with the vectors of `irq_vectors.h`. -/
structure Ready (u : Irqs η) : Prop where
  init1 : u.pic1.init = .ready
  init2 : u.pic2.init = .ready
  offset1 : u.pic1.offset = 0x20
  offset2 : u.pic2.offset = 0x28

/-- The end of an interrupt of the master goes to the master only. -/
def OnMaster (u : Irqs η) : Prop := ∀ d < 8, u8 (u.desc (irqLegacyVector d)).deviceIrq < 8

/-- The descriptor of a line is that of a registered handler. -/
def Registered (u : Irqs η) (h : η) (d : ℕ) : Prop :=
  u.desc (irqLegacyVector d) = ⟨true, d, irqLegacyVector d, some h⟩

end Irqs

/-- A descriptor is changed under its lock, the masks under `pic_lock`, and what is in service by the BSP with
its interrupts disabled.  A line is unmasked when it has a handler, and then neither changes again. -/
structure May (asked : η → ℤ → Prop) (H : Set Lock) (u u' : Irqs η) : Prop where
  desc : ∀ v, .desc v ∉ H → u'.desc v = u.desc v
  imr : .pic ∉ H → u'.pic1.imr = u.pic1.imr ∧ u'.pic2.imr = u.pic2.imr
  isr : .bsp ∉ H → u'.pic1.isr = u.pic1.isr ∧ u'.pic2.isr = u.pic2.isr
  ready : u.Ready → u'.Ready
  master : u.OnMaster → u'.OnMaster
  stays : ∀ d < 16, u.masked d = false →
    u'.masked d = false ∧ u'.desc (irqLegacyVector d) = u.desc (irqLegacyVector d)
  unmasks : ∀ d < 16, u.masked d = true → u'.masked d = false →
    .desc (irqLegacyVector d) ∈ H ∧ d ≠ 2 ∧ ∃ h, asked h d ∧ u'.Registered h d

/-- Unmasked lines have a handler, which was asked for. -/
structure Always (asked : η → ℤ → Prop) (u : Irqs η) : Prop where
  ready : u.Ready
  master : u.OnMaster
  unmasked : ∀ d < 16, u.masked d = false → d ≠ 2 ∧ ∃ h, asked h d ∧ u.Registered h d

/-- While a descriptor is free, it is in use iff its line is unmasked; while the BSP can be interrupted,
nothing is in service. -/
def LockInv (u : Irqs η) : Lock → Prop
  | .desc v => ∀ d < 16, v = irqLegacyVector d → ((u.desc v).used = true ↔ u.masked d = false)
  | .pic => True
  | .bsp => u.pic1.isr = 0 ∧ u.pic2.isr = 0

variable {asked : η → ℤ → Prop} {H : Set Lock} {u u' : Irqs η} {d : ℕ} {h : η}

theorem May.masked_eq (hmay : May asked H u u') (hd : d < 16) (hH : .desc (irqLegacyVector d) ∉ H) :
    u'.masked d = u.masked d := by
  cases hm : u.masked d with
  | false => exact (hmay.stays d hd hm).1
  | true =>
      by_contra hne
      exact hH (hmay.unmasks d hd hm (by simpa using hne)).1

theorem irqLegacyVector_inj {a b : ℕ} (hab : irqLegacyVector a = irqLegacyVector b) : a = b :=
  Nat.add_left_cancel hab

def rules (asked : η → ℤ → Prop) : Rules Lock (Irqs η) where
  may := May asked
  inv l u := LockInv u l
  always := Always asked
  may_refl H u := ⟨fun _ _ => rfl, fun _ => ⟨rfl, rfl⟩, fun _ => ⟨rfl, rfl⟩, id, id, fun _ _ hm => ⟨hm, rfl⟩,
    fun d hd hm hm' => by rw [hm] at hm'; cases hm'⟩
  always_may := by
    intro H u u' hmay hu
    refine ⟨hmay.ready hu.ready, hmay.master hu.master, fun d hd hm' => ?_⟩
    cases hm : u.masked d with
    | true => exact (hmay.unmasks d hd hm hm').2
    | false =>
        obtain ⟨hne, h, hask, hreg⟩ := hu.unmasked d hd hm
        exact ⟨hne, h, hask, (hmay.stays d hd hm).2.trans hreg⟩
  inv_may := by
    intro H u u' l hl hmay hu hinv
    cases l with
    | desc v =>
        rintro d hd rfl
        rw [hmay.desc _ hl, hmay.masked_eq hd hl]
        exact hinv d hd rfl
    | pic => trivial
    | bsp =>
        obtain ⟨h1, h2⟩ := hmay.isr hl
        exact ⟨h1.trans hinv.1, h2.trans hinv.2⟩

/-! ### Accesses -/

theorem setDesc_desc (u : Irqs η) (vec : ℕ) (f : IrqDesc η → IrqDesc η) :
    (u.setDesc vec f).desc vec = f (u.desc vec) := Function.update_self ..

theorem u8_line (hd : d < 16) : u8 d = d := by
  unfold u8
  omega

theorem u8_vector (hd : d < 16) : u8 (irqLegacyBaseVector + d) = irqLegacyVector d := by
  unfold u8 irqLegacyVector irqLegacyBaseVector
  omega

/-- An assignment to the descriptor of a line that is masked. -/
theorem may_setDesc {f : IrqDesc η → IrqDesc η} (hd : d < 16) (hH : .desc (irqLegacyVector d) ∈ H)
    (hm : u.masked d = true) (hf : ∀ x, (f x).deviceIrq = x.deviceIrq ∨ (f x).deviceIrq = d) :
    May asked H u (u.setDesc (irqLegacyVector d) f) where
  desc v hv := by
    refine Function.update_of_ne ?_ ..
    rintro rfl
    exact hv hH
  imr _ := ⟨rfl, rfl⟩
  isr _ := ⟨rfl, rfl⟩
  ready hu := ⟨hu.init1, hu.init2, hu.offset1, hu.offset2⟩
  master hu d' hd' := by
    by_cases he : irqLegacyVector d' = irqLegacyVector d
    · obtain rfl := irqLegacyVector_inj he
      rw [setDesc_desc]
      rcases hf (u.desc (irqLegacyVector d')) with hsame | hline
      · rw [hsame]
        exact hu d' hd'
      · rw [hline, u8_line hd]
        exact hd'
    · have hother : (u.setDesc (irqLegacyVector d) f).desc (irqLegacyVector d') =
          u.desc (irqLegacyVector d') := Function.update_of_ne he ..
      rw [hother]
      exact hu d' hd'
  stays d' hd' hm' := by
    refine ⟨hm', Function.update_of_ne (fun he => ?_) ..⟩
    obtain rfl := irqLegacyVector_inj he
    rw [hm] at hm'
    cases hm'
  unmasks d' hd' hm' hn := by
    change u.masked d' = false at hn
    rw [hm'] at hn
    cases hn

/-- The data port of the chip of a line. -/
def dataPort (d : ℕ) : ℕ := if d < 8 then pic1Data else pic2Data

/-- The place of a line on its chip. -/
def pin (d : ℕ) : ℕ := if d < 8 then d else d - 8

theorem inb_dataPort (u : Irqs η) (d : ℕ) :
    u.inb (dataPort d) = if d < 8 then u.pic1.imr else u.pic2.imr := by
  unfold dataPort
  split_ifs <;> rfl

theorem outb_dataPort (hu : u.Ready) (d : ℕ) (v : BitVec 8) : u.outb (dataPort d) v =
    if d < 8 then { u with pic1 := { u.pic1 with imr := v } }
    else { u with pic2 := { u.pic2 with imr := v } } := by
  have hwrite : ∀ c : PicChip, c.init = .ready → c.writeData v = { c with imr := v } := by
    intro c hc
    rw [PicChip.writeData, hc]
  unfold dataPort
  split_ifs
  · rw [← hwrite _ hu.init1]
    rfl
  · rw [← hwrite _ hu.init2]
    rfl

theorem getLsbD_clear (imr : BitVec 8) {n m : ℕ} (hn : n < 8) (hm : m < 8) :
    (imr &&& ~~~bit8 n).getLsbD m = (imr.getLsbD m && decide (m ≠ n)) := by
  rw [BitVec.getLsbD_and, BitVec.getLsbD_not, getLsbD_bit8 hn hm]
  simp [hm, eq_comm]

theorem masked_unmask (hu : u.Ready) (hd : d < 16) {d' : ℕ} (hd' : d' < 16) :
    (u.outb (dataPort d) (u.inb (dataPort d) &&& ~~~bit8 (pin d))).masked d' =
      (u.masked d' && decide (d' ≠ d)) := by
  rw [outb_dataPort hu, inb_dataPort]
  unfold pin Irqs.masked
  by_cases hd8 : d < 8 <;> by_cases hd8' : d' < 8 <;> simp only [hd8, hd8', if_true, if_false]
  · exact getLsbD_clear _ hd8 hd8'
  · rw [decide_eq_true (by omega), Bool.and_true]
  · rw [decide_eq_true (by omega), Bool.and_true]
  · rw [getLsbD_clear _ (by omega) (by omega)]
    congr 1
    rw [decide_eq_decide]
    omega

theorem may_unmask (hu : u.Ready) (hd : d < 16) (hne : d ≠ 2) (hpic : .pic ∈ H)
    (hH : .desc (irqLegacyVector d) ∈ H) (hask : asked h d) (hreg : u.Registered h d) :
    May asked H u (u.outb (dataPort d) (u.inb (dataPort d) &&& ~~~bit8 (pin d))) := by
  have hmasked := fun d' (hd' : d' < 16) => masked_unmask hu hd hd'
  have hdesc : (u.outb (dataPort d) (u.inb (dataPort d) &&& ~~~bit8 (pin d))).desc = u.desc := by
    rw [outb_dataPort hu]
    split_ifs <;> rfl
  refine ⟨fun v _ => by rw [hdesc], fun hno => absurd hpic hno, fun _ => ?_, fun _ => ?_,
    fun hmaster => by rw [Irqs.OnMaster, hdesc]; exact hmaster, fun d' hd' hm => ?_, fun d' hd' hm hm' => ?_⟩
  · rw [outb_dataPort hu]
    split_ifs <;> exact ⟨rfl, rfl⟩
  · rw [outb_dataPort hu]
    split_ifs <;> exact ⟨hu.init1, hu.init2, hu.offset1, hu.offset2⟩
  · rw [hmasked d' hd', hm, hdesc]
    exact ⟨rfl, rfl⟩
  · rw [hmasked d' hd', hm, Bool.true_and, decide_eq_false_iff_not, not_not] at hm'
    subst hm'
    refine ⟨hH, hne, h, hask, ?_⟩
    rw [Irqs.Registered, hdesc]
    exact hreg

theorem may_of_eq {c1 c2 : PicChip} (h1 : c1.imr = u.pic1.imr ∧ c1.init = u.pic1.init ∧ c1.offset = u.pic1.offset)
    (h2 : c2.imr = u.pic2.imr ∧ c2.init = u.pic2.init ∧ c2.offset = u.pic2.offset)
    (hisr : .bsp ∉ H → c1.isr = u.pic1.isr ∧ c2.isr = u.pic2.isr) :
    May asked H u { u with pic1 := c1, pic2 := c2 } := by
  have hmasked : ∀ d, Irqs.masked { u with pic1 := c1, pic2 := c2 } d = u.masked d := by
    intro d
    rw [Irqs.masked, Irqs.masked, h1.1, h2.1]
  refine ⟨fun _ _ => rfl, fun _ => ⟨h1.1, h2.1⟩, hisr, fun hu => ?_, id,
    fun d hd hm => ⟨(hmasked d).trans hm, rfl⟩, fun d hd hm hm' => ?_⟩
  · exact ⟨h1.2.1.trans hu.init1, h2.2.1.trans hu.init2, h1.2.2.trans hu.offset1, h2.2.2.trans hu.offset2⟩
  · rw [hmasked, hm] at hm'
    cases hm'

theorem may_eoi (hH : .bsp ∈ H) : May asked H u (u.outb pic1Cmd picEoiCmd) :=
  may_of_eq ⟨rfl, rfl, rfl⟩ ⟨rfl, rfl, rfl⟩ fun hno => absurd hH hno

/-! ### A request -/

/-- What a result says of a request for a line, then and later. -/
def RequestResult (h : η) (d : ℕ) (u : Irqs η) : Result η → Prop
  | .vector vec => d < 16 ∧ vec = irqLegacyVector d ∧ u.masked d = false ∧ u.Registered h d
  | .inval => 16 ≤ d
  | .busy => d < 16 ∧ (d = 2 ∨ u.masked d = false)
  | .handled _ => False

theorem stable_line {K : Set Lock} {P : Irqs η → Prop} (hd : d < 16) (hK : .desc (irqLegacyVector d) ∈ K)
    (hP : ∀ u u', u'.masked d = u.masked d → u'.desc (irqLegacyVector d) = u.desc (irqLegacyVector d) →
      P u → P u') : (rules asked).Stable K P := by
  intro H u u' hdisj hmay _ hu
  have hno : .desc (irqLegacyVector d) ∉ H := fun hH => Set.disjoint_left.mp hdisj hH hK
  exact hP u u' (May.masked_eq hmay hd hno) (May.desc hmay _ hno) hu

theorem stable_registered (hd : d < 16) (K : Set Lock) :
    (rules asked).Stable K fun u => u.masked d = false ∧ u.Registered h d := by
  intro H u u' _ hmay _ hu
  obtain ⟨hm, hdesc⟩ := May.stays hmay d hd hu.1
  exact ⟨hm, hdesc.trans hu.2⟩

theorem stable_unmasked (hd : d < 16) (K : Set Lock) :
    (rules asked).Stable K fun u : Irqs η => u.masked d = false :=
  fun _ _ _ _ hmay _ hu => (May.stays hmay d hd hu).1

theorem unmaskIrq_line (hd : d < 16) (next : Prog η γ) : unmaskIrq d next =
    .acquire .pic (.read (·.inb (dataPort d)) fun imr =>
      .write (·.outb (dataPort d) (imr &&& ~~~bit8 (pin d))) (.release .pic next)) := by
  have hport : (if (d : ℤ) < 8 then pic1Data else pic2Data) = dataPort d := by
    unfold dataPort
    split_ifs <;> first | rfl | omega
  have hpin : u8 (if (d : ℤ) < 8 then d else d - 8) = pin d := by
    unfold pin u8
    split_ifs <;> omega
  rw [unmaskIrq, hport, hpin]

theorem proves_unmaskIrq {Q : γ → Irqs η → Prop} {next : Prog η γ} (hd : d < 16) (hne : d ≠ 2)
    (hask : asked h d)
    (hnext : (rules asked).Proves Q {Lock.desc (irqLegacyVector d)}
      (fun u => u.masked d = false ∧ u.Registered h d) next) :
    (rules asked).Proves Q {Lock.desc (irqLegacyVector d)}
      (fun u => u.masked d = true ∧ u.Registered h d) (unmaskIrq d next) := by
  rw [unmaskIrq_line hd]
  have hstable : ∀ (K : Set Lock) (b : Bool), .desc (irqLegacyVector d) ∈ K →
      (rules asked).Stable K fun u => u.masked d = b ∧ u.Registered h d := by
    intro K b hK
    refine stable_line hd hK fun u u' hm hdesc hu => ⟨hm.trans hu.1, hdesc.trans hu.2⟩
  refine .acquire (by simp) (hstable _ _ rfl) (W := fun u => u.masked d = true ∧ u.Registered h d)
    (fun u _ hu _ => hu) ?_
  refine .read (W := fun imr u => u.inb (dataPort d) = imr ∧ u.masked d = true ∧ u.Registered h d)
    (hstable _ _ (by simp)) (fun u _ hu => ⟨rfl, hu⟩) fun imr => ?_
  refine .write (W := fun u => u.masked d = false ∧ u.Registered h d) ?_ ?_ ?_
  · intro H u u' hdisj hmay hu hP
    refine ⟨?_, hstable _ true (by simp) H u u' hdisj hmay hu hP.2⟩
    have himr := May.imr hmay (fun hH => Set.disjoint_left.mp hdisj hH (by simp))
    rw [inb_dataPort, himr.1, himr.2, ← inb_dataPort]
    exact hP.1
  · rintro u hu ⟨rfl, hm, hreg⟩
    have hready := Always.ready hu
    refine ⟨may_unmask hready hd hne (by simp) (by simp) hask hreg, ?_, ?_⟩
    · rw [masked_unmask hready hd hd]
      simp
    · rw [outb_dataPort hready]
      split_ifs <;> exact hreg
  · refine .release (by simp) (hstable _ _ (by simp)) (W := fun u => u.masked d = false ∧ u.Registered h d)
      (fun u _ hu => ⟨trivial, hu⟩) ?_
    have hset : (insert Lock.pic {Lock.desc (irqLegacyVector d)} : Set Lock) \ {.pic} =
        {Lock.desc (irqLegacyVector d)} := Set.insert_sdiff_self_of_notMem (by simp)
    rw [hset]
    exact hnext

theorem requestResult_stable (h : η) (d : ℕ) (x : Result η) :
    (rules asked).Stable ∅ fun u => RequestResult h d u x := by
  intro H u u' hdisj hmay hu hx
  cases x with
  | vector vec =>
      obtain ⟨hd, hvec, hreg⟩ := hx
      exact ⟨hd, hvec, stable_registered hd ∅ H u u' hdisj hmay hu hreg⟩
  | inval => exact hx
  | busy =>
      obtain ⟨hd, hx⟩ := hx
      exact ⟨hd, hx.imp_right (stable_unmasked hd ∅ H u u' hdisj hmay hu)⟩
  | handled => exact hx

/-- An assignment to the descriptor, under its lock and while the line is masked. -/
theorem proves_assign (hd : d < 16) {f : IrqDesc η → IrqDesc η} (p q : IrqDesc η → Prop) {m : Prog η (Result η)}
    (hpq : ∀ x, p x → q (f x)) (hf : ∀ x, (f x).deviceIrq = x.deviceIrq ∨ (f x).deviceIrq = d)
    (hm : (rules asked).Proves (fun x u => RequestResult h d u x) {Lock.desc (irqLegacyVector d)}
      (fun u => u.masked d = true ∧ q (u.desc (irqLegacyVector d))) m) :
    (rules asked).Proves (fun x u => RequestResult h d u x) {Lock.desc (irqLegacyVector d)}
      (fun u => u.masked d = true ∧ p (u.desc (irqLegacyVector d))) (.write (·.setDesc (irqLegacyVector d) f) m) := by
  have hmem : .desc (irqLegacyVector d) ∈ ({Lock.desc (irqLegacyVector d)} : Set Lock) := rfl
  have hstable : (rules asked).Stable {Lock.desc (irqLegacyVector d)} fun u =>
      u.masked d = true ∧ p (u.desc (irqLegacyVector d)) :=
    stable_line hd hmem fun u u' hm hdesc hu => ⟨hm.trans hu.1, hdesc.symm ▸ hu.2⟩
  refine .write hstable (fun u _ hu => ⟨may_setDesc hd hmem hu.1 hf, hu.1, ?_⟩) hm
  rw [setDesc_desc]
  exact hpq _ hu.2

theorem proves_request (hask : asked h d) :
    (rules asked).Proves (fun x u => RequestResult h d u x) ∅ (fun _ => True) (requestLegacyIrq h d) := by
  rw [requestLegacyIrq]
  split_ifs with hd
  · exact .ret (fun _ _ _ _ _ _ _ => trivial) fun _ _ _ => by exact_mod_cast hd
  rw [Nat.cast_le, irqLegacyVectorNr, not_le] at hd
  have hdomain : HasDomain (irqLegacyVector d) := by
    unfold HasDomain irqLegacyVector irqLegacyVectorNr
    omega
  have hcascade : ((d : ℤ) == 2) = (d == 2) := by
    rw [Bool.eq_iff_iff, beq_iff_eq, beq_iff_eq]
    omega
  rw [u8_vector hd]
  dsimp only
  rw [if_pos hdomain, hcascade]
  have hsingle : insert (Lock.desc (irqLegacyVector d)) (∅ : Set Lock) = {Lock.desc (irqLegacyVector d)} :=
    insert_empty_eq _
  have hmem : .desc (irqLegacyVector d) ∈ ({Lock.desc (irqLegacyVector d)} : Set Lock) := rfl
  refine .acquire (Set.notMem_empty _) (fun _ _ _ _ _ _ _ => trivial)
    (W := fun u => (u.desc (irqLegacyVector d)).used = true ↔ u.masked d = false)
    (fun u _ _ hinv => hinv d hd rfl) ?_
  rw [hsingle]
  refine .read (W := fun used u => (u.desc (irqLegacyVector d)).used = used ∧
      ((u.desc (irqLegacyVector d)).used = true ↔ u.masked d = false))
    (stable_line hd hmem fun u u' hm hdesc hu => by rw [hm, hdesc]; exact hu) (fun u _ hu => ⟨rfl, hu⟩)
    fun used => ?_
  have hstable : (rules asked).Stable {Lock.desc (irqLegacyVector d)} fun u : Irqs η =>
      (u.desc (irqLegacyVector d)).used = used ∧
        ((u.desc (irqLegacyVector d)).used = true ↔ u.masked d = false) :=
    stable_line hd hmem fun u u' hm hdesc hu => by rw [hm, hdesc]; exact hu
  split_ifs with hbusy
  · refine .release hmem hstable (W := fun u => d = 2 ∨ u.masked d = false) (fun u _ hu => ⟨?_, ?_⟩) ?_
    · intro d' hd' he
      obtain rfl := irqLegacyVector_inj he
      exact hu.2
    · rw [Bool.or_eq_true, beq_iff_eq] at hbusy
      refine hbusy.symm.imp_right fun hused => hu.2.mp (hu.1.trans hused)
    · rw [Set.sdiff_self]
      exact .ret (fun H u u' hdisj hmay hu hP =>
        hP.imp_right (stable_unmasked hd ∅ H u u' hdisj hmay hu)) fun u _ hu => ⟨hd, hu⟩
  · simp only [Bool.or_eq_true, beq_iff_eq, not_or, Bool.not_eq_true] at hbusy
    obtain ⟨rfl, hne⟩ := hbusy
    refine .write (W := fun u => u.masked d = true ∧ (u.desc (irqLegacyVector d)).used = true) hstable
      (fun u _ hu => ?_) ?_
    · have hm : u.masked d = true := by
        rw [← Bool.not_eq_false, ← hu.2, hu.1]
        exact Bool.false_ne_true
      refine ⟨may_setDesc hd hmem hm fun _ => .inl rfl, hm, ?_⟩
      rw [setDesc_desc]
    refine proves_assign hd (fun x => x.used = true) (fun x => x.used = true ∧ x.deviceIrq = d)
      (fun x hx => ⟨hx, rfl⟩) (fun _ => .inr rfl) ?_
    refine proves_assign hd (fun x => x.used = true ∧ x.deviceIrq = d)
      (fun x => x.used = true ∧ x.deviceIrq = d ∧ x.irqVector = irqLegacyVector d)
      (fun x hx => ⟨hx.1, hx.2, rfl⟩) (fun _ => .inl rfl) ?_
    refine proves_assign hd (fun x => x.used = true ∧ x.deviceIrq = d ∧ x.irqVector = irqLegacyVector d)
      (fun x => x = ⟨true, d, irqLegacyVector d, some h⟩) (fun x hx => ?_) (fun _ => .inl rfl) ?_
    · rw [hx.1, hx.2.1, hx.2.2]
    refine proves_unmaskIrq hd hne hask ?_
    refine .release hmem (stable_registered hd _) (W := fun u => u.masked d = false ∧ u.Registered h d)
      (fun u _ hu => ⟨?_, hu⟩) ?_
    · intro d' hd' he
      obtain rfl := irqLegacyVector_inj he
      rw [hu.2, hu.1]
      exact ⟨fun _ => rfl, fun _ => rfl⟩
    · rw [Set.sdiff_self]
      exact .ret (stable_registered hd ∅) fun u _ hu => ⟨hd, rfl, hu⟩

/-! ### An interrupt -/

/-- The vector is that of a line of the master which is unmasked and has the handler `h`. -/
def Serves (asked : η → ℤ → Prop) (u : Irqs η) (vec : ℕ) (h : η) : Prop :=
  ∃ d < 8, d ≠ 2 ∧ vec = irqLegacyVector d ∧ u.masked d = false ∧ u.Registered h d ∧ asked h d

/-- What the end of an interrupt says: the handler of its line has been called with the vector, and then the end
of the interrupt has been sent to the master; a spurious interrupt may have no handler. -/
def IrqResult (asked : η → ℤ → Prop) (vec : ℕ) (u : Irqs η) : Result η → Prop
  | .handled events => (∃ h, Serves asked u vec h ∧ events = [.handler h vec, .eoi pic1Cmd]) ∨
      vec = irqLegacyVector 7 ∧ events = [.eoi pic1Cmd]
  | _ => False

/-- The line of an interrupt is in service, or nothing is. -/
def InService (d : ℕ) (u : Irqs η) : Prop := (u.pic1.isr = 0 ∨ u.pic1.isr = bit8 d) ∧ u.pic2.isr = 0

theorem stable_inService {K : Set Lock} (hK : .bsp ∈ K) {P : Irqs η → Prop}
    (hP : ∀ u u', u'.pic1.isr = u.pic1.isr → u'.pic2.isr = u.pic2.isr → P u → P u') :
    (rules asked).Stable K P := by
  intro H u u' hdisj hmay _ hu
  obtain ⟨h1, h2⟩ := May.isr hmay fun hH => Set.disjoint_left.mp hdisj hH hK
  exact hP u u' h1 h2 hu

theorem Stable.and {K : Set Lock} {P P' : Irqs η → Prop} (hP : (rules asked).Stable K P)
    (hP' : (rules asked).Stable K P') : (rules asked).Stable K fun u => P u ∧ P' u :=
  fun H u u' hdisj hmay hu h => ⟨hP H u u' hdisj hmay hu h.1, hP' H u u' hdisj hmay hu h.2⟩

theorem bit8_eoi {d : ℕ} (hd : d < 8) : bit8 d &&& (bit8 d - 1) = 0 := by
  have h : ∀ d : Fin 8, bit8 d &&& (bit8 d - 1) = 0 := by decide
  exact h ⟨d, hd⟩

theorem proves_signalEoi {Q : γ → Irqs η → Prop} {P : Irqs η → Prop} {K : Set Lock}
    {next : List (Event η) → Prog η γ} {hwIrq : ℕ} (hd : d < 8) (hhw : hwIrq < 8) (hpic : .pic ∉ K) (hbsp : .bsp ∈ K)
    (hstable : ∀ K', K ⊆ K' → (rules asked).Stable K' P)
    (heoi : ∀ u isr1 isr2, P u → P { u with
      pic1 := { u.pic1 with isr := isr1 }, pic2 := { u.pic2 with isr := isr2 } })
    (hnext : (rules asked).Proves Q K (fun u => LockInv u .bsp ∧ P u) (next [.eoi pic1Cmd])) :
    (rules asked).Proves Q K (fun u => InService d u ∧ P u) (signalEoi hwIrq next) := by
  have hsub : K ⊆ insert Lock.pic K := Set.subset_insert ..
  have hin : ∀ K', K ⊆ K' → (rules asked).Stable K' fun u => InService d u ∧ P u := fun K' hK' =>
    Stable.and (stable_inService (hK' hbsp) fun u u' h1 h2 hu => by rw [InService, h1, h2]; exact hu)
      (hstable K' hK')
  have hend : ∀ K', K ⊆ K' → (rules asked).Stable K' fun u => LockInv u .bsp ∧ P u := fun K' hK' =>
    Stable.and (stable_inService (hK' hbsp) fun u u' h1 h2 hu => by rw [LockInv, h1, h2]; exact hu)
      (hstable K' hK')
  have hmaster : (rules asked).Proves Q (insert Lock.pic K) (fun u => InService d u ∧ P u)
      (.write (·.outb pic1Cmd picEoiCmd) (.release .pic (next [.eoi pic1Cmd]))) := by
    refine .write (W := fun u => LockInv u .bsp ∧ P u) (hin _ hsub) (fun u _ hu => ⟨may_eoi (hsub hbsp), ?_⟩) ?_
    · refine ⟨⟨?_, hu.1.2⟩, heoi u _ u.pic2.isr hu.2⟩
      change u.pic1.isr &&& (u.pic1.isr - 1) = 0
      rcases hu.1.1 with h0 | hbit
      · rw [h0]
        rfl
      · rw [hbit]
        exact bit8_eoi hd
    · refine .release (by simp) (hend _ hsub) (W := fun u => LockInv u .bsp ∧ P u)
        (fun u _ hu => ⟨trivial, hu⟩) ?_
      rw [Set.insert_sdiff_self_of_notMem hpic]
      exact hnext
  refine .acquire hpic (hin K subset_rfl) (W := fun u => InService d u ∧ P u) (fun u _ hu _ => hu) ?_
  rw [if_neg (not_le.mpr hhw)]
  exact hmaster

theorem serves_stable (vec : ℕ) (h : η) (K : Set Lock) :
    (rules asked).Stable K fun u => Serves asked u vec h := by
  rintro H u u' hdisj hmay hu ⟨d, hd, hne, hvec, hm, hreg, hask⟩
  obtain ⟨hm', hreg'⟩ := stable_registered (by omega) K H u u' hdisj hmay hu ⟨hm, hreg⟩
  exact ⟨d, hd, hne, hvec, hm', hreg', hask⟩

theorem irqResult_stable (vec : ℕ) (x : Result η) (K : Set Lock) :
    (rules asked).Stable K fun u => IrqResult asked vec u x := by
  intro H u u' hdisj hmay hu hx
  cases x with
  | handled events =>
      refine hx.imp_left ?_
      rintro ⟨h, hserves, hevents⟩
      exact ⟨h, serves_stable vec h K H u u' hdisj hmay hu hserves, hevents⟩
  | vector | inval | busy => exact hx

theorem proves_eoi {P : Irqs η → Prop} {called : List (Event η)} (hd : d < 8)
    (hstable : ∀ K, .desc (irqLegacyVector d) ∈ K → (rules asked).Stable K P)
    (heoi : ∀ u isr1 isr2, P u → P { u with
      pic1 := { u.pic1 with isr := isr1 }, pic2 := { u.pic2 with isr := isr2 } })
    (hinv : ∀ u, P u → ((u.desc (irqLegacyVector d)).used = true ↔ u.masked d = false))
    (hres : ∀ u, P u → IrqResult asked (irqLegacyVector d) u (.handled (called ++ [.eoi pic1Cmd]))) :
    (rules asked).Proves (fun x u => IrqResult asked (irqLegacyVector d) u x)
      {Lock.desc (irqLegacyVector d), .bsp} (fun u => InService d u ∧ P u)
      (.read (fun u => (u.desc (irqLegacyVector d)).deviceIrq) fun deviceIrq =>
        signalEoi (u8 deviceIrq) fun sent =>
          .release (.desc (irqLegacyVector d)) (.release .bsp (.ret (.handled (called ++ sent))))) := by
  have hbsp : ∀ (K : Set Lock), .bsp ∈ K → (rules asked).Stable K fun u : Irqs η => LockInv u .bsp :=
    fun K hK => stable_inService hK fun u u' h1 h2 hu => by rw [LockInv, h1, h2]; exact hu
  have hservice : ∀ (K : Set Lock), .bsp ∈ K → (rules asked).Stable K fun u : Irqs η => InService d u :=
    fun K hK => stable_inService hK fun u u' h1 h2 hu => by rw [InService, h1, h2]; exact hu
  refine .read (W := fun deviceIrq u => (InService d u ∧ P u) ∧ u8 deviceIrq < 8)
    (Stable.and (hservice _ (by simp)) (hstable _ (by simp)))
    (fun u hu hP => ⟨hP, Always.master hu d hd⟩) fun deviceIrq => ?_
  by_cases hhw : u8 deviceIrq < 8
  swap
  · exact .unreachable fun u _ hP => hhw hP.2
  simp only [hhw, and_true]
  refine proves_signalEoi hd hhw (by simp) (by simp) (fun K hK => hstable K (hK (by simp))) heoi ?_
  refine .release (by simp) (Stable.and (hbsp _ (by simp)) (hstable _ (by simp)))
    (W := fun u => LockInv u .bsp ∧ IrqResult asked (irqLegacyVector d) u (.handled (called ++ [.eoi pic1Cmd])))
    (fun u _ hu => ⟨?_, hu.1, hres u hu.2⟩) ?_
  · intro d' hd' he
    obtain rfl := irqLegacyVector_inj he
    exact hinv u hu.2
  · have hset : ({Lock.desc (irqLegacyVector d), .bsp} : Set Lock) \ {Lock.desc (irqLegacyVector d)} = {.bsp} :=
      Set.insert_sdiff_self_of_notMem (by simp)
    rw [hset]
    refine .release rfl (Stable.and (hbsp _ rfl) (irqResult_stable _ _ _))
      (W := fun u => IrqResult asked (irqLegacyVector d) u (.handled (called ++ [Event.eoi pic1Cmd])))
      (fun u _ hu => hu) ?_
    rw [Set.sdiff_self]
    exact .ret (irqResult_stable _ _ _) fun u _ hu => hu

theorem proves_irq (hd : d < 8) (hne : d ≠ 2) :
    (rules asked).Proves (fun x u => IrqResult asked (irqLegacyVector d) u x) {.bsp}
      (fun u => InService d u ∧ (d = 7 ∨ u.masked d = false))
      (legacyIrqAsmTrampoline (irqLegacyVector d) fun events => .release .bsp (.ret (.handled events))) := by
  have hd16 : d < 16 := by omega
  rw [legacyIrqAsmTrampoline_eq, commonLegacyIrqTrampoline]
  have hservice : ∀ (K : Set Lock), .bsp ∈ K → (rules asked).Stable K fun u : Irqs η => InService d u :=
    fun K hK => stable_inService hK fun u u' h1 h2 hu => by rw [InService, h1, h2]; exact hu
  have hline : ∀ (K : Set Lock), .desc (irqLegacyVector d) ∈ K → ∀ p : IrqDesc η → Bool → Prop,
      (rules asked).Stable K fun u : Irqs η => p (u.desc (irqLegacyVector d)) (u.masked d) :=
    fun K hK p => stable_line hd16 hK fun u u' hm hdesc hu => by rw [hm, hdesc]; exact hu
  refine .acquire (by simp)
    (Stable.and (hservice _ rfl) fun H u u' hdisj hmay hu hP => hP.imp_right
      (stable_unmasked hd16 _ H u u' hdisj hmay hu))
    (W := fun u => InService d u ∧ (d = 7 ∨ u.masked d = false) ∧
      ((u.desc (irqLegacyVector d)).used = true ↔ u.masked d = false))
    (fun u _ hu hinv => ⟨hu.1, hu.2, hinv d hd16 rfl⟩) ?_
  unfold commonLegacyIrqTrampolineImpl
  refine .read (W := fun used u => InService d u ∧ (d = 7 ∨ u.masked d = false) ∧
      ((u.desc (irqLegacyVector d)).used = true ↔ u.masked d = false) ∧
        (u.desc (irqLegacyVector d)).used = used)
    (Stable.and (hservice _ (by simp)) (hline _ (by simp) fun x b => (d = 7 ∨ b = false) ∧
      (x.used = true ↔ b = false))) (fun u _ hu => ⟨hu.1, hu.2.1, hu.2.2, rfl⟩) fun used => ?_
  have hstable : (rules asked).Stable {Lock.desc (irqLegacyVector d), .bsp} fun u : Irqs η =>
      InService d u ∧ (d = 7 ∨ u.masked d = false) ∧
      ((u.desc (irqLegacyVector d)).used = true ↔ u.masked d = false) ∧
        (u.desc (irqLegacyVector d)).used = used :=
    Stable.and (hservice _ (by simp)) (hline _ (by simp) fun x b => (d = 7 ∨ b = false) ∧
      (x.used = true ↔ b = false) ∧ x.used = used)
  split_ifs with hused
  · subst hused
    unfold executeIrqHandlerChain
    refine .read (W := fun chain u => InService d u ∧ u.masked d = false ∧ ∃ h, chain = some h ∧
        u.Registered h d ∧ asked h d) hstable (fun u hu hP => ?_) fun chain => ?_
    · have hm := hP.2.2.1.mp hP.2.2.2
      obtain ⟨-, h, hask, hreg⟩ := Always.unmasked hu d hd16 hm
      refine ⟨hP.1, hm, h, ?_, hreg, hask⟩
      rw [hreg]
    · cases chain with
      | none => exact .unreachable fun u _ hP => by obtain ⟨-, -, h, hno, -⟩ := hP; cases hno
      | some h =>
          refine .read (W := fun v u => InService d u ∧ (v = irqLegacyVector d ∧ u.masked d = false ∧
              u.Registered h d ∧ asked h d))
            (Stable.and (hservice _ (by simp)) (hline _ (by simp) fun x b => b = false ∧ ∃ h', some h = some h' ∧
              x = ⟨true, d, irqLegacyVector d, some h'⟩ ∧ asked h' d)) (fun u _ hP => ?_) fun v => ?_
          · obtain ⟨hin, hm, h', hh, hreg, hask⟩ := hP
            obtain rfl := Option.some.inj hh
            refine ⟨hin, ?_, hm, hreg, hask⟩
            rw [hreg]
          · refine proves_eoi hd (fun K hK => hline K hK fun x b => v = irqLegacyVector d ∧ b = false ∧
              x = ⟨true, d, irqLegacyVector d, some h⟩ ∧ asked h d) (fun u _ _ hP => hP) (fun u hP => ?_)
              fun u hP => ?_
            · rw [hP.2.2.1, hP.2.1]
              exact ⟨fun _ => rfl, fun _ => rfl⟩
            · refine .inl ⟨h, ⟨d, hd, hne, rfl, hP.2⟩, ?_⟩
              rw [hP.1]
              rfl
  · rw [Bool.not_eq_true] at hused
    subst hused
    refine proves_eoi hd (fun K hK => hline K hK fun x b => (d = 7 ∨ b = false) ∧
      (x.used = true ↔ b = false) ∧ x.used = false) (fun u _ _ hP => hP) (fun u hP => hP.2.1) fun u hP => ?_
    have hm : u.masked d ≠ false := fun hm => Bool.false_ne_true (hP.2.2.symm.trans (hP.2.1.mpr hm))
    exact .inr ⟨congrArg irqLegacyVector (hP.1.resolve_right hm), rfl⟩

/-! ### The system -/

/-- What the results of the calls say. -/
def Says (asked : η → ℤ → Prop) : Call η → Result η → Irqs η → Prop
  | .request h d, x, u => ∃ n : ℕ, d = n ∧ RequestResult h n u x
  | .irq vec, x, u => IrqResult asked vec u x

/-- An interrupt that is delivered: it is one of the master, and not the cascade. -/
theorem delivers_spec {vec : ℕ} (hu : Always asked u) (hidle : LockInv u .bsp) (hdel : u.Delivers vec u') :
    May asked {.bsp} u u' ∧ ∃ d < 8, d ≠ 2 ∧ vec = irqLegacyVector d ∧ InService d u' ∧
      (d = 7 ∨ u'.masked d = false) := by
  have hcascade : ¬ u.pic1.Offers 2 := fun h2 => (hu.unmasked 2 (by norm_num) h2.unmasked).1 rfl
  cases hdel with
  | @master n hoffers hn =>
      have hm : u.masked n = false := by
        rw [Irqs.masked, if_pos hoffers.lt]
        exact hoffers.unmasked
      refine ⟨may_of_eq ⟨rfl, rfl, rfl⟩ ⟨rfl, rfl, rfl⟩ fun hno => absurd rfl hno, n, hoffers.lt, hn, ?_,
        ⟨.inr ?_, hidle.2⟩, .inr ?_⟩
      · rw [hu.ready.offset1]
        rfl
      · change u.pic1.isr ||| bit8 n = bit8 n
        rw [hidle.1]
        exact BitVec.zero_or
      · exact hm
  | slave h2 => exact absurd h2 hcascade
  | spurious =>
      refine ⟨(rules asked).may_refl _ _, 7, by norm_num, by norm_num, ?_, ⟨.inl hidle.1, hidle.2⟩, .inl rfl⟩
      rw [hu.ready.offset1]
      rfl
  | spuriousSlave h2 => exact absurd h2 hcascade

/-- The lines that are asked for are not negative: `request_legacy_irq` refuses numbers from 16 on only.  With
`-254` it would take the descriptor of the vector `0x22` and unmask the cascade. -/
def Lines (asked : η → ℤ → Prop) : Prop := ∀ h d, asked h d → 0 ≤ d

theorem correct (hlines : Lines asked) : Threads.Correct (system asked) (rules asked) (Says asked) where
  program := by
    rintro (⟨h, d⟩ | vec)
    · have hset : {l | l ∈ (system asked).takes (.request h d)} = (∅ : Set Lock) := by
        ext l
        simp [system]
      rw [hset]
      by_cases hask : asked h d
      · obtain ⟨n, rfl⟩ := Int.eq_ofNat_of_zero_le (hlines h d hask)
        refine ⟨fun _ => True, (proves_request hask).mono fun x u hx => ⟨n, rfl, hx⟩, ?_⟩
        rintro u u' _ _ ⟨-, rfl⟩
        exact ⟨(rules asked).may_refl _ _, trivial⟩
      · exact ⟨fun _ => False, .unreachable fun _ _ hno => hno, fun u u' _ _ hstart => absurd hstart.1 hask⟩
    · have hset : {l | l ∈ (system asked).takes (.irq vec)} = ({.bsp} : Set Lock) := by
        ext l
        simp [system]
      rw [hset]
      by_cases hvec : ∃ d < 8, d ≠ 2 ∧ vec = irqLegacyVector d
      · obtain ⟨d, hd, hne, rfl⟩ := hvec
        refine ⟨_, proves_irq hd hne, fun u u' hu hinv hdel => ?_⟩
        obtain ⟨hmay, d', -, -, hd', hin⟩ := delivers_spec hu (hinv .bsp (List.mem_singleton_self _)) hdel
        obtain rfl := irqLegacyVector_inj hd'
        exact ⟨hmay, hin⟩
      · refine ⟨fun _ => False, .unreachable fun _ _ hno => hno, fun u u' hu hinv hdel => ?_⟩
        obtain ⟨-, d, hd, hne, hd', -⟩ := delivers_spec hu (hinv .bsp (List.mem_singleton_self _)) hdel
        exact absurd ⟨d, hd, hne, hd'⟩ hvec
  result := by
    rintro (⟨h, d⟩ | vec) x
    · rintro H u u' hdisj hmay hu ⟨n, rfl, hx⟩
      exact ⟨n, rfl, requestResult_stable h n x H u u' hdisj hmay hu hx⟩
    · exact irqResult_stable vec x ∅
  env := by
    rintro u u' ⟨irr1, irr2, rfl⟩
    exact may_of_eq ⟨rfl, rfl, rfl⟩ ⟨rfl, rfl, rfl⟩ fun _ => ⟨rfl, rfl⟩

/-- Nothing is registered or in service when the controllers are initialised. -/
structure Boot (u : Irqs η) : Prop where
  unused : ∀ v, (u.desc v).used = false
  deviceIrq : ∀ v, (u.desc v).deviceIrq = 0
  isr : u.pic1.isr = 0 ∧ u.pic2.isr = 0

theorem initPic_eq (u : Irqs η) : u.initPic =
    { u with
      pic1 := ⟨.ready, 0x11, 0xFF, u.pic1.irr, u.pic1.isr, 0x20, false⟩
      pic2 := ⟨.ready, 0x11, 0xFF, u.pic2.irr, u.pic2.isr, 0x28, false⟩ } := by
  simp [Irqs.initPic, Irqs.outb, pic1Cmd, pic1Data, pic2Cmd, pic2Data, PicChip.writeCmd, PicChip.writeData]

theorem masked_initPic (u : Irqs η) {d : ℕ} (hd : d < 16) : u.initPic.masked d = true := by
  have hones : ∀ n : Fin 8, (0xFF#8).getLsbD n = true := by decide
  rw [initPic_eq, Irqs.masked]
  split_ifs with h8
  · exact hones ⟨d, h8⟩
  · exact hones ⟨d - 8, by omega⟩

section Runs

variable {ι : Type} [DecidableEq ι] {ls : List (Threads.Label ι (Call η) (Result η))}
  {s : Threads.State ι Lock (Irqs η) (Call η) (Result η)} {u₀ : Irqs η}

abbrev Steps (asked : η → ℤ → Prop) : Threads.State ι Lock (Irqs η) (Call η) (Result η) →
    Threads.Label ι (Call η) (Result η) → Threads.State ι Lock (Irqs η) (Call η) (Result η) → Prop :=
  Threads.Step (system asked)

theorem sound_run (hlines : Lines asked) (hboot : Boot u₀) (hrun : Run (Steps asked) (Threads.init u₀.initPic) ls s) :
    Threads.Sound (rules asked) (Says asked) s ∧ Threads.Results (Says asked) ls s.obj := by
  have hdesc : u₀.initPic.desc = u₀.desc := by rw [initPic_eq]
  refine Threads.sound (correct hlines) ⟨?_, fun d _ => ?_, fun d hd hm => ?_⟩ (fun l => ?_) hrun
  · rw [initPic_eq]
    exact ⟨rfl, rfl, rfl, rfl⟩
  · rw [hdesc, hboot.deviceIrq]
    decide
  · rw [masked_initPic u₀ hd] at hm
    cases hm
  · cases l with
    | desc v =>
        rintro d hd rfl
        rw [hdesc, masked_initPic u₀ hd, hboot.unused]
        simp
    | pic => trivial
    | bsp =>
        rw [show (rules asked).inv .bsp u₀.initPic = LockInv u₀.initPic .bsp from rfl, initPic_eq]
        exact hboot.isr

/-- However the requests of all contexts and the interrupts interleave: a line that was requested with success
is unmasked, with the handler of the request, from then on, so that no two handlers get one line; a request
fails for a line of which there is none, for the cascade, and for a line that is taken; no line is unmasked
whose handler nobody has asked for, and outside of the lock of a descriptor its line is unmasked iff it is
in use. -/
theorem requests_exact (hlines : Lines asked) (hboot : Boot u₀)
    (hrun : Run (Steps asked) (Threads.init u₀.initPic) ls s) :
    (∀ i h (d : ℤ) x, .done i (.request h d) x ∈ ls → ∃ n : ℕ, d = n ∧ RequestResult h n s.obj x) ∧
      (∀ i j h h' (d : ℤ) v v', .done i (.request h d) (.vector v) ∈ ls →
        .done j (.request h' d) (.vector v') ∈ ls → h = h') ∧
      (∀ d < 16, s.obj.masked d = false → d ≠ 2 ∧ ∃ h, asked h d ∧ s.obj.Registered h d) ∧
      ∀ d < 16, s.holder (.desc (irqLegacyVector d)) = none →
        ((s.obj.desc (irqLegacyVector d)).used = true ↔ s.obj.masked d = false) := by
  obtain ⟨hsound, hres⟩ := sound_run hlines hboot hrun
  have hreq : ∀ i h (d : ℤ) x, .done i (.request h d) x ∈ ls → ∃ n : ℕ, d = n ∧ RequestResult h n s.obj x :=
    fun i h d x hmem => hres i _ x hmem
  refine ⟨hreq, ?_, hsound.always.unmasked, fun d hd hfree => hsound.free _ hfree d hd rfl⟩
  intro i j h h' d v v' hi hj
  obtain ⟨n, rfl, -, -, -, hreg⟩ := hreq i h d _ hi
  obtain ⟨n', hn, -, -, -, hreg'⟩ := hreq j h' n _ hj
  obtain rfl := Int.ofNat.inj hn
  have hdesc := hreg.symm.trans hreg'
  rw [IrqDesc.mk.injEq] at hdesc
  exact Option.some.inj hdesc.2.2.2

/-- The chips after a reset, and no handlers. -/
def reset : Irqs ℕ where
  pic1 := ⟨.ready, 0, 0, 0, 0, 0, false⟩
  pic2 := ⟨.ready, 0, 0, 0, 0, 0, false⟩
  desc _ := ⟨false, 0, 0, none⟩

theorem reset_boot : Boot reset := ⟨fun _ => rfl, fun _ => rfl, rfl, rfl⟩

theorem all_lines : Lines fun (_ : ℕ) d => 0 ≤ d := fun _ _ hd => hd

theorem request_run : ∃ (ls : List (Threads.Label (Fin 2) (Call ℕ) (Result ℕ)))
    (s : Threads.State (Fin 2) Lock (Irqs ℕ) (Call ℕ) (Result ℕ)),
    Run (Steps fun _ d => 0 ≤ d) (Threads.init reset.initPic) ls s ∧
      .done 0 (.request 7 4) (.vector 0x24) ∈ ls ∧ s.thread 1 = none ∧ s.holder .bsp = none ∧
      s.holder .pic = none ∧ s.holder (.desc 0x24) = none ∧
      s.obj.pic1 = ⟨.ready, 0x11, 0xEF, 0, 0, 0x20, false⟩ ∧ s.obj.desc 0x24 = ⟨true, 4, 0x24, some 7⟩ := by
  have h := (Run.nil _).snoc (@Threads.Step.call _ _ _ _ _ _ _ (system fun _ d => 0 ≤ d)
    (Threads.init reset.initPic) (0 : Fin 2) (.request 7 4) _ rfl nofun ⟨by decide, rfl⟩)
  have h := h.snoc (.acquire (i := 0) rfl rfl)
  have h := h.snoc (.act (i := 0) rfl ⟨rfl, rfl⟩)
  have h := h.snoc (.act (i := 0) (v := ()) rfl rfl)
  have h := h.snoc (.act (i := 0) (v := ()) rfl rfl)
  have h := h.snoc (.act (i := 0) (v := ()) rfl rfl)
  have h := h.snoc (.act (i := 0) (v := ()) rfl rfl)
  have h := h.snoc (.acquire (i := 0) rfl rfl)
  have h := h.snoc (.act (i := 0) rfl ⟨rfl, rfl⟩)
  have h := h.snoc (.act (i := 0) (v := ()) rfl rfl)
  have h := h.snoc (.release (i := 0) rfl)
  have h := h.snoc (.release (i := 0) rfl)
  have h := h.snoc (.done (i := 0) rfl)
  exact ⟨_, _, h, List.mem_append_right _ (List.mem_singleton_self _), rfl, rfl, rfl, rfl, rfl, rfl⟩

/-- Then its device asks for an interrupt, CPU `1` takes it, and the handler returns. -/
theorem irq_run : ∃ (ls : List (Threads.Label (Fin 2) (Call ℕ) (Result ℕ)))
    (s : Threads.State (Fin 2) Lock (Irqs ℕ) (Call ℕ) (Result ℕ)),
    Run (Steps fun _ d => 0 ≤ d) (Threads.init reset.initPic) ls s ∧
      .done 1 (.irq 0x24) (.handled [.handler 7 0x24, .eoi pic1Cmd]) ∈ ls ∧ s.holder .bsp = none := by
  obtain ⟨ls, s, h, -, hthread, hbsp, hpic, hdesc, hchip, hline⟩ := request_run
  have hidle : ∀ m, s.obj.pic1.isr.getLsbD m = false := by
    intro m
    rw [hchip]
    exact BitVec.getLsbD_zero
  have hdelivers : ∀ u : Irqs ℕ, u.pic1.offset = 0x20 → u.pic1.Offers 4 →
      u.Delivers 0x24 { u with pic1 := u.pic1.ack 4 } := by
    intro u hoffset hoffers
    have hdel := Irqs.Delivers.master hoffers (by decide)
    rwa [hoffset] at hdel
  have h := h.snoc (.env ⟨bit8 4, 0, rfl⟩)
  have h := h.snoc (@Threads.Step.call _ _ _ _ _ _ _ (system fun _ d => 0 ≤ d) _ (1 : Fin 2) (.irq 0x24) _ hthread
    (fun l hl => by rw [List.mem_singleton.mp hl]; exact hbsp)
    (hdelivers _ (congrArg PicChip.offset hchip)
      ⟨by decide, (by decide : (bit8 4).getLsbD 4 = true), congrArg (·.imr.getLsbD 4) hchip, fun m _ => hidle m⟩))
  have h := h.snoc (.acquire (i := 1) (l := .desc 0x24) rfl (by simpa [system] using hdesc))
  have h := h.snoc (.act (i := 1) (v := true) rfl ⟨(congrArg IrqDesc.used hline).symm, rfl⟩)
  have h := h.snoc (.act (i := 1) (v := some 7) rfl ⟨(congrArg IrqDesc.handlerChain hline).symm, rfl⟩)
  have h := h.snoc (.act (i := 1) (v := 0x24) rfl ⟨(congrArg IrqDesc.irqVector hline).symm, rfl⟩)
  have h := h.snoc (.act (i := 1) (v := 4) rfl ⟨(congrArg IrqDesc.deviceIrq hline).symm, rfl⟩)
  have h := h.snoc (.acquire (i := 1) (l := .pic) rfl (by simpa [system] using hpic))
  have h := h.snoc (.act (i := 1) (v := ()) rfl rfl)
  have h := h.snoc (.release (i := 1) rfl)
  have h := h.snoc (.release (i := 1) rfl)
  have h := h.snoc (.release (i := 1) rfl)
  have h := h.snoc (.done (i := 1) rfl)
  exact ⟨_, _, h, List.mem_append_right _ (List.mem_singleton_self _), rfl⟩

theorem requests_exact_registered : ∃ u : Irqs ℕ, u.masked 4 = false ∧ u.Registered 7 4 := by
  obtain ⟨ls, s, hrun, hdone, -⟩ := request_run
  obtain ⟨n, hn, hres⟩ := (requests_exact all_lines reset_boot hrun).1 0 7 4 _ hdone
  obtain rfl : n = 4 := (Int.ofNat.inj hn).symm
  exact ⟨s.obj, hres.2.2⟩

/-- An interrupt that is delivered has the vector of a line of the master with a handler, or is the spurious one of
line `7`.  The cascade stays masked, so that the lines of the slave stay silent even where `request_legacy_irq`
has unmasked them.  Each interrupt calls the handler of its line, with its vector, if there is one, and then
sends one end of interrupt, to the master; whenever the BSP can be interrupted again, all that was in service
has been acknowledged. -/
theorem interrupts_dispatched (hlines : Lines asked) (hboot : Boot u₀)
    (hrun : Run (Steps asked) (Threads.init u₀.initPic) ls s) :
    (∀ i vec, .call i (.irq vec) ∈ ls → vec = irqLegacyVector 7 ∨ ∃ h, Serves asked s.obj vec h) ∧
      (∀ i vec x, .done i (.irq vec) x ∈ ls → IrqResult asked vec s.obj x) ∧
      (s.holder .bsp = none → s.obj.pic1.isr = 0 ∧ s.obj.pic2.isr = 0) := by
  obtain ⟨hsound, hres⟩ := sound_run hlines hboot hrun
  refine ⟨fun i vec => ?_, fun i vec x hmem => hres i _ x hmem, fun hfree => hsound.free _ hfree⟩
  have hcalls := hrun.history (I := fun ls s => Run (Steps asked) (Threads.init u₀.initPic) ls s ∧
    ∀ i vec, .call i (.irq vec) ∈ ls → vec = irqLegacyVector 7 ∨ ∃ h, Serves asked s.obj vec h)
    ⟨.nil _, fun _ _ hno => absurd hno List.not_mem_nil⟩ ?_
  · exact hcalls.2 i vec
  rintro ls s l s' ⟨hrun, hold⟩ hstep
  refine ⟨hrun.snoc hstep, fun i vec hmem => ?_⟩
  have hsound := (sound_run hlines hboot hrun).1
  rcases List.mem_append.mp hmem with hmem | hmem
  · obtain ⟨H, hmay⟩ := hsound.may (correct hlines) hstep
    refine (hold i vec hmem).imp_right ?_
    rintro ⟨h, hserves⟩
    exact ⟨h, serves_stable vec h ∅ H _ _ (Set.disjoint_empty H) hmay hsound.always hserves⟩
  · rw [List.mem_singleton] at hmem
    subst hmem
    cases hstep with
    | call _ hfree hdel =>
        obtain ⟨hmay, d, hd, hne, hvec, -, hline⟩ := delivers_spec hsound.always
          (hsound.free _ (hfree .bsp (List.mem_singleton_self _))) hdel
        rcases hline with rfl | hm
        · exact .inl hvec
        · have halways : Always asked _ := (rules asked).always_may hmay hsound.always
          obtain ⟨-, h, hask, hreg⟩ := halways.unmasked d (by omega) hm
          exact .inr ⟨h, d, hd, hne, hvec, hm, hreg, hask⟩

/-- The handler of line `4` is called, and the end of the interrupt is sent. -/
theorem interrupts_dispatched_registered : ∃ (ls : List (Threads.Label (Fin 2) (Call ℕ) (Result ℕ)))
    (s : Threads.State (Fin 2) Lock (Irqs ℕ) (Call ℕ) (Result ℕ)),
    .done 1 (.irq 0x24) (.handled [.handler 7 0x24, .eoi pic1Cmd]) ∈ ls ∧ s.obj.masked 4 = false ∧
      s.obj.Registered 7 4 ∧ s.obj.pic1.isr = 0 ∧ s.obj.pic2.isr = 0 := by
  obtain ⟨ls, s, hrun, hdone, hfree⟩ := irq_run
  obtain ⟨-, hdispatched, hidle⟩ := interrupts_dispatched all_lines reset_boot hrun
  have hres := hdispatched 1 _ _ hdone
  rcases hres with ⟨h, ⟨d, -, -, hvec, hm, hreg, -⟩, hevents⟩ | ⟨-, hevents⟩
  · obtain rfl : 4 = d := irqLegacyVector_inj hvec
    rw [List.cons.injEq, Event.handler.injEq] at hevents
    obtain rfl := hevents.1.1
    exact ⟨ls, s, hdone, hm, hreg, hidle hfree⟩
  · cases hevents

end Runs

end Irq

end HyveMind
