import HyveMind.Lib.PortIo
import HyveMind.Types

/-! # The serial port

`drivers/uart16550.c`, and the device that it drives: the registers behind the eight ports, a
transmitter that shifts out a byte from time to time, and a receiver.  A byte that is written while the
transmitter is full is lost; in loopback mode the transmitter is connected to the receiver. -/

namespace HyveMind

namespace Uart16550

open Lib

/-! ### The registers -/

/-- `serial_uart_base_port`. -/
@[irreducible] def serialUartBasePort : ℕ := 0x3F8

def spRcvBufferOffset : ℕ := 0
def spTxHoldingOffset : ℕ := 0
def spInterruptEnableOffset : ℕ := 1
def spFifoControlOffset : ℕ := 2
def spLineControlOffset : ℕ := 3
def spModemControlOffset : ℕ := 4
def spLineStatusOffset : ℕ := 5
def spDivisorMsbOffset : ℕ := spInterruptEnableOffset
def spDivisorLsbOffset : ℕ := spRcvBufferOffset

/-- `U8_LSHIFT` -/
def u8Lshift (val nr : UInt8) : UInt8 := val <<< nr

def dlabMask : UInt8 := u8Lshift 0x01 7
def loopbackMask : UInt8 := u8Lshift 0x01 4

def uartNoInterrupts : UInt8 := 0x00
def uartFifoEnable : UInt8 := u8Lshift 0x01 0
def uartFifoClearRcvBuffer : UInt8 := u8Lshift 0x01 1
def uartFifoClearTxBuffer : UInt8 := u8Lshift 0x01 2

/-- `UART_TRANSMISSION_BUFFER_EMPTY` -/
def uartTransmissionBufferEmpty (lineStatusReg : UInt8) : Bool := lineStatusReg &&& u8Lshift 0x01 5 != 0

/-! ### The device -/

/-- The registers that only the driver writes. -/
structure Regs where
  dll : UInt8
  dlm : UInt8
  lcr : UInt8
  ier : UInt8
  fcr : UInt8
  mcr : UInt8
deriving DecidableEq

structure Uart extends Regs where
  /-- The receiver buffer. -/
  rbr : UInt8
  /-- What the transmitter holds. -/
  fifo : List UInt8
  /-- What has gone out. -/
  wire : List UInt8

namespace Uart

def dlab (u : Uart) : Bool := u.lcr &&& dlabMask != 0

def loopback (u : Uart) : Bool := u.mcr &&& loopbackMask != 0

/-- How many bytes the transmitter can hold. -/
def depth (u : Uart) : ℕ := if u.fcr &&& uartFifoEnable = 0 then 1 else 16

/-- A write of the transmitter holding register. -/
def transmit (u : Uart) (v : UInt8) : Uart :=
  if u.fifo.length < u.depth then { u with fifo := u.fifo ++ [v] } else u

/-- A write of the FIFO control register. -/
def fifoControl (u : Uart) (v : UInt8) : Uart :=
  { u with
    fcr := v
    rbr := if v &&& uartFifoClearRcvBuffer = 0 then u.rbr else 0
    fifo := if v &&& uartFifoClearTxBuffer = 0 then u.fifo else [] }

def write (u : Uart) : ℕ → UInt8 → Uart
  | 0, v => if u.dlab then { u with dll := v } else u.transmit v
  | 1, v => if u.dlab then { u with dlm := v } else { u with ier := v }
  | 2, v => u.fifoControl v
  | 3, v => { u with lcr := v }
  | 4, v => { u with mcr := v }
  | _, _ => u

/-- The bytes that a read can give.  Of the line status only the bit that the driver looks at is said. -/
def Reads (u : Uart) : ℕ → UInt8 → Prop
  | 0, v => v = if u.dlab then u.dll else u.rbr
  | 1, v => v = if u.dlab then u.dlm else u.ier
  | 3, v => v = u.lcr
  | 4, v => v = u.mcr
  | 5, v => uartTransmissionBufferEmpty v = u.fifo.isEmpty
  | _, _ => True

/-- What the device does by itself. -/
inductive Env : Uart → Uart → Prop
  | shift {u : Uart} {b : UInt8} {rest : List UInt8} (hfifo : u.fifo = b :: rest)
      (hloop : u.loopback = false) : Env u { u with fifo := rest, wire := u.wire ++ [b] }
  | loop {u : Uart} {b : UInt8} {rest : List UInt8} (hfifo : u.fifo = b :: rest)
      (hloop : u.loopback = true) : Env u { u with fifo := rest, rbr := b }
  | receive {u : Uart} (b : UInt8) (hloop : u.loopback = false) : Env u { u with rbr := b }

end Uart

def uart : Device Uart UInt8 where
  reads u port v u' := u.Reads (port - serialUartBasePort) v ∧ u' = u
  writes u port v u' := u' = u.write (port - serialUartBasePort) v
  env := Uart.Env

/-! ### The driver -/

def ioInb (port : ℕ) : Io UInt8 UInt8 := .inb port .ret

def ioOutb (port : ℕ) (v : UInt8) : Io UInt8 Unit := .outb port v (.ret ())

/-- `loopback_test` -/
def loopbackTest : Io UInt8 ℤ := do
  let mcr ← ioInb (serialUartBasePort + spModemControlOffset)
  ioOutb (serialUartBasePort + spModemControlOffset) (mcr ||| loopbackMask)
  ioOutb (serialUartBasePort + spTxHoldingOffset) 0x03
  let read ← ioInb (serialUartBasePort + spRcvBufferOffset)
  ioOutb (serialUartBasePort + spModemControlOffset) mcr
  return if read = 0x03 then 0 else -1

/-- `set_protocol_parameters` -/
def setProtocolParameters : Io UInt8 Unit :=
  let baseParams : UInt8 := 0x00 ||| 0x03 ||| u8Lshift 0x00 2 ||| u8Lshift 0x00 3
  ioOutb (serialUartBasePort + spLineControlOffset) baseParams

/-- `set_baud_rate` -/
def setBaudRate : Io UInt8 Unit := do
  let lcr ← ioInb (serialUartBasePort + spLineControlOffset)
  ioOutb (serialUartBasePort + spLineControlOffset) (lcr ||| dlabMask)
  ioOutb (serialUartBasePort + spDivisorLsbOffset) 0x01
  ioOutb (serialUartBasePort + spDivisorMsbOffset) 0x00
  ioOutb (serialUartBasePort + spLineControlOffset) lcr

/-- `uart16650_initialize` -/
def uart16650Initialize : Io UInt8 ℤ := do
  setBaudRate
  setProtocolParameters
  ioOutb (serialUartBasePort + spInterruptEnableOffset) uartNoInterrupts
  ioOutb (serialUartBasePort + spFifoControlOffset)
    (uartFifoEnable ||| uartFifoClearRcvBuffer ||| uartFifoClearTxBuffer)
  ioOutb (serialUartBasePort + spModemControlOffset) 0x03
  loopbackTest

/-- `uart16550_putc` -/
def uart16550Putc (c : UInt8) : Io UInt8 Unit :=
  .poll (serialUartBasePort + spLineStatusOffset) uartTransmissionBufferEmpty
    (ioOutb (serialUartBasePort + spTxHoldingOffset) c)

/-- `uart16550_puts`, of a string without its NUL. -/
def uart16550Puts : List UInt8 → Io UInt8 Unit
  | [] => .ret ()
  | c :: s => do
      uart16550Putc c
      uart16550Puts s

theorem uart16550Puts_append (s t : List UInt8) :
    uart16550Puts (s ++ t) = (uart16550Puts s).bind fun _ => uart16550Puts t := by
  induction s with
  | nil => rfl
  | cons c s ih =>
      rw [List.cons_append, uart16550Puts, ih]
      rfl

/-! ### The initialization -/

/-- What is known of the registers. -/
def After (p : Regs → Prop) (u : Uart) : Prop := p u.toRegs

theorem Uart.Env.regs {u u' : Uart} (h : u.Env u') : u'.toRegs = u.toRegs := by
  cases h <;> rfl

theorem stable_after (p : Regs → Prop) : uart.Stable (After p) := by
  intro u u' hu henv
  rw [After, henv.regs]
  exact hu

section Rules

variable {γ : Type} {Q : γ → Uart → Prop} {p q : Regs → Prop} {offset : ℕ} {v : UInt8}

theorem outline_outb {next : Io UInt8 γ} (h : ∀ u, After p u → q (u.write offset v).toRegs)
    (hnext : Outline uart Q (After q) next) :
    Outline uart Q (After p) (.outb (serialUartBasePort + offset) v next) := by
  refine .outb (stable_after p) (fun u u' hu hw => ?_) hnext
  obtain rfl : u' = u.write offset v := by rw [hw, Nat.add_sub_cancel_left]
  exact h u hu

theorem outline_inb {next : UInt8 → Io UInt8 γ} {q : UInt8 → Regs → Prop}
    (h : ∀ u v, After p u → u.Reads offset v → q v u.toRegs)
    (hnext : ∀ v, Outline uart Q (After (q v)) (next v)) :
    Outline uart Q (After p) (.inb (serialUartBasePort + offset) next) := by
  refine .inb (stable_after p) (fun u v u' hu hr => ?_) hnext
  obtain ⟨hr, rfl⟩ := hr
  rw [Nat.add_sub_cancel_left] at hr
  exact h u' v hu hr

end Rules

/-- The registers as the driver sets them. -/
def configured (mcr : UInt8) (r : Regs) : Prop := r = ⟨0x01, 0x00, 0x03, 0x00, 0x07, mcr⟩

theorem transmit_regs (u : Uart) (v : UInt8) : (u.transmit v).toRegs = u.toRegs := by
  unfold Uart.transmit
  split <;> rfl

theorem loopbackTest_outline :
    Outline uart (fun r u => After (configured 0x03) u ∧ (r = 0 ∨ r = -1)) (After (configured 0x03))
      loopbackTest := by
  refine outline_inb (q := fun mcr r => mcr = 0x03 ∧ configured 0x03 r) (fun u v hu hr => ?_)
    fun mcr => ?_
  · refine ⟨?_, hu⟩
    rw [show v = u.mcr from hr, show u.toRegs = _ from hu]
  refine outline_outb (q := fun r => mcr = 0x03 ∧ configured 0x13 r) (fun u hu => ?_) ?_
  · obtain ⟨rfl, hu⟩ := hu
    refine ⟨rfl, ?_⟩
    have hregs : u.toRegs = _ := hu
    simp only [configured, Uart.write, spModemControlOffset, hregs]
    decide
  refine outline_outb (q := fun r => mcr = 0x03 ∧ configured 0x13 r) (fun u hu => ?_) ?_
  · have hregs : u.toRegs = _ := hu.2
    have hdlab : u.dlab = false := by
      rw [Uart.dlab, hregs]
      decide
    simp only [Uart.write, spTxHoldingOffset, hdlab]
    rw [if_neg Bool.false_ne_true, transmit_regs]
    exact hu
  refine outline_inb (q := fun _ r => mcr = 0x03 ∧ configured 0x13 r) (fun u v hu _ => hu) fun read => ?_
  refine outline_outb (q := configured 0x03) (fun u hu => ?_) ?_
  · obtain ⟨rfl, hu⟩ := hu
    have hregs : u.toRegs = _ := hu
    simp only [configured, Uart.write, spModemControlOffset, hregs]
  refine .ret (stable_after _) fun u hu => ⟨hu, ?_⟩
  split
  · exact .inl rfl
  · exact .inr rfl

/-- With the divisor latch open. -/
theorem dlab_of_lcr {u : Uart} {lcr : UInt8} (h : u.lcr = lcr ||| dlabMask) : u.dlab = true := by
  have hand : (lcr ||| dlabMask) &&& dlabMask = dlabMask := by
    refine UInt8.toBitVec_inj.mp (BitVec.eq_of_getLsbD_eq fun i _ => ?_)
    rw [UInt8.toBitVec_and, UInt8.toBitVec_or, BitVec.getLsbD_and, BitVec.getLsbD_or]
    cases (dlabMask.toBitVec.getLsbD i) <;> simp
  rw [Uart.dlab, h, hand]
  decide

theorem setBaudRate_outline :
    Outline uart (fun _ => After fun r => r.dll = 0x01 ∧ r.dlm = 0x00) (After fun _ => True)
      setBaudRate := by
  refine outline_inb (q := fun _ _ => True) (fun _ _ _ _ => trivial) fun lcr => ?_
  refine outline_outb (q := fun r => r.lcr = lcr ||| dlabMask) (fun u _ => rfl) ?_
  refine outline_outb (q := fun r => r.lcr = lcr ||| dlabMask ∧ r.dll = 0x01) (fun u hu => ?_) ?_
  · simp only [Uart.write, spDivisorLsbOffset, spRcvBufferOffset, dlab_of_lcr hu, if_true]
    exact ⟨hu, trivial⟩
  refine outline_outb (q := fun r => r.dll = 0x01 ∧ r.dlm = 0x00) (fun u hu => ?_) ?_
  · simp only [Uart.write, spDivisorMsbOffset, spInterruptEnableOffset, dlab_of_lcr hu.1, if_true]
    exact ⟨hu.2, trivial⟩
  refine outline_outb (q := fun r => r.dll = 0x01 ∧ r.dlm = 0x00) (fun u hu => hu) ?_
  exact .ret (stable_after _) fun u hu => hu

/-- Whatever the state of the port is, `uart16650_initialize` sets the registers. -/
theorem uart16650Initialize_outline :
    Outline uart (fun r u => After (configured 0x03) u ∧ (r = 0 ∨ r = -1)) (After fun _ => True)
      uart16650Initialize := by
  refine setBaudRate_outline.bind fun _ => ?_
  refine outline_outb (q := fun r => r.dll = 0x01 ∧ r.dlm = 0x00 ∧ r.lcr = 0x03)
    (fun u hu => ⟨hu.1, hu.2, rfl⟩) ?_
  refine outline_outb (q := fun r => r.dll = 0x01 ∧ r.dlm = 0x00 ∧ r.lcr = 0x03 ∧ r.ier = 0x00)
    (fun u hu => ?_) ?_
  · have hdlab : u.dlab = false := by
      rw [Uart.dlab, show u.lcr = 0x03 from hu.2.2]
      decide
    simp only [Uart.write, spInterruptEnableOffset, hdlab]
    exact ⟨hu.1, hu.2.1, hu.2.2, rfl⟩
  refine outline_outb
    (q := fun r => r.dll = 0x01 ∧ r.dlm = 0x00 ∧ r.lcr = 0x03 ∧ r.ier = 0x00 ∧ r.fcr = 0x07)
    (fun u hu => ⟨hu.1, hu.2.1, hu.2.2.1, hu.2.2.2, rfl⟩) ?_
  refine outline_outb (q := configured 0x03) (fun u hu => ?_) loopbackTest_outline
  obtain ⟨hdll, hdlm, hlcr, hier, hfcr⟩ := hu
  simp only [configured, Uart.write, spModemControlOffset, Regs.mk.injEq]
  exact ⟨hdll, hdlm, hlcr, hier, hfcr, trivial⟩

/-- The data bytes go to the transmitter and the transmitter to the wire. -/
structure Ready (u : Uart) : Prop where
  dlab : u.dlab = false
  loopback : u.loopback = false

theorem Ready.of_regs {u u' : Uart} (h : Ready u) (hregs : u'.toRegs = u.toRegs) : Ready u' :=
  ⟨by rw [Uart.dlab, hregs]; exact h.dlab, by rw [Uart.loopback, hregs]; exact h.loopback⟩

theorem ready_of_configured {u : Uart} (h : After (configured 0x03) u) : Ready u := by
  have hregs : u.toRegs = _ := h
  constructor
  · rw [Uart.dlab, hregs]
    decide
  · rw [Uart.loopback, hregs]
    decide

end Uart16550

end HyveMind
