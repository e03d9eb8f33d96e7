import HyveMind.Types

/-! # The virtual interrupt controller

`arch/x64/vm/vpic.c`: two cascaded 8259 chips, the slave behind line `2` of the master.  The
guest programs a chip through its two ports (`vpicWrite`, `vpicRead`), the hypervisor raises
lines (`vpicRaiseExternalIrq`) and takes the pending vector (`vpicGetPendingIrq`).

`none` is a call of `die`.  An `int` result is an `ℤ` with `-1` as in the source.  The lock of
`struct vpic` is held during every operation and released at its end, so that operations are
atomic; it is left out, as is all printing.  The kick of the target vCPU is left out as well:
`irq_target_vcpu_needs_kick` is constantly false.  `guest_hwirq_t` is an unsigned number. -/

namespace HyveMind

/-- `enum vpic_state`. -/
inductive VpicState
  | uninitialized | initialized | icw2 | icw3 | icw4 | icw2Icw3 | icw2Icw4 | icw2Icw3Icw4 | icw3Icw4
deriving DecidableEq, Repr

/-- `enum vpic_status_read_mode`. -/
inductive VpicStatusReadMode
  | readIrr | readIsr | readNoAction
deriving DecidableEq, Repr

/-- `struct __vpic`.  `subDevice` is the union of `sub_device_map` and `sub_device_id`, and
`hasParent` says that `parent_vpic` is not `NULL`. -/
structure VpicChip where
  state : VpicState
  imr : BitVec 8
  irr : BitVec 8
  isr : BitVec 8
  offset : BitVec 8
  readMode : VpicStatusReadMode
  subDevice : BitVec 8
  hasParent : Bool
deriving DecidableEq, Repr

/-- `struct vpic`. -/
structure Vpic where
  vpic1 : VpicChip
  vpic2 : VpicChip
deriving DecidableEq, Repr

namespace Vpic

/-- `VPIC_NUM_PINS`. -/
abbrev vpicNumPins : ℕ := 16

/-- `U8_LSHIFT(1, n)`. -/
def bit8 (n : ℕ) : BitVec 8 := 1#8 <<< n

/-- `IS_SET`. -/
def isSet (val mask : BitVec 8) : Bool := val &&& mask != 0

/-- `A0_CLEAR`. -/
def a0Clear (port : BitVec 16) : Bool := port &&& 1 == 0

/-- `IS_ICW1`. -/
def isIcw1 (port : BitVec 16) (val : BitVec 8) : Bool := a0Clear port && isSet val (bit8 4)

/-- `IS_OCW1`. -/
def isOcw1 (port : BitVec 16) : Bool := !a0Clear port

/-- `IS_OCW2`. -/
def isOcw2 (port : BitVec 16) (val : BitVec 8) : Bool :=
  a0Clear port && !isSet val (bit8 4) && !isSet val (bit8 3)

/-- `IS_OCW3`. -/
def isOcw3 (port : BitVec 16) (val : BitVec 8) : Bool :=
  a0Clear port && !isSet val (bit8 4) && isSet val (bit8 3)

/-- `X_UNSUPPORTED_FEATURES`. -/
def xUnsupportedFeatures (val req0 req1 : BitVec 8) : Bool :=
  isSet val req0 || val &&& req1 != req1

/-- `ICW1_UNSUPPORTED`. -/
def icw1Unsupported (val : BitVec 8) : Bool := xUnsupportedFeatures val 0 0

/-- `ICW4_UNSUPPORTED`: automatic EOI, buffered and special fully nested mode. -/
def icw4Unsupported (val : BitVec 8) : Bool :=
  xUnsupportedFeatures val (bit8 1 ||| bit8 3 ||| bit8 4) 0

/-- `OCW2_UNSUPPORTED`: rotation, and every command without the EOI bit. -/
def ocw2Unsupported (val : BitVec 8) : Bool := xUnsupportedFeatures val (bit8 7) (bit8 5)

/-- `OCW3_UNSUPPORTED`: special mask mode and the poll command. -/
def ocw3Unsupported (val : BitVec 8) : Bool :=
  xUnsupportedFeatures val (bit8 6 ||| bit8 5 ||| bit8 2) 0

/-- The chips as `allocate_vpic` sets them up. -/
def allocateVpic : Vpic where
  vpic1 := ⟨.uninitialized, 0, 0, 0, 0, .readIrr, bit8 2, false⟩
  vpic2 := ⟨.uninitialized, 0, 0, 0, 0, .readIrr, 0, true⟩

/-! ### Programming a chip -/

/-- `in_init_sequence`. -/
def inInitSequence (c : VpicChip) : Bool := c.state != .uninitialized && c.state != .initialized

/-- `get_next_init_state`. -/
def getNextInitState : VpicState → Option VpicState
  | .icw2 | .icw3 | .icw4 => some .initialized
  | .icw2Icw3 => some .icw3
  | .icw2Icw4 => some .icw4
  | .icw2Icw3Icw4 => some .icw3Icw4
  | .icw3Icw4 => some .icw4
  | .uninitialized | .initialized => none

/-- `get_init_state_from_icw1`. -/
def getInitStateFromIcw1 (icw1 : BitVec 8) : VpicState :=
  if !isSet icw1 (bit8 0) && isSet icw1 (bit8 1) then .icw2
  else if isSet icw1 (bit8 0) && !isSet icw1 (bit8 1) then .icw2Icw3Icw4
  else if !isSet icw1 (bit8 0) then .icw2Icw3
  else .icw2Icw4

/-- `start_init_sequence`.  The request and in-service registers are kept. -/
def startInitSequence (c : VpicChip) (icw1 : BitVec 8) : Option VpicChip :=
  if icw1Unsupported icw1 then none
  else some { c with
    state := getInitStateFromIcw1 icw1
    imr := 0
    readMode := .readIrr
    subDevice := if c.hasParent then 7 else bit8 7 }

/-- The register that `handle_init_step` writes. -/
def handleInitWord (c : VpicChip) (val : BitVec 8) : Option VpicChip :=
  match c.state with
  | .icw2 | .icw2Icw3 | .icw2Icw4 | .icw2Icw3Icw4 => some { c with offset := val &&& ~~~7 }
  | .icw3 | .icw3Icw4 => some { c with subDevice := if c.hasParent then val &&& 7 else val }
  | .icw4 => if icw4Unsupported val then none else some c
  | .uninitialized | .initialized => none

/-- `handle_init_step`. -/
def handleInitStep (c : VpicChip) (val : BitVec 8) : Option VpicChip := do
  let c' ← handleInitWord c val
  let state ← getNextInitState c'.state
  pure { c' with state := state }

/-- `handle_ocw2_write`. -/
def handleOcw2Write (c : VpicChip) (ocw2 : BitVec 8) : Option VpicChip :=
  if ocw2Unsupported ocw2 then none
  else
    let cmd := (ocw2 >>> 5).toNat
    if cmd = 1 then some { c with isr := (c.isr - 1) &&& c.isr }
    else if cmd = 3 then some { c with isr := c.isr &&& ~~~bit8 (ocw2 &&& 3).toNat }
    else none

/-- `handle_ocw3_write`. -/
def handleOcw3Write (c : VpicChip) (ocw3 : BitVec 8) : Option VpicChip :=
  if ocw3Unsupported ocw3 then none
  else if !isSet ocw3 (bit8 1) then some { c with readMode := .readNoAction }
  else if isSet ocw3 (bit8 0) then some { c with readMode := .readIsr }
  else some { c with readMode := .readIrr }

/-- `vpic_write`. -/
def vpicWrite (c : VpicChip) (port : BitVec 16) (val : BitVec 8) : Option VpicChip :=
  if isIcw1 port val then startInitSequence c val
  else if inInitSequence c then
    if a0Clear port then some c else handleInitStep c val
  else if isOcw1 port then some { c with imr := val }
  else if isOcw2 port val then handleOcw2Write c val
  else if isOcw3 port val then handleOcw3Write c val
  else none

/-- `vpic_read`: the new content of `*val`. -/
def vpicRead (c : VpicChip) (port : BitVec 16) (val : BitVec 8) : BitVec 8 :=
  if a0Clear port then
    match c.readMode with
    | .readIrr => c.irr
    | .readIsr => c.isr
    | .readNoAction => val
  else c.imr

/-! ### Raising and delivering -/

/-- `__vpic_raise_ext_irq`, with the return value. -/
def raiseExtIrqImpl (c : VpicChip) (irq : ℕ) : VpicChip × ℤ :=
  if c.state ≠ .initialized then (c, -1) else ({ c with irr := c.irr ||| bit8 irq }, 0)

/-- `vpic_raise_external_irq`, with the return value. -/
def vpicRaiseExternalIrq (v : Vpic) (irq : ℕ) : Vpic × ℤ :=
  if vpicNumPins ≤ irq then (v, -1)
  else if 8 ≤ irq then
    let (c, ret) := raiseExtIrqImpl v.vpic2 (irq - 8)
    ({ v with vpic2 := c }, ret)
  else
    let (c, ret) := raiseExtIrqImpl v.vpic1 irq
    ({ v with vpic1 := c }, ret)

/-- `__vpic_ack`. -/
def vpicAck (c : VpicChip) (irq : ℕ) : VpicChip :=
  { c with irr := c.irr &&& ~~~bit8 irq, isr := c.isr ||| bit8 irq }

/-- The `while` loop of `vpic_get_priority` with `fuel` rounds left. -/
def priorityLoop (val : BitVec 8) (prio : ℕ) : ℕ → ℕ
  | 0 => prio
  | fuel + 1 => if !isSet val (bit8 prio) && prio < 8 then priorityLoop val (prio + 1) fuel else prio

/-- `vpic_get_priority`: the lowest set bit, or `8`. -/
def vpicGetPriority (val : BitVec 8) : ℕ := if val = 0 then 8 else priorityLoop val 0 9

/-- `__vpic_get_pending_irq`. -/
def getPendingIrqImpl (c : VpicChip) : ℤ :=
  let pendingIrqPrio := vpicGetPriority (c.irr &&& ~~~c.imr)
  if pendingIrqPrio = 8 then -1
  else
    let currPrio := vpicGetPriority c.isr
    if pendingIrqPrio < currPrio then pendingIrqPrio else -1

/-- `vpic_has_pending_irq`. -/
def vpicHasPendingIrq (v : Vpic) : Bool :=
  let irq1 := getPendingIrqImpl v.vpic1
  let irq2 := getPendingIrqImpl v.vpic2
  let vpic1Prio := vpicGetPriority v.vpic1.isr
  if irq2 ≠ -1 then (irq1 = -1 ∨ irq1 > 2) ∧ vpic1Prio > 2
  else irq1 ≠ -1

/-- `vpic_get_pending_irq`, with the return value. -/
def vpicGetPendingIrq (v : Vpic) : Vpic × ℤ :=
  let irq1 := getPendingIrqImpl v.vpic1
  let irq2 := getPendingIrqImpl v.vpic2
  let vpic1Prio := vpicGetPriority v.vpic1.isr
  if irq2 ≠ -1 then
    if (irq1 = -1 ∨ irq1 > 2) ∧ vpic1Prio > 2 then
      (⟨vpicAck v.vpic1 2, vpicAck v.vpic2 irq2.toNat⟩, irq2 + v.vpic2.offset.toNat)
    else (v, -1)
  else if irq1 ≠ -1 then
    ({ v with vpic1 := vpicAck v.vpic1 irq1.toNat }, irq1 + v.vpic1.offset.toNat)
  else (v, -1)

end Vpic

end HyveMind
