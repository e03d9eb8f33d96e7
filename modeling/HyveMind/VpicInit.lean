import HyveMind.VpicDelivery

/-! # The initialisation sequence of the virtual interrupt controller

A guest initialises a chip by ICW1 on the command port and then, on the data port, ICW2, ICW3 unless
ICW1 says that the chip is single, and ICW4 if ICW1 asks for it.  `vpic.c` keeps the words that are
still due in `state`; `due` reads them off again, and `handleInitStep_eq` says that
`handle_init_step` takes the first of them.

`init_protocol` follows a chip from ICW1 through every continuation without another ICW1: guest
accesses to both chips, raised lines and acknowledgements in any order. -/

namespace HyveMind.Vpic

open Lib

/-! ### The calls of `die` -/

/-- The calls of `die` in `vpic_write` and the functions that it calls. -/
inductive Die
  | unsupportedIcw1 | unsupportedIcw4 | unsupportedOcw2 | unsupportedOcw2Cmd | unsupportedOcw3
  | unreachableInitState | unreachableInitStep | unreachableWrite
deriving DecidableEq, Repr

/-- The calls that the source marks as unreachable. -/
def Die.unreachable : Die → Bool
  | .unreachableInitState | .unreachableInitStep | .unreachableWrite => true
  | _ => false

/-- The call of `die` in which `vpic_write` ends. -/
def dieOf (c : VpicChip) (port : BitVec 16) (val : BitVec 8) : Option Die :=
  if isIcw1 port val then
    if icw1Unsupported val then some .unsupportedIcw1 else none
  else if inInitSequence c then
    if a0Clear port then none
    else
      match handleInitWord c val with
      | none => if c.state = .icw4 then some .unsupportedIcw4 else some .unreachableInitStep
      | some c' => if getNextInitState c'.state = none then some .unreachableInitState else none
  else if isOcw1 port then none
  else if isOcw2 port val then
    if ocw2Unsupported val then some .unsupportedOcw2
    else if handleOcw2Write c val = none then some .unsupportedOcw2Cmd
    else none
  else if isOcw3 port val then
    if ocw3Unsupported val then some .unsupportedOcw3 else none
  else some .unreachableWrite

theorem dieOf_eq_none_iff (c : VpicChip) (port : BitVec 16) (val : BitVec 8) :
    dieOf c port val = none ↔ vpicWrite c port val ≠ none := by
  unfold dieOf vpicWrite
  by_cases hicw1 : isIcw1 port val = true
  · simp only [if_pos hicw1, startInitSequence]
    split_ifs <;> simp
  simp only [if_neg hicw1]
  by_cases hinit : inInitSequence c = true
  · simp only [if_pos hinit]
    by_cases ha0 : a0Clear port = true
    · simp [ha0]
    simp only [if_neg ha0, handleInitStep]
    cases handleInitWord c val with
    | none => simp only [Option.bind_eq_bind, Option.bind_none]; split_ifs <;> simp
    | some c' => cases hnext : getNextInitState c'.state <;> simp [hnext]
  simp only [if_neg hinit]
  by_cases hocw1 : isOcw1 port = true
  · simp [hocw1]
  simp only [if_neg hocw1]
  by_cases hocw2 : isOcw2 port val = true
  · simp only [if_pos hocw2]
    by_cases hun : ocw2Unsupported val = true
    · simp [handleOcw2Write, hun]
    · simp [if_neg hun]
  simp only [if_neg hocw2]
  by_cases hocw3 : isOcw3 port val = true
  · simp only [if_pos hocw3, handleOcw3Write]
    split_ifs <;> simp
  · simp [if_neg hocw3]

/-! ### The words that are due -/

/-- The words of an initialisation sequence after ICW1. -/
inductive Icw
  | icw2 | icw3 | icw4
deriving DecidableEq, Repr

/-- The words that are still due. -/
def due : VpicState → List Icw
  | .uninitialized | .initialized => []
  | .icw2 => [.icw2]
  | .icw3 => [.icw3]
  | .icw4 => [.icw4]
  | .icw2Icw3 => [.icw2, .icw3]
  | .icw2Icw4 => [.icw2, .icw4]
  | .icw2Icw3Icw4 => [.icw2, .icw3, .icw4]
  | .icw3Icw4 => [.icw3, .icw4]

/-- ICW1 sets IC4: ICW4 follows. -/
def ic4 (icw1 : BitVec 8) : Bool := isSet icw1 (bit8 0)

/-- ICW1 sets SNGL: there is one chip only, and ICW3 is left out. -/
def sngl (icw1 : BitVec 8) : Bool := isSet icw1 (bit8 1)

/-- The words that follow ICW1. -/
def icwsAfter (icw1 : BitVec 8) : List Icw :=
  .icw2 :: ((if sngl icw1 then [] else [.icw3]) ++ if ic4 icw1 then [.icw4] else [])

/-- The number of data-port writes from ICW1 to the end of the sequence. -/
def initWords (icw1 : BitVec 8) : ℕ :=
  1 + (if sngl icw1 then 0 else 1) + if ic4 icw1 then 1 else 0

theorem length_icwsAfter (icw1 : BitVec 8) : (icwsAfter icw1).length = initWords icw1 := by
  unfold icwsAfter initWords
  cases sngl icw1 <;> cases ic4 icw1 <;> rfl

theorem due_getInitStateFromIcw1 (icw1 : BitVec 8) :
    due (getInitStateFromIcw1 icw1) = icwsAfter icw1 := by
  unfold getInitStateFromIcw1 icwsAfter sngl ic4
  cases isSet icw1 (bit8 0) <;> cases isSet icw1 (bit8 1) <;> rfl

theorem inInitSequence_iff (c : VpicChip) : inInitSequence c = true ↔ due c.state ≠ [] := by
  unfold inInitSequence
  cases c.state <;> decide

/-- What a word stores. -/
def Icw.store (c : VpicChip) (val : BitVec 8) : Icw → VpicChip
  | .icw2 => { c with offset := val &&& ~~~7 }
  | .icw3 => { c with subDevice := if c.hasParent then val &&& 7 else val }
  | .icw4 => c

theorem handleInitStep_eq {c : VpicChip} {w : Icw} {ws : List Icw} (hdue : due c.state = w :: ws)
    (val : BitVec 8) : ∃ state, due state = ws ∧ state ≠ .uninitialized ∧
      handleInitStep c val =
        if w = .icw4 ∧ icw4Unsupported val = true then none
        else some { w.store c val with state := state } := by
  unfold handleInitStep handleInitWord
  cases hstate : c.state <;> simp only [hstate, due, List.cons.injEq, reduceCtorEq] at hdue
  all_goals obtain ⟨rfl, rfl⟩ := hdue
  case icw2 | icw3 => exact ⟨.initialized, rfl, by decide, by simp [hstate, getNextInitState, Icw.store]⟩
  case icw4 =>
    refine ⟨.initialized, rfl, by decide, ?_⟩
    cases icw4Unsupported val <;> simp [hstate, getNextInitState, Icw.store]
  case icw2Icw3 => exact ⟨.icw3, rfl, by decide, by simp [hstate, getNextInitState, Icw.store]⟩
  case icw2Icw4 => exact ⟨.icw4, rfl, by decide, by simp [hstate, getNextInitState, Icw.store]⟩
  case icw2Icw3Icw4 =>
    exact ⟨.icw3Icw4, rfl, by decide, by simp [hstate, getNextInitState, Icw.store]⟩
  case icw3Icw4 => exact ⟨.icw4, rfl, by decide, by simp [hstate, getNextInitState, Icw.store]⟩

theorem dieOf_not_unreachable {c : VpicChip} {port : BitVec 16} {val : BitVec 8} {d : Die}
    (h : dieOf c port val = some d) : d.unreachable = false := by
  unfold dieOf at h
  by_cases hicw1 : isIcw1 port val = true
  · rw [if_pos hicw1] at h
    split_ifs at h
    rw [← Option.some.inj h]
    rfl
  rw [if_neg hicw1] at h
  by_cases hinit : inInitSequence c = true
  · rw [if_pos hinit] at h
    by_cases ha0 : a0Clear port = true
    · simp [ha0] at h
    rw [if_neg ha0] at h
    have hdue := (inInitSequence_iff c).mp hinit
    unfold handleInitWord at h
    cases hstate : c.state <;> simp [hstate, due, getNextInitState] at h hdue
    cases hun : icw4Unsupported val <;> simp [hun, hstate] at h
    rw [← h]
    rfl
  rw [if_neg hinit] at h
  have hocw : isOcw1 port = true ∨ isOcw2 port val = true ∨ isOcw3 port val = true := by
    revert hicw1
    unfold isIcw1 isOcw1 isOcw2 isOcw3
    cases a0Clear port <;> cases isSet val (bit8 4) <;> cases isSet val (bit8 3) <;> decide
  split_ifs at h with h1 h2 h3 h4 h5 h6
  · rw [← Option.some.inj h]
    rfl
  · rw [← Option.some.inj h]
    rfl
  · rw [← Option.some.inj h]
    rfl
  · simp [h1, h2, h5] at hocw

/-! ### One chip -/

/-- What ICW1 resets the cascade register to. -/
def cascadeReset (b : Bool) : BitVec 8 := if b then 7 else bit8 7

/-- The offset after ICW1 and the data-port writes `ws`. -/
def offsetAfter (offset : BitVec 8) : List (BitVec 8) → BitVec 8
  | [] => offset
  | w :: _ => w &&& ~~~7

/-- The cascade register of the chip `b` after ICW1 and the data-port writes `ws`. -/
def cascadeAfter (b : Bool) (icw1 : BitVec 8) (ws : List (BitVec 8)) : BitVec 8 :=
  if sngl icw1 then cascadeReset b
  else
    match ws[1]? with
    | none => cascadeReset b
    | some w => if b then w % 8 else w

theorem and_seven (w : BitVec 8) : w &&& 7 = w % 8 := by
  revert w
  decide

/-- The chip `b` after ICW1 and the data-port writes `ws`.  Its offset before was `offset`. -/
structure Programmed (b : Bool) (icw1 offset : BitVec 8) (ws : List (BitVec 8)) (c : VpicChip) :
    Prop where
  hasParent : c.hasParent = b
  started : c.state ≠ .uninitialized
  due : due c.state = (icwsAfter icw1).drop ws.length
  offset : c.offset = offsetAfter offset ws
  cascade : c.subDevice = cascadeAfter b icw1 ws

section Programmed

variable {b : Bool} {icw1 offset : BitVec 8} {ws : List (BitVec 8)} {c c' : VpicChip}

theorem Programmed.initialized_iff (h : Programmed b icw1 offset ws c) :
    c.state = .initialized ↔ initWords icw1 ≤ ws.length := by
  rw [← length_icwsAfter, ← List.drop_eq_nil_iff, ← h.due]
  have hstarted := h.started
  cases hstate : c.state <;> simp [Vpic.due, hstate] at hstarted ⊢

theorem Programmed.inInit_iff (h : Programmed b icw1 offset ws c) :
    inInitSequence c = true ↔ ws.length < initWords icw1 := by
  rw [inInitSequence_iff, h.due, ← length_icwsAfter, ne_eq, List.drop_eq_nil_iff, not_le]

theorem Programmed.congr (h : Programmed b icw1 offset ws c) (hparent : c'.hasParent = c.hasParent)
    (hstate : c'.state = c.state) (hoffset : c'.offset = c.offset)
    (hsub : c'.subDevice = c.subDevice) : Programmed b icw1 offset ws c' where
  hasParent := hparent.trans h.hasParent
  started := hstate ▸ h.started
  due := hstate ▸ h.due
  offset := hoffset.trans h.offset
  cascade := hsub.trans h.cascade

theorem startInitSequence_programmed (hparent : c.hasParent = b) (icw1 : BitVec 8) :
    ∃ c', startInitSequence c icw1 = some c' ∧ Programmed b icw1 c.offset [] c' := by
  have hsupported : icw1Unsupported icw1 = false := by
    simp [icw1Unsupported, xUnsupportedFeatures, isSet]
  unfold startInitSequence
  rw [hsupported, if_neg Bool.false_ne_true]
  refine ⟨_, rfl, hparent, ?_, due_getInitStateFromIcw1 icw1, rfl, ?_⟩
  · intro hun
    have hdue := due_getInitStateFromIcw1 icw1
    rw [show getInitStateFromIcw1 icw1 = .uninitialized from hun] at hdue
    simp [Vpic.due, icwsAfter] at hdue
  · simp [cascadeAfter, cascadeReset, hparent]

theorem Programmed.command (h : Programmed b icw1 offset ws c) {port : BitVec 16} {val : BitVec 8}
    (hport : a0Clear port = true) (hicw1 : isIcw1 port val = false)
    (hcall : vpicWrite c port val = some c') : Programmed b icw1 offset ws c' := by
  unfold vpicWrite at hcall
  simp only [hicw1, Bool.false_eq_true, if_false, hport, if_true] at hcall
  unfold handleOcw2Write handleOcw3Write at hcall
  dsimp only at hcall
  split_ifs at hcall <;>
    (obtain rfl := Option.some.inj hcall; exact h.congr rfl rfl rfl rfl)

/-- During the sequence a command that is not ICW1 has no effect. -/
theorem Programmed.command_ignored (h : Programmed b icw1 offset ws c)
    (hlt : ws.length < initWords icw1) {port : BitVec 16} {val : BitVec 8}
    (hport : a0Clear port = true) (hicw1 : isIcw1 port val = false) :
    vpicWrite c port val = some c := by
  unfold vpicWrite
  rw [hicw1, if_neg Bool.false_ne_true, if_pos (h.inInit_iff.mpr hlt), if_pos hport]

theorem icwsAfter_drop {icw1 : BitVec 8} {n : ℕ} {w : Icw} {rest : List Icw}
    (h : (icwsAfter icw1).drop n = w :: rest) :
    (w = .icw2 ↔ n = 0) ∧ (w = .icw3 ↔ n = 1 ∧ sngl icw1 = false) ∧
      (w = .icw4 ↔ n + 1 = initWords icw1 ∧ ic4 icw1 = true) := by
  unfold initWords
  unfold icwsAfter at h
  rcases n with _ | _ | _ | n <;> cases hs : sngl icw1 <;> cases hi : ic4 icw1 <;>
    simp [hs, hi] at h <;> simp [← h.1]

theorem offsetAfter_append (offset : BitVec 8) (ws : List (BitVec 8)) (val : BitVec 8) :
    offsetAfter offset (ws ++ [val]) =
      if ws.length = 0 then val &&& ~~~7 else offsetAfter offset ws := by
  cases ws <;> rfl

theorem cascadeAfter_append (b : Bool) (icw1 : BitVec 8) (ws : List (BitVec 8)) (val : BitVec 8) :
    cascadeAfter b icw1 (ws ++ [val]) =
      if ws.length = 1 ∧ sngl icw1 = false then if b then val % 8 else val
      else cascadeAfter b icw1 ws := by
  unfold cascadeAfter
  cases sngl icw1 <;> rcases ws with _ | ⟨w, _ | ⟨w', ws⟩⟩ <;> simp

/-- **One data-port write**: the next word of the sequence, or OCW1. -/
theorem Programmed.data (h : Programmed b icw1 offset ws c) {port : BitVec 16} {val : BitVec 8}
    (hport : a0Clear port = false) (hcall : vpicWrite c port val = some c') :
    Programmed b icw1 offset (ws ++ [val]) c' := by
  unfold vpicWrite at hcall
  have hicw1 : isIcw1 port val = false := by rw [isIcw1, hport, Bool.false_and]
  rw [hicw1, if_neg Bool.false_ne_true] at hcall
  by_cases hlt : ws.length < initWords icw1
  · rw [if_pos (h.inInit_iff.mpr hlt), hport, if_neg Bool.false_ne_true] at hcall
    obtain ⟨w, rest, hcons⟩ :=
      List.exists_cons_of_ne_nil ((inInitSequence_iff c).mp (h.inInit_iff.mpr hlt))
    have hdrop : (icwsAfter icw1).drop ws.length = w :: rest := h.due.symm.trans hcons
    obtain ⟨h2, h3, -⟩ := icwsAfter_drop hdrop
    obtain ⟨state, hdue, hstarted, hstep⟩ := handleInitStep_eq hcons val
    rw [hstep] at hcall
    split_ifs at hcall
    obtain rfl := Option.some.inj hcall
    refine ⟨?_, hstarted, ?_, ?_, ?_⟩
    · rw [← h.hasParent]
      cases w <;> rfl
    · rw [List.length_append, List.length_singleton, ← List.drop_drop, hdrop, List.drop_one,
        List.tail_cons]
      exact hdue
    · rw [offsetAfter_append]
      cases w with
      | icw2 => rw [if_pos (h2.mp rfl)]; rfl
      | icw3 => rw [if_neg (mt h2.mpr nofun)]; exact h.offset
      | icw4 => rw [if_neg (mt h2.mpr nofun)]; exact h.offset
    · rw [cascadeAfter_append]
      cases w with
      | icw2 => rw [if_neg (mt h3.mpr nofun)]; exact h.cascade
      | icw3 => rw [if_pos (h3.mp rfl), ← h.hasParent, ← and_seven]; rfl
      | icw4 => rw [if_neg (mt h3.mpr nofun)]; exact h.cascade
  · have hocw1 : isOcw1 port = true := by rw [isOcw1, hport, Bool.not_false]
    rw [if_neg (mt h.inInit_iff.mp hlt), if_pos hocw1] at hcall
    obtain rfl := Option.some.inj hcall
    have hlen : initWords icw1 ≤ ws.length := not_lt.mp hlt
    have hword : 1 ≤ ws.length ∧ (sngl icw1 = false → 2 ≤ ws.length) := by
      unfold initWords at hlen
      cases hs : sngl icw1 <;> simp [hs] at hlen ⊢ <;> omega
    refine ⟨h.hasParent, h.started, ?_, ?_, ?_⟩
    · rw [h.due, List.drop_eq_nil_of_le, List.drop_eq_nil_of_le] <;>
        simp only [length_icwsAfter, List.length_append] <;> omega
    · rw [offsetAfter_append, if_neg (by omega)]
      exact h.offset
    · rw [cascadeAfter_append, if_neg fun hone => absurd (hword.2 hone.2) (by omega)]
      exact h.cascade

/-- During the sequence a data-port write returns, unless it is an unsupported ICW4. -/
theorem Programmed.data_returns (h : Programmed b icw1 offset ws c)
    (hlt : ws.length < initWords icw1) {port : BitVec 16} {val : BitVec 8}
    (hport : a0Clear port = false)
    (hval : ws.length + 1 = initWords icw1 → ic4 icw1 = true → icw4Unsupported val = false) :
    vpicWrite c port val ≠ none := by
  have hicw1 : isIcw1 port val = false := by rw [isIcw1, hport, Bool.false_and]
  obtain ⟨w, rest, hcons⟩ :=
    List.exists_cons_of_ne_nil ((inInitSequence_iff c).mp (h.inInit_iff.mpr hlt))
  obtain ⟨-, -, h4⟩ := icwsAfter_drop (h.due.symm.trans hcons)
  obtain ⟨state, -, -, hstep⟩ := handleInitStep_eq hcons val
  unfold vpicWrite
  rw [hicw1, if_neg Bool.false_ne_true, if_pos (h.inInit_iff.mpr hlt), hport,
    if_neg Bool.false_ne_true, hstep, if_neg]
  · exact Option.some_ne_none _
  · rintro ⟨hw, hun⟩
    rw [hval (h4.mp hw).1 (h4.mp hw).2] at hun
    exact Bool.false_ne_true hun

end Programmed

/-! ### Both chips -/

/-- What happens to the controller: an operation, or a read by the guest. -/
inductive Event
  | op (o : Op)
  | read (slave : Bool) (port : BitVec 16)
deriving DecidableEq, Repr

/-- The state after an event; `none` if it dies.  `vpic_read` changes nothing. -/
def Event.exec (v : Vpic) : Event → Option Vpic
  | .op o => v.call o
  | .read _ _ => some v

/-- An event that returns. -/
def Event.Step (v : Vpic) (e : Event) (v' : Vpic) : Prop := e.exec v = some v'

/-- The event is ICW1 for the chip `b`. -/
def Event.isIcw1For (b : Bool) : Event → Bool
  | .op (.write slave port val) => slave == b && isIcw1 port val
  | _ => false

/-- The value that an event writes to the data port of the chip `b`. -/
def Event.dataWord (b : Bool) : Event → Option (BitVec 8)
  | .op (.write slave port val) => if slave = b ∧ a0Clear port = false then some val else none
  | _ => none

/-- The values written to the data port of the chip `b`. -/
def dataWords (b : Bool) (es : List Event) : List (BitVec 8) := es.filterMap (Event.dataWord b)

theorem dataWords_append (b : Bool) (es : List Event) (e : Event) :
    dataWords b (es ++ [e]) = dataWords b es ++ (e.dataWord b).toList := by
  rw [dataWords, List.filterMap_append]
  cases h : e.dataWord b <;> simp [dataWords, h]

section Events

variable {v v' : Vpic} {b : Bool} {icw1 offset : BitVec 8} {ws : List (BitVec 8)}

theorem call_write_of_chip {port : BitVec 16} {val : BitVec 8} {c : VpicChip}
    (h : vpicWrite (v.chip b) port val = some c) :
    ∃ v', v.call (.write b port val) = some v' ∧ v'.chip b = c := by
  cases b
  · exact ⟨{ v with vpic1 := c }, by rw [call, show vpicWrite v.vpic1 port val = _ from h]; rfl, rfl⟩
  · exact ⟨{ v with vpic2 := c }, by rw [call, show vpicWrite v.vpic2 port val = _ from h]; rfl, rfl⟩

/-- Raised lines and acknowledgements change the request and in-service registers only. -/
theorem chip_frame {op : Op} (hop : ∀ slave port val, op ≠ .write slave port val)
    (h : v.call op = some v') (b : Bool) :
    ∃ irr isr, v'.chip b = { v.chip b with irr := irr, isr := isr } := by
  cases op with
  | write slave port val => exact absurd rfl (hop slave port val)
  | raise irq =>
      obtain rfl := Option.some.inj h
      unfold vpicRaiseExternalIrq raiseExtIrqImpl
      dsimp only
      cases b <;> split_ifs <;> exact ⟨_, _, rfl⟩
  | getPending =>
      obtain rfl := Option.some.inj h
      unfold vpicGetPendingIrq
      dsimp only
      cases b <;> split_ifs <;> exact ⟨_, _, rfl⟩

/-- **One event** of the continuation. -/
theorem Programmed.event (h : Programmed b icw1 offset ws (v.chip b)) {e : Event}
    (hstep : Event.Step v e v') (hno : e.isIcw1For b = false) :
    Programmed b icw1 offset (ws ++ (e.dataWord b).toList) (v'.chip b) := by
  cases e with
  | read slave port =>
      obtain rfl := Option.some.inj hstep
      simpa [Event.dataWord] using h
  | op op =>
      by_cases hop : ∀ slave port val, op ≠ .write slave port val
      · obtain ⟨irr, isr, heq⟩ := chip_frame hop hstep b
        have hnone : (Event.op op).dataWord b = none := by
          cases op with
          | write slave port val => exact absurd rfl (hop slave port val)
          | raise irq => rfl
          | getPending => rfl
        rw [hnone, Option.toList_none, List.append_nil, heq]
        exact h.congr rfl rfl rfl rfl
      · push Not at hop
        obtain ⟨slave, port, val, rfl⟩ := hop
        have hwrite := call_write hstep b
        by_cases hslave : slave = b
        · subst hslave
          rw [if_pos rfl] at hwrite
          have hicw1 : isIcw1 port val = false := by simpa [Event.isIcw1For] using hno
          cases hport : a0Clear port with
          | true => simpa [Event.dataWord, hport] using h.command hport hicw1 hwrite
          | false => simpa [Event.dataWord, hport] using h.data hport hwrite
        · rw [if_neg hslave] at hwrite
          simpa [Event.dataWord, hslave, hwrite] using h

theorem hasParent_run {es : List Event} (hrun : Run Event.Step allocateVpic es v) (b : Bool) :
    (v.chip b).hasParent = b := by
  refine Run.invariant (I := fun v => (chip v b).hasParent = b) ?_ hrun (by cases b <;> rfl)
  intro v e v' hv hstep
  cases e with
  | read slave port =>
      obtain rfl := Option.some.inj hstep
      exact hv
  | op op =>
      by_cases hop : ∀ slave port val, op ≠ .write slave port val
      · obtain ⟨irr, isr, heq⟩ := chip_frame hop hstep b
        rw [heq]
        exact hv
      · push Not at hop
        obtain ⟨slave, port, val, rfl⟩ := hop
        have hwrite := call_write hstep b
        split_ifs at hwrite
        · rw [(vpicWrite_frame hwrite).2]
          exact hv
        · rw [hwrite]
          exact hv

/-! ### The protocol -/

/-- What holds of the chip `b` in a state that is reached from ICW1 by a continuation with the
data-port writes `ws`. -/
structure InitProtocol (b : Bool) (icw1 offset : BitVec 8) (ws : List (BitVec 8)) (v : Vpic) :
    Prop where
  initialized_iff : (v.chip b).state = .initialized ↔ initWords icw1 ≤ ws.length
  inInit_iff : inInitSequence (v.chip b) = true ↔ ws.length < initWords icw1
  offset : (v.chip b).offset = offsetAfter offset ws
  cascade : (v.chip b).subDevice = cascadeAfter b icw1 ws
  command : ws.length < initWords icw1 → ∀ port val, a0Clear port = true →
    isIcw1 port val = false → v.call (.write b port val) = some v
  data : ws.length < initWords icw1 → ∀ port val, a0Clear port = false →
    (ws.length + 1 = initWords icw1 → ic4 icw1 = true → icw4Unsupported val = false) →
    ∃ v', v.call (.write b port val) = some v'
  raise : ws.length < initWords icw1 → ∀ irq < vpicNumPins, decide (8 ≤ irq) = b →
    vpicRaiseExternalIrq v irq = (v, -1)
  reachable : ∀ slave port val d, dieOf (v.chip slave) port val = some d → d.unreachable = false

theorem Programmed.initProtocol (h : Programmed b icw1 offset ws (v.chip b)) :
    InitProtocol b icw1 offset ws v where
  initialized_iff := h.initialized_iff
  inInit_iff := h.inInit_iff
  offset := h.offset
  cascade := h.cascade
  command := by
    intro hlt port val hport hicw1
    have hsame := h.command_ignored hlt hport hicw1
    cases b with
    | false =>
        have hmaster : vpicWrite v.vpic1 port val = some v.vpic1 := hsame
        rw [call, hmaster, Option.map_some]
    | true =>
        have hslave : vpicWrite v.vpic2 port val = some v.vpic2 := hsame
        rw [call, hslave, Option.map_some]
  data := by
    intro hlt port val hport hval
    obtain ⟨c, hc⟩ := Option.ne_none_iff_exists'.mp (h.data_returns hlt hport hval)
    obtain ⟨v', hv', -⟩ := call_write_of_chip hc
    exact ⟨v', hv'⟩
  raise := by
    intro hlt irq hirq hchip
    have hstate : (v.chip b).state ≠ .initialized := mt h.initialized_iff.mp (by omega)
    unfold vpicRaiseExternalIrq raiseExtIrqImpl
    rw [if_neg (by omega)]
    cases b with
    | false =>
        have hmaster : v.vpic1.state ≠ .initialized := hstate
        rw [if_neg (of_decide_eq_false hchip), if_pos hmaster]
    | true =>
        have hslave : v.vpic2.state ≠ .initialized := hstate
        rw [if_pos (of_decide_eq_true hchip), if_pos hslave]
  reachable := fun _ _ _ _ hd => dieOf_not_unreachable hd

/-- **The initialisation protocol.**  In every reachable state ICW1 returns, and after it every
continuation without another ICW1 for that chip is as `InitProtocol` says. -/
theorem init_protocol {es₀ : List Event} (hreach : Run Event.Step allocateVpic es₀ v) (b : Bool)
    {port : BitVec 16} {icw1 : BitVec 8} (hicw1 : isIcw1 port icw1 = true) :
    ∃ v₁, v.call (.write b port icw1) = some v₁ ∧
      ∀ es v₂, Run Event.Step v₁ es v₂ → (∀ e ∈ es, e.isIcw1For b = false) →
        InitProtocol b icw1 (v.chip b).offset (dataWords b es) v₂ := by
  obtain ⟨c, hc, hprog⟩ := startInitSequence_programmed (hasParent_run hreach b) icw1
  have hwrite : vpicWrite (v.chip b) port icw1 = some c := by rw [vpicWrite, if_pos hicw1, hc]
  obtain ⟨v₁, hcall, rfl⟩ := call_write_of_chip hwrite
  refine ⟨v₁, hcall, fun es v₂ hrun hno => Programmed.initProtocol ?_⟩
  induction hrun with
  | nil => exact hprog
  | snoc hrun' hstep ih =>
      have hlast := (ih fun e he => hno e (List.mem_append_left _ he)).event hstep
        (hno _ (List.mem_append_right _ (List.mem_singleton_self _)))
      rwa [dataWords_append]

end Events

/-- The master is initialised from `allocate_vpic`; an OCW2 and a raised line come in between. -/
def masterInitEvents : List Event :=
  [.op (.write false 0x21 0x20), .op (.write false 0x20 0x20), .op (.raise 4),
    .op (.write false 0x21 0x04), .read false 0x20, .op (.write false 0x21 0x01)]

/-- After ICW1 with ICW3 and ICW4 the master is initialised by the third data-port write. -/
theorem init_protocol_master :
    ∃ v₁ v₂, allocateVpic.call (.write false 0x20 0x11) = some v₁ ∧
      Run Event.Step v₁ masterInitEvents v₂ ∧ v₂.vpic1.state = .initialized ∧
      v₂.vpic1.offset = 0x20 ∧ v₂.vpic1.subDevice = 0x04 ∧ v₂.vpic1.irr = 0 := by
  obtain ⟨v₁, hcall, hall⟩ := init_protocol (Run.nil allocateVpic) false
    (show isIcw1 0x20 0x11 = true by decide)
  have hend : ((allocateVpic.call (.write false 0x20 0x11)).bind fun v₁ =>
      masterInitEvents.foldlM Event.exec v₁).map (fun v => v.vpic1.irr) = some 0 := by decide
  obtain ⟨v₂, hs, hirr⟩ := Option.map_eq_some_iff.mp hend
  rw [hcall, Option.bind_some] at hs
  have hrun : Run Event.Step v₁ masterInitEvents v₂ := Run.of_foldlM _ (fun _ _ _ _ h => h) hs
  have hprot := hall masterInitEvents v₂ hrun (by decide)
  have hwords : dataWords false masterInitEvents = [0x20, 0x04, 0x01] := by decide
  rw [hwords] at hprot
  exact ⟨v₁, v₂, hcall, hrun, hprot.initialized_iff.mpr (by decide), hprot.offset, hprot.cascade,
    hirr⟩

end HyveMind.Vpic
