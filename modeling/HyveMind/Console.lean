import HyveMind.Printf
import HyveMind.SpinLock
import HyveMind.Uart16550

/-! # The debug console

`console.c`, and `printf.c` down to the port: any number of CPUs call `__printf`, each takes
`global_print_lock`, waits for the transmitter in front of every byte and writes the byte to the port;
the port shifts bytes out whenever it likes.

`console_in_lock_order`: on the wire the calls stand whole, one behind the other, in the order in which
they got the lock, with nothing lost; what has gone out is always what the sequential `printf` would have
sent. -/

namespace HyveMind

namespace Console

open Lib Printf Uart16550

/-! ### The output of one call -/

/-- The loop of `__printf`, with `console.ops` as `init_serial_uart_dbg_console` sets them. -/
def printfIo : ℕ → List UInt8 → List VaArg → Option (Io UInt8 Unit)
  | 0, _, _ => none
  | _ + 1, [], _ => some (.ret ())
  | fuel + 1, c :: rest, args =>
      if c ≠ '%'.toUInt8 then (printfIo fuel rest args).map fun m => do uart16550Putc c; m
      else
        match conversion rest with
        | .percent => printfIo fuel rest args
        | .s => do
            let (s, args) ← vaString args
            (printfIo fuel (rest.drop 1) args).map fun m => do uart16550Puts s; m
        | .lu => do
            let (n, args) ← vaNum args
            (printfIo fuel (rest.drop 2) args).map fun m => do uart16550Puts (u64ToDecString n); m
        | .lx => do
            let (n, args) ← vaNum args
            (printfIo fuel (rest.drop 2) args).map fun m => do uart16550Puts (u64ToHexString n); m
        | .lb => printfIo fuel (rest.drop 2) args
        | .default => (printfIo fuel rest args).map fun m => do uart16550Putc c; m

/-- The loop writes to the port what it sends to the console. -/
theorem printfIo_eq (fuel : ℕ) (fmt : List UInt8) (args : List VaArg) :
    printfIo fuel fmt args = (printfLoop fuel fmt args).map uart16550Puts := by
  have hputs : ∀ (s : List UInt8) (out : Option (List UInt8)),
      (out.map uart16550Puts).map (fun m => do uart16550Puts s; m) =
        (out.map (s ++ ·)).map uart16550Puts := by
    intro s out
    cases out with
    | none => rfl
    | some out => exact congrArg some (uart16550Puts_append s out).symm
  have hputc : ∀ (c : UInt8) (out : Option (List UInt8)),
      (out.map uart16550Puts).map (fun m => do uart16550Putc c; m) =
        (out.map ([c] ++ ·)).map uart16550Puts := by
    intro c out
    cases out with
    | none => rfl
    | some out => rfl
  induction fuel generalizing fmt args with
  | zero => rfl
  | succ fuel ih =>
      cases fmt with
      | nil => rfl
      | cons c rest =>
          simp only [printfIo, printfLoop]
          split
          · rw [ih, hputc]
          · cases conversion rest with
            | percent => exact ih rest args
            | s =>
                cases hva : vaString args with
                | none => rfl
                | some r =>
                    simp only [Option.bind_eq_bind, Option.bind_some]
                    rw [ih, hputs]
            | lu =>
                cases hva : vaNum args with
                | none => rfl
                | some r =>
                    simp only [Option.bind_eq_bind, Option.bind_some]
                    rw [ih, hputs]
            | lx =>
                cases hva : vaNum args with
                | none => rfl
                | some r =>
                    simp only [Option.bind_eq_bind, Option.bind_some]
                    rw [ih, hputs]
            | lb => exact ih _ args
            | default =>
                simp only
                rw [ih, hputc]

/-- A call of `__printf` whose arguments fit its format. -/
structure Call where
  fmt : List UInt8
  args : List VaArg
  body : Io UInt8 Unit
  fits : printfIo (fmt.length + 1) fmt args = some body

theorem Call.out (c : Call) :
    ∃ out, printfLoop (c.fmt.length + 1) c.fmt c.args = some out ∧ c.body = uart16550Puts out := by
  have hfits := c.fits
  rw [printfIo_eq, Option.map_eq_some_iff] at hfits
  obtain ⟨out, hout, hbody⟩ := hfits
  exact ⟨out, hout, hbody.symm⟩

/-! ### The bytes that a call has still to send -/

def unsent : Io UInt8 Unit → List UInt8
  | .ret _ => []
  | .outb _ c next => c :: unsent next
  | .inb _ _ => []
  | .poll _ _ next => unsent next

theorem unsent_puts (s : List UInt8) : unsent (uart16550Puts s) = s := by
  induction s with
  | nil => rfl
  | cons c s ih => exact congrArg (c :: ·) ih

/-- A call in front of a byte, or between the loop of `uart16550_putc` and the write. -/
inductive Sending : Io UInt8 Unit → Uart → Prop
  | puts (s : List UInt8) (u : Uart) : Sending (uart16550Puts s) u
  | write (c : UInt8) (s : List UInt8) {u : Uart} (hempty : u.fifo = []) :
      Sending (.outb (serialUartBasePort + spTxHoldingOffset) c (uart16550Puts s)) u

/-- The bytes that the port has and those that the call has still to send make up `target`. -/
structure Sends (target : List UInt8) (m : Io UInt8 Unit) (u : Uart) : Prop where
  ready : Ready u
  sending : Sending m u
  bytes : u.wire ++ u.fifo ++ unsent m = target

variable {target : List UInt8} {m m' : Io UInt8 Unit} {u u' : Uart}

theorem Sends.env (h : Sends target m u) (henv : u.Env u') : Sends target m u' := by
  refine ⟨h.ready.of_regs henv.regs, ?_, ?_⟩
  · cases h.sending with
    | puts s => exact .puts s u'
    | write c s hempty =>
        refine .write c s ?_
        cases henv with
        | shift hfifo | loop hfifo => rw [hempty] at hfifo; cases hfifo
        | receive => exact hempty
  · cases henv with
    | shift hfifo =>
        rw [← h.bytes, hfifo, List.append_assoc u.wire, List.singleton_append]
    | loop hfifo hloop =>
        rw [h.ready.loopback] at hloop
        cases hloop
    | receive => exact h.bytes

theorem transmit_of_empty {c : UInt8} (h : u.fifo = []) : u.transmit c = { u with fifo := [c] } := by
  have hroom : u.fifo.length < u.depth := by
    rw [h, Uart.depth]
    split <;> decide
  rw [Uart.transmit, if_pos hroom, h]
  rfl

theorem Sends.step (h : Sends target m u) (hstep : Io.Step uart m u m' u') : Sends target m' u' := by
  obtain ⟨hready, hsending, hbytes⟩ := h
  cases hsending with
  | puts s =>
      cases s with
      | nil => cases hstep
      | cons c s =>
          cases hstep with
          | again hr ht =>
              obtain ⟨_, rfl⟩ := hr
              exact ⟨hready, .puts (c :: s) u', hbytes⟩
          | passed hr ht =>
              obtain ⟨hr, rfl⟩ := hr
              rw [Nat.add_sub_cancel_left] at hr
              have hempty : u'.fifo = [] := by
                rw [← List.isEmpty_iff, ← ht]
                exact hr.symm
              exact ⟨hready, .write c s hempty, hbytes⟩
  | write c s hempty =>
      cases hstep with
      | outb hw =>
          have hw' : u' = { u with fifo := [c] } := by
            rw [hw, Nat.add_sub_cancel_left, ← transmit_of_empty hempty]
            simp only [Uart.write, spTxHoldingOffset, hready.dlab]
            rfl
          subst hw'
          refine ⟨hready.of_regs rfl, .puts s _, ?_⟩
          rw [← hbytes, hempty, List.append_nil]
          exact List.append_assoc u.wire [c] _

/-! ### The console -/

/-- What the calls send, one after the other, through the sequential `__printf`. -/
def replay (calls : List Call) (console : DbgConsole) : Option DbgConsole :=
  calls.foldlM (fun console c => (printf console c.fmt c.args).map Prod.fst) console

/-- The calls under `global_print_lock`. -/
def work : Work Uart Call (Io UInt8 Unit) := uart.work Call.body

theorem replay_append {calls : List Call} {console console' : DbgConsole} {c : Call} {out : List UInt8}
    (h : replay calls console = some console') (hinit : console'.initialized = true)
    (hout : printfLoop (c.fmt.length + 1) c.fmt c.args = some out) :
    replay (calls ++ [c]) console = some ⟨true, console'.sent ++ out⟩ := by
  rw [replay, List.foldlM_append]
  change (replay calls console).bind _ = _
  rw [h, Option.bind_some, List.foldlM_cons, printf, hinit, if_neg (by simp), hout]
  rfl

/-- The calls, and the bytes that the port has, with `m` still to be sent by the last of them. -/
def Printed (sent₀ : List UInt8) (calls : List Call) (m : Io UInt8 Unit) (u : Uart) : Prop :=
  ∃ sent, replay calls ⟨true, sent₀⟩ = some ⟨true, sent⟩ ∧ Sends sent m u

variable {sent₀ : List UInt8} {calls : List Call} {u₀ : Uart}

theorem Printed.start {c : Call} (h : Printed sent₀ calls (.ret ()) u) :
    Printed sent₀ (calls ++ [c]) c.body u := by
  obtain ⟨sent, hreplay, hready, _, hbytes⟩ := h
  obtain ⟨out, hout, hbody⟩ := c.out
  refine ⟨sent ++ out, replay_append hreplay rfl hout, hready, ?_, ?_⟩
  · rw [hbody]
    exact .puts out u
  · rw [hbody, unsent_puts, ← hbytes, unsent, List.append_nil]

theorem printed_serial (hready : Ready u₀) (h : Serial work u₀ calls u) :
    Printed (u₀.wire ++ u₀.fifo) calls (.ret ()) u := by
  refine h.inv (I := fun calls u => Printed (u₀.wire ++ u₀.fifo) calls (.ret ()) u)
    (J := Printed (u₀.wire ++ u₀.fifo)) (fun calls c u h => h.start) ?_ ?_ ?_ ?_ ?_
  · rintro calls m u m' u' ⟨sent, hreplay, hsends⟩ hstep
    exact ⟨sent, hreplay, hsends.step hstep⟩
  · rintro calls m u u' ⟨sent, hreplay, hsends⟩ henv
    exact ⟨sent, hreplay, hsends.env henv⟩
  · rintro calls m u h ⟨x, rfl⟩
    exact h
  · rintro calls u u' ⟨sent, hreplay, hsends⟩ henv
    exact ⟨sent, hreplay, hsends.env henv⟩
  · exact ⟨_, rfl, hready, .puts [] u₀, List.append_nil _⟩

theorem printed_exec {m₀ : Io UInt8 Unit} (h : Printed sent₀ calls m₀ u₀) (hexec : Exec work m₀ u₀ m u) :
    Printed sent₀ calls m u := by
  obtain ⟨sent, hreplay, hsends⟩ := h
  refine ⟨sent, hreplay, hexec.inv (J := Sends sent) ?_ ?_ hsends⟩
  · exact fun m u m' u' h hstep => h.step hstep
  · exact fun m u u' h henv => h.env henv

variable {ι : Type} [DecidableEq ι] {ls : List (SpinLock.Label ι Call)}
  {s : SpinLock.State ι Uart Call (Io UInt8 Unit)}

/-- Any number of CPUs print, on a port that is ready: what has gone out, what the transmitter holds and
what the holder of the lock has still to send are together what the sequential `__printf` sends for the
calls in the order in which they got the lock, and each CPU gets it in the order of its calls. -/
theorem console_in_lock_order (hready : Ready u₀) (h : Run (SpinLock.Step work) (SpinLock.boot u₀) ls s) :
    ∃ sent, replay ((SpinLock.acquired ls).map Prod.snd) ⟨true, u₀.wire ++ u₀.fifo⟩ =
        some ⟨true, sent⟩ ∧
      (s.flag = SpinLock.spinlockFree → s.obj.wire ++ s.obj.fifo = sent) ∧
      (∀ i m, s.place i = .inside m → s.obj.wire ++ s.obj.fifo ++ unsent m = sent) ∧
      ∀ i, ((SpinLock.acquired ls).filter (·.1 = i)).map Prod.snd ++ (s.place i).waiting =
        SpinLock.calls i ls := by
  obtain ⟨hfree, hused, horder⟩ := SpinLock.serializable h
  obtain ⟨o, howner⟩ := SpinLock.owner_run h
  cases howner with
  | free hflag hout =>
      obtain ⟨sent, hreplay, hsends⟩ := printed_serial hready (hfree hflag)
      refine ⟨sent, hreplay, fun _ => ?_, fun i m hi => absurd hi (hout i m), horder⟩
      rw [← hsends.bytes, unsent, List.append_nil]
  | @used i m hflag hi hout =>
      obtain ⟨log, c, u, hlog, hserial, hexec⟩ := hused i m hi
      obtain ⟨sent, hreplay, hsends⟩ := printed_exec (printed_serial hready hserial).start hexec
      refine ⟨sent, ?_, fun hflag' => ?_, fun j m' hj => ?_, horder⟩
      · rw [hlog, List.map_append]
        exact hreplay
      · rw [hflag] at hflag'
        exact absurd hflag' (by decide)
      · obtain rfl := hout j m' hj
        rw [hi, SpinLock.Place.inside.injEq] at hj
        rw [← hj]
        exact hsends.bytes

/-- `printf` of one letter, on the port behind its initialization. -/
theorem console_in_lock_order_letter : ∃ ls, ∃ s : SpinLock.State (Fin 2) Uart Call (Io UInt8 Unit),
    (∃ m, s.place 0 = .inside m) ∧
    ∃ sent, replay ((SpinLock.acquired ls).map Prod.snd) ⟨true, []⟩ = some ⟨true, sent⟩ ∧
      (s.flag = SpinLock.spinlockFree → s.obj.wire ++ s.obj.fifo = sent) ∧
      (∀ i m, s.place i = .inside m → s.obj.wire ++ s.obj.fifo ++ unsent m = sent) ∧
      ∀ i, ((SpinLock.acquired ls).filter (·.1 = i)).map Prod.snd ++ (s.place i).waiting =
        SpinLock.calls i ls := by
  let u₀ : Uart := ⟨⟨0x01, 0x00, 0x03, 0x00, 0x07, 0x03⟩, 0, [], []⟩
  let c : Call := ⟨['A'.toUInt8], [], uart16550Puts ['A'.toUInt8], rfl⟩
  have h := (Run.nil (SpinLock.boot u₀ : SpinLock.State (Fin 2) _ _ _)).snoc
    (@SpinLock.Step.call _ _ _ _ _ work _ 0 c rfl)
  have h := h.snoc (SpinLock.Step.acquire (i := 0) rfl)
  exact ⟨_, _, ⟨_, rfl⟩, console_in_lock_order (ready_of_configured (show After (configured 0x03) u₀ from rfl)) h⟩

end Console

end HyveMind
