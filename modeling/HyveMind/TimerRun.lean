import HyveMind.TimerHeap

/-! # Timers over whole runs

Two results about every sequence of `add_timer` calls and timer interrupts on one CPU.

With timer actions that leave the heap alone, the heap and the hardware timer agree
(`timers_agree`), as long as no periodic timer is added while it is pending: the heap holds
addresses, and the handler moves the deadline of both occurrences at once.

With timer actions that add timers, no expiry is lost or handled twice (`expiries_survive`), as long
as no action adds a timer with an earlier deadline than the one that expired: the handler deletes
the root after the action, which is then the new timer. -/

namespace HyveMind.TimerCpu

open Lib Lib.ArrayHeap

variable {s s' : TimerCpu} {ops : List Op} {timers : ℕ → Timer} {tree : ℕ → ℕ}

/-! ### Actions that leave the heap alone -/

/-- Timer actions that make no calls. -/
def quiet : Actions := fun _ _ _ => []

/-- The addresses of the timers that were accepted. -/
def added (s : TimerCpu) : Multiset ℕ := (s.accepted.map Prod.fst : List ℕ)

/-- The addresses of the one-shot timers that fired. -/
def removed (s : TimerCpu) : Multiset ℕ :=
  ((s.invoked.filter fun x => x.2.type = .oneshot).map Prod.fst : List ℕ)

/-- The heap and the hardware timer agree. -/
structure Agrees (s : TimerCpu) : Prop where
  holds : s.pending + s.removed = s.added
  ordered : ∀ i, 2 ≤ i → i < s.insertionIdx →
    s.deadline (s.flattenedTree (i / 2)) ≤ s.deadline (s.flattenedTree i)
  fails : ∀ p, ∃ s' ret, s.addTimer p = some (s', ret) ∧
    (ret ≠ .success ↔ s.pending.card = 511) ∧ (ret ≠ .success → s' = s)
  programmed : s.pending ≠ 0 → ∃ p ∈ s.pending, s.hwDeadline = some (s.deadline p) ∧
    ∀ q ∈ s.pending, s.deadline p ≤ s.deadline q

/-- An operation with actions that leave the heap alone. -/
abbrev QuietStep (adm : TimerCpu → Cmd → Prop) : TimerCpu → Op → TimerCpu → Prop :=
  Step quiet adm fun _ _ _ => True

/-- A structure is filled in only while it is not pending; any timer may be added. -/
def Fresh (s : TimerCpu) : Cmd → Prop
  | .init p _ => p ∉ s.pending
  | .add _ => True

theorem roundsMeet_quiet (C : ℕ → TimerCpu → Cmd → Prop) (now : ℕ) (tscs : List ℕ) (s : TimerCpu) :
    RoundsMeet C quiet now tscs s := by
  induction tscs generalizing s with
  | nil => exact trivial
  | cons tsc tscs ih => exact fun e _ _ => ⟨trivial, fun s' _ => ih s'⟩

theorem QuietStep.later {op : Op} (h : QuietStep Allowed s op s') :
    Step quiet Allowed Later s op s' := by
  cases op with
  | cmd c => exact h
  | irq tscs => exact ⟨h.1, fun now rest _ => roundsMeet_quiet Later now rest s⟩

theorem map_fst_log (log : List (ℕ × Timer)) : ((log.map Prod.fst : List ℕ) : Multiset ℕ) =
    ((log.filter fun x => x.2.type = .oneshot).map Prod.fst : List ℕ) +
      (renewals log).map Prod.fst := by
  induction log with
  | nil => rfl
  | cons x log ih =>
      rw [List.map_cons, ← Multiset.cons_coe, ih]
      cases hx : x.2.type with
      | oneshot => simp [renewals, hx, ← Multiset.cons_coe]
      | periodic => simp [renewals, hx, ← Multiset.cons_coe]

/-- The account by addresses: what was accepted is pending or a one-shot timer that fired. -/
theorem Ledger.holds (ledger : Ledger s) : s.pending + s.removed = s.added := by
  have hfst := congrArg (Multiset.map Prod.fst) ledger
  have hentries : s.entries.map Prod.fst = s.pending := by simp [entries]
  rw [Multiset.map_add, Multiset.map_add, hentries, Multiset.map_coe, Multiset.map_coe,
    map_fst_log s.invoked, ← add_assoc] at hfst
  exact add_right_cancel hfst

theorem TimersOk.agrees (inv : TimersOk s) : Agrees s where
  holds := inv.ledger.holds
  ordered := fun i h1 h2 => inv.ok.ordered i h1 (by unfold heapMaxIdx; omega)
  fails := fun p => by
    by_cases hfull : s.capacity ≤ s.insertionIdx
    · refine ⟨s, .error, addTimer_full hfull p, ?_, fun _ => rfl⟩
      simp [inv.ok.full_iff, hfull]
    · obtain ⟨s', hcall, -⟩ := addTimer_spec inv.ok (by omega) p
      refine ⟨s', .success, hcall, ?_, fun h => absurd rfl h⟩
      simp [inv.ok.full_iff, hfull]
  programmed := inv.programmed.least inv.ok

theorem timersOk_quiet (hrun : Run (QuietStep Allowed) (initTimerHeap timers tree) ops s) :
    TimersOk s :=
  hrun.invariant (fun _ _ _ inv hstep => timersOk_step inv (QuietStep.later hstep))
    (timersOk_init timers tree)

/-- **Heap and hardware timer agree.**  After every sequence of operations in which no periodic timer
is added while it is pending. -/
theorem timers_agree (hrun : Run (QuietStep Allowed) (initTimerHeap timers tree) ops s) :
    Agrees s := (timersOk_quiet hrun).agrees

/-! ### Computed runs -/

instance (s : TimerCpu) : DecidablePred (Allowed s)
  | .init p _ => inferInstanceAs (Decidable (p ∉ s.pending))
  | .add p => inferInstanceAs (Decidable ((s.timers p).type = .periodic → p ∉ s.pending))

instance (s : TimerCpu) : DecidablePred (Fresh s)
  | .init p _ => inferInstanceAs (Decidable (p ∉ s.pending))
  | .add _ => inferInstanceAs (Decidable True)

instance (e : ℕ) (s : TimerCpu) : DecidablePred (Later e s)
  | .init p val => inferInstanceAs (Decidable (Allowed s (.init p val) ∧ True))
  | .add p => inferInstanceAs (Decidable (Allowed s (.add p) ∧
      (s.deadline e ≤ s.deadline p ∨ s.capacity ≤ s.insertionIdx)))

instance decCmdsMeet (C : TimerCpu → Cmd → Prop) [∀ s, DecidablePred (C s)] :
    ∀ (s : TimerCpu) (cs : List Cmd), Decidable (CmdsMeet C s cs)
  | _, [] => inferInstanceAs (Decidable True)
  | s, c :: cs =>
      have : DecidablePred fun s' => CmdsMeet C s' cs := fun s' => decCmdsMeet C s' cs
      inferInstanceAs (Decidable (C s c ∧ ∀ s', s' ∈ s.runCmd c → CmdsMeet C s' cs))

instance decRoundsMeet (C : ℕ → TimerCpu → Cmd → Prop) [∀ e s, DecidablePred (C e s)] (act : Actions)
    (now : ℕ) : ∀ (tscs : List ℕ) (s : TimerCpu), Decidable (RoundsMeet C act now tscs s)
  | [], _ => inferInstanceAs (Decidable True)
  | tsc :: tscs, s =>
      have : DecidablePred fun s' => RoundsMeet C act now tscs s' :=
        fun s' => decRoundsMeet C act now tscs s'
      have : DecidablePred fun e => s.deadline e ≤ tsc →
          CmdsMeet (C e) (s.logged e) (act now e s) ∧
            ∀ s', s' ∈ s.expire act now e → RoundsMeet C act now tscs s' := fun _ => inferInstance
      inferInstanceAs (Decidable (∀ e, e ∈ s.getHeapRoot → s.deadline e ≤ tsc →
        CmdsMeet (C e) (s.logged e) (act now e s) ∧
          ∀ s', s' ∈ s.expire act now e → RoundsMeet C act now tscs s'))

/-- One operation, computed. -/
def exec (act : Actions) (adm : TimerCpu → Cmd → Prop) (C : ℕ → TimerCpu → Cmd → Prop)
    [∀ s, DecidablePred (adm s)] [∀ e s, DecidablePred (C e s)] (s : TimerCpu) :
    Op → Option TimerCpu
  | .cmd c => if adm s c then s.runCmd c else none
  | .irq [] => none
  | .irq (now :: tscs) =>
      if RoundsMeet C act now tscs s then s.irqTimerHandler act (now :: tscs) else none

theorem run_of_exec {act : Actions} {adm : TimerCpu → Cmd → Prop} {C : ℕ → TimerCpu → Cmd → Prop}
    [∀ s, DecidablePred (adm s)] [∀ e s, DecidablePred (C e s)]
    (h : ops.foldlM (exec act adm C) s = some s') : Run (Step act adm C) s ops s' := by
  refine Run.of_foldlM _ (fun s op s' _ hcall => ?_) h
  match op with
  | .cmd c =>
      simp only [exec] at hcall
      split_ifs at hcall with hadm
      exact ⟨hadm, hcall⟩
  | .irq [] => cases hcall
  | .irq (now :: tscs) =>
      simp only [exec] at hcall
      split_ifs at hcall with hmeet
      refine ⟨hcall, fun now' rest heq => ?_⟩
      obtain ⟨rfl, rfl⟩ := List.cons.inj heq
      exact hmeet

/-- The state after `init_timer_framework`, with empty memory. -/
def demoInit : TimerCpu := initTimerHeap (fun _ => ⟨0, 0, .oneshot⟩) fun _ => 0

/-- A periodic and a one-shot timer that both expire. -/
def twoTimers : List Op :=
  [.cmd (.init 10 ⟨5, 10, .periodic⟩), .cmd (.init 11 ⟨6, 0, .oneshot⟩), .cmd (.add 10),
    .cmd (.add 11), .irq [6, 6, 6, 7]]

/-- After `twoTimers` the hardware waits for the periodic timer. -/
theorem timers_agree_two_timers :
    ∃ s, Run (QuietStep Allowed) demoInit twoTimers s ∧ s.hwDeadline = some 15 ∧ Agrees s := by
  have hend : (twoTimers.foldlM (exec quiet Allowed fun _ _ _ => True) demoInit).map hwDeadline = some (some 15) := by
    decide
  obtain ⟨s, hs, hw⟩ := Option.map_eq_some_iff.mp hend
  have hrun := run_of_exec hs
  exact ⟨s, hrun, hw, timers_agree hrun⟩

/-- A periodic timer that is added twice. -/
def addedTwice : List Op :=
  [.cmd (.init 10 ⟨5, 10, .periodic⟩), .cmd (.init 11 ⟨6, 0, .oneshot⟩), .cmd (.add 10),
    .cmd (.add 11), .cmd (.add 10), .irq [5, 5, 5]]

/-- After `addedTwice` the deadline `15` is above `6` and the hardware is programmed to `15`. -/
theorem addedTwice_disagrees :
    ∃ s, Run (QuietStep Fresh) demoInit addedTwice s ∧ s.hwDeadline = some 15 ∧ ¬ Agrees s := by
  have hend : (addedTwice.foldlM (exec quiet Fresh fun _ _ _ => True) demoInit).map (fun s =>
      (s.hwDeadline, s.insertionIdx, s.deadline (s.flattenedTree 1), s.deadline (s.flattenedTree 2))) =
        some (some 15, 4, 15, 6) := by
    decide
  obtain ⟨s, hs, hobs⟩ := Option.map_eq_some_iff.mp hend
  simp only [Prod.mk.injEq] at hobs
  obtain ⟨hw, hidx, h1, h2⟩ := hobs
  refine ⟨s, run_of_exec hs, hw, fun hagree => ?_⟩
  have hord := hagree.ordered 2 le_rfl (by omega)
  rw [show 2 / 2 = 1 from rfl, h1, h2] at hord
  omega

/-! ### Actions that add timers -/

/-- Every expiry that was accepted or renewed is pending or was invoked exactly once, and every
timer that was added is pending or a one-shot timer that fired. -/
structure Survives (s : TimerCpu) : Prop where
  once : Ledger s
  kept : s.pending + s.removed = s.added

/-- **No expiry is lost or handled twice.**  For all timer actions, after every sequence of operations
in which no action adds a timer before the one that expired. -/
theorem expiries_survive {act : Actions}
    (hrun : Run (Step act Allowed Later) (initTimerHeap timers tree) ops s) : Survives s := by
  have inv := timersOk_run hrun
  exact ⟨inv.ledger, inv.ledger.holds⟩

/-- The action of timer `10` adds timer `11`, once, with the deadline `d`. -/
def addsOnce (d : ℕ) : Actions := fun _ timer s =>
  if timer = 10 ∧ s.invoked = [] then [.init 11 ⟨d, 0, .oneshot⟩, .add 11] else []

/-- Timer `10` expires. -/
def oneExpiry (tscs : List ℕ) : List Op :=
  [.cmd (.init 10 ⟨10, 0, .oneshot⟩), .cmd (.add 10), .irq tscs]

/-- An action that adds a later timer. -/
theorem expiries_survive_later_timer :
    ∃ s, Run (Step (addsOnce 20) Allowed Later) demoInit (oneExpiry [10, 10, 11]) s ∧
      s.pending = {11} ∧ s.removed = {10} ∧ Survives s := by
  have hend : ((oneExpiry [10, 10, 11]).foldlM (exec (addsOnce 20) Allowed Later) demoInit).map
      (fun s => (s.pending, s.removed)) = some ({11}, {10}) := by decide
  obtain ⟨s, hs, hobs⟩ := Option.map_eq_some_iff.mp hend
  obtain ⟨hpending, hremoved⟩ := Prod.mk.inj hobs
  have hrun := run_of_exec hs
  exact ⟨s, hrun, hpending, hremoved, expiries_survive hrun⟩

/-- An action that adds an earlier timer: it never fires, and timer `10` fires twice. -/
theorem earlier_timer_is_lost :
    ∃ s, Run (Step (addsOnce 5) Allowed fun _ => Allowed) demoInit (oneExpiry [10, 10, 11]) s ∧
      s.pending = 0 ∧ s.added = {10, 11} ∧ s.removed = {10, 10} ∧ ¬ Survives s := by
  have hend : ((oneExpiry [10, 10, 11]).foldlM (exec (addsOnce 5) Allowed fun _ => Allowed)
      demoInit).map (fun s => (s.pending, s.added, s.removed)) =
        some (0, {10, 11}, {10, 10}) := by decide
  obtain ⟨s, hs, hobs⟩ := Option.map_eq_some_iff.mp hend
  simp only [Prod.mk.injEq] at hobs
  obtain ⟨hpending, hadded, hremoved⟩ := hobs
  refine ⟨s, run_of_exec hs, hpending, hadded, hremoved, fun hsurvives => ?_⟩
  have hkept := hsurvives.kept
  rw [hpending, hadded, hremoved] at hkept
  revert hkept
  decide

end HyveMind.TimerCpu
