import HyveMind.ListHead
import HyveMind.Lib.Run

/-! # The scheduler

`sched.c`: every CPU repeats `__schedule` on its own task queue while the bootstrap processor puts
the vCPUs of all VMs into the queues.  The units are linked into a queue by the list node that is
embedded in them.

The parties run in any order.  What a CPU does under the lock of a task queue is one step, what it
does under the lock of a CPU is several, so that the other parties' steps fall in between.  An
interrupt handler that does nothing (the kick) is taken at the places at which interrupts are
enabled. -/

namespace HyveMind.Sched

open Lib ListHead

abbrev Cpuid := ℕ

/-- The objects of type `struct sched_unit`: the one static `idle_task` and the unit of each vCPU.
vCPUs are numbered in the order in which they are submitted. -/
inductive SchedUnit
  | idleTask
  | vcpu (n : ℕ)
deriving DecidableEq, Repr

/-- `enum task_sched_state`. -/
inductive TaskSchedState
  | notSchedulable
  | runnable
  | running
  | blocked
  | killed
deriving DecidableEq, Repr

/-- `enum cpu_state`. -/
inductive CpuState
  | notInit
  | init
  | idle
  | unavailable
deriving DecidableEq, Repr

/-- The two lists of a `struct task_queue`. -/
inductive Queue
  | runnableTasks
  | blockedTasks
deriving DecidableEq, Repr

/-- The list heads and the nodes embedded in the units (`sched_queue`). -/
inductive Node
  | head (k : Queue) (c : Cpuid)
  | unit (u : SchedUnit)
deriving DecidableEq, Repr

/-- `list_entry` of a node of a task queue. -/
def Node.schedUnit : Node → Option SchedUnit
  | .unit u => some u
  | .head .. => none

/-! ### Task queues -/

/-- `tq_submit_task`, and with it `tq_submit_runnable_task` and `tq_submit_blocked_task`. -/
def tqSubmitTask (l : Links Node) (tq : Cpuid) (schedu : SchedUnit) (state : TaskSchedState) :
    Option (Links Node) :=
  match state with
  | .running | .runnable => listAddTail l (.head .runnableTasks tq) (.unit schedu)
  | .blocked => listAddTail l (.head .blockedTasks tq) (.unit schedu)
  | .notSchedulable | .killed => some l

/-- `tq_get_next_task`. -/
def tqGetNextTask (l : Links Node) (tq : Cpuid) : Option (Links Node × Option SchedUnit) := do
  match ← listFirstEntryNullable l (.head .runnableTasks tq) with
  | none => return (l, none)
  | some node =>
      let next ← node.schedUnit
      let l ← listRemoveHead l (.head .runnableTasks tq)
      return (l, some next)

/-! ### The parties -/

/-- Where a CPU is in `__schedule`; `task` is its local variable. -/
inductive Pc
  /-- Between two rounds, with interrupts enabled. -/
  | start
  /-- It holds its lock. -/
  | locked
  /-- `tq_get_next_task` has returned. -/
  | picked (task : Option SchedUnit)
  /-- It has released its lock. -/
  | unlocked (task : SchedUnit)
  /-- In `launch_task`. For the idle task this is the halt. -/
  | launched (task : SchedUnit)
  /-- `launch_task` has returned. -/
  | returned (task : SchedUnit)
  /-- It holds its lock again. -/
  | relocked (task : SchedUnit)
  /-- Before `tq_re_enqueue_task`. -/
  | reinit (task : SchedUnit)
deriving DecidableEq, Repr

/-- The unit that the round has picked and not yet given back. -/
def Pc.task : Pc → Option SchedUnit
  | .start | .locked => none
  | .picked task => task
  | .unlocked task | .launched task | .returned task | .relocked task | .reinit task => some task

/-- The CPU holds its own lock. -/
def Pc.holdsLock : Pc → Bool
  | .locked | .picked _ | .relocked _ => true
  | _ => false

/-- Where the bootstrap processor is in the loop of `sched_submit_vm`. -/
inductive BspPc
  | ready
  /-- The unit is in the queue of `target`. -/
  | queued (target : Cpuid)
  /-- It holds the lock of `target`. -/
  | locked (target : Cpuid)
deriving DecidableEq, Repr

/-- The processor that `sched_submit_vm` is working on. -/
def BspPc.target : BspPc → Option Cpuid
  | .ready => none
  | .queued target | .locked target => some target

structure Sys where
  links : Links Node
  taskState : SchedUnit → TaskSchedState
  /-- `tq->current`. -/
  current : Cpuid → Option SchedUnit
  cpuState : Cpuid → CpuState
  lock : Cpuid → Bool
  pc : Cpuid → Pc
  /-- A kick is pending. -/
  kick : Cpuid → Bool
  bsp : BspPc
  /-- How many vCPUs have been submitted. -/
  submitted : ℕ

/-- After `init_task_queues`, with all CPUs online and the vCPUs allocated. -/
def init : Sys where
  links :=
    { next := fun n => if n = .unit .idleTask then none else some n
      prev := fun n => if n = .unit .idleTask then none else some n }
  taskState := fun _ => .runnable
  current := fun _ => none
  cpuState := fun _ => .init
  lock := fun _ => false
  pc := fun _ => .start
  kick := fun _ => false
  bsp := .ready
  submitted := 0

inductive Label
  | acquire (c : Cpuid)
  | getNextTask (c : Cpuid)
  /-- The branch for an empty queue. -/
  | fallBack (c : Cpuid)
  | release (c : Cpuid)
  | launch (c : Cpuid)
  /-- `set_task_state` by what the launched vCPU runs. -/
  | setTaskState (c : Cpuid) (state : TaskSchedState)
  /-- The vCPU returns, or an interrupt other than the kick ends the halt. -/
  | return (c : Cpuid)
  /-- The kick is delivered. -/
  | takeKick (c : Cpuid)
  | reacquire (c : Cpuid)
  | reset (c : Cpuid)
  | reEnqueue (c : Cpuid)
  /-- The next vCPU goes to the CPU that `get_next_submission_tq_cpuid` names. -/
  | submit (target : Cpuid)
  | lockTarget
  | kickTarget
deriving DecidableEq, Repr

def Label.isFallBack : Label → Bool
  | .fallBack _ => true
  | _ => false

variable (s : Sys)

/-- Moves CPU `c`. -/
def Sys.setPc (c : Cpuid) (pc : Pc) : Sys := { s with pc := Function.update s.pc c pc }

/-- `set_task_state`. -/
def setTaskState (c : Cpuid) (state : TaskSchedState) : Option Sys := do
  let current ← s.current c
  return { s with taskState := Function.update s.taskState current state }

/-- `__schedule`, the call of `launch_task` included.  A kick interrupts whatever runs with interrupts enabled, and
ends the halt. -/
def scheduleStep (c : Cpuid) : Pc → Label → Option Sys
  | .start, .acquire _ =>
      if s.lock c then none
      else some ({ s with lock := Function.update s.lock c true }.setPc c .locked)
  | .locked, .getNextTask _ => do
      let (l, next) ← tqGetNextTask s.links c
      return { s with links := l }.setPc c (.picked next)
  | .picked none, .fallBack _ =>
      some ({ s with cpuState := Function.update s.cpuState c .idle }.setPc c
        (.picked (some .idleTask)))
  | .picked (some task), .release _ =>
      some ({ s with lock := Function.update s.lock c false }.setPc c (.unlocked task))
  | .unlocked task, .launch _ => do
      let s ← setTaskState { s with current := Function.update s.current c (some task) } c .running
      return s.setPc c (.launched task)
  | .launched (.vcpu _), .setTaskState _ state => setTaskState s c state
  | .launched task, .return _ => some (s.setPc c (.returned task))
  | .returned task, .reacquire _ =>
      if s.lock c then none
      else some ({ s with lock := Function.update s.lock c true }.setPc c (.relocked task))
  | .relocked task, .reset _ =>
      some ({ s with
        cpuState := Function.update s.cpuState c .init
        lock := Function.update s.lock c false }.setPc c (.reinit task))
  | .reinit task, .reEnqueue _ => do
      let l ← tqSubmitTask s.links c task (s.taskState task)
      return { s with links := l }.setPc c .start
  | .start, .takeKick _ => if s.kick c then some { s with kick := Function.update s.kick c false }
      else none
  | .launched (.vcpu _), .takeKick _ =>
      if s.kick c then some { s with kick := Function.update s.kick c false } else none
  | .launched .idleTask, .takeKick _ =>
      if s.kick c then
        some ({ s with kick := Function.update s.kick c false }.setPc c (.returned .idleTask))
      else none
  | _, _ => none

/-- The loop of `sched_submit_vm`. -/
def submitStep : BspPc → Label → Option Sys
  | .ready, .submit target => do
      let schedu := SchedUnit.vcpu s.submitted
      let l ← tqSubmitTask s.links target schedu (s.taskState schedu)
      return { s with links := l, submitted := s.submitted + 1, bsp := .queued target }
  | .queued target, .lockTarget =>
      if s.lock target then none
      else some { s with lock := Function.update s.lock target true, bsp := .locked target }
  | .locked target, .kickTarget =>
      some { s with
        kick := if s.cpuState target = .idle then Function.update s.kick target true else s.kick
        lock := Function.update s.lock target false
        bsp := .ready }
  | _, _ => none

/-- The CPU that takes the step; the bootstrap processor for `none`. -/
def Label.cpu : Label → Option Cpuid
  | .acquire c | .getNextTask c | .fallBack c | .release c | .launch c | .setTaskState c _
  | .return c | .takeKick c | .reacquire c | .reset c | .reEnqueue c => some c
  | .submit _ | .lockTarget | .kickTarget => none

def step (l : Label) : Option Sys :=
  match l.cpu with
  | some c => scheduleStep s c (s.pc c) l
  | none => submitStep s s.bsp l

def Step (s : Sys) (l : Label) (s' : Sys) : Prop := step s l = some s'

/-! ### What a step does -/

/-- The steps, one by one. -/
inductive Trans (s : Sys) : Label → Sys → Prop
  | acquire {c : Cpuid} (hpc : s.pc c = .start) (hlock : s.lock c = false) :
      Trans s (.acquire c) ({ s with lock := Function.update s.lock c true }.setPc c .locked)
  | getNextTask {c : Cpuid} {l : Links Node} {next : Option SchedUnit} (hpc : s.pc c = .locked)
      (hcall : tqGetNextTask s.links c = some (l, next)) :
      Trans s (.getNextTask c) ({ s with links := l }.setPc c (.picked next))
  | fallBack {c : Cpuid} (hpc : s.pc c = .picked none) :
      Trans s (.fallBack c) ({ s with cpuState := Function.update s.cpuState c .idle }.setPc c
        (.picked (some .idleTask)))
  | release {c : Cpuid} {task : SchedUnit} (hpc : s.pc c = .picked (some task)) :
      Trans s (.release c)
        ({ s with lock := Function.update s.lock c false }.setPc c (.unlocked task))
  | launch {c : Cpuid} {task : SchedUnit} (hpc : s.pc c = .unlocked task) :
      Trans s (.launch c) ({ s with
        current := Function.update s.current c (some task)
        taskState := Function.update s.taskState task .running }.setPc c (.launched task))
  | setTaskState {c : Cpuid} {n : ℕ} {current : SchedUnit} {state : TaskSchedState}
      (hpc : s.pc c = .launched (.vcpu n)) (hcur : s.current c = some current) :
      Trans s (.setTaskState c state)
        { s with taskState := Function.update s.taskState current state }
  | return {c : Cpuid} {task : SchedUnit} (hpc : s.pc c = .launched task) :
      Trans s (.return c) (s.setPc c (.returned task))
  | takeKick {c : Cpuid} (hkick : s.kick c = true)
      (hpc : s.pc c = .start ∨ ∃ n, s.pc c = .launched (.vcpu n)) :
      Trans s (.takeKick c) { s with kick := Function.update s.kick c false }
  | wake {c : Cpuid} (hkick : s.kick c = true) (hpc : s.pc c = .launched .idleTask) :
      Trans s (.takeKick c)
        ({ s with kick := Function.update s.kick c false }.setPc c (.returned .idleTask))
  | reacquire {c : Cpuid} {task : SchedUnit} (hpc : s.pc c = .returned task)
      (hlock : s.lock c = false) :
      Trans s (.reacquire c)
        ({ s with lock := Function.update s.lock c true }.setPc c (.relocked task))
  | reset {c : Cpuid} {task : SchedUnit} (hpc : s.pc c = .relocked task) :
      Trans s (.reset c) ({ s with
        cpuState := Function.update s.cpuState c .init
        lock := Function.update s.lock c false }.setPc c (.reinit task))
  | reEnqueue {c : Cpuid} {task : SchedUnit} {l : Links Node} (hpc : s.pc c = .reinit task)
      (hcall : tqSubmitTask s.links c task (s.taskState task) = some l) :
      Trans s (.reEnqueue c) ({ s with links := l }.setPc c .start)
  | submit {target : Cpuid} {l : Links Node} (hbsp : s.bsp = .ready)
      (hcall : tqSubmitTask s.links target (.vcpu s.submitted) (s.taskState (.vcpu s.submitted)) =
        some l) :
      Trans s (.submit target)
        { s with links := l, submitted := s.submitted + 1, bsp := .queued target }
  | lockTarget {target : Cpuid} (hbsp : s.bsp = .queued target) (hlock : s.lock target = false) :
      Trans s .lockTarget
        { s with lock := Function.update s.lock target true, bsp := .locked target }
  | kickTarget {target : Cpuid} (hbsp : s.bsp = .locked target) :
      Trans s .kickTarget { s with
        kick := if s.cpuState target = .idle then Function.update s.kick target true else s.kick
        lock := Function.update s.lock target false
        bsp := .ready }

variable {s} {s' : Sys} {l : Label}

theorem scheduleStep_cases {c : Cpuid} (hl : l.cpu = some c)
    (h : scheduleStep s c (s.pc c) l = some s') : Trans s l s' := by
  generalize hpc : s.pc c = pc at h
  unfold scheduleStep at h
  split at h
  all_goals simp only [Label.cpu, Option.some.injEq] at hl
  all_goals try subst hl
  · split at h
    · cases h
    · cases h
      exact .acquire hpc (Bool.eq_false_iff.mpr ‹_›)
  · obtain ⟨⟨l', next⟩, hcall, h⟩ := Option.bind_eq_some_iff.mp h
    cases h
    exact .getNextTask hpc hcall
  · cases h
    exact .fallBack hpc
  · cases h
    exact .release hpc
  · simp only [setTaskState, Function.update_self, Option.bind_eq_bind, Option.bind_some,
      Option.pure_def, Option.some.injEq] at h
    cases h
    exact .launch hpc
  · obtain ⟨current, hcur, h⟩ := Option.bind_eq_some_iff.mp h
    cases h
    exact .setTaskState hpc hcur
  · cases h
    exact .return hpc
  · split at h
    · cases h
    · cases h
      exact .reacquire hpc (Bool.eq_false_iff.mpr ‹_›)
  · cases h
    exact .reset hpc
  · obtain ⟨l', hcall, h⟩ := Option.bind_eq_some_iff.mp h
    cases h
    exact .reEnqueue hpc hcall
  · split at h
    · cases h
      exact .takeKick ‹_› (.inl hpc)
    · cases h
  · split at h
    · cases h
      exact .takeKick ‹_› (.inr ⟨_, hpc⟩)
    · cases h
  · split at h
    · cases h
      exact .wake ‹_› hpc
    · cases h
  · cases h

theorem submitStep_cases (h : submitStep s s.bsp l = some s') : Trans s l s' := by
  generalize hbsp : s.bsp = bsp at h
  unfold submitStep at h
  split at h
  · obtain ⟨l', hcall, h⟩ := Option.bind_eq_some_iff.mp h
    cases h
    exact .submit hbsp hcall
  · split at h
    · cases h
    · cases h
      exact .lockTarget hbsp (Bool.eq_false_iff.mpr ‹_›)
  · cases h
    exact .kickTarget hbsp
  · cases h

/-- **Inversion.** -/
theorem step_cases (h : Step s l s') : Trans s l s' := by
  unfold Step step at h
  split at h
  · exact scheduleStep_cases ‹_› h
  · exact submitStep_cases h

/-! ### The lists of the task queues -/

/-- `u` is in the list `k` of CPU `c`. -/
def Linked (s : Sys) (k : Queue) (c : Cpuid) (u : SchedUnit) : Prop :=
  ∃ xs, Ring s.links (.head k c) xs ∧ .unit u ∈ xs

end HyveMind.Sched
