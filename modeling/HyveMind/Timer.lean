import HyveMind.Lib.ArrayHeap
import HyveMind.Types

/-! # Timers

`timer.c`: the per-CPU heap of pending timers and the interrupt handler of the hardware timer.

A `struct timer` is known by its address; `timers` is the memory that holds the structures and
`flattenedTree` the array of addresses.  `hwDeadline` is the last value that was given to
`arch_reprogram_timer`, which always succeeds.  Two logs record what the outside world sees: the
timers that `add_timer` accepted and the calls of timer actions, each with the structure at that
moment.

A timer action is the list of calls of the timer API that it makes.  The values of `read_tsc` are
an argument of the handler; `none` is a handler that has not returned yet.  The loads of
`heapify_down` from entries that it then does not use, interrupt masking and printing are left
out. -/

namespace HyveMind

open Lib.ArrayHeap

/-- `enum timer_op_status`. -/
inductive TimerOpStatus
  | success | initFailed | noMem | noCapacity | programmingFailed | error
deriving DecidableEq, Repr

/-- `enum timer_type`. -/
inductive TimerType
  | oneshot | periodic
deriving DecidableEq, Repr

/-- `struct timer`, without the action, its argument and the CPU. -/
structure Timer where
  elapseDeadline : ℕ
  periodicTicks : ℕ
  type : TimerType
deriving DecidableEq, Repr

/-- `timer->elapse_deadline += timer->periodic_ticks`. -/
def Timer.advanced (t : Timer) : Timer :=
  { t with elapseDeadline := u64 (t.elapseDeadline + t.periodicTicks) }

/-- The timers of one CPU. -/
structure TimerCpu where
  timers : ℕ → Timer
  flattenedTree : ℕ → ℕ
  capacity : ℕ
  insertionIdx : ℕ
  hwDeadline : Option ℕ
  accepted : List (ℕ × Timer)
  invoked : List (ℕ × Timer)

namespace TimerCpu

/-- `HEAP_ROOT_INDEX`. -/
abbrev heapRootIndex : ℕ := 1

/-- `heap_parent_idx`. -/
abbrev heapParentIdx (idx : ℕ) : ℕ := idx / 2

/-- `heap_left_idx`. -/
abbrev heapLeftIdx (idx : ℕ) : ℕ := idx * 2

/-- `heap_right_idx`. -/
abbrev heapRightIdx (idx : ℕ) : ℕ := idx * 2 + 1

/-- `INIT_TIMER_HEAP_CAPACITY`. -/
abbrev initTimerHeapCapacity : ℕ := 512

/-- `heap_max_idx`. -/
def heapMaxIdx (s : TimerCpu) : ℕ := s.insertionIdx - 1

/-- `elapse_deadline` of the timer at an address. -/
def deadline (s : TimerCpu) (timer : ℕ) : ℕ := (s.timers timer).elapseDeadline

/-- `init_timer_heap`, with the memory as it is found. -/
def initTimerHeap (timers : ℕ → Timer) (tree : ℕ → ℕ) : TimerCpu where
  timers := timers
  flattenedTree := tree
  capacity := initTimerHeapCapacity
  insertionIdx := heapRootIndex
  hwDeadline := none
  accepted := []
  invoked := []

/-! ### The heap -/

/-- `heap_swap`. -/
def heapSwap (arr : ℕ → ℕ) (idx1 idx2 : ℕ) : ℕ → ℕ := swap arr idx1 idx2

/-- `heapify_up`; `none` if the fuel does not suffice. -/
def heapifyUp (deadline : ℕ → ℕ) : ℕ → (ℕ → ℕ) → ℕ → Option (ℕ → ℕ)
  | 0, _, _ => none
  | fuel + 1, tree, idx =>
      let parentIdx := heapParentIdx idx
      if 0 < parentIdx then
        if deadline (tree parentIdx) ≤ deadline (tree idx) then some tree
        else heapifyUp deadline fuel (heapSwap tree idx parentIdx) parentIdx
      else some tree

/-- The index that one round of `heapify_down` chooses. -/
def pickLargest (deadline : ℕ → ℕ) (maxIdx : ℕ) (tree : ℕ → ℕ) (idx : ℕ) : ℕ :=
  let left := heapLeftIdx idx
  let right := heapRightIdx idx
  let largest := if left ≤ maxIdx ∧ deadline (tree left) < deadline (tree idx) then left else idx
  if right ≤ maxIdx ∧ deadline (tree right) < deadline (tree largest) then right else largest

/-- `heapify_down`; `none` if the fuel does not suffice. -/
def heapifyDown (deadline : ℕ → ℕ) (maxIdx : ℕ) : ℕ → (ℕ → ℕ) → ℕ → Option (ℕ → ℕ)
  | 0, _, _ => none
  | fuel + 1, tree, idx =>
      let largest := pickLargest deadline maxIdx tree idx
      if largest = idx then some tree
      else heapifyDown deadline maxIdx fuel (heapSwap tree idx largest) largest

/-- `delete_heap_element`. -/
def deleteHeapElement (s : TimerCpu) (idx : ℕ) : Option TimerCpu :=
  if s.insertionIdx ≤ idx then some s
  else do
    let tree := Function.update s.flattenedTree idx (s.flattenedTree s.heapMaxIdx)
    let s := { s with flattenedTree := tree, insertionIdx := s.insertionIdx - 1 }
    let tree ← heapifyDown s.deadline s.heapMaxIdx (s.insertionIdx + 1) tree idx
    return { s with flattenedTree := tree }

/-- `delete_root`. -/
def deleteRoot (s : TimerCpu) : Option TimerCpu := s.deleteHeapElement heapRootIndex

/-- `get_heap_root`. -/
def getHeapRoot (s : TimerCpu) : Option ℕ :=
  if s.insertionIdx ≤ heapRootIndex then none else some (s.flattenedTree heapRootIndex)

/-- `heap_add_timer`. -/
def heapAddTimer (s : TimerCpu) (timer : ℕ) : Option (TimerCpu × TimerOpStatus) :=
  if s.capacity ≤ s.insertionIdx then some (s, .noCapacity)
  else do
    let tree := Function.update s.flattenedTree s.insertionIdx timer
    let tree ← heapifyUp s.deadline (s.insertionIdx + 1) tree s.insertionIdx
    return ({ s with flattenedTree := tree, insertionIdx := s.insertionIdx + 1 }, .success)

/-! ### The interface -/

/-- `arch_reprogram_timer`. -/
def archReprogramTimer (s : TimerCpu) (deadline : ℕ) : TimerCpu × TimerOpStatus :=
  ({ s with hwDeadline := some deadline }, .success)

/-- `add_timer`. -/
def addTimer (s : TimerCpu) (timer : ℕ) : Option (TimerCpu × TimerOpStatus) := do
  let (s, ret) ← s.heapAddTimer timer
  if ret ≠ .success then return (s, .error)
  else do
    let earliest ← s.getHeapRoot
    if s.deadline earliest = s.deadline timer then
      let (s, ret) := s.archReprogramTimer (s.deadline timer)
      if ret ≠ .success then return (s, .programmingFailed) else return (s, .success)
    else return (s, .success)

/-- The structure at an address replaced. -/
def setTimer (s : TimerCpu) (timer : ℕ) (val : Timer) : TimerCpu :=
  { s with timers := Function.update s.timers timer val }

/-- What the users of timers do: fill in the structure at an address (`__init_timer`), and
`add_timer`. -/
inductive Cmd
  | init (timer : ℕ) (val : Timer)
  | add (timer : ℕ)
deriving DecidableEq, Repr

/-- One such call.  An accepted timer is logged. -/
def runCmd (s : TimerCpu) : Cmd → Option TimerCpu
  | .init timer val => some (s.setTimer timer val)
  | .add timer => do
      let (s', ret) ← s.addTimer timer
      if ret = .success then return { s' with accepted := s'.accepted ++ [(timer, s'.timers timer)] }
      else return s'

/-- A family of timer actions: the calls that the action of the timer at an address makes, given
the time of the interrupt. -/
abbrev Actions := ℕ → ℕ → TimerCpu → List Cmd

variable (act : Actions)

/-- `timer->timer_action(now, timer->data)`. -/
def timerAction (now timer : ℕ) (s : TimerCpu) : Option TimerCpu :=
  (act now timer s).foldlM runCmd { s with invoked := s.invoked ++ [(timer, s.timers timer)] }

/-- One round of `irq_timer_handler`, for a timer that has expired. -/
def expire (now earliest : ℕ) (s : TimerCpu) : Option TimerCpu := do
  let s ← s.timerAction act now earliest
  let s ← s.deleteRoot
  if (s.timers earliest).type = .periodic then do
    let (s, _) ← (s.setTimer earliest (s.timers earliest).advanced).addTimer earliest
    return s
  else return s

/-- The loop of `irq_timer_handler`; every round that finds a timer reads the clock. -/
def handlerLoop (now : ℕ) : List ℕ → TimerCpu → Option TimerCpu
  | [], s =>
      match s.getHeapRoot with
      | none => some s
      | some _ => none
  | tsc :: tscs, s =>
      match s.getHeapRoot with
      | none => some s
      | some earliest =>
          if tsc < s.deadline earliest then some (s.archReprogramTimer (s.deadline earliest)).1
          else (s.expire act now earliest).bind (handlerLoop now tscs)

/-- `irq_timer_handler`, with the values of `read_tsc`. -/
def irqTimerHandler (tscs : List ℕ) (s : TimerCpu) : Option TimerCpu :=
  match tscs with
  | [] => none
  | now :: tscs => s.handlerLoop act now tscs

end TimerCpu

end HyveMind
