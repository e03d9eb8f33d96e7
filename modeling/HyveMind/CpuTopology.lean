import HyveMind.CpuMask
import HyveMind.Sched

/-! # The CPU topology

`setup.c`: the bootstrap processor registers every CPU that the boot loader reports, the CPUs put
themselves into the mask of the online ones, and `init_task_queues` of `sched.c` loops over the mask
of the present ones.  Shifting a word by its width or more has no defined value; it is any value
here (`undef`).

The tables have room for 64 CPUs and the masks for 32.  `enumerates_iff`: the loops reach every
registered CPU exactly for up to 32 of them. -/

namespace HyveMind.CpuTopology

open Lib ListHead
open Sched (CpuState Node Queue SchedUnit)

/-- The part of `struct cpu` that concerns the topology. -/
structure Cpu where
  id : Cpuid
  lapicId : Lapicid
  bsp : Bool
  state : CpuState
deriving DecidableEq, Repr

/-- `INIT_CPU`. -/
def initCpu : Cpu where
  id := invalidCpuid
  lapicId := invalidLapicId
  bsp := false
  state := .notInit

structure Topology where
  ids : IdTables
  /-- The per-CPU variable `cpu`. -/
  cpus : List Cpu
  cpumaskPresent : Cpumask
  cpumask : Cpumask
deriving DecidableEq, Repr

def Topology.init : Topology where
  ids := .init
  cpus := List.replicate maxCpus initCpu
  cpumaskPresent := 0
  cpumask := 0

section Code

variable (undef : ℕ → Cpumask)

end Code

/-- The per-CPU variable `task_queue`. -/
structure TaskQueues where
  lock : Cpuid → Bool
  links : Links Node
  current : Cpuid → Option SchedUnit

/-- An empty task queue. -/
structure TaskQueues.Initialised (tq : TaskQueues) (c : Cpuid) : Prop where
  lock : tq.lock c = false
  tasks : ∀ k, Ring tq.links (.head k c) []
  current : tq.current c = none

/-- `ids` are registered. -/
structure Mapped (s : Topology) (ids : List Lapicid) : Prop where
  holds : Holds s.ids ids
  cpus_length : s.cpus.length = maxCpus
  cpu : ∀ c < ids.length, ∃ cpu, s.cpus[c]? = some cpu ∧ cpu.id = c
  present : ∀ i < cpumaskLen, s.cpumaskPresent.getLsbD i = true ↔ i < ids.length

variable {undef : ℕ → Cpumask} {mpInfo : MpResponse} {s : Topology} {ids : List Lapicid}
  {x : Lapicid} {bsp : Bool}

end HyveMind.CpuTopology
