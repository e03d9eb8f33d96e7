import HyveMind.CpuMask
import HyveMind.SchedQueues
import HyveMind.Lib.RoundRobin

/-! # Placement of vCPUs

`sched_submit_vm` takes the CPU for each vCPU from `get_next_submission_tq_cpuid`.  The static
variable of that function holds the CPU of the vCPU before, also across VMs, or `INVALID_CPUID` when
the next search starts at the bottom of the mask.

`AtTurn` ties the variable to the number of vCPUs placed so far, and with it the online CPUs take
turns. -/

namespace HyveMind.Sched

open Lib CpuTopology

/-- `get_next_submission_tq_cpuid`, from the value of `prev_submission_tq_cpuid` to its new value,
which is also the value returned. -/
def getNextSubmissionTqCpuid (cpumask : Cpumask) (prev : ℕ) : ℕ :=
  if prev = invalidCpuid then getNextCpuidInMask cpumask 0
  else
    let next := getNextCpuidInMask cpumask (u32 (prev + 1))
    if next = invalidCpuid then getNextSubmissionTqCpuid cpumask next else next
termination_by if prev = invalidCpuid then 0 else 1
decreasing_by
  rename_i hprev hnext
  rw [if_pos hnext, if_neg hprev]
  exact Nat.zero_lt_one

/-- `sched_submit_vm` with `n` vCPUs still to be placed: the new value of
`prev_submission_tq_cpuid`, and what the bootstrap processor does. -/
def schedSubmitVm (cpumask : Cpumask) : ℕ → ℕ → ℕ × List Label
  | prev, 0 => (prev, [])
  | prev, n + 1 =>
      let cpuid := getNextSubmissionTqCpuid cpumask prev
      let (prev, ls) := schedSubmitVm cpumask cpuid n
      (prev, submission cpuid ++ ls)

/-- `sched_submit_vm` for one VM after the other; a VM is given by its number of vCPUs. -/
def submitVms (cpumask : Cpumask) : ℕ → List ℕ → ℕ × List Label
  | prev, [] => (prev, [])
  | prev, nrVcpus :: vms =>
      let (prev, ls) := schedSubmitVm cpumask prev nrVcpus
      let (prev, ls') := submitVms cpumask prev vms
      (prev, ls ++ ls')

/-- The queue that a step of the bootstrap processor puts a vCPU into. -/
def Label.placement : Label → Option Cpuid
  | .submit target => some target
  | _ => none

/-- The CPUs that the vCPUs are placed on, in this order. -/
def placements (ls : List Label) : List Cpuid := ls.filterMap Label.placement

/-- The number of bits that are set. -/
def numCpus (cpumask : Cpumask) : ℕ := (List.range cpumaskLen).countP cpumask.getLsbD

/-! ### The cursor -/

variable {cpumask : Cpumask} {prev j : ℕ}

/-- The value of `prev_submission_tq_cpuid` when `j` vCPUs have been placed. -/
def AtTurn (cpumask : Cpumask) (prev : ℕ) : ℕ → Prop
  | 0 => prev = invalidCpuid
  | j + 1 => (cpusFrom cpumask 0)[j % (cpusFrom cpumask 0).length]? = some prev

theorem numCpus_eq (cpumask : Cpumask) : numCpus cpumask = (cpusFrom cpumask 0).length := by
  rw [numCpus, cpusFrom, membersFrom, ← List.range_eq_range', List.countP_eq_length_filter,
    Nat.sub_zero]

theorem mem_cpus {c : ℕ} : c ∈ cpusFrom cpumask 0 ↔ cpumask.getLsbD c = true := by
  rw [mem_cpusFrom]
  refine ⟨fun h => h.2.2, fun h => ⟨Nat.zero_le _, ?_, h⟩⟩
  exact BitVec.lt_of_getLsbD h

theorem cpus_ne_nil (h : cpumask ≠ 0) : cpusFrom cpumask 0 ≠ [] := by
  intro hnil
  apply h
  refine BitVec.eq_of_getLsbD_eq fun i _ => ?_
  have hmem : i ∉ cpusFrom cpumask 0 := by
    rw [hnil]
    exact List.not_mem_nil
  rw [mem_cpus, Bool.not_eq_true] at hmem
  rw [hmem]
  simp

theorem getElem?_zero_cpus (hmask : cpumask ≠ 0) :
    (cpusFrom cpumask 0)[0]? = some (getNextCpuidInMask cpumask 0) := by
  rw [getNextCpuidInMask_eq cpumask (by norm_num)]
  cases hcpus : cpusFrom cpumask 0 with
  | nil => exact absurd hcpus (cpus_ne_nil hmask)
  | cons c cs => rfl

theorem getNextCpuidInMask_succ {i : ℕ} (h : (cpusFrom cpumask 0)[i]? = some prev) :
    getNextCpuidInMask cpumask (u32 (prev + 1)) =
      ((cpusFrom cpumask 0)[i + 1]?).getD invalidCpuid := by
  obtain ⟨hi, hget⟩ := List.getElem?_eq_some_iff.mp h
  have hlt : prev < cpumaskLen := (mem_cpusFrom.mp (hget ▸ List.getElem_mem hi)).2.1
  have hword : prev + 1 < 2 ^ 32 := lt_of_le_of_lt (Nat.succ_le_of_lt hlt) (by decide)
  have hsplit : cpusFrom cpumask 0 =
      (cpusFrom cpumask 0).take i ++ prev :: (cpusFrom cpumask 0).drop (i + 1) := by
    rw [← hget, ← List.drop_eq_getElem_cons hi, List.take_append_drop]
  have hrest : (cpusFrom cpumask 0).drop (i + 1) = cpusFrom cpumask (prev + 1) :=
    membersFrom_eq_append hsplit
  rw [u32_of_lt hword, getNextCpuidInMask_eq cpumask hword, ← hrest, List.headD_eq_head?_getD,
    List.head?_drop]

theorem AtTurn.next (h : AtTurn cpumask prev j) (hmask : cpumask ≠ 0) :
    AtTurn cpumask (getNextSubmissionTqCpuid cpumask prev) (j + 1) := by
  have hpos : 0 < (cpusFrom cpumask 0).length := List.length_pos_iff.mpr (cpus_ne_nil hmask)
  have hstart : getNextSubmissionTqCpuid cpumask invalidCpuid = getNextCpuidInMask cpumask 0 := by
    rw [getNextSubmissionTqCpuid, if_pos rfl]
  cases j with
  | zero =>
      have hprev : prev = invalidCpuid := h
      rw [AtTurn, hprev, hstart, Nat.zero_mod, getElem?_zero_cpus hmask]
  | succ j =>
      have hturn : (cpusFrom cpumask 0)[j % (cpusFrom cpumask 0).length]? = some prev := h
      have hsearch := getNextCpuidInMask_succ hturn
      have hmod := Nat.mod_add_mod j (cpusFrom cpumask 0).length 1
      have hlt := Nat.mod_lt j hpos
      have hvalid : prev ≠ invalidCpuid :=
        ne_invalidCpuid (lt_trans (mem_cpusFrom.mp (List.mem_of_getElem? hturn)).2.1 (by decide))
      rw [AtTurn, getNextSubmissionTqCpuid, if_neg hvalid, ← hmod]
      generalize j % (cpusFrom cpumask 0).length = i at *
      by_cases hlast : i + 1 < (cpusFrom cpumask 0).length
      · rw [List.getElem?_eq_getElem hlast, Option.getD_some] at hsearch
        have hmem := List.getElem_mem hlast
        have hnext : getNextCpuidInMask cpumask (u32 (prev + 1)) ≠ invalidCpuid := by
          rw [hsearch]
          exact ne_invalidCpuid (lt_trans (mem_cpusFrom.mp hmem).2.1 (by decide))
        rw [Nat.mod_eq_of_lt hlast, if_neg hnext, hsearch, List.getElem?_eq_getElem hlast]
      · have hround : i + 1 = (cpusFrom cpumask 0).length := by omega
        rw [List.getElem?_eq_none (Nat.not_lt.mp hlast), Option.getD_none] at hsearch
        rw [if_pos hsearch, hsearch, hstart, hround, Nat.mod_self, getElem?_zero_cpus hmask]

/-! ### Runs -/

theorem placements_append (ls ls' : List Label) :
    placements (ls ++ ls') = placements ls ++ placements ls' := List.filterMap_append

theorem placements_submission (c : Cpuid) : placements (submission c) = [c] := rfl

theorem schedSubmitVm_inTurn (hmask : cpumask ≠ 0) {cs : List ℕ}
    (hcs : InTurn (cpusFrom cpumask 0) cs) (h : AtTurn cpumask prev cs.length) (n : ℕ) :
    InTurn (cpusFrom cpumask 0) (cs ++ placements (schedSubmitVm cpumask prev n).2) ∧
      AtTurn cpumask (schedSubmitVm cpumask prev n).1 (cs.length + n) ∧
      (placements (schedSubmitVm cpumask prev n).2).length = n := by
  induction n generalizing prev cs with
  | zero =>
      refine ⟨?_, h, rfl⟩
      rwa [schedSubmitVm, placements, List.filterMap_nil, List.append_nil]
  | succ n ih =>
      have hnext := h.next hmask
      generalize hc : getNextSubmissionTqCpuid cpumask prev = c at hnext
      have hcs' : InTurn (cpusFrom cpumask 0) (cs ++ [c]) := hcs.concat hnext
      have hlen : (cs ++ [c]).length = cs.length + 1 := List.length_append
      obtain ⟨hturn, hat, hplaced⟩ := ih hcs' (hlen ▸ hnext)
      simp only [schedSubmitVm, hc, placements_append, placements_submission]
      refine ⟨?_, ?_, ?_⟩
      · rwa [List.append_assoc] at hturn
      · rw [hlen, Nat.add_assoc, Nat.add_comm 1 n] at hat
        exact hat
      · rw [List.length_append, hplaced, List.length_singleton, Nat.add_comm]

theorem submitVms_inTurn (hmask : cpumask ≠ 0) {cs : List ℕ}
    (hcs : InTurn (cpusFrom cpumask 0) cs) (h : AtTurn cpumask prev cs.length) (vms : List ℕ) :
    InTurn (cpusFrom cpumask 0) (cs ++ placements (submitVms cpumask prev vms).2) ∧
      (placements (submitVms cpumask prev vms).2).length = vms.sum := by
  induction vms generalizing prev cs with
  | nil =>
      refine ⟨?_, rfl⟩
      rwa [submitVms, placements, List.filterMap_nil, List.append_nil]
  | cons n vms ih =>
      obtain ⟨hturn, hat, hplaced⟩ := schedSubmitVm_inTurn hmask hcs h n
      have hlen : (cs ++ placements (schedSubmitVm cpumask prev n).2).length = cs.length + n := by
        rw [List.length_append, hplaced]
      obtain ⟨hturns, hsum⟩ := ih hturn (hlen ▸ hat)
      simp only [submitVms, placements_append]
      refine ⟨?_, ?_⟩
      · rwa [List.append_assoc] at hturns
      · rw [List.length_append, hplaced, hsum, List.sum_cons]

/-- Every vCPU is placed on an online CPU, as many in a row as there are online CPUs are placed on
different ones, and the numbers of vCPUs of two online CPUs never differ by more than one. -/
theorem placement_balanced (cpumask : Cpumask) (hmask : cpumask ≠ 0) (vms : List ℕ) :
    let cs := placements (submitVms cpumask invalidCpuid vms).2
    cs.length = vms.sum ∧ (∀ c ∈ cs, cpumask.getLsbD c = true) ∧
      (∀ w, w <:+: cs → w.length = numCpus cpumask → w.Nodup) ∧
      ∀ p, p <+: cs → ∀ a b, cpumask.getLsbD a = true → cpumask.getLsbD b = true →
        p.count a ≤ p.count b + 1 := by
  intro cs
  have hnodup : (cpusFrom cpumask 0).Nodup := membersFrom_pairwise.nodup
  have h₀ : AtTurn cpumask invalidCpuid ([] : List ℕ).length := rfl
  obtain ⟨hturn, hlen⟩ := submitVms_inTurn hmask (inTurn_nil _) h₀ vms
  rw [List.nil_append] at hturn
  refine ⟨hlen, ?_, ?_, ?_⟩
  · intro c hc
    exact mem_cpus.mp (hturn.mem hc)
  · intro w hw hwlen
    rw [numCpus_eq] at hwlen
    exact hturn.window_nodup hnodup hw hwlen.le
  · rintro p ⟨q, hpq⟩ a b ha hb
    have hp : InTurn (cpusFrom cpumask 0) (p ++ q) := by rwa [hpq]
    exact hp.of_append.count_le hnodup (mem_cpus.mpr ha) (mem_cpus.mpr hb)

/-- Two VMs with two vCPUs each on the CPUs 0, 2 and 5. -/
theorem placement_balanced_three_cpus :
    (0b100101#32 : Cpumask) ≠ 0 ∧ numCpus 0b100101#32 = 3 ∧
      (placements (submitVms 0b100101#32 invalidCpuid [2, 2]).2).length = 4 ∧
      (placements (submitVms 0b100101#32 invalidCpuid [2, 2]).2).count 0 ≤
        (placements (submitVms 0b100101#32 invalidCpuid [2, 2]).2).count 5 + 1 := by
  have hmask : (0b100101#32 : Cpumask) ≠ 0 := by decide
  obtain ⟨hlen, -, -, hcount⟩ := placement_balanced 0b100101#32 hmask [2, 2]
  exact ⟨hmask, by decide, hlen, hcount _ (List.prefix_refl _) 0 5 (by decide) (by decide)⟩

end HyveMind.Sched
