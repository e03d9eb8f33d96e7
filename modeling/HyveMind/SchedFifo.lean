import HyveMind.Lib.Fifo
import HyveMind.SchedWakeup

/-! # Taking turns on one CPU

A CPU and the submissions to it, from any runnable queue.  The runnable list and the place of the CPU in
`__schedule` are a queue with one server (`Refines`): the pointer operations of a step are the event of
`Lib.Fifo` that `event` names, and the other steps change neither.  `round_robin` is what the queue
guarantees, read back for the CPU. -/

namespace HyveMind.Sched

open Lib ListHead

/-! ### The runs -/

/-- The runnable list of CPU `c`. -/
def RunnableIs (s : Sys) (c : Cpuid) (xs : List SchedUnit) : Prop :=
  Ring s.links (.head .runnableTasks c) (xs.map .unit)

/-- The states in which `tq_submit_task` puts a unit into the runnable list. -/
def TaskSchedState.canRun : TaskSchedState → Bool
  | .running | .runnable => true
  | .notSchedulable | .blocked | .killed => false

/-- What a step of CPU `c`, or of a submission to it, does to the queue. -/
def event (s : Sys) (c : Cpuid) : Label → Option (Fifo.Event SchedUnit)
  | .getNextTask _ => (tqGetNextTask s.links c).map fun r => r.2.elim .look .take
  | .fallBack _ => some (.enter .idleTask)
  | .launch _ => (s.pc c).task.map .launch
  | .reEnqueue _ => (s.pc c).task.map fun u => if (s.taskState u).canRun then .back u else .out u
  | .submit _ =>
      if (s.taskState (.vcpu s.submitted)).canRun then some (.put (.vcpu s.submitted)) else none
  | _ => none

/-- The steps of a system with the one CPU `c`, with their events. -/
def StepOn (c : Cpuid) (s : Sys) (lb : Label × Option (Fifo.Event SchedUnit)) (s' : Sys) : Prop :=
  Step s lb.1 s' ∧ lb.1.concerns c = true ∧ lb.2 = event s c lb.1

def events (ls : List (Label × Option (Fifo.Event SchedUnit))) : List (Fifo.Event SchedUnit) :=
  ls.filterMap Prod.snd

/-- A state between two rounds, with the units `xs` in the runnable list and `ys` in the blocked list. -/
structure Begins (s : Sys) (c : Cpuid) (xs ys : List SchedUnit) : Prop where
  runnable : RunnableIs s c xs
  blocked : Ring s.links (.head .blockedTasks c) (ys.map .unit)
  others : ∀ k c', c' ≠ c → Ring s.links (.head k c') []
  distinct : (xs ++ ys).Nodup
  pc : ∀ c', s.pc c' = .start
  submitted : ∀ n, .vcpu n ∈ xs ++ ys → n < s.submitted
  idleTask : .idleTask ∉ ys
  idleState : (s.taskState .idleTask).canRun = true

/-! ### The queue behind the pointers -/

/-- The place of the CPU in its round. -/
def Pc.slot : Pc → Slot SchedUnit
  | .start | .locked => .free
  | .picked none => .empty
  | .picked (some task) | .unlocked task => .picked task
  | .launched task | .returned task | .relocked task | .reinit task => .launched task

theorem Pc.toList_slot (pc : Pc) : pc.slot.toList = pc.task.toList := by
  cases pc with
  | picked task => cases task <;> rfl
  | _ => rfl

/-- The CPU is the server of the queue `f`. -/
structure Refines (c : Cpuid) (s : Sys) (f : Fifo SchedUnit) : Prop where
  placed : ∃ q place home, Placed s q place home ∧ (home = none ∨ home = some c)
  queue : RunnableIs s c f.queue
  slot : f.slot = (s.pc c).slot
  gone : ∀ u ∈ f.gone, ∃ n < s.submitted, u = .vcpu n
  distinct : f.Distinct

variable {s s' : Sys} {c : Cpuid} {lb : Label} {q : Contents} {place : SchedUnit → Place}
  {home : Option Cpuid} {f : Fifo SchedUnit} {l l' : Links Node} {u : SchedUnit} {xs ys : List SchedUnit}
  {state : TaskSchedState}

theorem unit_injective : Function.Injective Node.unit := fun _ _ h => Node.unit.inj h

theorem Queues.runnable_eq (h : Queues l q place)
    (hring : Ring l (.head .runnableTasks c) (xs.map .unit)) : q .runnableTasks c = xs :=
  List.map_injective_iff.mpr unit_injective ((h.ring .runnableTasks c).unique hring)

theorem canRun_iff : state.canRun = true ↔ state = .runnable ∨ state = .running := by
  cases state <;> simp [TaskSchedState.canRun]

theorem Queues.submit_runnable (h : Queues l q place) (hu : ∀ k c, place u ≠ .queue k c)
    (hcall : tqSubmitTask l c u state = some l') : Ring l' (.head .runnableTasks c)
      ((if state.canRun then q .runnableTasks c ++ [u] else q .runnableTasks c).map .unit) := by
  obtain ⟨l'', q', p, hcall', hqueues, -, hrun, hcontents⟩ := h.submit hu c state
  rw [hcall', Option.some.injEq] at hcall
  subst hcall
  have hring := hqueues.ring .runnableTasks c
  have hmem := hqueues.mem .runnableTasks c u
  rw [Function.update_self, hrun, ← canRun_iff] at hmem
  have hout : u ∉ q .runnableTasks c := fun hin => hu _ _ ((h.mem _ _ _).mp hin)
  rcases hcontents .runnableTasks c with hsame | ⟨hadd, hp⟩
  · rw [hsame] at hring hmem
    rwa [if_neg fun hcan => hout (hmem.mpr hcan)]
  · rw [hadd] at hring
    rwa [if_pos (canRun_iff.mpr (hrun.mp hp))]

/-- A step that changes neither the runnable list nor the slot. -/
theorem Refines.quiet (h : Refines c s f) (hstep : Trans s lb s') (hc : lb.concerns c = true)
    (hlinks : s'.links = s.links) (hsub : s'.submitted = s.submitted)
    (hslot : (s'.pc c).slot = (s.pc c).slot) : Refines c s' f := by
  obtain ⟨q, place, home, hplaced, hhome⟩ := h.placed
  refine ⟨hplaced.step_one hhome hstep hc, ?_, h.slot.trans hslot.symm, ?_, h.distinct⟩
  · rw [RunnableIs, hlinks]
    exact h.queue
  · rw [hsub]
    exact h.gone

theorem Refines.fire (h : Refines c s f) {e : Fifo.Event SchedUnit} {f' : Fifo SchedUnit}
    (hstep : Trans s lb s') (hc : lb.concerns c = true) (hevent : event s c lb = some e)
    (hfifo : Fifo.Step f e f') (hqueue : RunnableIs s' c f'.queue) (hslot : f'.slot = (s'.pc c).slot)
    (hgone : ∀ u ∈ f'.gone, ∃ n < s'.submitted, u = .vcpu n) :
    ∃ e f', event s c lb = some e ∧ Fifo.Step f e f' ∧ Refines c s' f' := by
  obtain ⟨q, place, home, hplaced, hhome⟩ := h.placed
  exact ⟨e, f', hevent, hfifo, hplaced.step_one hhome hstep hc, hqueue, hslot, hgone,
    h.distinct.step hfifo⟩

theorem Refines.getNextTask (h : Refines c s f) (hstep : Trans s (.getNextTask c) s') :
    ∃ e f', event s c (.getNextTask c) = some e ∧ Fifo.Step f e f' ∧ Refines c s' f' := by
  have hstep' := hstep
  cases hstep' with
  | @getNextTask _ l next hpc hcall =>
      obtain ⟨q, place, home, hplaced, -⟩ := h.placed
      have hq := hplaced.queues.runnable_eq h.queue
      obtain ⟨q', place', hplaced', hnext, htail⟩ := hplaced.getNextTask hpc hcall
      have hring : RunnableIs ({ s with links := l }.setPc c (.picked next)) c f.queue.tail := by
        rw [← hq, ← htail]
        exact hplaced'.queues.ring .runnableTasks c
      have hslot := h.slot
      rw [hpc] at hslot
      have hevent : event s c (.getNextTask c) = some (next.elim .look .take) := by
        rw [event, hcall]
        rfl
      obtain ⟨queue, slot, gone⟩ := f
      obtain rfl : slot = .free := hslot
      rw [hq] at hnext
      cases queue with
      | nil =>
          obtain rfl : next = none := hnext
          refine h.fire hstep (decide_eq_true rfl) hevent .look hring ?_ h.gone
          rw [setPc_pc, if_pos rfl]
          rfl
      | cons u queue =>
          obtain rfl : next = some u := hnext
          refine h.fire hstep (decide_eq_true rfl) hevent .take hring ?_ h.gone
          rw [setPc_pc, if_pos rfl]
          rfl

theorem Refines.fallBack (h : Refines c s f) (hstep : Trans s (.fallBack c) s') :
    ∃ e f', event s c (.fallBack c) = some e ∧ Fifo.Step f e f' ∧ Refines c s' f' := by
  have hstep' := hstep
  cases hstep' with
  | fallBack hpc =>
      obtain ⟨q, place, home, hplaced, hhome⟩ := h.placed
      have hnone : home = none := by
        rcases hhome with hhome | rfl
        · exact hhome
        · exact absurd hpc hplaced.found_of_home
      have hfree := hplaced.idleFree hnone
      have hnew : SchedUnit.idleTask ∉ f.queue ++ f.gone := by
        intro hmem
        rcases List.mem_append.mp hmem with hmem | hmem
        · rw [← hplaced.queues.runnable_eq h.queue, hplaced.queues.mem, hfree] at hmem
          cases hmem
        · obtain ⟨n, -, hn⟩ := h.gone _ hmem
          cases hn
      have hslot := h.slot
      rw [hpc] at hslot
      obtain ⟨queue, slot, gone⟩ := f
      obtain rfl : slot = .empty := hslot
      refine h.fire hstep (decide_eq_true rfl) rfl (.enter hnew) h.queue ?_ h.gone
      rw [setPc_pc, if_pos rfl]
      rfl

theorem Refines.launch (h : Refines c s f) (hstep : Trans s (.launch c) s') :
    ∃ e f', event s c (.launch c) = some e ∧ Fifo.Step f e f' ∧ Refines c s' f' := by
  have hstep' := hstep
  cases hstep' with
  | @launch _ task hpc =>
      have hslot := h.slot
      rw [hpc] at hslot
      have hevent : event s c (.launch c) = some (.launch task) := by
        rw [event, hpc]
        rfl
      obtain ⟨queue, slot, gone⟩ := f
      obtain rfl : slot = .picked task := hslot
      refine h.fire hstep (decide_eq_true rfl) hevent .launch h.queue ?_ h.gone
      rw [setPc_pc, if_pos rfl]
      rfl

theorem Refines.reEnqueue (h : Refines c s f) (hstep : Trans s (.reEnqueue c) s') :
    ∃ e f', event s c (.reEnqueue c) = some e ∧ Fifo.Step f e f' ∧ Refines c s' f' := by
  have hstep' := hstep
  cases hstep' with
  | @reEnqueue _ task l hpc hcall =>
      obtain ⟨q, place, home, hplaced, -⟩ := h.placed
      have htask : (s.pc c).task = some task := by rw [hpc]; rfl
      have hring := hplaced.queues.submit_runnable (hplaced.not_queued htask) hcall
      rw [hplaced.queues.runnable_eq h.queue] at hring
      have hslot := h.slot
      rw [hpc] at hslot
      have hevent : event s c (.reEnqueue c) =
          some (if (s.taskState task).canRun then .back task else .out task) := by
        rw [event, hpc]
        rfl
      have hpc' : Slot.free = (({ s with links := l }.setPc c .start).pc c).slot := by
        rw [setPc_pc, if_pos rfl]
        rfl
      have hgone := h.gone
      obtain ⟨queue, slot, gone⟩ := f
      obtain rfl : slot = .launched task := hslot
      cases hcan : (s.taskState task).canRun with
      | true =>
          rw [hcan, if_pos rfl] at hring hevent
          exact h.fire hstep (decide_eq_true rfl) hevent .back hring hpc' hgone
      | false =>
          rw [hcan, if_neg Bool.false_ne_true] at hring hevent
          refine h.fire hstep (decide_eq_true rfl) hevent .out hring hpc' fun u hu => ?_
          rcases List.mem_cons.mp hu with rfl | hu
          · cases u with
            | idleTask =>
                have hidle := canRun_iff.mpr hplaced.idleState
                rw [hcan] at hidle
                cases hidle
            | vcpu n =>
                refine ⟨n, ?_, rfl⟩
                by_contra hge
                have hfree := hplaced.fresh n (Nat.not_lt.mp hge)
                rw [(hplaced.task c _).mp htask] at hfree
                cases hfree
          · exact hgone u hu

theorem Refines.new (h : Refines c s f) : SchedUnit.vcpu s.submitted ∉ f.slot.toList ++ f.queue ++ f.gone := by
  obtain ⟨q, place, home, hplaced, -⟩ := h.placed
  have hfree := hplaced.fresh s.submitted le_rfl
  rw [List.mem_append, List.mem_append, h.slot, Pc.toList_slot, Option.mem_toList,
    hplaced.task, ← hplaced.queues.runnable_eq h.queue, hplaced.queues.mem, hfree]
  rintro ((hp | hp) | hgone)
  · cases hp
  · cases hp
  · obtain ⟨n, hn, heq⟩ := h.gone _ hgone
    cases heq
    exact Nat.lt_irrefl _ hn

theorem Refines.submit (h : Refines c s f) (hstep : Trans s (.submit c) s') :
    (event s c (.submit c) = none ∧ Refines c s' f) ∨
      ∃ e f', event s c (.submit c) = some e ∧ Fifo.Step f e f' ∧ Refines c s' f' := by
  have hstep' := hstep
  cases hstep' with
  | @submit _ l hbsp hcall =>
      obtain ⟨q, place, home, hplaced, hhome⟩ := h.placed
      have hfree := hplaced.fresh s.submitted le_rfl
      have hring := hplaced.queues.submit_runnable (fun k c hq => by rw [hfree] at hq; cases hq) hcall
      rw [hplaced.queues.runnable_eq h.queue] at hring
      have hgone : ∀ u ∈ f.gone, ∃ n < s.submitted + 1, u = .vcpu n := fun u hu => by
        obtain ⟨n, hn, heq⟩ := h.gone u hu
        exact ⟨n, Nat.lt_succ_of_lt hn, heq⟩
      cases hcan : (s.taskState (.vcpu s.submitted)).canRun with
      | true =>
          rw [hcan, if_pos rfl] at hring
          exact .inr (h.fire hstep (decide_eq_true rfl) (if_pos hcan) (.put h.new) hring h.slot hgone)
      | false =>
          rw [hcan, if_neg Bool.false_ne_true] at hring
          refine .inl ⟨if_neg (by rw [hcan]; exact Bool.false_ne_true), ?_⟩
          exact ⟨hplaced.step_one hhome hstep (decide_eq_true rfl), hring, h.slot, hgone, h.distinct⟩

/-- **One step.** -/
theorem Refines.step (h : Refines c s f) (hstep : Trans s lb s') (hc : lb.concerns c = true) :
    (event s c lb = none ∧ Refines c s' f) ∨
      ∃ e f', event s c lb = some e ∧ Fifo.Step f e f' ∧ Refines c s' f' := by
  have hslot : ∀ pc, (pc : Pc).slot = (s.pc c).slot → ∀ t : Sys, ((t.setPc c pc).pc c).slot =
      (s.pc c).slot := fun pc hpc t => by rw [setPc_pc, if_pos rfl, hpc]
  have hstep' := hstep
  cases hstep' with
  | acquire hpc | release hpc | «return» hpc | reacquire hpc | reset hpc =>
      obtain rfl := Label.eq_of_concerns rfl hc
      exact .inl ⟨rfl, h.quiet hstep hc rfl rfl (hslot _ (by rw [hpc]; rfl) _)⟩
  | wake _ hpc =>
      obtain rfl := Label.eq_of_concerns rfl hc
      exact .inl ⟨rfl, h.quiet hstep hc rfl rfl (hslot _ (by rw [hpc]; rfl) _)⟩
  | setTaskState | takeKick | lockTarget | kickTarget =>
      exact .inl ⟨rfl, h.quiet hstep hc rfl rfl rfl⟩
  | getNextTask =>
      obtain rfl := Label.eq_of_concerns rfl hc
      exact .inr (h.getNextTask hstep)
  | fallBack =>
      obtain rfl := Label.eq_of_concerns rfl hc
      exact .inr (h.fallBack hstep)
  | launch =>
      obtain rfl := Label.eq_of_concerns rfl hc
      exact .inr (h.launch hstep)
  | reEnqueue =>
      obtain rfl := Label.eq_of_concerns rfl hc
      exact .inr (h.reEnqueue hstep)
  | submit =>
      obtain rfl := of_decide_eq_true hc
      exact h.submit hstep

/-- **The runs.** -/
theorem Refines.run {ls : List (Label × Option (Fifo.Event SchedUnit))} (h : Refines c s f)
    (hrun : Run (StepOn c) s ls s') : ∃ f', Run Fifo.Step f (events ls) f' ∧ Refines c s' f' := by
  induction hrun with
  | nil => exact ⟨f, .nil f, h⟩
  | @snoc s₁ s₂ ls lb _ hstep ih =>
      obtain ⟨f₁, hrun₁, h₁⟩ := ih
      obtain ⟨hlb, hc, hevent⟩ := hstep
      rw [events, List.filterMap_append]
      rcases h₁.step (step_cases hlb) hc with ⟨hnone, h₂⟩ | ⟨e, f₂, hsome, hfifo, h₂⟩
      · refine ⟨f₁, ?_, h₂⟩
        rw [List.filterMap_cons_none (hevent.trans hnone), List.filterMap_nil, List.append_nil]
        exact hrun₁
      · refine ⟨f₂, ?_, h₂⟩
        rw [List.filterMap_cons_some (hevent.trans hsome), List.filterMap_nil]
        exact hrun₁.snoc hfifo

/-! ### The beginning -/

/-- The contents of the lists at the beginning. -/
def startContents (c : Cpuid) (xs ys : List SchedUnit) : Contents
  | .runnableTasks, c' => if c' = c then xs else []
  | .blockedTasks, c' => if c' = c then ys else []

/-- The places of the units at the beginning. -/
def startPlace (c : Cpuid) (xs ys : List SchedUnit) (u : SchedUnit) : Place :=
  if u ∈ xs then .queue .runnableTasks c else if u ∈ ys then .queue .blockedTasks c else .free

theorem Begins.queues (h : Begins s c xs ys) :
    Queues s.links (startContents c xs ys) (startPlace c xs ys) := by
  constructor
  · intro k c'
    by_cases hc : c' = c
    · subst hc
      cases k with
      | runnableTasks =>
          rw [startContents, if_pos rfl]
          exact h.runnable
      | blockedTasks =>
          rw [startContents, if_pos rfl]
          exact h.blocked
    · have hnil : startContents c xs ys k c' = [] := by cases k <;> simp [startContents, hc]
      rw [hnil]
      exact h.others k c' hc
  · intro k c' u
    have hdisj : u ∈ xs → u ∉ ys := fun hx hy => List.disjoint_of_nodup_append h.distinct hx hy
    unfold startPlace
    by_cases hc : c' = c
    · subst hc
      cases k <;> simp only [startContents, if_true] <;> split_ifs <;> simp_all
    · cases k <;> simp only [startContents, if_neg hc] <;> split_ifs <;> simp [Ne.symm hc]

theorem Begins.placed (h : Begins s c xs ys) : Placed s (startContents c xs ys)
    (startPlace c xs ys) (if .idleTask ∈ xs then some c else none) := by
  refine ⟨h.queues, ?_, ?_, ?_, canRun_iff.mp h.idleState, ?_, ?_⟩
  · intro c' u
    rw [h.pc]
    unfold startPlace
    split_ifs <;> simp [Pc.task]
  · intro n hn
    have hout : SchedUnit.vcpu n ∉ xs ++ ys := fun hmem => absurd (h.submitted n hmem) (Nat.not_lt.mpr hn)
    rw [List.mem_append, not_or] at hout
    rw [startPlace, if_neg hout.1, if_neg hout.2]
  · intro c' u hpc
    rw [h.pc] at hpc
    cases hpc
  · intro hnone
    have hout : SchedUnit.idleTask ∉ xs := fun hmem => by
      rw [if_pos hmem] at hnone
      cases hnone
    rw [startPlace, if_neg hout, if_neg h.idleTask]
  · intro c' hhome
    split_ifs at hhome with hmem
    cases hhome
    refine .inr ⟨by rw [startPlace, if_pos hmem], fun hpc => ?_⟩
    rw [h.pc] at hpc
    cases hpc

theorem Begins.refines (h : Begins s c xs ys) : Refines c s ⟨xs, .free, []⟩ := by
  refine ⟨⟨_, _, _, h.placed, ?_⟩, h.runnable, by rw [h.pc]; rfl, nofun, ?_⟩
  · split_ifs
    · exact .inr rfl
    · exact .inl rfl
  · rw [Fifo.Distinct, Fifo.held, List.append_nil]
    exact (List.nodup_append.mp h.distinct).1

theorem Queues.addAll (h : Queues l q place) (hus : ∀ u ∈ xs, ∀ k c, place u ≠ .queue k c)
    (hnodup : xs.Nodup) (k : Queue) (c : Cpuid) : ∃ l' place', Queues l' (setList q k c (q k c ++ xs)) place' ∧
      ∀ u ∉ xs, place' u = place u := by
  induction xs generalizing l q place with
  | nil =>
      refine ⟨l, place, ?_, fun _ _ => rfl⟩
      rw [List.append_nil, setList, Function.update_eq_self, Function.update_eq_self]
      exact h
  | cons u xs ih =>
      obtain ⟨hu, hnodup⟩ := List.nodup_cons.mp hnodup
      obtain ⟨l₁, -, h₁⟩ := h.add (hus u (List.mem_cons_self ..)) k c
      have hrest : ∀ v ∈ xs, ∀ k' c', Function.update place u (.queue k c) v ≠ .queue k' c' := by
        intro v hv
        have hne : v ≠ u := by
          rintro rfl
          exact hu hv
        rw [Function.update_of_ne hne]
        exact hus v (List.mem_cons_of_mem _ hv)
      obtain ⟨l', place', h', hother⟩ := ih h₁ hrest hnodup
      refine ⟨l', place', ?_, fun v hv => ?_⟩
      · rw [setList_self, List.append_assoc, List.singleton_append] at h'
        convert h' using 1
        simp [setList]
      · rw [List.mem_cons, not_or] at hv
        rw [hother v hv.2, Function.update_of_ne hv.1]

/-- There is such a state for all contents of the two lists. -/
theorem exists_begins (c : Cpuid) (hdistinct : (xs ++ ys).Nodup) (hidle : .idleTask ∉ ys) :
    ∃ s, Begins s c xs ys := by
  obtain ⟨hxs, hys, hdisj⟩ := List.nodup_append'.mp hdistinct
  obtain ⟨l₁, place₁, h₁, hother⟩ := placed_init.queues.addAll (fun _ _ _ _ => nofun) hxs .runnableTasks c
  have hfree : ∀ u ∈ ys, ∀ k c', place₁ u ≠ .queue k c' := by
    intro u hu k c'
    rw [hother u fun hx => hdisj hx hu]
    exact nofun
  obtain ⟨l₂, place₂, h₂, -⟩ := h₁.addAll hfree hys .blockedTasks c
  obtain ⟨bound, hbound⟩ : ∃ bound, ∀ n, SchedUnit.vcpu n ∈ xs ++ ys → n < bound := by
    generalize xs ++ ys = us
    induction us with
    | nil => exact ⟨0, nofun⟩
    | cons u us ih =>
        obtain ⟨bound, hbound⟩ := ih
        cases u with
        | idleTask => exact ⟨bound, fun n hn => hbound n (by simpa using hn)⟩
        | vcpu m =>
            refine ⟨max bound (m + 1), fun n hn => ?_⟩
            rcases List.mem_cons.mp hn with heq | hn
            · cases heq
              exact lt_max_of_lt_right (Nat.lt_succ_self _)
            · exact lt_max_of_lt_left (hbound n hn)
  have hring := h₂.ring
  refine ⟨{ init with links := l₂, submitted := bound }, ?_, ?_, fun k c' hc => ?_, hdistinct, fun _ => rfl,
    hbound, hidle, rfl⟩
  · have hlist := hring .runnableTasks c
    rwa [setList_of_ne _ _ (by simp), setList_self, List.nil_append] at hlist
  · have hlist := hring .blockedTasks c
    rwa [setList_self, setList_of_ne _ _ (by simp), List.nil_append] at hlist
  · have hlist := hring k c'
    rwa [setList_of_ne _ _ (by simp [hc]), setList_of_ne _ _ (by simp [hc])] at hlist

/-! ### Round robin -/

/-- The launch of a unit is one of the abstract queue, from its slot. -/
theorem Refines.of_launch (h : Refines c s f)
    (hstep : StepOn c s (.launch c, some (.launch u)) s') :
    f.slot = .picked u ∧ ∃ f', Fifo.Step f (.launch u) f' ∧ Refines c s' f' := by
  obtain ⟨hlb, hc, hevent⟩ := hstep
  rcases h.step (step_cases hlb) hc with ⟨hnone, -⟩ | ⟨e, f', hsome, hfifo, h'⟩
  · cases hevent.trans hnone
  · obtain rfl : Fifo.Event.launch u = e := Option.some.inj (hevent.trans hsome)
    refine ⟨?_, f', hfifo, h'⟩
    cases hfifo
    rfl

/-- **Round robin on one CPU**, from any runnable queue.

Every unit that was queued or came in, and whose rounds all ended runnable, is with the CPU or in the queue,
once.  Between two launches of a unit the CPU launches what was queued at the first one, each unit once and
in the order of the queue, and then what came in before the unit was back.  A unit whose round ended killed
is not launched any more. -/
theorem round_robin (h : Begins s c xs ys) :
    (∀ ls s', Run (StepOn c) s ls s' → ∃ queue, RunnableIs s' c queue ∧
      ((s'.pc c).task.toList ++ queue).Nodup ∧ ∀ u, u ∈ (s'.pc c).task.toList ++ queue ↔
        (u ∈ xs ∨ u ∈ Fifo.entered (events ls)) ∧ u ∉ Fifo.left (events ls)) ∧
    (∀ ls s₁ u queue s₁' mid s₂ s₂', Run (StepOn c) s ls s₁ → RunnableIs s₁ c queue →
      StepOn c s₁ (.launch c, some (.launch u)) s₁' → Run (StepOn c) s₁' mid s₂ →
      u ∉ Fifo.launches (events mid) → StepOn c s₂ (.launch c, some (.launch u)) s₂' →
      ∃ news, Fifo.launches (events mid) = queue ++ news ∧ (u :: (queue ++ news)).Nodup ∧
        ∀ v ∈ news, v ∈ Fifo.entered (events mid)) ∧
    (∀ ls s₁ u e s₂ ls' s₃, Run (StepOn c) s ls s₁ → s₁.pc c = .reinit u → s₁.taskState u = .killed →
      StepOn c s₁ (.reEnqueue c, e) s₂ → Run (StepOn c) s₂ ls' s₃ →
      u ∉ Fifo.launches (events ls')) := by
  refine ⟨fun ls s' hrun => ?_, ?_, ?_⟩
  · obtain ⟨f', hfifo, href⟩ := h.refines.run hrun
    obtain ⟨hnodup, hmem⟩ := Fifo.account h.refines.distinct rfl hfifo
    rw [Fifo.held, href.slot, Pc.toList_slot] at hnodup hmem
    exact ⟨f'.queue, href.queue, hnodup, hmem⟩
  · intro ls s₁ u queue s₁' mid s₂ s₂' hrun hqueue hlaunch hmid hnot hlaunch'
    obtain ⟨f₁, -, href₁⟩ := h.refines.run hrun
    obtain ⟨hpicked, f₁', hfifo, href₁'⟩ := href₁.of_launch hlaunch
    obtain ⟨f₂, hfifo', href₂⟩ := href₁'.run hmid
    have heq : f₁.queue = queue :=
      List.map_injective_iff.mpr unit_injective (href₁.queue.unique hqueue)
    have hlaunched : f₁'.slot = .launched u ∧ f₁'.queue = f₁.queue := by
      cases hfifo
      exact ⟨rfl, rfl⟩
    have hbetween := Fifo.launches_between href₁'.distinct hlaunched.1 hfifo' hnot
      (href₂.of_launch hlaunch').1
    rwa [hlaunched.2, heq] at hbetween
  · intro ls s₁ u e s₂ ls' s₃ hrun hpc hkilled hstep hrun'
    obtain ⟨f₁, -, href₁⟩ := h.refines.run hrun
    obtain ⟨hlb, hc, -⟩ := hstep
    have hevent : event s₁ c (.reEnqueue c) = some (.out u) := by
      rw [event, hpc]
      simp [Pc.task, hkilled, TaskSchedState.canRun]
    rcases href₁.step (step_cases hlb) hc with ⟨hnone, -⟩ | ⟨e', f₂, hsome, hfifo, href₂⟩
    · cases hevent.symm.trans hnone
    · obtain rfl : Fifo.Event.out u = e' := Option.some.inj (hevent.symm.trans hsome)
      obtain ⟨f₃, hfifo', -⟩ := href₂.run hrun'
      refine Fifo.not_launched_of_gone href₂.distinct ?_ hfifo'
      cases hfifo
      exact List.mem_cons_self ..

/-! ### A run -/

/-- The steps of a run with their events. -/
def record (c : Cpuid) : List Label → Sys → Option (List (Label × Option (Fifo.Event SchedUnit)) × Sys)
  | [], t => some ([], t)
  | lb :: lbs, t =>
      if lb.concerns c then do
        let (ls, t') ← record c lbs (← step t lb)
        return ((lb, event t c lb) :: ls, t')
      else none

theorem run_of_record {lbs : List Label} {ls : List (Label × Option (Fifo.Event SchedUnit))}
    (h : record c lbs s = some (ls, s')) : Run (StepOn c) s ls s' := by
  induction lbs generalizing s ls with
  | nil =>
      cases h
      exact .nil _
  | cons lb lbs ih =>
      rw [record] at h
      split_ifs at h with hc
      obtain ⟨s₁, hstep, h⟩ := Option.bind_eq_some_iff.mp h
      obtain ⟨⟨ls', s₂⟩, hrest, h⟩ := Option.bind_eq_some_iff.mp h
      cases h
      exact .cons ⟨hstep, hc, rfl⟩ (ih hrest)

theorem begins_init (c : Cpuid) : Begins init c [] [] := by
  have hring := placed_init.queues.ring
  exact ⟨hring _ _, hring _ _, fun k c' _ => hring k c', List.nodup_nil, fun _ => rfl, nofun, nofun, rfl⟩

/-- A round up to the launch of the unit at the head of the queue. -/
def roundStart (c : Cpuid) : List Label := [.acquire c, .getNextTask c, .release c]

/-- The first of two vCPUs is launched again after the second one, in front of a third one that comes in
after its return. -/
theorem round_robin_two_vcpus :
    ∃ ls₁ s₁ s₁' mid s₂ s₂', Run (StepOn 1) init ls₁ s₁ ∧ RunnableIs s₁ 1 [.vcpu 1] ∧
      StepOn 1 s₁ (.launch 1, some (.launch (.vcpu 0))) s₁' ∧ Run (StepOn 1) s₁' mid s₂ ∧
      StepOn 1 s₂ (.launch 1, some (.launch (.vcpu 0))) s₂' ∧ Fifo.entered (events mid) = [.vcpu 2] ∧
      ∃ news, Fifo.launches (events mid) = [.vcpu 1] ++ news ∧
        (SchedUnit.vcpu 0 :: ([.vcpu 1] ++ news)).Nodup ∧ ∀ v ∈ news, v ∈ [SchedUnit.vcpu 2] := by
  have hend : ((record 1 (submission 1 ++ submission 1 ++ roundStart 1) init).bind fun r₁ =>
      (record 1 [.launch 1] r₁.2).bind fun r₂ =>
      (record 1 (.return 1 :: roundEnd 1 ++ submission 1 ++ roundStart 1 ++ [.launch 1, .return 1] ++
        roundEnd 1 ++ roundStart 1) r₂.2).bind fun r₃ =>
      (record 1 [.launch 1] r₃.2).map fun r₄ =>
        decide (Ring r₁.2.links (.head .runnableTasks 1) [.unit (.vcpu 1)] ∧
          r₂.1 = [(.launch 1, some (.launch (.vcpu 0)))] ∧
          r₄.1 = [(.launch 1, some (.launch (.vcpu 0)))] ∧ Fifo.launches (events r₃.1) = [.vcpu 1] ∧
          Fifo.entered (events r₃.1) = [.vcpu 2])) = some true := by
    decide
  obtain ⟨⟨ls₁, s₁⟩, h₁, hend⟩ := Option.bind_eq_some_iff.mp hend
  obtain ⟨⟨ls₂, s₁'⟩, h₂, hend⟩ := Option.bind_eq_some_iff.mp hend
  obtain ⟨⟨mid, s₂⟩, h₃, hend⟩ := Option.bind_eq_some_iff.mp hend
  obtain ⟨⟨ls₄, s₂'⟩, h₄, hend⟩ := Option.map_eq_some_iff.mp hend
  obtain ⟨hqueue, hls₂, hls₄, hlaunches, hentered⟩ := of_decide_eq_true hend
  dsimp only at hqueue hls₂ hls₄ hlaunches hentered
  subst hls₂ hls₄
  have hrun₁ := run_of_record h₁
  have hrun₃ := run_of_record h₃
  obtain ⟨_, hlaunch₁, hnil⟩ := (run_of_record h₂).of_cons
  obtain rfl := hnil.of_nil
  obtain ⟨_, hlaunch₂, hnil⟩ := (run_of_record h₄).of_cons
  obtain rfl := hnil.of_nil
  have hnot : SchedUnit.vcpu 0 ∉ Fifo.launches (events mid) := by
    rw [hlaunches]
    decide
  refine ⟨ls₁, s₁, _, mid, s₂, _, hrun₁, hqueue, hlaunch₁, hrun₃, hlaunch₂, hentered, ?_⟩
  have hrobin := (round_robin (begins_init 1)).2.1 ls₁ s₁ (.vcpu 0) [.vcpu 1] _ mid s₂ _ hrun₁ hqueue
    hlaunch₁ hrun₃ hnot hlaunch₂
  rwa [hentered] at hrobin

end HyveMind.Sched
