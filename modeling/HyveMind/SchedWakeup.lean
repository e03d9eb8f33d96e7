import HyveMind.SchedQueues

/-! # Waking an idle CPU

The two sides of the wake-up protocol.  A CPU looks into its queue and sets `CPU_IDLE` under its
lock, then halts.  The bootstrap processor inserts the vCPU, takes the lock of the CPU and sends a
kick if the CPU is idle.  Whichever comes second sees what the other one did, so a CPU that has
found its queue empty does not sleep through a submission.  It may enter the halt with a vCPU in its
queue if the submission falls between its look into the queue and the halt; then the kick ends the
halt.

A CPU that finds the idle task itself in its queue halts too, but without `CPU_IDLE`. -/

namespace HyveMind.Sched

open Lib ListHead

variable {s s' : Sys} {c : Cpuid} {lb : Label} {q : Contents} {place : SchedUnit → Place}
  {home : Option Cpuid}

/-- A vCPU is on the runnable list of `c`. -/
def Waiting (s : Sys) (c : Cpuid) : Prop := ∃ n, Linked s .runnableTasks c (.vcpu n)

/-- A halted CPU is marked idle, and a kick is pending for a vCPU in its queue. -/
structure NoLostWakeup (s : Sys) (c : Cpuid) : Prop where
  idle : s.pc c = .launched .idleTask → s.cpuState c = .idle
  kicked : s.pc c = .launched .idleTask → Waiting s c → s.kick c = true

/-- The step is one of CPU `c`, or of a submission to it. -/
def Label.concerns (c : Cpuid) : Label → Bool
  | .submit target => target = c
  | .lockTarget | .kickTarget => true
  | lb => lb.cpu = some c

theorem Label.eq_of_concerns {c' : Cpuid} (hcpu : lb.cpu = some c') (h : lb.concerns c = true) :
    c' = c := by
  unfold Label.concerns at h
  split at h
  · cases hcpu
  · cases hcpu
  · cases hcpu
  · rw [hcpu] at h
    simpa using h

/-- `tq_get_next_task` finds the idle task at the head of the queue. -/
def picksIdle (s : Sys) : Label → Bool
  | .getNextTask c =>
      listFirstEntryNullable s.links (.head .runnableTasks c) = some (some (.unit .idleTask))
  | _ => false

/-- The round has decided on the idle task and not yet left the halt. -/
def Pc.idling : Pc → Bool
  | .picked (some .idleTask) | .unlocked .idleTask | .launched .idleTask => true
  | _ => false

/-- What both sides know about each other. -/
structure Handshake (s : Sys) (c : Cpuid) : Prop where
  target : ∀ c', s.bsp.target = some c' → c' = c
  cpuLock : (s.pc c).holdsLock = true → s.lock c = true
  bspLock : s.bsp = .locked c → s.lock c = true
  mutex : (s.pc c).holdsLock = true → s.bsp ≠ .locked c
  /-- Before `CPU_IDLE` is set, the test of the submission is still to come. -/
  found : s.pc c = .picked none → Waiting s c → s.bsp = .queued c
  idle : (s.pc c).idling = true → s.cpuState c = .idle
  kicked : (s.pc c).idling = true → Waiting s c → s.kick c = true ∨ s.bsp.target = some c

theorem handshake_init (c : Cpuid) : Handshake init c := by
  constructor <;> simp [init, BspPc.target, Pc.holdsLock, Pc.idling]

/-- A step of the CPU to a place at which it neither holds its lock nor is about to halt. -/
theorem Handshake.leave (h : Handshake s c) {pc : Pc} (hbsp : s'.bsp = s.bsp)
    (hpc : s'.pc c = pc) (hholds : pc.holdsLock = false) (hidling : pc.idling = false)
    (hlock : s.bsp = .locked c → s'.lock c = true) : Handshake s' c := by
  constructor
  · rw [hbsp]
    exact h.target
  · simp [hpc, hholds]
  · rw [hbsp]
    exact hlock
  · simp [hpc, hholds]
  · rw [hpc]
    rintro rfl
    cases hholds
  · simp [hpc, hidling]
  · simp [hpc, hidling]

theorem Handshake.lock (h : Handshake s c) {pc : Pc} (hfree : s.lock c = false)
    (hs : s' = { s with lock := Function.update s.lock c true }.setPc c pc)
    (hnone : pc ≠ .picked none) (hidling : pc.idling = false) : Handshake s' c := by
  have hbsp : s.bsp ≠ .locked c := fun hb => by
    have hlock := h.bspLock hb
    rw [hfree] at hlock
    cases hlock
  have hpc : s'.pc c = pc := by rw [hs, setPc_pc, if_pos rfl]
  have hlock : s'.lock c = true := by rw [hs]; exact Function.update_self ..
  have hbsp' : s'.bsp = s.bsp := by rw [hs]; rfl
  constructor
  · rw [hbsp']
    exact h.target
  · exact fun _ => hlock
  · exact fun _ => hlock
  · rw [hbsp']
    exact fun _ => hbsp
  · exact fun hp => absurd (hpc.symm.trans hp) hnone
  · simp [hpc, hidling]
  · simp [hpc, hidling]

/-- A step of the CPU on its way to the halt, after the queue was found empty. -/
theorem Handshake.goOn (h : Handshake s c) {pc : Pc} (hlinks : s'.links = s.links)
    (hbsp : s'.bsp = s.bsp) (hkick : s'.kick = s.kick) (hpc : s'.pc c = pc)
    (hnone : pc ≠ .picked none) (hholds : pc.holdsLock = true → (s.pc c).holdsLock = true)
    (hlock : pc.holdsLock = true ∨ s.bsp = .locked c → s'.lock c = true)
    (hidle : pc.idling = true → s'.cpuState c = .idle)
    (hbefore : pc.idling = true → s.pc c = .picked none ∨ (s.pc c).idling = true) :
    Handshake s' c := by
  constructor
  · rw [hbsp]
    exact h.target
  · rw [hpc]
    exact fun hp => hlock (.inl hp)
  · rw [hbsp]
    exact fun hb => hlock (.inr hb)
  · rw [hpc, hbsp]
    exact fun hp => h.mutex (hholds hp)
  · exact fun hp => absurd (hpc.symm.trans hp) hnone
  · rw [hpc]
    exact hidle
  · rw [hpc, hbsp, hkick]
    intro hp hwait
    have hwait' : Waiting s c := by
      obtain ⟨n, hn⟩ := hwait
      refine ⟨n, ?_⟩
      unfold Linked at hn ⊢
      rwa [hlinks] at hn
    rcases hbefore hp with hpc' | hidling
    · rw [h.found hpc' hwait']
      exact .inr rfl
    · exact h.kicked hidling hwait'

/-- A step that leaves the lock alone or gives it up, with the decision for the idle task behind it
or not taken. -/
theorem Handshake.keepOn (h : Handshake s c) {pc : Pc} (hlinks : s'.links = s.links)
    (hbsp : s'.bsp = s.bsp) (hkick : s'.kick = s.kick) (hstate : s'.cpuState = s.cpuState)
    (hpc : s'.pc c = pc) (hholds : pc.holdsLock = false) (hidling : (s.pc c).idling = pc.idling)
    (hlock : s.bsp = .locked c → s'.lock c = true) : Handshake s' c := by
  refine h.goOn hlinks hbsp hkick hpc ?_ ?_ ?_ ?_ ?_
  · rintro rfl
    cases hholds
  · simp [hholds]
  · rintro (hp | hb)
    · rw [hholds] at hp
      cases hp
    · exact hlock hb
  · intro hp
    rw [hstate]
    exact h.idle (hidling.trans hp)
  · exact fun hp => .inr (hidling.trans hp)

/-- Where `picksIdle` does not hold, `tq_get_next_task` finds a vCPU, or nothing. -/
theorem not_idleTask_of_getNextTask (hq : Queues s.links q place) {l : Links Node}
    {next : Option SchedUnit} (hcall : tqGetNextTask s.links c = some (l, next))
    (hpick : picksIdle s (.getNextTask c) = false) : next ≠ some .idleTask := by
  rintro rfl
  refine absurd ?_ (of_decide_eq_false hpick)
  have hring := hq.ring .runnableTasks c
  rw [listFirstEntryNullable_eq hring]
  cases hxs : q .runnableTasks c with
  | nil =>
      rw [hq.getNextTask_nil hxs] at hcall
      cases hcall
  | cons v xs =>
      obtain ⟨l', hcall', -⟩ := hq.getNextTask_cons hxs
      rw [hcall'] at hcall
      cases hcall
      rfl

theorem not_waiting_of_getNextTask (hq : Queues s.links q place) {l : Links Node}
    (hcall : tqGetNextTask s.links c = some (l, none)) (hlinks : s'.links = l) : ¬ Waiting s' c := by
  rintro ⟨n, xs, hring, hmem⟩
  rw [hlinks] at hring
  cases hxs : q .runnableTasks c with
  | nil =>
      rw [hq.getNextTask_nil hxs] at hcall
      obtain ⟨rfl, -⟩ := Prod.mk.inj (Option.some.inj hcall)
      have hempty := hq.ring .runnableTasks c
      rw [hxs] at hempty
      rw [hring.unique hempty] at hmem
      cases hmem
  | cons v xs =>
      obtain ⟨l', hcall', -⟩ := hq.getNextTask_cons hxs
      rw [hcall'] at hcall
      cases hcall

theorem Handshake.getNextTask (h : Handshake s c) (hq : Queues s.links q place)
    (hpc : s.pc c = .locked) {l : Links Node} {next : Option SchedUnit}
    (hcall : tqGetNextTask s.links c = some (l, next)) (hpick : picksIdle s (.getNextTask c) = false) :
    Handshake ({ s with links := l }.setPc c (.picked next)) c := by
  have hholds : (s.pc c).holdsLock = true := by rw [hpc]; rfl
  have hpc' : ({ s with links := l }.setPc c (.picked next)).pc c = .picked next := by
    rw [setPc_pc, if_pos rfl]
  have hidling : (Pc.picked next).idling = false := by
    have hnot := not_idleTask_of_getNextTask hq hcall hpick
    rcases next with - | ⟨- | -⟩
    · rfl
    · exact absurd rfl hnot
    · rfl
  constructor
  · exact h.target
  · exact fun _ => h.cpuLock hholds
  · exact h.bspLock
  · exact fun _ => h.mutex hholds
  · intro hnone
    obtain rfl : next = none := by simpa using hpc'.symm.trans hnone
    exact fun hwait => absurd hwait (not_waiting_of_getNextTask hq hcall rfl)
  · simp [hpc', hidling]
  · simp [hpc', hidling]

/-- A step of the submission while the CPU does not hold its lock. -/
theorem Handshake.bspStep (h : Handshake s c) (hfree : (s.pc c).holdsLock = true → False)
    (hpc : s'.pc = s.pc) (hstate : s'.cpuState = s.cpuState)
    (htarget : ∀ c', s'.bsp.target = some c' → c' = c) (hlock : s'.bsp = .locked c → s'.lock c = true)
    (hkicked : (s.pc c).idling = true → s'.kick c = true ∨ s'.bsp.target = some c) :
    Handshake s' c := by
  constructor
  · exact htarget
  · rw [hpc]
    exact fun hp => (hfree hp).elim
  · exact hlock
  · rw [hpc]
    exact fun hp => (hfree hp).elim
  · rw [hpc]
    intro hp
    rw [hp] at hfree
    exact (hfree rfl).elim
  · rw [hpc, hstate]
    exact h.idle
  · rw [hpc]
    exact fun hp _ => hkicked hp

theorem Handshake.step (h : Handshake s c) (hq : Queues s.links q place)
    (hstep : Trans s lb s') (hc : lb.concerns c = true) (hpick : picksIdle s lb = false) :
    Handshake s' c := by
  cases hstep with
  | acquire hpc hlock =>
      obtain rfl := Label.eq_of_concerns rfl hc
      exact h.lock hlock rfl (by simp) rfl
  | reacquire hpc hlock =>
      obtain rfl := Label.eq_of_concerns rfl hc
      exact h.lock hlock rfl (by simp) rfl
  | getNextTask hpc hcall =>
      obtain rfl := Label.eq_of_concerns rfl hc
      exact h.getNextTask hq hpc hcall hpick
  | @fallBack c' hpc =>
      obtain rfl := Label.eq_of_concerns rfl hc
      have hholds : (s.pc c').holdsLock = true := by rw [hpc]; rfl
      refine h.goOn rfl rfl rfl (by rw [setPc_pc, if_pos rfl]) (by simp) (fun _ => hholds)
        (fun _ => h.cpuLock hholds) (fun _ => Function.update_self ..) (fun _ => .inl hpc)
  | @release _ task hpc =>
      obtain rfl := Label.eq_of_concerns rfl hc
      have hbsp := h.mutex (by rw [hpc]; rfl)
      refine h.keepOn rfl rfl rfl rfl (by rw [setPc_pc, if_pos rfl]) rfl ?_
        fun hb => absurd hb hbsp
      rw [hpc]
      cases task <;> rfl
  | @launch _ task hpc =>
      obtain rfl := Label.eq_of_concerns rfl hc
      refine h.keepOn rfl rfl rfl rfl (by rw [setPc_pc, if_pos rfl]) rfl ?_ h.bspLock
      rw [hpc]
      cases task <;> rfl
  | setTaskState hpc hcur =>
      exact ⟨h.target, h.cpuLock, h.bspLock, h.mutex, h.found, h.idle, h.kicked⟩
  | «return» hpc =>
      obtain rfl := Label.eq_of_concerns rfl hc
      exact h.leave rfl (by rw [setPc_pc, if_pos rfl]) rfl rfl h.bspLock
  | takeKick hkick hpc =>
      obtain rfl := Label.eq_of_concerns rfl hc
      rcases hpc with hpc | ⟨n, hpc⟩
      · exact h.leave rfl hpc rfl rfl h.bspLock
      · exact h.leave rfl hpc rfl rfl h.bspLock
  | wake hkick hpc =>
      obtain rfl := Label.eq_of_concerns rfl hc
      exact h.leave rfl (by rw [setPc_pc, if_pos rfl]) rfl rfl h.bspLock
  | reset hpc =>
      obtain rfl := Label.eq_of_concerns rfl hc
      exact h.leave rfl (by rw [setPc_pc, if_pos rfl]) rfl rfl
        fun hb => absurd hb (h.mutex (by rw [hpc]; rfl))
  | reEnqueue hpc hcall =>
      obtain rfl := Label.eq_of_concerns rfl hc
      exact h.leave rfl (by rw [setPc_pc, if_pos rfl]) rfl rfl h.bspLock
  | submit hbsp hcall =>
      obtain rfl : _ = c := of_decide_eq_true hc
      exact ⟨fun c' hc' => (Option.some.inj hc').symm, h.cpuLock, nofun, fun _ => nofun,
        fun _ _ => rfl, h.idle, fun _ _ => .inr rfl⟩
  | @lockTarget c' hbsp hlock =>
      obtain rfl := h.target c' (by rw [hbsp]; rfl)
      refine h.bspStep (fun hp => ?_) rfl rfl (fun c' hc' => (Option.some.inj hc').symm)
        (fun _ => Function.update_self ..) (fun _ => .inr rfl)
      have hheld := h.cpuLock hp
      rw [hlock] at hheld
      cases hheld
  | @kickTarget c' hbsp =>
      obtain rfl := h.target c' (by rw [hbsp]; rfl)
      refine h.bspStep (fun hp => h.mutex hp hbsp) rfl rfl nofun nofun fun hp => .inl ?_
      have hidle := h.idle hp
      simp [hidle]

theorem Placed.step_one (h : Placed s q place home) (hhome : home = none ∨ home = some c)
    (hstep : Trans s lb s') (hc : lb.concerns c = true) :
    ∃ q' place' home', Placed s' q' place' home' ∧ (home' = none ∨ home' = some c) := by
  cases hfb : lb.isFallBack with
  | false =>
      obtain ⟨q', place', h'⟩ := h.step hstep hfb
      exact ⟨q', place', home, h', hhome⟩
  | true =>
      cases lb with
      | fallBack c' =>
          obtain rfl := Label.eq_of_concerns rfl hc
          rcases hhome with rfl | rfl
          · obtain ⟨place', h'⟩ := h.fallBack hstep
            exact ⟨q, place', some c', h', .inr rfl⟩
          · cases hstep with
            | fallBack hpc => exact absurd hpc h.found_of_home
      | _ => cases hfb

/-! ### Entering the halt -/

/-- The steps since CPU `c` last looked into its queue, the last one first. -/
def sinceSearch (c : Cpuid) (ls : List Label) : List Label :=
  ls.reverse.takeWhile (· ≠ .getNextTask c)

theorem sinceSearch_snoc (c : Cpuid) (ls : List Label) (lb : Label) : sinceSearch c (ls ++ [lb]) =
    if lb = .getNextTask c then [] else lb :: sinceSearch c ls := by
  by_cases h : lb = .getNextTask c <;> simp [sinceSearch, h]

/-- The round has found no vCPU and does not halt yet. -/
def Pc.foundNone : Pc → Bool
  | .picked none | .picked (some .idleTask) | .unlocked .idleTask => true
  | _ => false

/-- A vCPU that waits for a CPU about to halt came after the CPU looked. -/
def CameLate (c : Cpuid) (ls : List Label) (s : Sys) : Prop :=
  (s.pc c).foundNone = true → Waiting s c → .submit c ∈ sinceSearch c ls

theorem CameLate.keep {ls : List Label} (h : CameLate c ls s) (hlinks : s'.links = s.links)
    (hpc : (s'.pc c).foundNone = true → (s.pc c).foundNone = true) (hlb : lb ≠ .getNextTask c) :
    CameLate c (ls ++ [lb]) s' := by
  rintro hnone ⟨n, xs, hring, hmem⟩
  rw [hlinks] at hring
  rw [sinceSearch_snoc, if_neg hlb]
  exact List.mem_cons_of_mem _ (h (hpc hnone) ⟨n, xs, hring, hmem⟩)

/-- A step of CPU `c` to a place at which it is not about to halt. -/
theorem cameLate_of_pc {ls : List Label} {pc : Pc} (hpc : s'.pc c = pc)
    (hnone : pc.foundNone = false) : CameLate c ls s' := by
  intro h
  rw [hpc, hnone] at h
  cases h

theorem CameLate.step {ls : List Label} (h : CameLate c ls s) (hq : Queues s.links q place)
    (hstep : Trans s lb s') (hc : lb.concerns c = true) (hpick : picksIdle s lb = false) :
    CameLate c (ls ++ [lb]) s' := by
  cases hstep with
  | acquire hpc hlock =>
      obtain rfl := Label.eq_of_concerns rfl hc
      exact cameLate_of_pc (by rw [setPc_pc, if_pos rfl]) rfl
  | reacquire hpc hlock =>
      obtain rfl := Label.eq_of_concerns rfl hc
      exact cameLate_of_pc (by rw [setPc_pc, if_pos rfl]) rfl
  | @getNextTask c' l next hpc hcall =>
      obtain rfl := Label.eq_of_concerns rfl hc
      have hpc' : ({ s with links := l }.setPc c' (.picked next)).pc c' = .picked next := by
        rw [setPc_pc, if_pos rfl]
      rcases next with - | ⟨- | n⟩
      · exact fun _ hwait => absurd hwait (not_waiting_of_getNextTask hq hcall rfl)
      · exact absurd rfl (not_idleTask_of_getNextTask hq hcall hpick)
      · exact cameLate_of_pc hpc' rfl
  | fallBack hpc =>
      obtain rfl := Label.eq_of_concerns rfl hc
      exact h.keep rfl (fun _ => by rw [hpc]; rfl) nofun
  | @release _ task hpc =>
      obtain rfl := Label.eq_of_concerns rfl hc
      refine h.keep rfl ?_ nofun
      rw [setPc_pc, if_pos rfl, hpc]
      cases task <;> exact id
  | launch hpc =>
      obtain rfl := Label.eq_of_concerns rfl hc
      exact cameLate_of_pc (by rw [setPc_pc, if_pos rfl]) rfl
  | setTaskState hpc hcur => exact h.keep rfl id nofun
  | «return» hpc =>
      obtain rfl := Label.eq_of_concerns rfl hc
      exact cameLate_of_pc (by rw [setPc_pc, if_pos rfl]) rfl
  | takeKick hkick hpc => exact h.keep rfl id nofun
  | wake hkick hpc =>
      obtain rfl := Label.eq_of_concerns rfl hc
      exact cameLate_of_pc (by rw [setPc_pc, if_pos rfl]) rfl
  | reset hpc =>
      obtain rfl := Label.eq_of_concerns rfl hc
      exact cameLate_of_pc (by rw [setPc_pc, if_pos rfl]) rfl
  | reEnqueue hpc hcall =>
      obtain rfl := Label.eq_of_concerns rfl hc
      exact cameLate_of_pc (by rw [setPc_pc, if_pos rfl]) rfl
  | submit hbsp hcall =>
      obtain rfl : _ = c := of_decide_eq_true hc
      intro _ _
      rw [sinceSearch_snoc, if_neg nofun]
      exact List.mem_cons_self ..
  | lockTarget hbsp hlock => exact h.keep rfl id nofun
  | kickTarget hbsp => exact h.keep rfl id nofun

/-- **No lost wake-up**, for a CPU that does not pick the idle task from its queue.  Outside of a
submission to it a halted CPU is marked idle and is about to be woken if a vCPU waits; a submission
that is under way when it halts kicks it.  When it enters the halt it is marked idle, and no vCPU
waits, unless one was submitted after it looked into its queue. -/
theorem no_lost_wakeup {ls : List Label} (h : Run (fun s lb s' => Step s lb s' ∧
      (lb.concerns c = true ∧ picksIdle s lb = false)) init ls s) :
    (s.bsp.target ≠ some c → NoLostWakeup s c) ∧
      (s.pc c = .launched .idleTask → s.cpuState c = .idle ∧
        ∀ s', Step s .kickTarget s' → s'.kick c = true) ∧
      ∀ s', Step s (.launch c) s' → s'.pc c = .launched .idleTask →
        s.cpuState c = .idle ∧ (.submit c ∉ sinceSearch c ls → ¬ Waiting s c) := by
  have hinv : (∃ q place home, Placed s q place home ∧ (home = none ∨ home = some c)) ∧
      Handshake s c ∧ CameLate c ls s := by
    refine h.history (I := fun ls s => (∃ q place home, Placed s q place home ∧
      (home = none ∨ home = some c)) ∧ Handshake s c ∧ CameLate c ls s)
      ⟨⟨_, _, _, placed_init, .inl rfl⟩, handshake_init c, cameLate_of_pc rfl rfl⟩ ?_
    rintro ls s lb s' ⟨⟨q, place, home, hplaced, hhome⟩, hshake, hlate⟩ ⟨hstep, hc, hpick⟩
    exact ⟨hplaced.step_one hhome (step_cases hstep) hc,
      hshake.step hplaced.queues (step_cases hstep) hc hpick,
      hlate.step hplaced.queues (step_cases hstep) hc hpick⟩
  obtain ⟨-, hshake, hlate⟩ := hinv
  refine ⟨fun htarget => ⟨fun hpc => ?_, fun hpc hwait => ?_⟩, fun hpc => ?_, fun s' hstep hpc => ?_⟩
  · exact hshake.idle (by rw [hpc]; rfl)
  · exact (hshake.kicked (by rw [hpc]; rfl) hwait).resolve_right htarget
  · have hidle := hshake.idle (by rw [hpc]; rfl)
    refine ⟨hidle, fun s' hstep => ?_⟩
    cases step_cases hstep with
    | kickTarget hbsp =>
        obtain rfl := hshake.target _ (by rw [hbsp]; rfl)
        simp [hidle]
  · have hbefore : s.pc c = .unlocked .idleTask := by
      cases step_cases hstep with
      | launch hpc' =>
          rw [setPc_pc, if_pos rfl, Pc.launched.injEq] at hpc
          rw [hpc', hpc]
    refine ⟨hshake.idle (by rw [hbefore]; rfl), fun hno hwait => hno ?_⟩
    exact hlate (by rw [hbefore]; rfl) hwait

/-- The CPU is halted when the vCPU comes. -/
theorem no_lost_wakeup_first_idle_period :
    ∃ s, Run (fun s lb s' => Step s lb s' ∧ (lb.concerns 1 = true ∧ picksIdle s lb = false)) init
        (idleRound 1 ++ submission 1) s ∧
      s.pc 1 = .launched .idleTask ∧ Waiting s 1 ∧ NoLostWakeup s 1 := by
  have hend : ((idleRound 1 ++ submission 1).foldlM (fun s lb =>
      if lb.concerns 1 = true ∧ picksIdle s lb = false then step s lb else none) init).map
      (fun s : Sys => (s.pc 1, s.bsp, decide (Ring s.links (.head .runnableTasks 1)
        [.unit (.vcpu 0)]))) = some (.launched .idleTask, .ready, true) := by
    decide
  obtain ⟨s, hs, hobs⟩ := Option.map_eq_some_iff.mp hend
  obtain ⟨hpc, hbsp, hring⟩ : s.pc 1 = .launched .idleTask ∧ s.bsp = .ready ∧
      decide (Ring s.links (.head .runnableTasks 1) [.unit (.vcpu 0)]) = true := by
    simpa only [Prod.mk.injEq] using hobs
  have hrun : Run (fun s lb s' => Step s lb s' ∧ (lb.concerns 1 = true ∧ picksIdle s lb = false))
      init (idleRound 1 ++ submission 1) s := by
    refine Run.of_foldlM _ (fun s lb s' _ hstep => ?_) hs
    split at hstep
    · exact ⟨hstep, ‹_›⟩
    · cases hstep
  refine ⟨s, hrun, hpc, ⟨0, _, of_decide_eq_true hring, List.mem_singleton_self _⟩, ?_⟩
  exact (no_lost_wakeup hrun).1 (by rw [hbsp]; exact nofun)

/-- What a CPU does after `launch_task` has returned. -/
def roundEnd (c : Cpuid) : List Label := [.reacquire c, .reset c, .reEnqueue c]

/-- A CPU is woken for a vCPU, runs it until it fails, and picks up the idle task that it has put
into its own queue; then a second vCPU comes. -/
def secondIdlePeriod (c : Cpuid) : List Label :=
  idleRound c ++ submission c ++ [.takeKick c] ++ roundEnd c ++
    [.acquire c, .getNextTask c, .release c, .launch c, .setTaskState c .killed, .return c] ++
    roundEnd c ++ [.acquire c, .getNextTask c, .release c, .launch c] ++ submission c

/-- The second vCPU waits behind a halted CPU that nobody kicks. -/
theorem second_idle_period_loses_wakeup :
    ∃ s, Run Step init (secondIdlePeriod 1) s ∧ (∀ lb ∈ secondIdlePeriod 1, lb.concerns 1 = true) ∧
      s.bsp = .ready ∧ s.pc 1 = .launched .idleTask ∧ s.cpuState 1 = .init ∧
      Linked s .runnableTasks 1 (.vcpu 1) ∧ s.kick 1 = false ∧ ¬ NoLostWakeup s 1 := by
  have hend : ((secondIdlePeriod 1).foldlM step init).map
      (fun s : Sys => (s.bsp, s.pc 1, s.cpuState 1, s.kick 1,
        decide (Ring s.links (.head .runnableTasks 1) [.unit (.vcpu 1)]))) =
        some (.ready, .launched .idleTask, .init, false, true) := by
    decide
  obtain ⟨s, hs, hobs⟩ := Option.map_eq_some_iff.mp hend
  obtain ⟨hbsp, hpc, hstate, hkick, hring⟩ : s.bsp = .ready ∧ s.pc 1 = .launched .idleTask ∧
      s.cpuState 1 = .init ∧ s.kick 1 = false ∧
      decide (Ring s.links (.head .runnableTasks 1) [.unit (.vcpu 1)]) = true := by
    simpa only [Prod.mk.injEq] using hobs
  have hlinked : Linked s .runnableTasks 1 (.vcpu 1) :=
    ⟨_, of_decide_eq_true hring, List.mem_singleton_self _⟩
  refine ⟨s, Run.of_foldlM step (fun _ _ _ _ h => h) hs, by decide, hbsp, hpc, hstate, hlinked,
    hkick, fun hno => ?_⟩
  have hkicked := hno.kicked hpc ⟨1, hlinked⟩
  rw [hkick] at hkicked
  cases hkicked

end HyveMind.Sched
