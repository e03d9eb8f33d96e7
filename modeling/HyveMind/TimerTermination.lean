import HyveMind.TimerExpiry
import HyveMind.TimerInit

/-! # When the timer handler ends

With a clock that stands still at `t`, `irq_timer_handler` ends iff every periodic timer that is due
gets a deadline behind `t` some day (`handlerLoop_ends` and `handlerLoop_stuck`).  The deadlines of a
periodic timer wrap at `2 ^ 64`; they run through all 64-bit numbers that have the same remainder
modulo the greatest common divisor of the period and `2 ^ 64`, and `highestDeadline` is the last one
of these.  A timer with the period zero, which is what the conversions to ticks may return, keeps its
deadline. -/

namespace HyveMind.TimerCpu

open Lib

variable {s s' : TimerCpu} {e p t now : ℕ}

/-! ### The deadlines of a periodic timer -/

/-- The highest deadline that a periodic timer gets. -/
def highestDeadline (timer : Timer) : ℕ :=
  2 ^ 64 - Nat.gcd timer.periodicTicks (2 ^ 64) +
    timer.elapseDeadline % Nat.gcd timer.periodicTicks (2 ^ 64)

theorem iterate_advanced (timer : Timer) (hlt : timer.elapseDeadline < 2 ^ 64) (k : ℕ) :
    Timer.advanced^[k] timer =
      { timer with elapseDeadline := u64 (timer.elapseDeadline + k * timer.periodicTicks) } := by
  induction k with
  | zero => simp [u64_of_lt hlt]
  | succ k ih =>
      rw [Function.iterate_succ_apply', ih, Timer.advanced, Nat.add_comm, u64_add_u64]
      congr 2
      change timer.periodicTicks + (timer.elapseDeadline + k * timer.periodicTicks) = _
      rw [Nat.add_mul]
      omega

/-- Multiples of `a` modulo `m` reach every multiple of the greatest common divisor. -/
theorem exists_mul_mod_eq {a m c : ℕ} (hm : 0 < m) (hc : Nat.gcd a m ∣ c) :
    ∃ k, (k * a) % m = c % m := by
  obtain ⟨q, rfl⟩ := hc
  rcases (Nat.le_of_dvd hm (Nat.gcd_dvd_right a m)).lt_or_eq with hlt | heq
  · obtain ⟨k, -, hk⟩ := Nat.exists_mul_mod_eq_gcd hlt
    refine ⟨k * q, ?_⟩
    rw [Nat.mul_right_comm, Nat.mul_comm k a, Nat.mul_mod, hk, ← Nat.mul_mod_mod, Nat.mod_mod,
      Nat.mul_mod_mod]
  · refine ⟨0, ?_⟩
    rw [heq, Nat.zero_mul, Nat.mul_mod_right, Nat.zero_mod]

/-- The deadlines reach behind `t` iff the highest one is behind it. -/
theorem exists_behind_iff (timer : Timer) (hlt : timer.elapseDeadline < 2 ^ 64) :
    (∃ k, t < (Timer.advanced^[k] timer).elapseDeadline) ↔ t < highestDeadline timer := by
  simp only [iterate_advanced timer hlt]
  unfold highestDeadline
  set d := timer.elapseDeadline
  set a := timer.periodicTicks
  have hdvd : Nat.gcd a (2 ^ 64) ∣ 2 ^ 64 := Nat.gcd_dvd_right a (2 ^ 64)
  have hpos : 0 < Nat.gcd a (2 ^ 64) := Nat.gcd_pos_of_pos_right a (by norm_num)
  have hmod := Nat.mod_lt d hpos
  have hle := Nat.le_of_dvd (by norm_num) hdvd
  constructor
  · rintro ⟨k, hk⟩
    refine lt_of_lt_of_le hk ?_
    have hrem : u64 (d + k * a) % Nat.gcd a (2 ^ 64) = d % Nat.gcd a (2 ^ 64) := by
      rw [u64, Nat.mod_mod_of_dvd _ hdvd, Nat.add_mod,
        Nat.mod_eq_zero_of_dvd ((Nat.gcd_dvd_left a (2 ^ 64)).mul_left k), Nat.add_zero, Nat.mod_mod]
    have hword := u64_lt (d + k * a)
    obtain ⟨q, hq⟩ := hdvd
    have hdiv := Nat.div_add_mod (u64 (d + k * a)) (Nat.gcd a (2 ^ 64))
    have hlast : u64 (d + k * a) / Nat.gcd a (2 ^ 64) < q := by
      rw [Nat.div_lt_iff_lt_mul hpos, Nat.mul_comm q, ← hq]
      exact hword
    have hmul := Nat.mul_le_mul_left (Nat.gcd a (2 ^ 64)) (Nat.le_sub_one_of_lt hlast)
    rw [Nat.mul_sub_one, ← hq] at hmul
    omega
  · intro ht
    have hdiv := Nat.div_add_mod d (Nat.gcd a (2 ^ 64))
    have hc : Nat.gcd a (2 ^ 64) ∣
        (2 ^ 64 - Nat.gcd a (2 ^ 64)) + (2 ^ 64 - Nat.gcd a (2 ^ 64) * (d / Nat.gcd a (2 ^ 64))) :=
      (Nat.dvd_sub hdvd dvd_rfl).add (Nat.dvd_sub hdvd (Nat.dvd_mul_right ..))
    obtain ⟨k, hk⟩ := exists_mul_mod_eq (show 0 < 2 ^ 64 by norm_num) hc
    refine ⟨k, lt_of_lt_of_le ht (le_of_eq ?_)⟩
    rw [u64, Nat.add_mod, hk, ← Nat.add_mod]
    omega

/-! ### Ending and not ending -/

/-- A timer that is due and has deadlines behind `t`, or is not periodic. -/
def Passes (t : ℕ) (timer : Timer) : Prop :=
  timer.type = .periodic → timer.elapseDeadline ≤ t →
    ∃ k, t < (Timer.advanced^[k] timer).elapseDeadline

open Classical in
/-- The number of rounds that a timer takes. -/
noncomputable def rounds (t : ℕ) (timer : Timer) : ℕ :=
  if timer.type = .oneshot then 1
  else if h : ∃ k, t < (Timer.advanced^[k] timer).elapseDeadline then Nat.find h else 0

theorem Passes.advanced {timer : Timer} (h : Passes t timer) (htype : timer.type = .periodic)
    (hdue : timer.elapseDeadline ≤ t) :
    ∃ k, t < (Timer.advanced^[k] timer.advanced).elapseDeadline := by
  obtain ⟨k, hk⟩ := h htype hdue
  cases k with
  | zero => exact absurd hk (not_lt.mpr hdue)
  | succ k => exact ⟨k, hk⟩

theorem rounds_counts {timer : Timer} (h : Passes t timer) (hdue : timer.elapseDeadline ≤ t) :
    Counts (rounds t) timer where
  oneshot := fun htype => if_pos htype
  periodic := fun htype => by
    have hadv : timer.advanced.type = .periodic := htype
    rw [rounds, rounds, if_neg (by simp [htype]), if_neg (by simp [hadv]),
      dif_pos (h htype hdue), dif_pos (h.advanced htype hdue)]
    exact Nat.find_comp_succ (h htype hdue) (h.advanced htype hdue) (not_lt.mpr hdue)

theorem passes_round (hpass : ∀ p ∈ s.pending, Passes t (s.timers p))
    (hin : e ∈ s.pending) (hdue : s.deadline e ≤ t) (round : Round s e s') :
    ∀ p ∈ s'.pending, Passes t (s'.timers p) := by
  cases htype : (s.timers e).type with
  | oneshot =>
      obtain ⟨htimers, hpend⟩ := round.oneshot htype
      intro p hp
      rw [htimers]
      refine hpass p ?_
      rw [← hpend]
      exact Multiset.mem_cons_of_mem hp
  | periodic =>
      obtain ⟨htimers, hpend⟩ := round.periodic htype
      intro p hp
      rw [htimers]
      by_cases hpe : p = e
      · subst hpe
        rw [Function.update_self]
        exact fun _ _ => (hpass p hin).advanced htype hdue
      · rw [Function.update_of_ne hpe]
        exact hpass p (hpend ▸ hp)

theorem handlerLoop_ends (ok : HeapOk s) (single : Single s)
    (hpass : ∀ p ∈ s.pending, Passes t (s.timers p)) (now : ℕ) :
    ∃ m s', s.handlerLoop quiet now (List.replicate m t) = some s' := by
  obtain ⟨s', -, hend⟩ := handlerLoop_rule (t := t)
    (I := fun s => HeapOk s ∧ Single s ∧ ∀ p ∈ s.pending, Passes t (s.timers p))
    (R := fun _ _ => True) (μ := total (rounds t)) (fun s h => ⟨h.1, h.2.1⟩)
    (by
      rintro s e s₁ ⟨ok, single, hpass⟩ hroot hdue round
      have hin := mem_pending_root hroot
      have htotal := round.total single hin (rounds_counts (hpass e hin) hdue)
      exact ⟨⟨round.ok, round.single, passes_round hpass hin hdue round⟩, by omega,
        fun _ _ => trivial⟩)
    (fun _ _ _ _ => trivial) now ⟨ok, single, hpass⟩
  exact ⟨_, s', hend _ (Nat.lt_succ_self _)⟩

/-- The handler does not end if the deadlines of a pending periodic timer never get behind `t`. -/
theorem handlerLoop_stuck (ok : HeapOk s) (single : Single s) (hp : p ∈ s.pending)
    (htype : (s.timers p).type = .periodic)
    (hdue : ∀ k, (Timer.advanced^[k] (s.timers p)).elapseDeadline ≤ t) (now m : ℕ) :
    s.handlerLoop quiet now (List.replicate m t) = none := by
  induction m generalizing s with
  | zero =>
      obtain ⟨e, hroot⟩ := exists_root hp
      simp [handlerLoop, hroot]
  | succ m ih =>
      obtain ⟨e, hroot⟩ := exists_root hp
      have hle : s.deadline e ≤ t := (ok.root_le hroot hp).trans (hdue 0)
      obtain ⟨s₁, hcall, round⟩ := expire_quiet ok single hroot now
      rw [List.replicate_succ, handlerLoop]
      simp only [hroot, if_neg (not_lt.mpr hle), hcall, Option.bind_some]
      cases he : (s.timers e).type with
      | oneshot =>
          obtain ⟨htimers, hpend⟩ := round.oneshot he
          have hne : p ≠ e := fun h => by rw [h, he] at htype; cases htype
          rw [← hpend] at hp
          exact ih round.ok round.single ((Multiset.mem_cons.mp hp).resolve_left hne)
            (by rw [htimers, htype]) (by rwa [htimers])
      | periodic =>
          obtain ⟨htimers, hpend⟩ := round.periodic he
          have hself : s₁.timers p = s.timers p ∨ s₁.timers p = (s.timers p).advanced := by
            rw [htimers]
            by_cases hpe : p = e
            · exact Or.inr (by rw [hpe, Function.update_self])
            · exact Or.inl (Function.update_of_ne hpe _ _)
          rcases hself with hself | hself
          · exact ih round.ok round.single (hpend ▸ hp) (by rwa [hself]) (by rwa [hself])
          · refine ih round.ok round.single (hpend ▸ hp) (by rwa [hself]) fun k => ?_
            rw [hself]
            exact hdue (k + 1)

/-- The handler ends, with a clock that stands still at `t`. -/
def HandlerEnds (t : ℕ) (s : TimerCpu) : Prop :=
  ∃ m s', s.irqTimerHandler quiet (List.replicate m t) = some s'

theorem handlerEnds_iff (ok : HeapOk s) (single : Single s) :
    HandlerEnds t s ↔ ∀ p ∈ s.pending, Passes t (s.timers p) := by
  constructor
  · rintro ⟨m, s', hcall⟩ p hp htype _
    by_contra hstuck
    push Not at hstuck
    cases m with
    | zero => cases hcall
    | succ m =>
        have hnone := handlerLoop_stuck ok single hp htype hstuck t m
        rw [List.replicate_succ, irqTimerHandler, hnone] at hcall
        cases hcall
  · intro hpass
    obtain ⟨m, s', hend⟩ := handlerLoop_ends ok single hpass t
    exact ⟨m + 1, s', hend⟩

/-! ### Timers that are created through the API -/

/-- A structure is filled in by one of the functions that create timers. -/
def Created (clockHz : ℕ) : Cmd → Prop
  | .init _ val => ∃ (now : ℕ) (req : TimerRequest), now < 2 ^ 64 ∧ req.Valid ∧
      req.create true clockHz now = some val
  | .add _ => True

/-- A call of the API. -/
def ApiStep (clockHz : ℕ) (s : TimerCpu) (c : Cmd) (s' : TimerCpu) : Prop :=
  Allowed s c ∧ Created clockHz c ∧ s.runCmd c = some s'

/-- Deadlines are 64-bit numbers. -/
def InRange (timers : ℕ → Timer) : Prop := ∀ p, (timers p).elapseDeadline < 2 ^ 64

theorem create_lt {clockHz : ℕ} {req : TimerRequest} {val : Timer} (hreq : req.Valid)
    (h : req.create true clockHz now = some val) : val.elapseDeadline < 2 ^ 64 := by
  cases req with
  | initDeadline timerDeadline =>
      obtain rfl := Option.some.inj h
      exact hreq
  | initNs timeNs type =>
      obtain rfl := Option.some.inj h
      exact u64_lt _
  | initHz hz ticks type =>
      obtain rfl := Option.some.inj h
      exact u64_lt _

theorem ApiStep.inRange {clockHz : ℕ} {c : Cmd} (ok : HeapOk s) (h : ApiStep clockHz s c s')
    (hrange : InRange s.timers) : InRange s'.timers := by
  obtain ⟨-, hcreated, hcall⟩ := h
  cases c with
  | init p val =>
      obtain rfl := Option.some.inj hcall
      obtain ⟨now, req, -, hreq, hval⟩ := hcreated
      intro q
      by_cases hq : q = p
      · subst hq
        simpa [setTimer] using create_lt hreq hval
      · simpa [setTimer, hq] using hrange q
  | add p =>
      by_cases hfull : s.capacity ≤ s.insertionIdx
      · rw [runCmd, addTimer_full hfull p] at hcall
        obtain rfl := Option.some.inj hcall
        exact hrange
      · obtain ⟨s₁, hadd, added⟩ := addTimer_spec ok (by omega) p
        rw [runCmd, hadd] at hcall
        obtain rfl := Option.some.inj hcall
        exact added.timers ▸ hrange

section Api

variable {clockHz : ℕ} {timers : ℕ → Timer} {tree : ℕ → ℕ} {cs : List Cmd}

theorem api_invariant (hmem : InRange timers)
    (hrun : Run (ApiStep clockHz) (initTimerHeap timers tree) cs s) :
    TimersOk s ∧ InRange s.timers := by
  refine hrun.invariant (I := fun s => TimersOk s ∧ InRange s.timers) ?_
    ⟨timersOk_init timers tree, hmem⟩
  rintro s c s' ⟨inv, hrange⟩ hstep
  have hquiet : QuietStep Allowed s (.cmd c) s' := ⟨hstep.1, hstep.2.2⟩
  exact ⟨timersOk_step inv hquiet.later, hstep.inRange inv.ok hrange⟩

/-- **When the handler ends.**  For all timers that are created and added through the API, the
handler ends iff the highest deadline of every periodic timer that is due is behind the time. -/
theorem handler_ends_iff (hmem : InRange timers)
    (hrun : Run (ApiStep clockHz) (initTimerHeap timers tree) cs s) :
    HandlerEnds t s ↔ ∀ p ∈ s.pending, (s.timers p).type = .periodic → s.deadline p ≤ t →
      t < highestDeadline (s.timers p) := by
  obtain ⟨inv, hrange⟩ := api_invariant hmem hrun
  rw [handlerEnds_iff inv.ok inv.single]
  refine forall₂_congr fun p _ => ?_
  refine imp_congr_right fun _ => imp_congr_right fun _ => ?_
  exact exists_behind_iff (s.timers p) (hrange p)

end Api

/-- One call, computed. -/
def apiExec (s : TimerCpu) (c : Cmd) : Option TimerCpu := if Allowed s c then s.runCmd c else none

theorem run_of_apiExec {clockHz : ℕ} {cs : List Cmd} (hcreated : ∀ c ∈ cs, Created clockHz c)
    (h : cs.foldlM apiExec s = some s') : Run (ApiStep clockHz) s cs s' := by
  refine Run.of_foldlM _ (fun s c s' hc hcall => ?_) h
  unfold apiExec at hcall
  split_ifs at hcall with hadm
  exact ⟨hadm, hcreated c hc, hcall⟩

/-- A periodic timer is created with `init_timer_hz` at the time `5` and added; the frequency of the
clock is `1000`. -/
def addPeriodic (hz : ℕ) : List Cmd :=
  [.init 10 ⟨u64 (5 + getTicksFromHz 1000 1 hz), getTicksFromHz 1000 1 hz, .periodic⟩, .add 10]

theorem addPeriodic_created {hz : ℕ} (hpos : 0 < hz) (hlt : hz < 2 ^ 64) :
    ∀ c ∈ addPeriodic hz, Created 1000 c := by
  intro c hc
  simp only [addPeriodic, List.mem_cons, List.not_mem_nil, or_false] at hc
  rcases hc with rfl | rfl
  · exact ⟨5, .initHz hz 1 .periodic, by norm_num, ⟨hpos, hlt, by norm_num⟩, rfl⟩
  · exact trivial

/-- A timer with a tenth of a second as its period, at the time `1000`. -/
theorem handler_ends_tenth_of_second :
    ∃ s, Run (ApiStep 1000) demoInit (addPeriodic 10) s ∧ s.pending = {10} ∧ s.deadline 10 = 105 ∧
      HandlerEnds 1000 s := by
  have hend : ((addPeriodic 10).foldlM apiExec demoInit).map (fun s => (s.pending, s.timers 10)) =
      some ({10}, ⟨105, 100, .periodic⟩) := by decide
  obtain ⟨s, hs, hobs⟩ := Option.map_eq_some_iff.mp hend
  obtain ⟨hpending, htimer⟩ := Prod.mk.inj hobs
  have hrun := run_of_apiExec (addPeriodic_created (by norm_num) (by norm_num)) hs
  refine ⟨s, hrun, hpending, by rw [deadline, htimer], ?_⟩
  refine (handler_ends_iff (fun _ => by norm_num) hrun).mpr fun p hp _ _ => ?_
  obtain rfl : p = 10 := by simpa [hpending] using hp
  rw [htimer]
  norm_num [highestDeadline]

/-- A timer with a frequency of `2000` has the period zero: the handler does not end. -/
theorem handler_of_zero_period :
    ∃ s, Run (ApiStep 1000) demoInit (addPeriodic 2000) s ∧
      s.timers 10 = ⟨5, 0, .periodic⟩ ∧ ¬ HandlerEnds 5 s := by
  have hend : ((addPeriodic 2000).foldlM apiExec demoInit).map (fun s => (s.pending, s.timers 10)) =
      some ({10}, ⟨5, 0, .periodic⟩) := by decide
  obtain ⟨s, hs, hobs⟩ := Option.map_eq_some_iff.mp hend
  obtain ⟨hpending, htimer⟩ := Prod.mk.inj hobs
  have hrun := run_of_apiExec (addPeriodic_created (by norm_num) (by norm_num)) hs
  refine ⟨s, hrun, htimer, fun hends => ?_⟩
  obtain ⟨inv, -⟩ := api_invariant (fun _ => by norm_num) hrun
  have hpass := (handlerEnds_iff inv.ok inv.single).mp hends 10 (by simp [hpending])
  rw [htimer] at hpass
  obtain ⟨k, hk⟩ := hpass rfl le_rfl
  rw [iterate_advanced _ (by norm_num)] at hk
  norm_num [u64] at hk

end HyveMind.TimerCpu
