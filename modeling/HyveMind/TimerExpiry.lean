import HyveMind.TimerRun

/-! # What the timer handler fires

`irq_timer_handler` with a clock that stands still and timer actions that leave the heap alone.
`Round` is what one round of its loop does, and `handlerLoop_rule` the induction rule for the loop:
an invariant, a measure that every round decreases, and a relation between the first and the last
state.

`fires_due` says which timers the handler fires and how often, in which order, and what it leaves
behind, for heaps in which no periodic timer is twice. -/

namespace HyveMind.TimerCpu

open Lib Lib.ArrayHeap

variable {s s' : TimerCpu} {e p t now : ℕ}

/-! ### One round -/

/-- One round of the handler: the action of the timer `e` at the root is invoked; a one-shot timer
is taken out, a periodic timer gets its next deadline. -/
structure Round (s : TimerCpu) (e : ℕ) (s' : TimerCpu) : Prop where
  ok : HeapOk s'
  single : Single s'
  invoked : s'.invoked = s.invoked ++ [(e, s.timers e)]
  oneshot : (s.timers e).type = .oneshot → s'.timers = s.timers ∧ e ::ₘ s'.pending = s.pending
  periodic : (s.timers e).type = .periodic →
    s'.timers = Function.update s.timers e (s.timers e).advanced ∧ s'.pending = s.pending

theorem expire_quiet (ok : HeapOk s) (single : Single s) (hroot : s.getHeapRoot = some e) (now : ℕ) :
    ∃ s', s.expire quiet now e = some s' ∧ Round s e s' := by
  have ok₀ : HeapOk (s.logged e) := ⟨ok.capacity, ok.pos, ok.le, ok.ordered⟩
  obtain ⟨tree, hdel, ok₂, hpend⟩ := deleteRoot_spec ok₀ hroot
  set s₂ : TimerCpu := { s.logged e with
    flattenedTree := tree, insertionIdx := (s.logged e).insertionIdx - 1 } with hs₂
  have hpend₂ : e ::ₘ s₂.pending = s.pending := hpend
  have hsingle₂ : Single s₂ := fun p hp => by
    refine le_trans ?_ (single p hp)
    rw [← hpend₂]
    exact Multiset.count_le_count_cons p e _
  have hcall : s.expire quiet now e = if (s.timers e).type = .periodic then
      ((s₂.setTimer e (s.timers e).advanced).addTimer e).map Prod.fst else some s₂ := by
    have hact : s.timerAction quiet now e = some (s.logged e) := rfl
    simp only [expire, hact, hdel, Option.bind_eq_bind, Option.bind_some, Option.pure_def]
    change (if (s.timers e).type = .periodic then _ else _) = _
    split_ifs
    · change ((s₂.setTimer e (s.timers e).advanced).addTimer e).bind _ = _
      cases (s₂.setTimer e (s.timers e).advanced).addTimer e <;> rfl
    · rfl
  rw [hcall]
  cases htype : (s.timers e).type with
  | oneshot =>
      rw [if_neg (by simp)]
      exact ⟨s₂, rfl, ok₂, hsingle₂, rfl, fun _ => ⟨rfl, hpend₂⟩,
        fun h => absurd h (by simp [htype])⟩
  | periodic =>
      rw [if_pos rfl]
      have habsent : e ∉ s₂.pending := by
        intro hmem
        have h1 := single e htype
        have h2 := Multiset.one_le_count_iff_mem.mpr hmem
        rw [← hpend₂, Multiset.count_cons_self] at h1
        omega
      have hroom : s₂.insertionIdx < s₂.capacity := by
        have h1 := ok.le
        have h2 := ok.capacity
        have h3 := (getHeapRoot_eq_some.mp hroot).1
        simp only [hs₂, logged]
        omega
      obtain ⟨s₃, hadd, added⟩ := addTimer_spec (ok₂.setTimer habsent) hroom e
      refine ⟨s₃, by rw [hadd]; rfl, added.ok, added.single (hsingle₂.setTimer habsent)
        (fun _ => habsent), added.invoked, fun h => absurd h (by simp [htype]),
        fun _ => ⟨added.timers, ?_⟩⟩
      rw [added.pending, setTimer_pending, hpend₂]

/-- The sum of a weight over the pending timers. -/
def total (w : Timer → ℕ) (s : TimerCpu) : ℕ := (s.pending.map fun p => w (s.timers p)).sum

/-- The weight of a timer counts its firings. -/
structure Counts (w : Timer → ℕ) (timer : Timer) : Prop where
  oneshot : timer.type = .oneshot → w timer = 1
  periodic : timer.type = .periodic → w timer = w timer.advanced + 1

theorem Round.total {w : Timer → ℕ} (round : Round s e s') (single : Single s) (hin : e ∈ s.pending)
    (hw : Counts w (s.timers e)) : s.total w = s'.total w + 1 := by
  cases htype : (s.timers e).type with
  | oneshot =>
      obtain ⟨htimers, hpend⟩ := round.oneshot htype
      rw [TimerCpu.total, TimerCpu.total, htimers, ← hpend, Multiset.map_cons, Multiset.sum_cons,
        hw.oneshot htype, Nat.add_comm]
  | periodic =>
      obtain ⟨htimers, hpend⟩ := round.periodic htype
      obtain ⟨rest, hrest⟩ := Multiset.exists_cons_of_mem hin
      have hnot : e ∉ rest := by
        intro hmem
        have h1 := single e htype
        have h2 := Multiset.one_le_count_iff_mem.mpr hmem
        rw [hrest, Multiset.count_cons_self] at h1
        omega
      have hsame : rest.map (fun p => w (s'.timers p)) = rest.map fun p => w (s.timers p) := by
        refine Multiset.map_congr rfl fun p hp => ?_
        have hne : p ≠ e := fun h => hnot (h ▸ hp)
        rw [htimers, Function.update_of_ne hne]
      rw [TimerCpu.total, TimerCpu.total, hpend, hrest, Multiset.map_cons, Multiset.map_cons,
        Multiset.sum_cons, Multiset.sum_cons, hsame, hw.periodic htype, htimers, Function.update_self]
      omega

/-- The last round: the heap is empty, or the hardware is programmed to the deadline at the root. -/
def Rest (t : ℕ) (s s' : TimerCpu) : Prop :=
  (s.getHeapRoot = none ∧ s' = s) ∨
    ∃ e, s.getHeapRoot = some e ∧ t < s.deadline e ∧ s' = (s.archReprogramTimer (s.deadline e)).1

/-- **The induction rule for the handler** with a clock that stands still. -/
theorem handlerLoop_rule {I : TimerCpu → Prop} {R : TimerCpu → TimerCpu → Prop} {μ : TimerCpu → ℕ}
    (hok : ∀ s, I s → HeapOk s ∧ Single s)
    (hround : ∀ s e s₁, I s → s.getHeapRoot = some e → s.deadline e ≤ t → Round s e s₁ →
      I s₁ ∧ μ s₁ < μ s ∧ ∀ s', R s₁ s' → R s s')
    (hrest : ∀ s s', I s → Rest t s s' → R s s') (now : ℕ) (hI : I s) :
    ∃ s', R s s' ∧ ∀ m, μ s < m → s.handlerLoop quiet now (List.replicate m t) = some s' := by
  induction hn : μ s using Nat.strong_induction_on generalizing s with
  | _ n ih =>
      cases hroot : s.getHeapRoot with
      | none =>
          refine ⟨s, hrest s s hI (Or.inl ⟨hroot, rfl⟩), fun m _ => ?_⟩
          cases m with
          | zero => simp [handlerLoop, hroot]
          | succ m => simp [List.replicate_succ, handlerLoop, hroot]
      | some e =>
          by_cases hdue : s.deadline e ≤ t
          · obtain ⟨ok, single⟩ := hok s hI
            obtain ⟨s₁, hcall, round⟩ := expire_quiet ok single hroot now
            obtain ⟨hI₁, hlt, hR⟩ := hround s e s₁ hI hroot hdue round
            obtain ⟨s', hs', hend⟩ := ih (μ s₁) (hn ▸ hlt) hI₁ rfl
            refine ⟨s', hR s' hs', fun m hm => ?_⟩
            obtain ⟨m, rfl⟩ := Nat.exists_eq_add_one_of_ne_zero (show m ≠ 0 by omega)
            rw [List.replicate_succ, handlerLoop]
            simp only [hroot, if_neg (not_lt.mpr hdue), hcall, Option.bind_some]
            exact hend m (by omega)
          · rw [not_le] at hdue
            refine ⟨_, hrest s _ hI (Or.inr ⟨e, hroot, hdue, rfl⟩), fun m hm => ?_⟩
            obtain ⟨m, rfl⟩ := Nat.exists_eq_add_one_of_ne_zero (show m ≠ 0 by omega)
            rw [List.replicate_succ, handlerLoop]
            simp only [hroot, if_pos hdue]

/-! ### How often a timer fires -/

/-- How often a timer has to fire until its deadline is behind `t`. -/
def firings (t : ℕ) (timer : Timer) : ℕ :=
  if t < timer.elapseDeadline then 0
  else
    match timer.type with
    | .oneshot => 1
    | .periodic => (t - timer.elapseDeadline) / timer.periodicTicks + 1

/-- The timer `k` periods later. -/
def afterPeriods (timer : Timer) (k : ℕ) : Timer :=
  { timer with elapseDeadline := timer.elapseDeadline + k * timer.periodicTicks }

section Firings

variable {timer : Timer}

theorem firings_of_lt (h : t < timer.elapseDeadline) : firings t timer = 0 := if_pos h

theorem firings_oneshot (htype : timer.type = .oneshot) (hdue : timer.elapseDeadline ≤ t) :
    firings t timer = 1 := by
  rw [firings, if_neg (not_lt.mpr hdue)]
  simp [htype]

theorem firings_periodic (htype : timer.type = .periodic) (hdue : timer.elapseDeadline ≤ t) :
    firings t timer = (t - timer.elapseDeadline) / timer.periodicTicks + 1 := by
  rw [firings, if_neg (not_lt.mpr hdue)]
  simp [htype]

@[simp] theorem afterPeriods_zero (timer : Timer) : afterPeriods timer 0 = timer := by
  simp [afterPeriods]

theorem afterPeriods_afterPeriods (timer : Timer) (j k : ℕ) :
    afterPeriods (afterPeriods timer j) k = afterPeriods timer (j + k) := by
  simp [afterPeriods, Nat.add_mul, Nat.add_assoc]

/-- The deadline after the firings is the first one behind `t`. -/
theorem firings_first (htype : timer.type = .periodic) (hdue : timer.elapseDeadline ≤ t)
    (hpos : 0 < timer.periodicTicks) :
    t < (afterPeriods timer (firings t timer)).elapseDeadline ∧
      ∀ k < firings t timer, timer.elapseDeadline + k * timer.periodicTicks ≤ t := by
  rw [firings_periodic htype hdue]
  simp only [afterPeriods]
  have hmod := Nat.div_add_mod (t - timer.elapseDeadline) timer.periodicTicks
  have hlt := Nat.mod_lt (t - timer.elapseDeadline) hpos
  constructor
  · rw [Nat.add_mul, Nat.one_mul, Nat.mul_comm]
    omega
  · intro k hk
    have hle : k * timer.periodicTicks ≤ t - timer.elapseDeadline :=
      (Nat.le_div_iff_mul_le hpos).mp (by omega)
    omega

theorem firings_advanced (htype : timer.type = .periodic) (hdue : timer.elapseDeadline ≤ t)
    (hpos : 0 < timer.periodicTicks)
    (hwrap : (afterPeriods timer (firings t timer)).elapseDeadline < 2 ^ 64) :
    timer.advanced = afterPeriods timer 1 ∧ firings t timer = firings t timer.advanced + 1 := by
  have hle : timer.elapseDeadline + timer.periodicTicks < 2 ^ 64 := by
    refine lt_of_le_of_lt ?_ hwrap
    rw [firings_periodic htype hdue]
    simp only [afterPeriods, Nat.add_mul, Nat.one_mul]
    omega
  have hadv : timer.advanced = afterPeriods timer 1 := by
    rw [Timer.advanced, u64_of_lt hle, afterPeriods, Nat.one_mul]
  refine ⟨hadv, ?_⟩
  rw [hadv, firings_periodic htype hdue]
  by_cases hnext : t < timer.elapseDeadline + timer.periodicTicks
  · rw [firings_of_lt (by simpa [afterPeriods] using hnext), Nat.div_eq_of_lt (by omega)]
  · rw [firings_periodic (by exact htype) (by simp only [afterPeriods]; omega)]
    simp only [afterPeriods, Nat.one_mul]
    rw [Nat.sub_add_eq, ← Nat.div_eq_sub_div hpos (by omega)]

end Firings

/-! ### The whole handler -/

/-- Every periodic timer has a positive period, and its deadline does not wrap on the way behind
`t`. -/
def Regular (t : ℕ) (s : TimerCpu) : Prop :=
  ∀ p ∈ s.pending, (s.timers p).type = .periodic → 0 < (s.timers p).periodicTicks ∧
    (s.deadline p ≤ t → (afterPeriods (s.timers p) (firings t (s.timers p))).elapseDeadline < 2 ^ 64)

/-- What the handler does between the states `s` and `s'`: the timers of `log` fire. -/
structure Fires (t : ℕ) (s s' : TimerCpu) (log : List (ℕ × Timer)) : Prop where
  ok : HeapOk s'
  programmed : Programmed s'
  invoked : s'.invoked = s.invoked ++ log
  count : ∀ p, (log.map Prod.fst).count p = s.pending.count p * firings t (s.timers p)
  timers : ∀ p, s'.timers p = if p ∈ s.pending ∧ (s.timers p).type = .periodic then
    afterPeriods (s.timers p) (firings t (s.timers p)) else s.timers p
  pending : ∀ p, s'.pending.count p =
    if (s.timers p).type = .oneshot ∧ s.deadline p ≤ t then 0 else s.pending.count p
  lower : ∀ b, (∀ p ∈ s.pending, b ≤ s.deadline p) → ∀ x ∈ log, b ≤ x.2.elapseDeadline
  order : log.Pairwise fun x y => x.2.elapseDeadline ≤ y.2.elapseDeadline

section Handler

variable {s₁ : TimerCpu} {log : List (ℕ × Timer)}

theorem Rest.fires (ok : HeapOk s) (h : Rest t s s') : Fires t s s' [] := by
  have hnone : ∀ p ∈ s.pending, t < s.deadline p := by
    intro p hp
    rcases h with ⟨hroot, -⟩ | ⟨e, hroot, hlt, -⟩
    · obtain ⟨e, he⟩ := exists_root hp
      rw [hroot] at he
      cases he
    · exact lt_of_lt_of_le hlt (ok.root_le hroot hp)
  have hzero : ∀ p ∈ s.pending, firings t (s.timers p) = 0 := fun p hp => firings_of_lt (hnone p hp)
  have hsame : HeapOk s' ∧ Programmed s' ∧ s'.invoked = s.invoked ∧ s'.timers = s.timers ∧
      s'.pending = s.pending := by
    rcases h with ⟨hroot, rfl⟩ | ⟨e, hroot, -, rfl⟩
    · refine ⟨ok, fun e he => ?_, rfl, rfl, rfl⟩
      rw [hroot] at he
      cases he
    · refine ⟨⟨ok.capacity, ok.pos, ok.le, ok.ordered⟩, fun e' he' => ?_, rfl, rfl, rfl⟩
      obtain rfl : e = e' := Option.some.inj (hroot.symm.trans he')
      rfl
  obtain ⟨ok', hprog, hinv, htimers, hpend⟩ := hsame
  refine ⟨ok', hprog, by rw [hinv, List.append_nil], fun p => ?_, fun p => ?_, fun p => ?_,
    fun _ _ x hx => absurd hx List.not_mem_nil, .nil⟩
  · by_cases hp : p ∈ s.pending
    · rw [hzero p hp]
      rfl
    · rw [Multiset.count_eq_zero_of_notMem hp, Nat.zero_mul]
      rfl
  · rw [htimers]
    split_ifs with hp
    · rw [hzero p hp.1, afterPeriods_zero]
    · rfl
  · rw [hpend]
    split_ifs with hp
    · refine Multiset.count_eq_zero_of_notMem fun hmem => ?_
      have := hnone p hmem
      omega
    · rfl

theorem Fires.oneshot (htype : (s.timers e).type = .oneshot) (hdue : s.deadline e ≤ t)
    (ok : HeapOk s) (hroot : s.getHeapRoot = some e) (round : Round s e s₁)
    (h : Fires t s₁ s' log) : Fires t s s' ((e, s.timers e) :: log) := by
  obtain ⟨htimers, hpend⟩ := round.oneshot htype
  have hdl : s₁.deadline = s.deadline := by
    funext p
    rw [deadline, htimers, deadline]
  have hcount : ∀ p, s.pending.count p = s₁.pending.count p + if p = e then 1 else 0 := by
    intro p
    rw [← hpend, Multiset.count_cons]
  have hmem : ∀ p ∈ s₁.pending, p ∈ s.pending := by
    intro p hp
    rw [← hpend]
    exact Multiset.mem_cons_of_mem hp
  refine ⟨h.ok, h.programmed, by rw [h.invoked, round.invoked, List.append_assoc]; rfl, fun p => ?_,
    fun p => ?_, fun p => ?_, ?_, ?_⟩
  · rw [List.map_cons, List.count_cons, h.count, hcount, htimers, Nat.add_mul]
    by_cases hp : p = e
    · subst hp
      simp [firings_oneshot htype hdue]
    · simp [hp, Ne.symm hp]
  · rw [h.timers, htimers]
    by_cases hp : p = e
    · subst hp
      simp [htype]
    · have hiff : p ∈ s₁.pending ↔ p ∈ s.pending := by
        rw [← hpend, Multiset.mem_cons]
        simp [hp]
      simp only [hiff]
  · rw [h.pending, htimers, hdl, hcount]
    by_cases hp : p = e
    · subst hp
      simp [htype, hdue]
    · simp [hp]
  · intro b hb x hx
    rcases List.mem_cons.mp hx with rfl | hx
    · exact hb e (mem_pending_root hroot)
    · exact h.lower b (fun p hp => hdl ▸ hb p (hmem p hp)) x hx
  · refine List.pairwise_cons.mpr ⟨fun x hx => ?_, h.order⟩
    exact h.lower (s.deadline e) (fun p hp => hdl ▸ ok.root_le hroot (hmem p hp)) x hx

theorem Fires.periodic (htype : (s.timers e).type = .periodic) (hdue : s.deadline e ≤ t)
    (ok : HeapOk s) (single : Single s) (regular : Regular t s) (hroot : s.getHeapRoot = some e)
    (round : Round s e s₁) (h : Fires t s₁ s' log) : Fires t s s' ((e, s.timers e) :: log) := by
  obtain ⟨htimers, hpend⟩ := round.periodic htype
  have hin := mem_pending_root hroot
  obtain ⟨hpos, hwrap⟩ := regular e hin htype
  obtain ⟨hadv, hfirings⟩ := firings_advanced htype hdue hpos (hwrap hdue)
  have hself : s₁.timers e = (s.timers e).advanced := by rw [htimers, Function.update_self]
  have hother : ∀ p, p ≠ e → s₁.timers p = s.timers p := fun p hp => by
    rw [htimers, Function.update_of_ne hp]
  have hone : s.pending.count e = 1 :=
    le_antisymm (single e htype) (Multiset.one_le_count_iff_mem.mpr hin)
  have hdl : ∀ p, s.deadline p ≤ s₁.deadline p := by
    intro p
    by_cases hp : p = e
    · subst hp
      rw [deadline, deadline, hself, hadv]
      simp [afterPeriods]
    · rw [deadline, deadline, hother p hp]
  refine ⟨h.ok, h.programmed, by rw [h.invoked, round.invoked, List.append_assoc]; rfl, fun p => ?_,
    fun p => ?_, fun p => ?_, ?_, ?_⟩
  · rw [List.map_cons, List.count_cons, h.count, hpend]
    by_cases hp : p = e
    · subst hp
      rw [hone, hself, hfirings]
      simp
    · rw [hother p hp]
      simp [Ne.symm hp]
  · rw [h.timers, hpend]
    by_cases hp : p = e
    · subst hp
      have hper : (s.timers p).advanced.type = .periodic := htype
      rw [hself, if_pos ⟨hin, hper⟩, if_pos ⟨hin, htype⟩, hfirings, Nat.add_comm, hadv,
        afterPeriods_afterPeriods]
    · rw [hother p hp]
  · rw [h.pending, hpend]
    by_cases hp : p = e
    · subst hp
      have hper : (s.timers p).advanced.type = .periodic := htype
      rw [hself, hper, htype]
      simp
    · rw [deadline, hother p hp, ← deadline]
  · intro b hb x hx
    rcases List.mem_cons.mp hx with rfl | hx
    · exact hb e hin
    · exact h.lower b (fun p hp => (hb p (hpend ▸ hp)).trans (hdl p)) x hx
  · refine List.pairwise_cons.mpr ⟨fun x hx => ?_, h.order⟩
    exact h.lower (s.deadline e) (fun p hp => (ok.root_le hroot (hpend ▸ hp)).trans (hdl p)) x hx

theorem Regular.round (regular : Regular t s) (hin : e ∈ s.pending) (hdue : s.deadline e ≤ t)
    (round : Round s e s₁) : Regular t s₁ := by
  cases htype : (s.timers e).type with
  | oneshot =>
      obtain ⟨htimers, hpend⟩ := round.oneshot htype
      intro p hp
      rw [deadline, htimers]
      refine regular p ?_
      rw [← hpend]
      exact Multiset.mem_cons_of_mem hp
  | periodic =>
      obtain ⟨htimers, hpend⟩ := round.periodic htype
      obtain ⟨hpos, hwrap⟩ := regular e hin htype
      intro p hp
      rw [deadline, htimers]
      by_cases hpe : p = e
      · subst hpe
        rw [Function.update_self]
        refine fun _ => ⟨hpos, fun _ => ?_⟩
        obtain ⟨hadv, hfirings⟩ := firings_advanced htype hdue hpos (hwrap hdue)
        have hend := hwrap hdue
        rwa [hfirings, Nat.add_comm, ← afterPeriods_afterPeriods, ← hadv] at hend
      · rw [Function.update_of_ne hpe]
        exact regular p (hpend ▸ hp)

theorem firings_round (regular : Regular t s) (hin : e ∈ s.pending) (hdue : s.deadline e ≤ t) :
    Counts (firings t) (s.timers e) where
  oneshot := fun htype => firings_oneshot htype hdue
  periodic := fun htype => by
    obtain ⟨hpos, hwrap⟩ := regular e hin htype
    exact (firings_advanced htype hdue hpos (hwrap hdue)).2

theorem handlerLoop_fires (ok : HeapOk s) (single : Single s) (regular : Regular t s) (now : ℕ) :
    ∃ s', (∃ log, Fires t s s' log) ∧
      ∀ m, s.total (firings t) < m → s.handlerLoop quiet now (List.replicate m t) = some s' := by
  refine handlerLoop_rule (I := fun s => HeapOk s ∧ Single s ∧ Regular t s)
    (R := fun s s' => ∃ log, Fires t s s' log) ?_ ?_ ?_ now ⟨ok, single, regular⟩
  · exact fun s h => ⟨h.1, h.2.1⟩
  · rintro s e s₁ ⟨ok, single, regular⟩ hroot hdue round
    have hin := mem_pending_root hroot
    have htotal := round.total single hin (firings_round regular hin hdue)
    refine ⟨⟨round.ok, round.single, regular.round hin hdue round⟩, by omega, ?_⟩
    rintro s' ⟨log, h⟩
    cases htype : (s.timers e).type with
    | oneshot => exact ⟨_, h.oneshot htype hdue ok hroot round⟩
    | periodic => exact ⟨_, h.periodic htype hdue ok single regular hroot round⟩
  · exact fun s s' h hrest => ⟨[], hrest.fires h.1⟩

end Handler

/-- The handler fires what is due at the time `t`, and nothing else. -/
structure FiresDue (t : ℕ) (s s' : TimerCpu) : Prop where
  fired : ∃ log, s'.invoked = s.invoked ++ log ∧
    (log.Pairwise fun x y => x.2.elapseDeadline ≤ y.2.elapseDeadline) ∧
    ∀ p, (log.map Prod.fst).count p = s.pending.count p * firings t (s.timers p)
  oneshot : ∀ p ∈ s.pending, (s.timers p).type = .oneshot → s.deadline p ≤ t → p ∉ s'.pending
  periodic : ∀ p ∈ s.pending, (s.timers p).type = .periodic → s.deadline p ≤ t →
    s'.pending.count p = 1 ∧ s'.timers p = afterPeriods (s.timers p) (firings t (s.timers p)) ∧
      t < s'.deadline p ∧
      ∀ k < firings t (s.timers p), s.deadline p + k * (s.timers p).periodicTicks ≤ t
  others : ∀ p, p ∉ s.pending ∨ t < s.deadline p →
    s'.pending.count p = s.pending.count p ∧ s'.timers p = s.timers p
  programmed : s'.pending ≠ 0 → ∃ p ∈ s'.pending, s'.hwDeadline = some (s'.deadline p) ∧
    ∀ q ∈ s'.pending, s'.deadline p ≤ s'.deadline q

theorem Fires.due {log : List (ℕ × Timer)} (single : Single s) (regular : Regular t s)
    (h : Fires t s s' log) : FiresDue t s s' where
  fired := ⟨log, h.invoked, h.order, h.count⟩
  oneshot := by
    intro p _ htype hdue hmem
    have hcount := h.pending p
    rw [if_pos ⟨htype, hdue⟩] at hcount
    have hpos := Multiset.one_le_count_iff_mem.mpr hmem
    omega
  periodic := by
    intro p hp htype hdue
    have htimer := h.timers p
    rw [if_pos ⟨hp, htype⟩] at htimer
    obtain ⟨hlt, hfirst⟩ := firings_first htype hdue (regular p hp htype).1
    refine ⟨?_, htimer, by rwa [deadline, htimer], hfirst⟩
    rw [h.pending, if_neg (by simp [htype])]
    exact le_antisymm (single p htype) (Multiset.one_le_count_iff_mem.mpr hp)
  others := by
    intro p hp
    constructor
    · rw [h.pending]
      split_ifs with hone
      · have hmem : p ∉ s.pending := hp.resolve_right (by omega)
        exact (Multiset.count_eq_zero_of_notMem hmem).symm
      · rfl
    · rw [h.timers]
      split_ifs with hper
      · have hlt : t < s.deadline p := hp.resolve_left (not_not_intro hper.1)
        rw [firings_of_lt hlt, afterPeriods_zero]
      · rfl
  programmed := h.programmed.least h.ok

/-- **The handler fires exactly what is due.**  For every heap in which no periodic timer is twice,
with a clock that stands still at `t`. -/
theorem fires_due (ok : HeapOk s) (single : Single s) (regular : Regular t s) :
    ∃ s' n, FiresDue t s s' ∧
      ∀ m, n ≤ m → s.irqTimerHandler quiet (List.replicate m t) = some s' := by
  obtain ⟨s', ⟨log, h⟩, hend⟩ := handlerLoop_fires ok single regular t
  refine ⟨s', s.total (firings t) + 2, h.due single regular, fun m hm => ?_⟩
  obtain ⟨m, rfl⟩ := Nat.exists_eq_add_one_of_ne_zero (show m ≠ 0 by omega)
  rw [List.replicate_succ, irqTimerHandler]
  exact hend m (by omega)

instance (t : ℕ) (s : TimerCpu) : Decidable (Regular t s) :=
  inferInstanceAs (Decidable (∀ p ∈ s.pending, _ → _ ∧ (_ → _)))

/-- A periodic timer with deadline `5` and period `10` and a one-shot timer with deadline `6` are
added; some timers are added once more. -/
def addTwo (again : List ℕ) : List Op :=
  [.cmd (.init 10 ⟨5, 10, .periodic⟩), .cmd (.init 11 ⟨6, 0, .oneshot⟩), .cmd (.add 10),
    .cmd (.add 11)] ++ again.map fun p => .cmd (.add p)

/-- At the time `26` the periodic timer has fired three times and waits for `35`. -/
theorem fires_due_at_26 :
    ∃ s s' n, Run (QuietStep Allowed) demoInit (addTwo []) s ∧ s.pending = {10, 11} ∧
      firings 26 (s.timers 10) = 3 ∧ s'.deadline 10 = 35 ∧ FiresDue 26 s s' ∧
      ∀ m, n ≤ m → s.irqTimerHandler quiet (List.replicate m 26) = some s' := by
  have hend : ((addTwo []).foldlM (exec quiet Allowed fun _ _ _ => True) demoInit).map (fun s =>
      (s.pending, s.timers 10, decide (Regular 26 s))) =
        some ({10, 11}, ⟨5, 10, .periodic⟩, true) := by decide
  obtain ⟨s, hs, hobs⟩ := Option.map_eq_some_iff.mp hend
  simp only [Prod.mk.injEq, decide_eq_true_eq] at hobs
  obtain ⟨hpending, htimer, hregular⟩ := hobs
  have hrun := run_of_exec hs
  have inv := timersOk_quiet hrun
  obtain ⟨s', n, hdue, hcall⟩ := fires_due inv.ok inv.single hregular
  have hten : s'.timers 10 = afterPeriods (s.timers 10) (firings 26 (s.timers 10)) :=
    (hdue.periodic 10 (by simp [hpending]) (by rw [htimer]) (by simp [deadline, htimer])).2.1
  refine ⟨s, s', n, hrun, hpending, ?_, ?_, hdue, hcall⟩
  · rw [htimer]
    decide
  · rw [deadline, hten, htimer]
    decide

/-- The periodic timer is in the heap twice: at the time `6` it fires, and then the handler finds the
deadline `15` at the root and leaves the one-shot timer with deadline `6` in the heap. -/
theorem addedTwice_is_not_fired :
    ∃ s s', Run (QuietStep Fresh) demoInit (addTwo [10]) s ∧ HeapOk s ∧ Regular 6 s ∧
      s.irqTimerHandler quiet [6, 6, 6] = some s' ∧ 11 ∈ s'.pending ∧ s.deadline 11 = 6 ∧
      ¬ FiresDue 6 s s' := by
  have hend : (((addTwo [10]).foldlM (exec quiet Fresh fun _ _ _ => True) demoInit).bind fun s =>
      (s.irqTimerHandler quiet [6, 6, 6]).map fun s' => (s, s')).map (fun x => decide
        ((x.1.capacity = 512 ∧ x.1.insertionIdx = 4 ∧
          x.1.deadline (x.1.flattenedTree 1) ≤ x.1.deadline (x.1.flattenedTree 2) ∧
          x.1.deadline (x.1.flattenedTree 1) ≤ x.1.deadline (x.1.flattenedTree 3)) ∧
        Regular 6 x.1 ∧ x.1.deadline 11 = 6 ∧ x.1.invoked = [] ∧ x.1.pending.count 11 = 1 ∧
        firings 6 (x.1.timers 11) = 1 ∧ x.2.invoked.map Prod.fst = [10] ∧ 11 ∈ x.2.pending)) =
        some true := by decide
  obtain ⟨⟨s, s'⟩, hs, hobs⟩ := Option.map_eq_some_iff.mp hend
  obtain ⟨s₀, hs₀, hs'⟩ := Option.bind_eq_some_iff.mp hs
  obtain ⟨s₁, hcall, hpair⟩ := Option.map_eq_some_iff.mp hs'
  obtain ⟨rfl, rfl⟩ := Prod.mk.inj hpair
  obtain ⟨⟨hcap, hidx, h12, h13⟩, hregular, hdl, hinv, hcount, hfirings, hfired, hleft⟩ :=
    of_decide_eq_true hobs
  dsimp only at hidx
  refine ⟨s₀, s₁, run_of_exec hs₀, ⟨hcap, by omega, by omega, ?_⟩, hregular, hcall, hleft, hdl, ?_⟩
  · intro i h1 h2
    have h3 : i ≤ 3 := by
      unfold heapMaxIdx at h2
      omega
    interval_cases i
    · exact h12
    · exact h13
  · intro hdue
    obtain ⟨log, hlog, -, hall⟩ := hdue.fired
    have h11 := hall 11
    rw [hinv, List.nil_append] at hlog
    rw [← hlog, hfired, hcount, hfirings] at h11
    revert h11
    decide

end HyveMind.TimerCpu
