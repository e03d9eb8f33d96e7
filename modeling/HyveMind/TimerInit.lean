import HyveMind.Timer

/-! # Creating timers

The functions of `timer.c` that fill in a `struct timer`.  A duration is converted to ticks of the
clock in 128-bit arithmetic, then cut to 64 bits and added to the present time.

`notEarly_iff` says when the deadline of a new timer is not earlier than asked for:
`__get_ticks_from_ns` rounds up and `__get_ticks_from_hz` rounds down, and neither looks at what is
cut off. -/

namespace HyveMind

/-- Truncation to `uint128_t`. -/
def u128 (n : ℕ) : ℕ := n % 2 ^ 128

/-- `sec_to_ns`. -/
def secToNs (sec : ℕ) : ℕ := u64 (sec * 1000000000)

/-- `__get_ticks_from_ns`; `clockHz` is the value of `arch_get_timer_frequency`. -/
def getTicksFromNs (clockHz timeNs : ℕ) : ℕ :=
  u64 (u128 (u128 (clockHz * timeNs) + (secToNs 1 - 1)) / secToNs 1)

/-- `__get_ticks_from_hz`. -/
def getTicksFromHz (clockHz ticks hz : ℕ) : ℕ := u64 (u128 (clockHz * ticks) / hz)

/-- `__init_timer`; `alloc` says whether `hmalloc` succeeds. -/
def initTimerImpl (alloc : Bool) (deadline ticks : ℕ) (type : TimerType) : Option Timer :=
  if alloc then some ⟨deadline, ticks, type⟩ else none

/-- `init_timer_deadline`. -/
def initTimerDeadline (alloc : Bool) (timerDeadline : ℕ) : Option Timer :=
  initTimerImpl alloc timerDeadline 0 .oneshot

/-- `init_timer_ns`; `now` is the value of `read_tsc`. -/
def initTimerNs (alloc : Bool) (clockHz now timeNs : ℕ) (type : TimerType) : Option Timer :=
  let ticks := getTicksFromNs clockHz timeNs
  initTimerImpl alloc (u64 (now + ticks)) ticks type

/-- `init_timer_hz`. -/
def initTimerHz (alloc : Bool) (clockHz now hz ticks : ℕ) (type : TimerType) : Option Timer :=
  let timerTicks := getTicksFromHz clockHz ticks hz
  initTimerImpl alloc (u64 (now + timerTicks)) timerTicks type

/-- A request for a new timer, by the function that is called. -/
inductive TimerRequest
  | initDeadline (timerDeadline : ℕ)
  | initNs (timeNs : ℕ) (type : TimerType)
  | initHz (hz ticks : ℕ) (type : TimerType)
deriving DecidableEq, Repr

namespace TimerRequest

/-- The call of the function. -/
def create (alloc : Bool) (clockHz now : ℕ) : TimerRequest → Option Timer
  | .initDeadline timerDeadline => initTimerDeadline alloc timerDeadline
  | .initNs timeNs type => initTimerNs alloc clockHz now timeNs type
  | .initHz hz ticks type => initTimerHz alloc clockHz now hz ticks type

/-- The arguments are 64-bit numbers, and the frequency is not zero. -/
def Valid : TimerRequest → Prop
  | .initDeadline timerDeadline => timerDeadline < 2 ^ 64
  | .initNs timeNs _ => timeNs < 2 ^ 64
  | .initHz hz ticks _ => 0 < hz ∧ hz < 2 ^ 64 ∧ ticks < 2 ^ 64

/-- The time that is asked for. -/
def asked (clockHz now : ℕ) : TimerRequest → ℚ
  | .initDeadline timerDeadline => timerDeadline
  | .initNs timeNs _ => now + clockHz * timeNs / 10 ^ 9
  | .initHz hz ticks _ => now + clockHz * ticks / hz

/-- The time that is asked for is a 64-bit number, when rounded up; and if the duration is given as
ticks of some frequency, it is a whole number of ticks of the clock. -/
def Representable (clockHz now : ℕ) : TimerRequest → Prop
  | .initDeadline _ => True
  | .initNs timeNs _ => now + (clockHz * timeNs + (10 ^ 9 - 1)) / 10 ^ 9 < 2 ^ 64
  | .initHz hz ticks _ => hz ∣ clockHz * ticks ∧ now + clockHz * ticks / hz < 2 ^ 64

variable {alloc : Bool} {clockHz now : ℕ} {req : TimerRequest} {timer : Timer}

theorem alloc_of_create (h : req.create alloc clockHz now = some timer) : alloc = true := by
  cases alloc with
  | true => rfl
  | false => cases req <;> cases h

theorem mul_lt_u128 {a b : ℕ} (ha : a < 2 ^ 64) (hb : b < 2 ^ 64) :
    a * b + (10 ^ 9 - 1) < 2 ^ 128 := by
  have hle : a * b ≤ (2 ^ 64 - 1) * (2 ^ 64 - 1) := Nat.mul_le_mul (by omega) (by omega)
  norm_num at hle ⊢
  omega

theorem getTicksFromNs_eq {timeNs : ℕ} (hclock : clockHz < 2 ^ 64) (htime : timeNs < 2 ^ 64) :
    getTicksFromNs clockHz timeNs = u64 ((clockHz * timeNs + (10 ^ 9 - 1)) / 10 ^ 9) := by
  have hlt := mul_lt_u128 hclock htime
  have hns : secToNs 1 = 10 ^ 9 := by norm_num [secToNs, u64]
  have hmul : u128 (clockHz * timeNs) = clockHz * timeNs := Nat.mod_eq_of_lt (by omega)
  rw [getTicksFromNs, hns, hmul, u128, Nat.mod_eq_of_lt hlt]

theorem getTicksFromHz_eq {ticks : ℕ} (hclock : clockHz < 2 ^ 64) (hticks : ticks < 2 ^ 64)
    (hz : ℕ) : getTicksFromHz clockHz ticks hz = u64 (clockHz * ticks / hz) := by
  have hlt := mul_lt_u128 hclock hticks
  rw [getTicksFromHz, u128, Nat.mod_eq_of_lt (by omega)]

/-- A sum that is cut to 64 bits is not below the sum iff nothing is cut off. -/
theorem le_u64_iff {n : ℕ} : n ≤ u64 n ↔ n < 2 ^ 64 := by
  unfold u64
  omega

/-- A rational time is not later than a deadline iff the time rounded up is not. -/
theorem add_div_le_iff {a d k : ℕ} (hk : 0 < k) (n : ℕ) :
    (n : ℚ) + (a : ℚ) / k ≤ d ↔ n + (a + (k - 1)) / k ≤ d := by
  have hkq : (0 : ℚ) < k := by exact_mod_cast hk
  have hmul : (n : ℚ) + (a : ℚ) / k ≤ d ↔ n * k + a ≤ d * k := by
    rw [← mul_le_mul_iff_left₀ hkq, add_mul, div_mul_cancel₀ _ hkq.ne']
    exact_mod_cast Iff.rfl
  rw [hmul]
  have hmod := Nat.div_add_mod (a + (k - 1)) k
  have hlt := Nat.mod_lt (a + (k - 1)) hk
  set q := (a + (k - 1)) / k
  constructor
  · intro h
    by_contra hgt
    have hle : (d + 1) * k ≤ (n + q) * k := Nat.mul_le_mul_right k (by omega)
    rw [Nat.add_mul, Nat.add_mul, Nat.mul_comm q] at hle
    omega
  · intro h
    have hle : (n + q) * k ≤ d * k := Nat.mul_le_mul_right k h
    rw [Nat.add_mul, Nat.mul_comm q] at hle
    omega

theorem ceil_le_floor_iff {a k : ℕ} (hk : 0 < k) : (a + (k - 1)) / k ≤ a / k ↔ k ∣ a := by
  constructor
  · intro h
    by_contra hdvd
    have hpos : a % k ≠ 0 := fun h0 => hdvd (Nat.dvd_of_mod_eq_zero h0)
    have hmod := Nat.div_add_mod a k
    have hceil : a / k + 1 ≤ (a + (k - 1)) / k := by
      rw [Nat.le_div_iff_mul_le hk, Nat.add_mul, Nat.mul_comm]
      omega
    omega
  · rintro ⟨q, rfl⟩
    rw [Nat.mul_div_cancel_left q hk, Nat.mul_comm, Nat.add_comm, Nat.add_mul_div_right _ _ hk,
      Nat.div_eq_of_lt (by omega), Nat.zero_add]

theorem ceil_eq_floor {a k : ℕ} (hk : 0 < k) (hdvd : k ∣ a) : (a + (k - 1)) / k = a / k :=
  le_antisymm ((ceil_le_floor_iff hk).mpr hdvd) (Nat.div_le_div_right (by omega))

/-- **When a timer does not elapse early.**  The deadline of a new timer is not before the time that
is asked for iff that time is representable. -/
theorem notEarly_iff (hclock : clockHz < 2 ^ 64) (hreq : req.Valid)
    (hcreate : req.create alloc clockHz now = some timer) :
    req.asked clockHz now ≤ timer.elapseDeadline ↔ req.Representable clockHz now := by
  obtain rfl := alloc_of_create hcreate
  cases req with
  | initDeadline timerDeadline =>
      obtain rfl := Option.some.inj hcreate
      simp [asked, Representable]
  | initNs timeNs type =>
      obtain rfl := Option.some.inj hcreate
      have hasked : (asked clockHz now (.initNs timeNs type)) =
          (now : ℚ) + ((clockHz * timeNs : ℕ) : ℚ) / (10 ^ 9 : ℕ) := by
        push_cast
        rfl
      rw [hasked, add_div_le_iff (by norm_num)]
      simp only [getTicksFromNs_eq hclock hreq, u64_add_u64, Representable]
      exact le_u64_iff
  | initHz hz ticks type =>
      obtain rfl := Option.some.inj hcreate
      obtain ⟨hpos, -, hticks⟩ := hreq
      have hasked : (asked clockHz now (.initHz hz ticks type)) =
          (now : ℚ) + ((clockHz * ticks : ℕ) : ℚ) / (hz : ℕ) := by
        push_cast
        rfl
      rw [hasked, add_div_le_iff hpos]
      simp only [getTicksFromHz_eq hclock hticks, u64_add_u64, Representable]
      constructor
      · intro h
        have hdvd : hz ∣ clockHz * ticks := by
          refine (ceil_le_floor_iff hpos).mp ?_
          have hle : u64 (now + clockHz * ticks / hz) ≤ now + clockHz * ticks / hz := Nat.mod_le ..
          omega
        rw [ceil_eq_floor hpos hdvd] at h
        exact ⟨hdvd, le_u64_iff.mp h⟩
      · rintro ⟨hdvd, hlt⟩
        rw [ceil_eq_floor hpos hdvd]
        exact le_u64_iff.mpr hlt

/-- One millisecond at a frequency of `2 ^ 31` ticks per second. -/
theorem notEarly_iff_millisecond :
    ∃ timer, (initNs 1000000 .oneshot).create true (2 ^ 31) 5 = some timer ∧
      timer.elapseDeadline = 2147489 ∧
      (initNs 1000000 .oneshot).asked (2 ^ 31) 5 ≤ timer.elapseDeadline := by
  refine ⟨⟨2147489, 2147484, .oneshot⟩, by decide, rfl, ?_⟩
  refine (notEarly_iff (by norm_num) ?_ (show create true _ _ _ = _ by decide)).mpr ?_
  · show 1000000 < 2 ^ 64
    norm_num
  · show 5 + (2 ^ 31 * 1000000 + (10 ^ 9 - 1)) / 10 ^ 9 < 2 ^ 64
    norm_num

/-- One third of a second at a frequency of `10` ticks per second elapses after three ticks, `0.3`
seconds. -/
theorem third_of_second_is_early :
    (initHz 3 1 .oneshot).create true 10 0 = some ⟨3, 3, .oneshot⟩ ∧
      ¬ (initHz 3 1 .oneshot).asked 10 0 ≤ (3 : ℕ) := by
  refine ⟨by decide, ?_⟩
  rw [asked]
  norm_num

end TimerRequest

end HyveMind
