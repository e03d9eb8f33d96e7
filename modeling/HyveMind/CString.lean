import HyveMind.Types
import Mathlib.Data.List.TakeWhile

/-! # Strings

The string functions of `string.c` that the configuration code uses.  A C string is the list of the
bytes in front of its terminating NUL; reading at the end of the list gives the NUL.

On strings without NUL bytes `strcmp` and `strncmp` compare as expected. -/

namespace HyveMind

/-- The bytes of a string literal. -/
def bytesOf (s : String) : List UInt8 := s.toList.map Char.toUInt8

/-- Conversion to `int`, modulo `2 ^ 32`. -/
def int32 (n : ℕ) : ℤ := if n < 2 ^ 31 then n else Int.bmod n (2 ^ 32)

theorem int32_of_lt {n : ℕ} (h : n < 2 ^ 31) : int32 n = n := if_pos h

/-- The length of `s` is an `int`. -/
def FitsInt (s : List UInt8) : Prop := s.length < 2 ^ 31

theorem FitsInt.int32_length {s : List UInt8} (h : FitsInt s) : int32 s.length = s.length :=
  int32_of_lt h

theorem FitsInt.of_le {s t : List UInt8} (h : FitsInt s) (hle : t.length ≤ s.length) : FitsInt t :=
  Nat.lt_of_le_of_lt hle h

/-- The string that starts at the first byte of `bs`. -/
def cstr (bs : List UInt8) : List UInt8 := bs.takeWhile (· ≠ 0)

theorem cstr_eq {bs : List UInt8} (h : 0 ∉ bs) : cstr bs = bs := by
  rw [cstr, List.takeWhile_eq_self_iff]
  intro b hb
  rw [decide_eq_true_iff]
  rintro rfl
  exact h hb

/-- `strcmp`. -/
def strcmp : List UInt8 → List UInt8 → ℕ
  | [], s2 => if s2.headD 0 = 0 then 0 else 1
  | c1 :: s1, s2 =>
      if c1 ≠ s2.headD 0 then 1
      else if c1 = 0 then 0
      else strcmp s1 s2.tail

/-- `strncmp`. -/
def strncmp : List UInt8 → List UInt8 → ℕ → ℕ
  | _, _, 0 => 0
  | s1, s2, len + 1 =>
      if s1.headD 0 ≠ s2.headD 0 then 1
      else if s1.headD 0 = 0 then 0
      else strncmp s1.tail s2.tail len

theorem strcmp_eq_zero {s1 s2 : List UInt8} (h1 : 0 ∉ s1) (h2 : 0 ∉ s2) :
    strcmp s1 s2 = 0 ↔ s1 = s2 := by
  induction s1 generalizing s2 with
  | nil =>
      cases s2 with
      | nil => simp [strcmp]
      | cons c s2 =>
          have hc : c ≠ 0 := fun hc => h2 (hc ▸ List.mem_cons_self ..)
          simp [strcmp, hc]
  | cons c s1 ih =>
      have hc : c ≠ 0 := fun hc => h1 (hc ▸ List.mem_cons_self ..)
      cases s2 with
      | nil => simp [strcmp, hc]
      | cons d s2 =>
          rw [List.mem_cons, not_or] at h1 h2
          by_cases hcd : c = d
          · subst hcd
            simp [strcmp, hc, ih h1.2 h2.2]
          · simp [strcmp, hcd]

theorem strncmp_eq_zero {s1 s2 : List UInt8} (h1 : 0 ∉ s1) (hlen : s1.length ≤ s2.length) :
    strncmp s1 s2 s1.length = 0 ↔ s1 = s2.take s1.length := by
  induction s1 generalizing s2 with
  | nil => simp [strncmp]
  | cons c s1 ih =>
      have hc : c ≠ 0 := fun hc => h1 (hc ▸ List.mem_cons_self ..)
      cases s2 with
      | nil => simp at hlen
      | cons d s2 =>
          rw [List.mem_cons, not_or] at h1
          by_cases hcd : c = d
          · subst hcd
            have hlen' : s1.length ≤ s2.length := by simpa using hlen
            simp [strncmp, hc, ih h1.2 hlen']
          · simp [strncmp, hcd]

/-- `__is_digit`. -/
def isDigit (c : UInt8) : Bool := '0'.toUInt8 ≤ c && c ≤ '9'.toUInt8

/-- The digits that `strtoul` reads from `index` on, after `prefix_parsing_done`: the value, the
position of `endptr` and `overflow`. -/
def strtoulDigits : List UInt8 → (index res : ℕ) → ℕ × ℕ × Bool
  | [], index, res => (res, index, false)
  | c :: s, index, res =>
      if isDigit c then
        let digit := c.toNat - '0'.toUInt8.toNat
        if (2 ^ 64 - 1 - digit) / 10 < res then (2 ^ 64 - 1, index, true)
        else strtoulDigits s (index + 1) (u64 (res * 10 + digit))
      else (res, index, false)

/-- The loop of `strtoul` over the blanks and the sign; `index` is the number of blanks so far. -/
def strtoulPrefix : List UInt8 → (index : ℕ) → ℕ × ℕ × Bool
  | [], index => strtoulDigits [] index 0
  | c :: s, index =>
      if c = '-'.toUInt8 then (0, index, false)
      else if c = '+'.toUInt8 then
        if isDigit (s.headD 0) then strtoulDigits s (index + 1) 0 else (0, 0, false)
      else if isDigit c then strtoulDigits (c :: s) index 0
      else if c = ' '.toUInt8 then strtoulPrefix s (index + 1)
      else (0, 0, false)

/-- `strtoul` of a string of fewer than `2 ^ 31` bytes: the value, the position of `endptr` in the string, and
`overflow`. -/
def strtoul (str : List UInt8) : ℕ × ℕ × Bool := strtoulPrefix str 0

end HyveMind
