import HyveMind.CString

/-! # `strtoul` on a buffer

`CString.lean` has `strtoul` on the list of the bytes of the string.  Here it is with the `index` of the
source, an `int`, and reads `str[index]` of a buffer: a read outside of the buffer and an `index` that
does not fit have no result.

On a buffer with a string, the NUL and anything behind it the two agree (`Buffer.strtoul_eq`), also when
the buffer ends at the NUL. -/

namespace HyveMind

namespace Buffer

/-- `index + 1`. -/
def nextIndex (index : ℕ) : Option ℕ := if index + 1 < 2 ^ 31 then some (index + 1) else none

/-- The loop of `strtoul` after `prefix_parsing_done`. -/
def strtoulDigits (str : List UInt8) : ℕ → (index res : ℕ) → Option (ℕ × ℕ × Bool)
  | 0, _, _ => none
  | fuel + 1, index, res => do
      let c ← str[index]?
      if c ≠ 0 ∧ isDigit c then
        let digit := c.toNat - '0'.toUInt8.toNat
        if (2 ^ 64 - 1 - digit) / 10 < res then some (2 ^ 64 - 1, index, true)
        else strtoulDigits str fuel (← nextIndex index) (u64 (res * 10 + digit))
      else some (res, index, false)

/-- The first loop of `strtoul`. -/
def strtoulPrefix (str : List UInt8) : ℕ → (index : ℕ) → Option (ℕ × ℕ × Bool)
  | 0, _ => none
  | fuel + 1, index => do
      let c ← str[index]?
      if c = 0 then strtoulDigits str (str.length + 1) index 0
      else if c = '-'.toUInt8 then some (0, index, false)
      else if c = '+'.toUInt8 then
        let next ← nextIndex index
        if isDigit (← str[next]?) then strtoulDigits str (str.length + 1) next 0
        else some (0, 0, false)
      else if isDigit c then strtoulDigits str (str.length + 1) index 0
      else if c = ' '.toUInt8 then strtoulPrefix str fuel (← nextIndex index)
      else some (0, 0, false)

/-- `strtoul` of the string at the beginning of a buffer: the value, the position of `endptr`, and `overflow`.
A round of a loop reads one byte further, hence the number of rounds. -/
def strtoul (str : List UInt8) : Option (ℕ × ℕ × Bool) := strtoulPrefix str (str.length + 1) 0

/-! ### The buffer and the string -/

variable {before s : List UInt8} {fuel : ℕ}

theorem read_eq (before s behind : List UInt8) :
    (before ++ s ++ 0 :: behind)[before.length]? = some (s.headD 0) := by
  rw [List.append_assoc, List.getElem?_append_right (Nat.le_refl _), Nat.sub_self]
  cases s with
  | nil => rfl
  | cons c s => rfl

theorem nextIndex_eq {c : UInt8} (h : FitsInt (before ++ c :: s)) :
    nextIndex before.length = some (before ++ [c]).length := by
  rw [FitsInt, List.length_append, List.length_cons] at h
  rw [nextIndex, if_pos (by omega), List.length_append, List.length_singleton]

/-- The byte that is read belongs to what is in front from now on. -/
theorem append_cons_buffer (before s behind : List UInt8) (c : UInt8) :
    before ++ c :: s ++ 0 :: behind = before ++ [c] ++ s ++ 0 :: behind := by
  rw [List.append_assoc before [c] s, List.singleton_append]

theorem strtoulDigits_eq (hs : 0 ∉ s) (hlen : FitsInt (before ++ s)) (hfuel : s.length < fuel)
    (behind : List UInt8) (res : ℕ) :
    strtoulDigits (before ++ s ++ 0 :: behind) fuel before.length res =
      some (HyveMind.strtoulDigits s before.length res) := by
  induction s generalizing before fuel res with
  | nil =>
      obtain ⟨fuel, rfl⟩ := Nat.exists_eq_add_one_of_ne_zero (Nat.ne_of_gt hfuel)
      rw [strtoulDigits, read_eq]
      rfl
  | cons c s ih =>
      obtain ⟨fuel, rfl⟩ := Nat.exists_eq_add_one_of_ne_zero (Nat.ne_of_gt (Nat.zero_lt_of_lt hfuel))
      rw [List.mem_cons, not_or] at hs
      have hc : c ≠ 0 := fun h => hs.1 h.symm
      rw [strtoulDigits, read_eq, HyveMind.strtoulDigits, nextIndex_eq hlen]
      dsimp only [Option.bind_eq_bind, Option.bind_some, List.headD_cons]
      by_cases hdigit : isDigit c = true
      · rw [if_pos ⟨hc, hdigit⟩, if_pos hdigit, append_cons_buffer]
        have hlen' : FitsInt (before ++ [c] ++ s) := by
          rwa [List.append_assoc, List.singleton_append]
        rw [ih hs.2 hlen' (Nat.lt_of_succ_lt_succ hfuel), List.length_append, List.length_singleton]
        split <;> rfl
      · rw [if_neg (fun h => hdigit h.2), if_neg hdigit]

theorem strtoulPrefix_eq (hs : 0 ∉ s) (hlen : FitsInt (before ++ s)) (hfuel : s.length < fuel)
    (behind : List UInt8) :
    strtoulPrefix (before ++ s ++ 0 :: behind) fuel before.length =
      some (HyveMind.strtoulPrefix s before.length) := by
  induction s generalizing before fuel with
  | nil =>
      obtain ⟨fuel, rfl⟩ := Nat.exists_eq_add_one_of_ne_zero (Nat.ne_of_gt hfuel)
      rw [strtoulPrefix, read_eq]
      exact strtoulDigits_eq hs hlen (Nat.zero_lt_succ _) behind 0
  | cons c s ih =>
      obtain ⟨fuel, rfl⟩ := Nat.exists_eq_add_one_of_ne_zero (Nat.ne_of_gt (Nat.zero_lt_of_lt hfuel))
      have hs' := hs
      rw [List.mem_cons, not_or] at hs'
      have hc : c ≠ 0 := fun h => hs'.1 h.symm
      have hlen' : FitsInt (before ++ [c] ++ s) := by
        rwa [List.append_assoc, List.singleton_append]
      have hrounds : (c :: s).length < (before ++ c :: s ++ 0 :: behind).length + 1 := by
        rw [List.length_append, List.length_append]
        omega
      have hdigits := strtoulDigits_eq hs hlen hrounds behind 0
      have hplus := strtoulDigits_eq hs'.2 hlen' (Nat.lt_of_succ_lt hrounds) behind 0
      have hnext := read_eq (before ++ [c]) s behind
      have hblank := ih hs'.2 hlen' (Nat.lt_of_succ_lt_succ hfuel)
      rw [← append_cons_buffer] at hplus hnext hblank
      rw [strtoulPrefix, read_eq, HyveMind.strtoulPrefix, nextIndex_eq hlen]
      dsimp only [Option.bind_eq_bind, Option.bind_some, List.headD_cons]
      rw [if_neg hc, hdigits, hnext, Option.bind_some, hplus, hblank, List.length_append,
        List.length_singleton]
      split_ifs <;> rfl

/-- The index version agrees with the list version, whatever is behind the NUL. -/
theorem strtoul_eq (hs : 0 ∉ s) (hlen : FitsInt s) (behind : List UInt8) :
    strtoul (s ++ 0 :: behind) = some (HyveMind.strtoul s) := by
  have hfuel : s.length < (s ++ 0 :: behind).length + 1 := by
    rw [List.length_append]
    omega
  exact @strtoulPrefix_eq [] s _ hs hlen hfuel behind

end Buffer

end HyveMind
