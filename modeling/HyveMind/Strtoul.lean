import HyveMind.VmConfigNumbers

/-! # `strtoul`

What `strtoul` returns for a string in a buffer (`strtoul_exact`): the number of its digits and the position behind
them, or the position of the first digit that does not fit. -/

namespace HyveMind

/-! ### What `strtoul` returns -/

open VmConfig

variable {s sign digits rest : List UInt8} {k : ℕ}

/-- `k` blanks, an optional plus sign, some digits, and a rest that does not go on with a digit. -/
structure DigitRun (s : List UInt8) (k : ℕ) (sign digits rest : List UInt8) : Prop where
  eq : s = List.replicate k ' '.toUInt8 ++ (sign ++ (digits ++ rest))
  sign_eq : sign = [] ∨ sign = ['+'.toUInt8]
  digits_ne : digits ≠ []
  all : ∀ c ∈ digits, isDigit c = true
  rest_head : isDigit (rest.headD 0) = false

theorem strtoulPrefix_blanks (k : ℕ) (s : List UInt8) (index : ℕ) :
    strtoulPrefix (List.replicate k ' '.toUInt8 ++ s) index = strtoulPrefix s (index + k) := by
  induction k generalizing index with
  | zero => rfl
  | succ k ih =>
      rw [List.replicate_succ, List.cons_append, strtoulPrefix_blank, ih]
      congr 1
      omega

namespace DigitRun

theorem takeWhile_eq (h : DigitRun s k sign digits rest) :
    (digits ++ rest).takeWhile isDigit = digits := by
  rw [List.takeWhile_append_of_pos h.all]
  cases rest with
  | nil => exact List.append_nil digits
  | cons c rest =>
      have hc : ¬ isDigit c = true := Bool.eq_false_iff.mp h.rest_head
      rw [List.takeWhile_cons_of_neg hc, List.append_nil]

theorem strtoul_eq (h : DigitRun s k sign digits rest) :
    strtoul s = strtoulDigits (digits ++ rest) (k + sign.length) 0 := by
  have hhead : isDigit ((digits ++ rest).headD 0) = true := by
    cases digits with
    | nil => exact absurd rfl h.digits_ne
    | cons c digits => exact h.all c (List.mem_cons_self ..)
  rw [strtoul, h.eq, strtoulPrefix_blanks, Nat.zero_add]
  rcases h.sign_eq with rfl | rfl
  · cases digits with
    | nil => exact absurd rfl h.digits_ne
    | cons c digits => exact strtoulPrefix_digit hhead (digits ++ rest) k
  · exact strtoulPrefix_plus hhead k

/-- The number fits, or one of its digits is the first one that does not. -/
theorem outcome (h : DigitRun s k sign digits rest) :
    (decimal 0 digits < 2 ^ 64 ∧
      strtoul s = (decimal 0 digits, k + sign.length + digits.length, false)) ∨
    (2 ^ 64 ≤ decimal 0 digits ∧ ∃ j < digits.length, decimal 0 (digits.take j) < 2 ^ 64 ∧
      2 ^ 64 ≤ decimal 0 (digits.take (j + 1)) ∧
      strtoul s = (2 ^ 64 - 1, k + sign.length + j, true)) := by
  have hdigits := strtoulDigits_eq (digits ++ rest) (k + sign.length) (show 0 < 2 ^ 64 by norm_num)
  rwa [h.takeWhile_eq, ← h.strtoul_eq] at hdigits

theorem strtoul_of_lt (h : DigitRun s k sign digits rest) (hlt : decimal 0 digits < 2 ^ 64) :
    strtoul s = (decimal 0 digits, k + sign.length + digits.length, false) := by
  rcases h.outcome with ⟨-, hcall⟩ | ⟨hbig, -⟩
  · exact hcall
  · exact absurd hlt (Nat.not_lt.mpr hbig)

end DigitRun

theorem decimal_append (n : ℕ) (ds es : List UInt8) :
    decimal n (ds ++ es) = decimal (decimal n ds) es := List.foldl_append ..

theorem decimal_take_le (n : ℕ) (ds : List UInt8) {i j : ℕ} (hij : i ≤ j) :
    decimal n (ds.take i) ≤ decimal n (ds.take j) := by
  obtain ⟨m, rfl⟩ := Nat.exists_eq_add_of_le hij
  rw [List.take_add, decimal_append]
  exact le_decimal _ _

/-- **`strtoul` is exact**: it returns the number of the digits and the position behind them, or the
largest number and the position of the first digit that does not fit.  A minus sign ends the call.  No byte
behind the NUL is read, for which the buffer that ends there is enough. -/
theorem strtoul_exact (hs : 0 ∉ s) (hlen : FitsInt s) (behind : List UInt8) :
    (∀ k sign digits rest, DigitRun s k sign digits rest →
      (decimal 0 digits < 2 ^ 64 → Buffer.strtoul (s ++ 0 :: behind) =
        some (decimal 0 digits, k + sign.length + digits.length, false)) ∧
      (2 ^ 64 ≤ decimal 0 digits → ∃ j < digits.length,
        (∀ i ≤ j, decimal 0 (digits.take i) < 2 ^ 64) ∧ 2 ^ 64 ≤ decimal 0 (digits.take (j + 1)) ∧
        Buffer.strtoul (s ++ 0 :: behind) = some (2 ^ 64 - 1, k + sign.length + j, true))) ∧
    (∀ k rest, s = List.replicate k ' '.toUInt8 ++ '-'.toUInt8 :: rest →
      Buffer.strtoul (s ++ 0 :: behind) = some (0, k, false)) ∧
    ∃ r, Buffer.strtoul (s ++ [0]) = some r ∧ Buffer.strtoul (s ++ 0 :: behind) = some r := by
  rw [Buffer.strtoul_eq hs hlen, Buffer.strtoul_eq hs hlen]
  refine ⟨fun k sign digits rest hrun => ?_, fun k rest heq => ?_, _, rfl, rfl⟩
  · refine ⟨fun hlt => congrArg some (hrun.strtoul_of_lt hlt), fun hbig => ?_⟩
    rcases hrun.outcome with ⟨hfits, -⟩ | ⟨-, j, hj, hlt, hle, hcall⟩
    · exact absurd hfits (Nat.not_lt.mpr hbig)
    · refine ⟨j, hj, fun i hi => ?_, hle, congrArg some hcall⟩
      exact Nat.lt_of_le_of_lt (decimal_take_le 0 digits hi) hlt
  · rw [strtoul, heq, strtoulPrefix_blanks, strtoulPrefix, if_pos rfl, Nat.zero_add]

/-- The first number that does not fit: the last of its digits is the one that is not taken. -/
theorem strtoul_exact_two_pow_64 :
    ∃ j < 20, (∀ i ≤ j, decimal 0 ((bytesOf "18446744073709551616").take i) < 2 ^ 64) ∧
      2 ^ 64 ≤ decimal 0 ((bytesOf "18446744073709551616").take (j + 1)) ∧
      Buffer.strtoul (bytesOf "  +18446744073709551616;" ++ 0 :: bytesOf "7") =
        some (2 ^ 64 - 1, 2 + 1 + j, true) := by
  have hrun : DigitRun (bytesOf "  +18446744073709551616;") 2 ['+'.toUInt8]
      (bytesOf "18446744073709551616") [';'.toUInt8] :=
    ⟨rfl, Or.inr rfl, by decide, List.all_eq_true.mp (by decide), by decide⟩
  have hlen : FitsInt (bytesOf "  +18446744073709551616;") := show 24 < 2 ^ 31 by norm_num
  exact ((strtoul_exact (by decide) hlen (bytesOf "7")).1 2 _ _ _ hrun).2 (by decide)

end HyveMind
