import HyveMind.Printf
import HyveMind.Strtoul

/-! # Numbers as strings

`u64_to_dec_string` and `u64_to_hex_string` with the stores into the caller's buffer.  `fill buf s` is
the buffer with `s` at its beginning: the functions leave the string of `Printf.lean` and the NUL there
and nothing else is changed (`Buffer.u64ToDecString_eq`, `Buffer.u64ToHexString_eq`).

The strings are numerals (`Printf.numeral`), so that reading them gives the number back. -/

namespace HyveMind

/-- The buffer after the bytes of `s` are written at its beginning. -/
def fill (buf : ℕ → UInt8) (s : List UInt8) (i : ℕ) : UInt8 := s.getD i (buf i)

namespace Buffer

/-- The loop of `u64_to_dec_string`: the final `index` and the buffer. -/
def decLoop : ℕ → (num index : ℕ) → (ℕ → UInt8) → ℕ × (ℕ → UInt8)
  | 0, _, index, buf => (index, buf)
  | fuel + 1, num, index, buf =>
      if 0 < num then
        decLoop fuel (num / 10) (index + 1) (Function.update buf index (UInt8.ofNat (num % 10 + 48)))
      else (index, buf)

/-- The loop of `u64_to_hex_string`. -/
def hexLoop : ℕ → (num counter : ℕ) → (ℕ → UInt8) → ℕ × (ℕ → UInt8)
  | 0, _, counter, buf => (counter, buf)
  | fuel + 1, num, counter, buf =>
      if num ≠ 0 then
        let val := num &&& 15
        let digit := if val ≤ 9 then val + 48 else val - 10 + 65
        hexLoop fuel (num >>> 4) (counter + 1) (Function.update buf counter (UInt8.ofNat digit))
      else (counter, buf)

/-- One round of the loops that turn the digits round. -/
def swapRound (index : ℕ) (buf : ℕ → UInt8) (i : ℕ) : ℕ → UInt8 :=
  let temp := buf (index - i - 1)
  Function.update (Function.update buf (index - i - 1) (buf i)) i temp

/-- What both functions do behind their loops: the digits are turned round, and the NUL follows. -/
def finish (index : ℕ) (buf : ℕ → UInt8) : ℕ → UInt8 :=
  Function.update ((List.range (index / 2)).foldl (swapRound index) buf) index 0

/-- What both functions do for zero. -/
def zero (buf : ℕ → UInt8) : ℕ → UInt8 :=
  Function.update (Function.update buf 0 '0'.toUInt8) 1 0

/-- `u64_to_dec_string`. -/
def u64ToDecString (num : BitVec 64) (buf : ℕ → UInt8) : ℕ → UInt8 :=
  if num = 0 then zero buf
  else
    let (index, buf) := decLoop 64 num.toNat 0 buf
    finish index buf

/-- `u64_to_hex_string`. -/
def u64ToHexString (num : BitVec 64) (buf : ℕ → UInt8) : ℕ → UInt8 :=
  if num = 0 then zero buf
  else
    let (counter, buf) := hexLoop 64 num.toNat 0 buf
    finish counter buf

/-! ### The stores -/

variable {buf : ℕ → UInt8} {s : List UInt8}

theorem fill_nil (buf : ℕ → UInt8) : fill buf [] = buf := rfl

theorem update_fill (buf : ℕ → UInt8) (s : List UInt8) (c : UInt8) :
    Function.update (fill buf s) s.length c = fill buf (s ++ [c]) := by
  funext i
  rw [Function.update_apply]
  simp only [fill, List.getD_eq_getElem?_getD]
  rcases Nat.lt_trichotomy i s.length with hi | rfl | hi
  · rw [if_neg (by omega), List.getElem?_append_left hi]
  · rw [if_pos rfl, List.getElem?_concat_length, Option.getD_some]
  · rw [if_neg (by omega), List.getElem?_eq_none (by omega),
      List.getElem?_eq_none (by rw [List.length_append, List.length_singleton]; omega)]

theorem update_fill_of_lt (buf : ℕ → UInt8) {s : List UInt8} {i : ℕ} (hi : i < s.length) (c : UInt8) :
    Function.update (fill buf s) i c = fill buf (s.set i c) := by
  funext j
  rw [Function.update_apply]
  simp only [fill, List.getD_eq_getElem?_getD, List.getElem?_set]
  by_cases hij : j = i
  · rw [if_pos hij, if_pos hij.symm, if_pos hi, Option.getD_some]
  · rw [if_neg hij, if_neg (Ne.symm hij)]

theorem decLoop_fill (fuel num : ℕ) (buf : ℕ → UInt8) (s : List UInt8) :
    decLoop fuel num s.length (fill buf s) =
      ((Printf.decLoop fuel num s).length, fill buf (Printf.decLoop fuel num s)) := by
  induction fuel generalizing num s with
  | zero => rfl
  | succ fuel ih =>
      rw [decLoop, Printf.decLoop]
      by_cases hnum : 0 < num
      · rw [if_pos hnum, if_pos hnum, update_fill, ← ih, List.length_append, List.length_singleton]
      · rw [if_neg hnum, if_neg hnum]

theorem hexLoop_fill (fuel num : ℕ) (buf : ℕ → UInt8) (s : List UInt8) :
    hexLoop fuel num s.length (fill buf s) =
      ((Printf.hexLoop fuel num s).length, fill buf (Printf.hexLoop fuel num s)) := by
  induction fuel generalizing num s with
  | zero => rfl
  | succ fuel ih =>
      rw [hexLoop, Printf.hexLoop]
      by_cases hnum : num ≠ 0
      · rw [if_pos hnum, if_pos hnum]
        dsimp only
        rw [update_fill, ← ih, List.length_append, List.length_singleton]
      · rw [if_neg hnum, if_neg hnum]

theorem fill_of_lt (buf : ℕ → UInt8) {i : ℕ} (hi : i < s.length) : fill buf s i = s.getD i 0 := by
  rw [fill, List.getD_eq_getElem?_getD, List.getD_eq_getElem?_getD, List.getElem?_eq_getElem hi,
    Option.getD_some, Option.getD_some]

theorem swapRounds_fill (buf : ℕ → UInt8) (s : List UInt8) {k : ℕ} (hk : k ≤ s.length / 2) :
    (List.range k).foldl (swapRound s.length) (fill buf s) =
      fill buf ((List.range k).foldl (Printf.swapRound s.length) s) := by
  induction k with
  | zero => rfl
  | succ k ih =>
      have hlen := (Printf.getElem?_swapRounds s (Nat.le_of_succ_le hk)).1
      rw [List.range_succ, List.foldl_append, List.foldl_append, ih (Nat.le_of_succ_le hk),
        List.foldl_cons, List.foldl_nil, List.foldl_cons, List.foldl_nil]
      generalize (List.range k).foldl (Printf.swapRound s.length) s = t at hlen ⊢
      simp only [swapRound, Printf.swapRound]
      rw [update_fill_of_lt buf (by omega), update_fill_of_lt buf (by rw [List.length_set]; omega),
        fill_of_lt buf (by omega), fill_of_lt buf (by omega)]

theorem finish_fill (buf : ℕ → UInt8) (s : List UInt8) :
    finish s.length (fill buf s) = fill buf (Printf.swapLoop s ++ [0]) := by
  have hlen : (Printf.swapLoop s).length = s.length :=
    (Printf.getElem?_swapRounds s (Nat.le_refl _)).1
  rw [← update_fill, hlen, Printf.swapLoop, ← swapRounds_fill buf s (Nat.le_refl _)]
  rfl

theorem zero_eq (buf : ℕ → UInt8) : zero buf = fill buf ['0'.toUInt8, 0] := by
  rw [zero, ← fill_nil buf]
  exact (congrArg (Function.update · 1 0) (update_fill buf [] '0'.toUInt8)).trans
    (update_fill buf ['0'.toUInt8] 0)

theorem u64ToDecString_eq (n : BitVec 64) (buf : ℕ → UInt8) :
    u64ToDecString n buf = fill buf (Printf.u64ToDecString n ++ [0]) := by
  rw [u64ToDecString, Printf.u64ToDecString]
  split
  · exact zero_eq buf
  · have hloop := decLoop_fill 64 n.toNat buf []
    rw [List.length_nil, fill_nil] at hloop
    rw [hloop]
    exact finish_fill buf _

theorem u64ToHexString_eq (n : BitVec 64) (buf : ℕ → UInt8) :
    u64ToHexString n buf = fill buf (Printf.u64ToHexString n ++ [0]) := by
  rw [u64ToHexString, Printf.u64ToHexString]
  split
  · exact zero_eq buf
  · have hloop := hexLoop_fill 64 n.toNat buf []
    rw [List.length_nil, fill_nil] at hloop
    rw [hloop]
    exact finish_fill buf _

end Buffer

/-! ### Numerals -/

namespace Printf

variable {base n : ℕ} {digit : ℕ → ℕ} {c : UInt8}

theorem mem_numeral (hbase : 1 < base) (h : c ∈ numeral base digit n) :
    ∃ d < base, c = UInt8.ofNat (digit d) := by
  rw [numeral] at h
  split at h
  · exact ⟨0, by omega, List.mem_singleton.mp h⟩
  · rw [List.mem_reverse, List.mem_map] at h
    obtain ⟨d, hd, rfl⟩ := h
    exact ⟨d, Nat.digits_lt_base hbase hd, rfl⟩

theorem length_numeral_pos (base : ℕ) (digit : ℕ → ℕ) (n : ℕ) : 1 ≤ (numeral base digit n).length := by
  rw [numeral]
  split
  · exact Nat.le_refl 1
  · rename_i hn
    rw [List.length_reverse, List.length_map, Nat.succ_le_iff, List.length_pos_iff]
    exact Nat.digits_ne_nil_iff_ne_zero.mpr hn

theorem length_numeral_le {k : ℕ} (hbase : 1 < base) (hk : 1 ≤ k) (hn : n < base ^ k) :
    (numeral base digit n).length ≤ k := by
  rw [numeral]
  split
  · exact hk
  · rw [List.length_reverse, List.length_map]
    exact (Nat.digits_length_le_iff hbase n).mpr hn

theorem head?_numeral (hbase : 1 < base) (hn : n ≠ 0) :
    ∃ d < base, d ≠ 0 ∧ (numeral base digit n).head? = some (UInt8.ofNat (digit d)) := by
  have hne : Nat.digits base n ≠ [] := Nat.digits_ne_nil_iff_ne_zero.mpr hn
  refine ⟨(Nat.digits base n).getLast hne, ?_, Nat.getLast_digit_ne_zero base hn, ?_⟩
  · exact Nat.digits_lt_base hbase (List.getLast_mem hne)
  · rw [numeral, if_neg hn, List.head?_reverse, List.getLast?_map, List.getLast?_eq_getLast_of_ne_nil hne]
    rfl

/-- Reading a numeral gives the number back, when `val` is the value of a digit. -/
theorem foldl_numeral {val : UInt8 → ℕ} (hbase : 1 < base)
    (hval : ∀ d < base, val (UInt8.ofNat (digit d)) = d) (n : ℕ) :
    (numeral base digit n).foldl (fun m c => m * base + val c) 0 = n := by
  rw [numeral]
  split
  · rename_i hn
    rw [List.foldl_cons, List.foldl_nil, Nat.zero_mul, Nat.zero_add, hval 0 (by omega), hn]
  · rw [List.foldl_reverse, List.foldr_map]
    have hdigits : ∀ ds : List ℕ, (∀ d ∈ ds, d < base) →
        ds.foldr (fun d m => m * base + val (UInt8.ofNat (digit d))) 0 = Nat.ofDigits base ds := by
      intro ds hds
      induction ds with
      | nil => rfl
      | cons d ds ih =>
          have hd := hds d (List.mem_cons_self ..)
          rw [List.foldr_cons, ih fun e he => hds e (List.mem_cons_of_mem d he), hval d hd,
            Nat.ofDigits_cons, Nat.mul_comm, Nat.add_comm]
    rw [hdigits _ fun d hd => Nat.digits_lt_base hbase hd, Nat.ofDigits_digits]

/-- The value of a digit. -/
def hexValue (c : UInt8) : ℕ :=
  if c ≤ '9'.toUInt8 then c.toNat - '0'.toUInt8.toNat else c.toNat - 'A'.toUInt8.toNat + 10

/-- The number that some digits denote to the base 16. -/
def hexadecimal (digits : List UInt8) : ℕ := digits.foldl (fun n c => n * 16 + hexValue c) 0

/-- The digits of `u64_to_hex_string`. -/
def isHexDigit (c : UInt8) : Bool := isDigit c || 'A'.toUInt8 ≤ c && c ≤ 'F'.toUInt8

theorem isDigit_decDigit : ∀ d < 10, isDigit (UInt8.ofNat (decDigit d)) = true := by decide

theorem isHexDigit_hexDigit : ∀ d < 16, isHexDigit (UInt8.ofNat (hexDigit d)) = true := by decide

theorem decDigit_value : ∀ d < 10,
    (UInt8.ofNat (decDigit d)).toNat - '0'.toUInt8.toNat = d := by decide

theorem hexValue_hexDigit : ∀ d < 16, hexValue (UInt8.ofNat (hexDigit d)) = d := by decide

/-- A numeral of `n`: at least one and at most `most` digits, and no leading zero but for zero. -/
structure Canonical (isDig : UInt8 → Bool) (value : List UInt8 → ℕ) (most n : ℕ) (s : List UInt8) :
    Prop where
  no_nul : 0 ∉ s
  length_pos : 1 ≤ s.length
  length_le : s.length ≤ most
  all : ∀ c ∈ s, isDig c = true
  head?_ne : n ≠ 0 → s.head? ≠ some '0'.toUInt8
  value_eq : value s = n

theorem numeral_canonical {isDig : UInt8 → Bool} {val : UInt8 → ℕ} {most : ℕ} (hbase : 1 < base)
    (hmost : 1 ≤ most) (hnul : isDig 0 = false) (hzero : val '0'.toUInt8 = 0)
    (hdig : ∀ d < base, isDig (UInt8.ofNat (digit d)) = true)
    (hval : ∀ d < base, val (UInt8.ofNat (digit d)) = d) (hn : n < base ^ most) :
    Canonical isDig (fun s => s.foldl (fun m c => m * base + val c) 0) most n (numeral base digit n) where
  no_nul := by
    intro h
    obtain ⟨d, hd, heq⟩ := mem_numeral hbase h
    have hdigit := hdig d hd
    rw [← heq, hnul] at hdigit
    cases hdigit
  length_pos := length_numeral_pos base digit n
  length_le := length_numeral_le hbase hmost hn
  all := by
    intro c hc
    obtain ⟨d, hd, rfl⟩ := mem_numeral hbase hc
    exact hdig d hd
  head?_ne := by
    intro hne heq
    obtain ⟨d, hd, hdne, hhead⟩ := head?_numeral hbase hne
    rw [hhead, Option.some_inj] at heq
    have hdval := hval d hd
    rw [heq, hzero] at hdval
    exact hdne hdval.symm
  value_eq := foldl_numeral hbase hval n

theorem decString_canonical (n : BitVec 64) :
    Canonical isDigit (VmConfig.decimal 0) 20 n.toNat (u64ToDecString n) := by
  have hlt : n.toNat < 10 ^ 20 := n.isLt.trans (by norm_num)
  rw [u64ToDecString_eq]
  exact numeral_canonical (by norm_num) (by norm_num) rfl rfl isDigit_decDigit decDigit_value hlt

theorem hexString_canonical (n : BitVec 64) :
    Canonical isHexDigit hexadecimal 16 n.toNat (u64ToHexString n) := by
  have hlt : n.toNat < 16 ^ 16 := n.isLt.trans_eq (by norm_num)
  rw [u64ToHexString_eq]
  exact numeral_canonical (by norm_num) (by norm_num) rfl rfl isHexDigit_hexDigit hexValue_hexDigit hlt

theorem injective_of_canonical {f : BitVec 64 → List UInt8} {isDig : UInt8 → Bool}
    {value : List UInt8 → ℕ} {most : ℕ} (h : ∀ n, Canonical isDig value most n.toNat (f n)) :
    Function.Injective f := by
  intro m n heq
  have hvalue := (h m).value_eq
  rw [heq, (h n).value_eq] at hvalue
  exact BitVec.toNat_inj.mp hvalue.symm

theorem strtoul_decString (n : BitVec 64) (behind : List UInt8) :
    Buffer.strtoul (u64ToDecString n ++ 0 :: behind) =
      some (n.toNat, (u64ToDecString n).length, false) := by
  have hcan := decString_canonical n
  have hlen : FitsInt (u64ToDecString n) := hcan.length_le.trans_lt (by norm_num)
  have hrun : DigitRun (u64ToDecString n) 0 [] (u64ToDecString n) [] :=
    ⟨(List.append_nil _).symm, Or.inl rfl, List.ne_nil_of_length_pos hcan.length_pos, hcan.all, rfl⟩
  have hcall := hrun.strtoul_of_lt (hcan.value_eq.trans_lt n.isLt)
  rw [hcan.value_eq, List.length_nil, Nat.zero_add] at hcall
  rw [Buffer.strtoul_eq hcan.no_nul hlen, hcall]

/-- **Numbers as strings are canonical**: the functions write the only numeral of the number without a
leading zero, and reading it gives the number back. -/
theorem number_strings_canonical :
    (∀ n buf, Buffer.u64ToDecString n buf = fill buf (u64ToDecString n ++ [0]) ∧
      Canonical isDigit (VmConfig.decimal 0) 20 n.toNat (u64ToDecString n) ∧
      ∀ behind, Buffer.strtoul (u64ToDecString n ++ 0 :: behind) =
        some (n.toNat, (u64ToDecString n).length, false)) ∧
    (∀ n buf, Buffer.u64ToHexString n buf = fill buf (u64ToHexString n ++ [0]) ∧
      Canonical isHexDigit hexadecimal 16 n.toNat (u64ToHexString n)) ∧
    Function.Injective u64ToDecString ∧ Function.Injective u64ToHexString := by
  refine ⟨fun n buf => ?_, fun n buf => ?_, ?_, ?_⟩
  · exact ⟨Buffer.u64ToDecString_eq n buf, decString_canonical n, strtoul_decString n⟩
  · exact ⟨Buffer.u64ToHexString_eq n buf, hexString_canonical n⟩
  · exact injective_of_canonical decString_canonical
  · exact injective_of_canonical hexString_canonical

end Printf

end HyveMind
