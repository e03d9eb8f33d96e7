import HyveMind.CString
import Mathlib.Data.Nat.Digits.Defs

/-! # Formatted output

`printf.c`: `__printf` scans a format string and sends characters to the console.  A format is given by
its parts (`Item`), each with the argument that goes with it.

`printf_iff` says for which formats the output is the one that `docs/Printf.md` describes.  The second
`%` of a `%%` is not skipped: it is read again, together with what follows. -/

namespace HyveMind

namespace Printf

/-! ### Numbers -/

/-- The loop of `u64_to_dec_string`; the buffer is what is written of it. -/
def decLoop : ℕ → ℕ → List UInt8 → List UInt8
  | 0, _, buf => buf
  | fuel + 1, num, buf =>
      if 0 < num then decLoop fuel (num / 10) (buf ++ [UInt8.ofNat (num % 10 + 48)]) else buf

/-- The loop of `u64_to_hex_string`. -/
def hexLoop : ℕ → ℕ → List UInt8 → List UInt8
  | 0, _, buf => buf
  | fuel + 1, num, buf =>
      if num ≠ 0 then
        let val := num &&& 15
        let digit := if val ≤ 9 then val + 48 else val - 10 + 65
        hexLoop fuel (num >>> 4) (buf ++ [UInt8.ofNat digit])
      else buf

/-- One round of the loops that turn the buffer round. -/
def swapRound (index : ℕ) (buf : List UInt8) (i : ℕ) : List UInt8 :=
  let temp := buf.getD (index - i - 1) 0
  (buf.set (index - i - 1) (buf.getD i 0)).set i temp

/-- The loops that turn the buffer round. -/
def swapLoop (buf : List UInt8) : List UInt8 :=
  (List.range (buf.length / 2)).foldl (swapRound buf.length) buf

/-- `u64_to_dec_string`: the string in the buffer. -/
def u64ToDecString (num : BitVec 64) : List UInt8 :=
  if num = 0 then ['0'.toUInt8] else swapLoop (decLoop 64 num.toNat [])

/-- `u64_to_hex_string`. -/
def u64ToHexString (num : BitVec 64) : List UInt8 :=
  if num = 0 then ['0'.toUInt8] else swapLoop (hexLoop 64 num.toNat [])

/-! ### The scanner -/

/-- A variadic argument: a pointer to a string, or a number. -/
inductive VaArg
  | str (s : List UInt8)
  | num (n : BitVec 64)

/-- The cases of the two `switch` statements. -/
inductive Conversion
  | percent
  | s
  | lu
  | lx
  | lb
  | default
deriving DecidableEq, Repr

/-- What follows a `%` in the format; behind the end of the list there is the NUL. -/
def conversion (rest : List UInt8) : Conversion :=
  let c := rest.getD 0 0
  if c = '%'.toUInt8 then .percent
  else if c = 's'.toUInt8 then .s
  else if c = 'l'.toUInt8 then
    let d := rest.getD 1 0
    if d = 'u'.toUInt8 then .lu
    else if d = 'x'.toUInt8 then .lx
    else if d = 'b'.toUInt8 then .lb
    else .default
  else .default

/-- `va_arg(args, char *)`; there is no result if the next argument is not a string. -/
def vaString : List VaArg → Option (List UInt8 × List VaArg)
  | .str s :: args => some (s, args)
  | _ => none

/-- `va_arg(args, uint64_t)`; there is no result if the next argument is not a number. -/
def vaNum : List VaArg → Option (BitVec 64 × List VaArg)
  | .num n :: args => some (n, args)
  | _ => none

/-- The loop of `__printf`: the characters sent to the console. -/
def printfLoop : ℕ → List UInt8 → List VaArg → Option (List UInt8)
  | 0, _, _ => none
  | _ + 1, [], _ => some []
  | fuel + 1, c :: rest, args =>
      if c ≠ '%'.toUInt8 then (printfLoop fuel rest args).map ([c] ++ ·)
      else
        match conversion rest with
        | .percent => printfLoop fuel rest args
        | .s => do
            let (s, args) ← vaString args
            (printfLoop fuel (rest.drop 1) args).map (s ++ ·)
        | .lu => do
            let (n, args) ← vaNum args
            (printfLoop fuel (rest.drop 2) args).map (u64ToDecString n ++ ·)
        | .lx => do
            let (n, args) ← vaNum args
            (printfLoop fuel (rest.drop 2) args).map (u64ToHexString n ++ ·)
        | .lb => printfLoop fuel (rest.drop 2) args
        | .default => (printfLoop fuel rest args).map ([c] ++ ·)

/-- `struct dbg_console`, with the characters that it was sent. -/
structure DbgConsole where
  initialized : Bool
  sent : List UInt8

/-- `__printf`: the console afterwards and the result. -/
def printf (console : DbgConsole) (fmt : List UInt8) (args : List VaArg) : Option (DbgConsole × ℤ) :=
  if console.initialized = false then some (console, -1)
  else (printfLoop (fmt.length + 1) fmt args).map fun out =>
    ({ console with sent := console.sent ++ out }, 0)

/-! ### The format language -/

/-- A part of a format string, with its argument. -/
inductive Item
  | char (c : UInt8) (hc : c ≠ '%'.toUInt8 ∧ c ≠ 0)
  | percent
  | str (s : List UInt8)
  | dec (n : BitVec 64)
  | hex (n : BitVec 64)

/-- The numeral of `n` in the base, with `digit` for the digits. -/
def numeral (base : ℕ) (digit : ℕ → ℕ) (n : ℕ) : List UInt8 :=
  if n = 0 then [UInt8.ofNat (digit 0)]
  else ((Nat.digits base n).map fun d => UInt8.ofNat (digit d)).reverse

def decDigit (d : ℕ) : ℕ := d + '0'.toNat

def hexDigit (d : ℕ) : ℕ := if d ≤ 9 then d + '0'.toNat else d - 10 + 'A'.toNat

namespace Item

/-- What stands in the format. -/
def text : Item → List UInt8
  | char c _ => [c]
  | percent => ['%'.toUInt8, '%'.toUInt8]
  | str _ => ['%'.toUInt8, 's'.toUInt8]
  | dec _ => ['%'.toUInt8, 'l'.toUInt8, 'u'.toUInt8]
  | hex _ => ['%'.toUInt8, 'l'.toUInt8, 'x'.toUInt8]

/-- The argument. -/
def args : Item → List VaArg
  | str s => [.str s]
  | dec n => [.num n]
  | hex n => [.num n]
  | _ => []

/-- What is printed for it. -/
def output : Item → List UInt8
  | char c _ => [c]
  | percent => ['%'.toUInt8]
  | str s => s
  | dec n => numeral 10 decDigit n.toNat
  | hex n => numeral 16 hexDigit n.toNat

end Item

/-- The format string, the arguments, and what is to be printed. -/
def textOf (items : List Item) : List UInt8 := items.flatMap Item.text

def argsOf (items : List Item) : List VaArg := items.flatMap Item.args

def outputOf (items : List Item) : List UInt8 := items.flatMap Item.output

/-- The format goes on with what would make a specifier of a `%` in front of it. -/
def Continues (fmt : List UInt8) : Prop :=
  bytesOf "%" <+: fmt ∨ bytesOf "s" <+: fmt ∨ bytesOf "lu" <+: fmt ∨ bytesOf "lx" <+: fmt ∨
    bytesOf "lb" <+: fmt

/-- No `%%` is followed by what would make a specifier of its second `%`. -/
def Separate (items : List Item) : Prop :=
  ∀ front back, items = front ++ .percent :: back → ¬ Continues (textOf back)

/-! ### Numerals -/

/-- The loops write the digits of the number, the lowest one first. -/
theorem decLoop_eq {fuel num : ℕ} (h : num < 10 ^ fuel) (buf : List UInt8) :
    decLoop fuel num buf = buf ++ (Nat.digits 10 num).map fun d => UInt8.ofNat (decDigit d) := by
  induction fuel generalizing num buf with
  | zero =>
      obtain rfl : num = 0 := by simpa using h
      simp [decLoop]
  | succ fuel ih =>
      rw [decLoop]
      split
      · rename_i hpos
        have hdiv : num / 10 < 10 ^ fuel := by
          rw [Nat.pow_succ] at h
          omega
        rw [ih hdiv, Nat.digits_def' (by norm_num) hpos, List.map_cons, List.append_assoc,
          List.singleton_append]
        rfl
      · rename_i hpos
        obtain rfl : num = 0 := by omega
        simp

theorem hexLoop_eq {fuel num : ℕ} (h : num < 16 ^ fuel) (buf : List UInt8) :
    hexLoop fuel num buf = buf ++ (Nat.digits 16 num).map fun d => UInt8.ofNat (hexDigit d) := by
  induction fuel generalizing num buf with
  | zero =>
      obtain rfl : num = 0 := by simpa using h
      simp [hexLoop]
  | succ fuel ih =>
      rw [hexLoop]
      split
      · rename_i hne
        have hdiv : num / 16 < 16 ^ fuel := by
          rw [Nat.pow_succ] at h
          omega
        have hval : num &&& 15 = num % 16 := Nat.and_two_pow_sub_one_eq_mod num 4
        have hshift : num >>> 4 = num / 16 := Nat.shiftRight_eq_div_pow num 4
        simp only [hval, hshift]
        rw [ih hdiv, Nat.digits_def' (by norm_num) (Nat.pos_of_ne_zero hne), List.map_cons,
          List.append_assoc, List.singleton_append]
        rfl
      · rename_i hne
        obtain rfl : num = 0 := by simpa using hne
        simp

theorem getElem?_swapRounds (buf : List UInt8) {k : ℕ} (hk : k ≤ buf.length / 2) :
    ((List.range k).foldl (swapRound buf.length) buf).length = buf.length ∧
      ∀ j < buf.length, ((List.range k).foldl (swapRound buf.length) buf)[j]? =
        if j < k ∨ buf.length - k ≤ j then buf[buf.length - 1 - j]? else buf[j]? := by
  induction k with
  | zero =>
      refine ⟨rfl, fun j hj => ?_⟩
      rw [if_neg (by omega)]
      rfl
  | succ k ih =>
      obtain ⟨hlen, hget⟩ := ih (by omega)
      rw [List.range_succ, List.foldl_append, List.foldl_cons, List.foldl_nil]
      generalize (List.range k).foldl (swapRound buf.length) buf = mid at hlen hget ⊢
      refine ⟨by simp [swapRound, hlen], fun j hj => ?_⟩
      have hlow : mid[k]? = buf[k]? := by
        rw [hget k (by omega), if_neg (by omega)]
      have hhigh : mid[buf.length - k - 1]? = buf[buf.length - k - 1]? := by
        rw [hget _ (by omega), if_neg (by omega)]
      have hsome : ∀ i < buf.length, buf[i]? = some (buf[i]?.getD 0) := by
        intro i hi
        rw [List.getElem?_eq_getElem hi, Option.getD_some]
      simp only [swapRound, List.getElem?_set, List.length_set, hlen, List.getD_eq_getElem?_getD, hlow,
        hhigh]
      by_cases hjk : k = j
      · subst hjk
        rw [if_pos rfl, if_pos hj, if_pos (by omega), Nat.sub_right_comm, ← hsome _ (by omega)]
      · rw [if_neg hjk]
        by_cases hjh : buf.length - k - 1 = j
        · rw [if_pos hjh, if_pos (by omega), if_pos (by omega), ← hsome _ (by omega)]
          congr 1
          omega
        · rw [if_neg hjh, hget j hj]
          have hiff : (j < k ∨ buf.length - k ≤ j) ↔ j < k + 1 ∨ buf.length - (k + 1) ≤ j := by omega
          simp only [hiff]

theorem swapLoop_eq (buf : List UInt8) : swapLoop buf = buf.reverse := by
  obtain ⟨hlen, hget⟩ := getElem?_swapRounds buf (le_refl (buf.length / 2))
  refine List.ext_getElem? fun j => ?_
  by_cases hj : j < buf.length
  · rw [swapLoop, hget j hj, List.getElem?_reverse hj]
    split
    · rfl
    · congr 1
      omega
  · rw [List.getElem?_eq_none (by rw [swapLoop, hlen]; omega),
      List.getElem?_eq_none (by rw [List.length_reverse]; omega)]

theorem u64ToDecString_eq (n : BitVec 64) : u64ToDecString n = numeral 10 decDigit n.toNat := by
  unfold u64ToDecString numeral
  have hlt : n.toNat < 10 ^ 64 := n.isLt.trans (by norm_num)
  rw [decLoop_eq hlt, swapLoop_eq, List.nil_append]
  simp only [← BitVec.toNat_inj, BitVec.ofNat_eq_ofNat, BitVec.toNat_ofNat, Nat.zero_mod]
  rfl

theorem u64ToHexString_eq (n : BitVec 64) : u64ToHexString n = numeral 16 hexDigit n.toNat := by
  unfold u64ToHexString numeral
  have hlt : n.toNat < 16 ^ 64 := n.isLt.trans (by norm_num)
  rw [hexLoop_eq hlt, swapLoop_eq, List.nil_append]
  simp only [← BitVec.toNat_inj, BitVec.ofNat_eq_ofNat, BitVec.toNat_ofNat, Nat.zero_mod]
  rfl

/-! ### The scanner on the parts of a format -/

variable {items : List Item} {args : List VaArg} {out : List UInt8} {fuel : ℕ}

theorem textOf_cons (item : Item) (items : List Item) :
    textOf (item :: items) = item.text ++ textOf items := rfl

theorem argsOf_cons (item : Item) (items : List Item) :
    argsOf (item :: items) = item.args ++ argsOf items := rfl

theorem outputOf_cons (item : Item) (items : List Item) :
    outputOf (item :: items) = item.output ++ outputOf items := rfl

/-- A format that begins with another character than `%` begins with that part. -/
theorem of_textOf_cons {c : UInt8} {rest : List UInt8} (hc : c ≠ '%'.toUInt8)
    (h : textOf items = c :: rest) :
    ∃ hc' items', items = .char c hc' :: items' ∧ textOf items' = rest := by
  cases items with
  | nil => cases h
  | cons item items =>
      rw [textOf_cons] at h
      cases item with
      | char d hd =>
          obtain ⟨rfl, hrest⟩ := List.cons.inj h
          exact ⟨hd, items, rfl, hrest⟩
      | percent => exact absurd (List.cons.inj h).1.symm hc
      | str _ => exact absurd (List.cons.inj h).1.symm hc
      | dec _ => exact absurd (List.cons.inj h).1.symm hc
      | hex _ => exact absurd (List.cons.inj h).1.symm hc

theorem continues_iff (fmt : List UInt8) : Continues fmt ↔ conversion fmt ≠ .default := by
  have hp : bytesOf "%" = ['%'.toUInt8] := rfl
  have hs : bytesOf "s" = ['s'.toUInt8] := rfl
  have hlu : bytesOf "lu" = ['l'.toUInt8, 'u'.toUInt8] := rfl
  have hlx : bytesOf "lx" = ['l'.toUInt8, 'x'.toUInt8] := rfl
  have hlb : bytesOf "lb" = ['l'.toUInt8, 'b'.toUInt8] := rfl
  rw [Continues, hp, hs, hlu, hlx, hlb]
  rcases fmt with _ | ⟨c, _ | ⟨d, rest⟩⟩
  · decide
  · have hu : (0 : UInt8) ≠ 'u'.toUInt8 := by decide
    have hx : (0 : UInt8) ≠ 'x'.toUInt8 := by decide
    have hb : (0 : UInt8) ≠ 'b'.toUInt8 := by decide
    simp only [List.cons_prefix_cons, and_true, List.prefix_nil, conversion, List.getD_cons_zero,
      List.getD_cons_succ, List.getD_nil, if_neg hu, if_neg hx, if_neg hb]
    split_ifs <;> simp_all [eq_comm]
  · simp only [List.cons_prefix_cons, List.nil_prefix, and_true, conversion, List.getD_cons_zero,
      List.getD_cons_succ]
    split_ifs <;> simp_all [eq_comm]

theorem printfLoop_char {c : UInt8} (hc : c ≠ '%'.toUInt8) (fuel : ℕ) (rest : List UInt8)
    (args : List VaArg) :
    printfLoop (fuel + 1) (c :: rest) args = (printfLoop fuel rest args).map ([c] ++ ·) := by
  rw [printfLoop, if_pos hc]

theorem printfLoop_percent (fuel : ℕ) (rest : List UInt8) (args : List VaArg) :
    printfLoop (fuel + 1) ('%'.toUInt8 :: '%'.toUInt8 :: rest) args =
      printfLoop fuel ('%'.toUInt8 :: rest) args := by
  rw [printfLoop, if_neg (fun h => h rfl)]
  rfl

theorem printfLoop_str (fuel : ℕ) (rest s : List UInt8) (args : List VaArg) :
    printfLoop (fuel + 1) ('%'.toUInt8 :: 's'.toUInt8 :: rest) (.str s :: args) =
      (printfLoop fuel rest args).map (s ++ ·) := by
  rw [printfLoop, if_neg (fun h => h rfl)]
  rfl

theorem printfLoop_dec (fuel : ℕ) (rest : List UInt8) (n : BitVec 64) (args : List VaArg) :
    printfLoop (fuel + 1) ('%'.toUInt8 :: 'l'.toUInt8 :: 'u'.toUInt8 :: rest) (.num n :: args) =
      (printfLoop fuel rest args).map (numeral 10 decDigit n.toNat ++ ·) := by
  rw [printfLoop, if_neg (fun h => h rfl), ← u64ToDecString_eq]
  rfl

theorem printfLoop_hex (fuel : ℕ) (rest : List UInt8) (n : BitVec 64) (args : List VaArg) :
    printfLoop (fuel + 1) ('%'.toUInt8 :: 'l'.toUInt8 :: 'x'.toUInt8 :: rest) (.num n :: args) =
      (printfLoop fuel rest args).map (numeral 16 hexDigit n.toNat ++ ·) := by
  rw [printfLoop, if_neg (fun h => h rfl), ← u64ToHexString_eq]
  rfl

/-- What the scanner makes of the second `%` of a `%%` in front of the parts `items`. -/
inductive Rereads (fuel : ℕ) (items : List Item) (args : List VaArg) : Option (List UInt8) → Prop
  /-- It is printed. -/
  | kept (h : ¬ Continues (textOf items)) :
      Rereads fuel items args ((printfLoop fuel (textOf items) args).map (['%'.toUInt8] ++ ·))
  /-- It is left out. -/
  | dropped (h : Continues (textOf items)) : Rereads fuel items args (printfLoop fuel (textOf items) args)
  /-- It is left out together with the characters behind it. -/
  | skipped {back : List Item} (h : Continues (textOf items)) (hargs : argsOf items = argsOf back)
      (hout : (outputOf back).length ≤ (outputOf items).length) :
      Rereads fuel items args (printfLoop fuel (textOf back) args)
  /-- It takes the next argument. -/
  | taken {back : List Item} {arg : VaArg} {args' : List VaArg} {x : List UInt8}
      (h : Continues (textOf items)) (hargs : argsOf items = argsOf back) (harg : args = arg :: args') :
      Rereads fuel items args ((printfLoop fuel (textOf back) args').map (x ++ ·))
  /-- There is no such argument. -/
  | stuck (h : Continues (textOf items)) : Rereads fuel items args none

theorem of_textOf_cons_cons {c d : UInt8} {rest : List UInt8} (hc : c ≠ '%'.toUInt8)
    (hd : d ≠ '%'.toUInt8) (h : textOf items = c :: d :: rest) :
    ∃ back, textOf back = rest ∧ argsOf items = argsOf back ∧
      (outputOf back).length ≤ (outputOf items).length := by
  obtain ⟨hc', items', rfl, hrest⟩ := of_textOf_cons hc h
  obtain ⟨hd', back, rfl, hback⟩ := of_textOf_cons hd hrest
  refine ⟨back, hback, rfl, ?_⟩
  rw [outputOf_cons, outputOf_cons, List.length_append, List.length_append]
  omega

theorem rereads_str {rest : List UInt8} (fuel : ℕ) (args : List VaArg)
    (hcont : Continues (textOf items)) (htext : textOf items = 's'.toUInt8 :: rest) :
    Rereads fuel items args (printfLoop (fuel + 1) ('%'.toUInt8 :: textOf items) args) := by
  obtain ⟨hc, back, rfl, hback⟩ := of_textOf_cons (by decide) htext
  rw [htext, ← hback]
  match args with
  | [] => exact .stuck hcont
  | .num n :: args => exact .stuck hcont
  | .str s :: args =>
      rw [printfLoop_str]
      exact .taken hcont rfl rfl

theorem rereads_num {rest : List UInt8} {c : UInt8} (fuel : ℕ) (args : List VaArg)
    (hcont : Continues (textOf items)) (hc : c = 'u'.toUInt8 ∨ c = 'x'.toUInt8)
    (htext : textOf items = 'l'.toUInt8 :: c :: rest) :
    Rereads fuel items args (printfLoop (fuel + 1) ('%'.toUInt8 :: textOf items) args) := by
  have hpercent : c ≠ '%'.toUInt8 := by
    rcases hc with rfl | rfl
    · decide
    · decide
  obtain ⟨back, hback, hargs, -⟩ := of_textOf_cons_cons (by decide) hpercent htext
  rw [htext, ← hback]
  rcases hc with rfl | rfl
  · match args with
    | [] => exact .stuck hcont
    | .str s :: args => exact .stuck hcont
    | .num n :: args =>
        rw [printfLoop_dec]
        exact .taken hcont hargs rfl
  · match args with
    | [] => exact .stuck hcont
    | .str s :: args => exact .stuck hcont
    | .num n :: args =>
        rw [printfLoop_hex]
        exact .taken hcont hargs rfl

theorem rereads (fuel : ℕ) (items : List Item) (args : List VaArg) :
    Rereads fuel items args (printfLoop (fuel + 1) ('%'.toUInt8 :: textOf items) args) := by
  by_cases hcont : Continues (textOf items)
  swap
  · have hdefault : conversion (textOf items) = .default := by
      by_contra hne
      exact hcont ((continues_iff _).mpr hne)
    have hloop : printfLoop (fuel + 1) ('%'.toUInt8 :: textOf items) args =
        (printfLoop fuel (textOf items) args).map (['%'.toUInt8] ++ ·) := by
      rw [printfLoop, if_neg (fun h => h rfl), hdefault]
    rw [hloop]
    exact .kept hcont
  rcases id hcont with ⟨rest, hrest⟩ | ⟨rest, hrest⟩ | ⟨rest, hrest⟩ | ⟨rest, hrest⟩ | ⟨rest, hrest⟩
  · have htext : textOf items = '%'.toUInt8 :: rest := hrest.symm
    rw [htext, printfLoop_percent, ← htext]
    exact .dropped hcont
  · exact rereads_str fuel args hcont hrest.symm
  · exact rereads_num fuel args hcont (.inl rfl) hrest.symm
  · exact rereads_num fuel args hcont (.inr rfl) hrest.symm
  · have htext : textOf items = 'l'.toUInt8 :: 'b'.toUInt8 :: rest := hrest.symm
    obtain ⟨back, hback, hargs, hout⟩ := of_textOf_cons_cons (by decide) (by decide) htext
    rw [htext, ← hback]
    exact .skipped hcont hargs hout

/-! ### Formats and their output -/

theorem printfLoop_item (item : Item) (hitem : item ≠ .percent) (fuel : ℕ) (rest : List UInt8)
    (args : List VaArg) :
    printfLoop (fuel + 1) (item.text ++ rest) (item.args ++ args) =
      (printfLoop fuel rest args).map (item.output ++ ·) := by
  cases item with
  | char c hc => exact printfLoop_char hc.1 fuel rest args
  | percent => exact absurd rfl hitem
  | str s => exact printfLoop_str fuel rest s args
  | dec n => exact printfLoop_dec fuel rest n args
  | hex n => exact printfLoop_hex fuel rest n args

/-- The scanner stops in front of a part, or the arguments start with one for a part that reads the
same. -/
theorem printfLoop_fits (item : Item) (hitem : item ≠ .percent) (fuel : ℕ) (rest : List UInt8)
    (args : List VaArg) :
    printfLoop (fuel + 1) (item.text ++ rest) args = none ∨
      ∃ (item' : Item) (args' : List VaArg), item' ≠ .percent ∧ item'.text = item.text ∧
        item'.args.length = item.args.length ∧ args = item'.args ++ args' := by
  cases item with
  | char c hc => exact .inr ⟨.char c hc, args, Item.noConfusion, rfl, rfl, rfl⟩
  | percent => exact absurd rfl hitem
  | str s =>
      match args with
      | [] => exact .inl rfl
      | .num n :: args => exact .inl rfl
      | .str s' :: args => exact .inr ⟨.str s', args, Item.noConfusion, rfl, rfl, rfl⟩
  | dec n =>
      match args with
      | [] => exact .inl rfl
      | .str s :: args => exact .inl rfl
      | .num n' :: args => exact .inr ⟨.dec n', args, Item.noConfusion, rfl, rfl, rfl⟩
  | hex n =>
      match args with
      | [] => exact .inl rfl
      | .str s :: args => exact .inl rfl
      | .num n' :: args => exact .inr ⟨.hex n', args, Item.noConfusion, rfl, rfl, rfl⟩

/-- The scanner takes an argument for every part that has one. -/
theorem printfLoop_missing (h : args.length < (argsOf items).length) (fuel : ℕ) :
    printfLoop fuel (textOf items) args = none := by
  induction fuel using Nat.strong_induction_on generalizing items args with
  | h fuel ih =>
  obtain _ | fuel := fuel
  · rfl
  obtain _ | ⟨item, items⟩ := items
  · cases h
  rw [argsOf_cons, List.length_append] at h
  by_cases hitem : item = .percent
  · subst hitem
    show printfLoop (fuel + 1) ('%'.toUInt8 :: '%'.toUInt8 :: textOf items) args = none
    rw [printfLoop_percent]
    have h' : args.length < (argsOf items).length := by simpa [Item.args] using h
    obtain _ | fuel := fuel
    · rfl
    have hreread := rereads fuel items args
    generalize printfLoop (fuel + 1) ('%'.toUInt8 :: textOf items) args = x at hreread ⊢
    cases hreread with
    | kept _ => rw [ih fuel (by omega) h', Option.map_none]
    | dropped _ => exact ih fuel (by omega) h'
    | skipped _ hargs _ => exact ih fuel (by omega) (hargs ▸ h')
    | taken _ hargs harg =>
        subst harg
        rw [ih fuel (by omega) (hargs ▸ Nat.lt_of_succ_lt h'), Option.map_none]
    | stuck _ => rfl
  · rw [textOf_cons]
    rcases printfLoop_fits item hitem fuel (textOf items) args with
      hstop | ⟨item', args', hitem', htext, hlen, rfl⟩
    · exact hstop
    · have hless : args'.length < (argsOf items).length := by
        rw [List.length_append] at h
        omega
      rw [← htext, printfLoop_item item' hitem', ih fuel (Nat.lt_succ_self _) hless,
        Option.map_none]

theorem separate_cons (item : Item) (items : List Item) :
    Separate (item :: items) ↔ (item = .percent → ¬ Continues (textOf items)) ∧ Separate items := by
  constructor
  · intro h
    refine ⟨fun hitem => h [] items (by rw [hitem, List.nil_append]), fun front back hitems => ?_⟩
    exact h (item :: front) back (by rw [hitems, List.cons_append])
  · rintro ⟨hitem, hitems⟩ front back heq
    cases front with
    | nil =>
        obtain ⟨rfl, rfl⟩ := List.cons.inj heq
        exact hitem rfl
    | cons x front =>
        obtain ⟨-, heq⟩ := List.cons.inj heq
        exact hitems front back heq

/-- The output is never too long, and it is too short if some `%%` is read again. -/
theorem printfLoop_length (h : printfLoop fuel (textOf items) (argsOf items) = some out) :
    out.length ≤ (outputOf items).length ∧
      (¬ Separate items → out.length < (outputOf items).length) := by
  induction fuel using Nat.strong_induction_on generalizing items out with
  | h fuel ih =>
  obtain _ | fuel := fuel
  · cases h
  obtain _ | ⟨item, items⟩ := items
  · cases h
    exact ⟨le_rfl, fun hsep => absurd (fun front back heq => by simp at heq) hsep⟩
  rw [separate_cons, outputOf_cons, List.length_append]
  by_cases hitem : item = .percent
  · subst hitem
    change printfLoop (fuel + 1) ('%'.toUInt8 :: '%'.toUInt8 :: textOf items) (argsOf items) = _ at h
    rw [printfLoop_percent] at h
    have hone : (Item.percent.output).length = 1 := rfl
    obtain _ | fuel := fuel
    · cases h
    have hreread := rereads fuel items (argsOf items)
    rw [h] at hreread
    generalize hout : some out = x at hreread
    cases hreread with
    | kept hcont =>
        obtain ⟨out', hrest, rfl⟩ := Option.map_eq_some_iff.mp hout.symm
        obtain ⟨hle, hlt⟩ := ih fuel (by omega) hrest
        rw [List.length_append, List.length_singleton, hone]
        refine ⟨by omega, fun hsep => ?_⟩
        have hsep' : ¬ Separate items := fun hs => hsep ⟨fun _ => hcont, hs⟩
        have := hlt hsep'
        omega
    | dropped _ =>
        have hle := (ih fuel (by omega) hout.symm).1
        exact ⟨by omega, fun _ => by omega⟩
    | skipped _ hargs hback =>
        rw [hargs] at hout
        have hle := (ih fuel (by omega) hout.symm).1
        exact ⟨by omega, fun _ => by omega⟩
    | @taken back arg args' _ _ hargs harg =>
        have hless : args'.length < (argsOf back).length := by
          rw [← hargs, harg, List.length_cons]
          exact Nat.lt_succ_self _
        rw [printfLoop_missing hless] at hout
        cases hout
    | stuck _ => cases hout
  · rw [textOf_cons, argsOf_cons, printfLoop_item item hitem] at h
    obtain ⟨out', hrest, rfl⟩ := Option.map_eq_some_iff.mp h
    obtain ⟨hle, hlt⟩ := ih fuel (Nat.lt_succ_self _) hrest
    rw [List.length_append]
    refine ⟨by omega, fun hsep => ?_⟩
    have hsep' : ¬ Separate items := fun hs => hsep ⟨fun heq => absurd heq hitem, hs⟩
    have := hlt hsep'
    omega

/-- If no `%%` is read again the output is the one of the format. -/
theorem printfLoop_separate (h : Separate items) (hfuel : (textOf items).length < fuel) :
    printfLoop fuel (textOf items) (argsOf items) = some (outputOf items) := by
  induction items generalizing fuel with
  | nil =>
      obtain ⟨fuel, rfl⟩ : ∃ k, fuel = k + 1 := ⟨fuel - 1, by omega⟩
      rfl
  | cons item items ih =>
      obtain ⟨hcont, hrest⟩ := (separate_cons item items).mp h
      rw [textOf_cons, List.length_append] at hfuel
      by_cases hitem : item = .percent
      · subst hitem
        have htwo : (Item.percent.text).length = 2 := rfl
        obtain ⟨fuel, rfl⟩ : ∃ k, fuel = k + 2 := ⟨fuel - 2, by omega⟩
        show printfLoop (fuel + 1 + 1) ('%'.toUInt8 :: '%'.toUInt8 :: textOf items) (argsOf items) = _
        rw [printfLoop_percent]
        have hreread := rereads fuel items (argsOf items)
        generalize printfLoop (fuel + 1) ('%'.toUInt8 :: textOf items) (argsOf items) = x at hreread ⊢
        cases hreread with
        | kept _ =>
            rw [ih hrest (by omega), Option.map_some]
            rfl
        | dropped hbad => exact absurd hbad (hcont rfl)
        | skipped hbad _ _ => exact absurd hbad (hcont rfl)
        | taken hbad _ _ => exact absurd hbad (hcont rfl)
        | stuck hbad => exact absurd hbad (hcont rfl)
      · have hpos : 0 < item.text.length := by cases item <;> simp [Item.text]
        obtain ⟨fuel, rfl⟩ : ∃ k, fuel = k + 1 := ⟨fuel - 1, by omega⟩
        rw [textOf_cons, argsOf_cons, outputOf_cons, printfLoop_item item hitem,
          ih hrest (by omega), Option.map_some]

/-- **The documented format language.**  The console gets the format with its parts replaced exactly
if no `%%` is followed by `%`, `s`, `lu`, `lx` or `lb`. -/
theorem printf_iff {console : DbgConsole} (hinit : console.initialized = true) (items : List Item) :
    printf console (textOf items) (argsOf items) =
        some ({ console with sent := console.sent ++ outputOf items }, 0) ↔
      Separate items := by
  rw [printf, hinit, if_neg Bool.noConfusion]
  constructor
  · intro h
    obtain ⟨out, hloop, hout⟩ := Option.map_eq_some_iff.mp h
    have heq : out = outputOf items :=
      List.append_cancel_left (congrArg DbgConsole.sent (Prod.mk.inj hout).1)
    by_contra hsep
    have hlt := (printfLoop_length hloop).2 hsep
    rw [heq] at hlt
    exact lt_irrefl _ hlt
  · intro h
    rw [printfLoop_separate h (Nat.lt_succ_self _), Option.map_some]

/-- `%lu%% of %s` with `7` and `x`. -/
theorem printf_iff_percentage :
    printf ⟨true, []⟩ (bytesOf "%lu%% of %s") [.num 7, .str (bytesOf "x")] =
      some (⟨true, bytesOf "7% of x"⟩, 0) := by
  have hsep : Separate [.dec 7, .percent, .char 32 (by decide), .char 111 (by decide),
      .char 102 (by decide), .char 32 (by decide), .str (bytesOf "x")] := by
    simp only [separate_cons, reduceCtorEq, false_implies, true_and, forall_const]
    refine ⟨?_, fun front back h => by simp at h⟩
    rw [continues_iff]
    decide
  have hinit : (DbgConsole.mk true []).initialized = true := rfl
  exact (printf_iff hinit _).mpr hsep

/-- `%%%s` loses the character `%`. -/
theorem percent_before_string_is_lost :
    textOf [.percent, .str (bytesOf "a")] = bytesOf "%%%s" ∧
      outputOf [.percent, .str (bytesOf "a")] = bytesOf "%a" ∧
      printf ⟨true, []⟩ (bytesOf "%%%s") [.str (bytesOf "a")] = some (⟨true, bytesOf "a"⟩, 0) ∧
      ¬ printf ⟨true, []⟩ (textOf [.percent, .str (bytesOf "a")])
          (argsOf [.percent, .str (bytesOf "a")]) =
        some (⟨true, outputOf [.percent, .str (bytesOf "a")]⟩, 0) := by
  have hcall : printf ⟨true, []⟩ (bytesOf "%%%s") [.str (bytesOf "a")] =
      some (⟨true, bytesOf "a"⟩, 0) := rfl
  refine ⟨rfl, rfl, hcall, fun h => ?_⟩
  have heq := congrArg DbgConsole.sent (Prod.mk.inj (Option.some.inj (hcall.symm.trans h))).1
  revert heq
  decide

end Printf

end HyveMind
