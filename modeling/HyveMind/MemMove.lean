import HyveMind.Types

/-! # Copying memory

`memmove` of `string.c`.  The two loops write over bytes that they may still have to read; which loop
runs depends on which of the two ranges starts first.

`Moved` is what both loops keep: the part of the destination that is done has the bytes the source had
at the start, and every other byte is the old one. -/

namespace HyveMind

/-- `pdest[i] = psrc[i]`. -/
def copyByte (dst src : ℕ) (mem : ℕ → UInt8) (i : ℕ) : ℕ → UInt8 :=
  Function.update mem (u64 (dst + i)) (mem (u64 (src + i)))

/-- The loop from the first byte to the last. -/
def copyForward (dst src len : ℕ) (mem : ℕ → UInt8) : ℕ → UInt8 :=
  (List.range len).foldl (copyByte dst src) mem

/-- The loop from the last byte to the first, at `i`. -/
def copyBackward (dst src : ℕ) : (i : ℕ) → (mem : ℕ → UInt8) → ℕ → UInt8
  | 0, mem => mem
  | i + 1, mem => copyBackward dst src i (copyByte dst src mem i)

/-- `memmove`: the memory afterwards, and the result. -/
def memmove (mem : ℕ → UInt8) (dst src len : ℕ) : (ℕ → UInt8) × ℕ :=
  if src > dst then (copyForward dst src len mem, dst)
  else if src < dst then (copyBackward dst src len mem, dst)
  else (mem, dst)

/-- The bytes from `lo` to `hi` have been copied. -/
structure Moved (mem : ℕ → UInt8) (dst src lo hi : ℕ) (mem' : ℕ → UInt8) : Prop where
  copied : ∀ i, lo ≤ i → i < hi → mem' (dst + i) = mem (src + i)
  kept : ∀ a, a < dst + lo ∨ dst + hi ≤ a → mem' a = mem a

section Loops

variable {mem mem' : ℕ → UInt8} {dst src lo hi len i : ℕ}

theorem copyByte_eq (hdst : dst + i < 2 ^ 64) (hsrc : src + i < 2 ^ 64) (a : ℕ) :
    copyByte dst src mem i a = if a = dst + i then mem (src + i) else mem a := by
  rw [copyByte, u64_of_lt hdst, u64_of_lt hsrc, Function.update_apply]

theorem Moved.empty (mem : ℕ → UInt8) (dst src i : ℕ) : Moved mem dst src i i mem where
  copied := fun _ h1 h2 => absurd h2 (Nat.not_lt.mpr h1)
  kept := fun _ _ => rfl

/-- One byte more at the upper end; the source starts behind the destination. -/
theorem Moved.up (h : Moved mem dst src 0 hi mem') (hlt : dst < src) (hdst : dst + hi < 2 ^ 64)
    (hsrc : src + hi < 2 ^ 64) : Moved mem dst src 0 (hi + 1) (copyByte dst src mem' hi) where
  copied := by
    intro i _ hi'
    rw [copyByte_eq hdst hsrc]
    by_cases heq : i = hi
    · rw [if_pos (by rw [heq]), heq, h.kept (src + hi) (by omega)]
    · rw [if_neg (by omega), h.copied i (Nat.zero_le _) (by omega)]
  kept := by
    intro a ha
    rw [copyByte_eq hdst hsrc, if_neg (by omega), h.kept a (by omega)]

/-- One byte more at the lower end; the source starts in front of the destination. -/
theorem Moved.down (h : Moved mem dst src (lo + 1) hi mem') (hlt : src < dst) (hlo : lo < hi)
    (hdst : dst + lo < 2 ^ 64) (hsrc : src + lo < 2 ^ 64) :
    Moved mem dst src lo hi (copyByte dst src mem' lo) where
  copied := by
    intro i hi₁ hi₂
    rw [copyByte_eq hdst hsrc]
    by_cases heq : i = lo
    · rw [if_pos (by rw [heq]), heq, h.kept (src + lo) (by omega)]
    · rw [if_neg (by omega), h.copied i (by omega) hi₂]
  kept := by
    intro a ha
    rw [copyByte_eq hdst hsrc, if_neg (by omega), h.kept a (by omega)]

theorem copyForward_moved (hlt : dst < src) (hdst : dst + len ≤ 2 ^ 64) (hsrc : src + len ≤ 2 ^ 64) :
    Moved mem dst src 0 len (copyForward dst src len mem) := by
  induction len with
  | zero => exact Moved.empty mem dst src 0
  | succ k ih =>
      have hk := ih (by omega) (by omega)
      rw [copyForward, List.range_succ, List.foldl_append]
      exact hk.up hlt (by omega) (by omega)

theorem copyBackward_moved (hlt : src < dst) (hdst : dst + len ≤ 2 ^ 64)
    (h : Moved mem dst src i len mem') (hi : i ≤ len) :
    Moved mem dst src 0 len (copyBackward dst src i mem') := by
  induction i generalizing mem' with
  | zero => exact h
  | succ i ih => exact ih (h.down hlt (by omega) (by omega) (by omega)) (by omega)

end Loops

/-- **`memmove` is correct under overlap.** -/
theorem memmove_moves (mem : ℕ → UInt8) {dst src len : ℕ} (hdst : dst + len ≤ 2 ^ 64)
    (hsrc : src + len ≤ 2 ^ 64) :
    (∀ i < len, (memmove mem dst src len).1 (dst + i) = mem (src + i)) ∧
      ∀ a, a < dst ∨ dst + len ≤ a → (memmove mem dst src len).1 a = mem a := by
  have hmoved : src ≠ dst → Moved mem dst src 0 len (memmove mem dst src len).1 := by
    intro hne
    rw [memmove]
    split_ifs with h₁ h₂
    · exact copyForward_moved h₁ hdst hsrc
    · exact copyBackward_moved h₂ hdst (Moved.empty mem dst src len) le_rfl
    · omega
  by_cases heq : src = dst
  · subst heq
    have hsame : (memmove mem src src len).1 = mem := by
      rw [memmove, if_neg (Nat.lt_irrefl _), if_neg (Nat.lt_irrefl _)]
    rw [hsame]
    exact ⟨fun _ _ => rfl, fun _ _ => rfl⟩
  · have h := hmoved heq
    exact ⟨fun i hi => h.copied i (Nat.zero_le _) hi, fun a ha => h.kept a (by omega)⟩

/-- Four bytes to the next address but one, and back. -/
theorem memmove_moves_overlapping :
    (∀ i < 4, (memmove UInt8.ofNat 12 10 4).1 (12 + i) = UInt8.ofNat (10 + i)) ∧
      ∀ i < 4, (memmove UInt8.ofNat 10 12 4).1 (10 + i) = UInt8.ofNat (12 + i) :=
  ⟨(memmove_moves UInt8.ofNat (by norm_num) (by norm_num)).1,
    (memmove_moves UInt8.ofNat (by norm_num) (by norm_num)).1⟩

end HyveMind
