import Mathlib.Data.List.Nodup
import Mathlib.Logic.Function.Basic
import Mathlib.Tactic.Ring

/-! # Byte-addressed memory and lists that live in it

A memory is a function from addresses to bytes.  Words are stored with the least significant byte
first.  `LinkedFrom` is a list without a list cell: the first word of every node holds the address
of the next node, and `0` ends the list.

The lemmas say what a write does to the bytes it covers, and that it leaves everything else alone. -/

namespace HyveMind.Lib

/-- The memory with `len` bytes from `a` on set to `0`. -/
def fillZero (mem : ℕ → ℕ) (a len : ℕ) : ℕ → ℕ :=
  fun b => if a ≤ b ∧ b < a + len then 0 else mem b

/-- The memory with the word `v` written at `a`. -/
def store64 (mem : ℕ → ℕ) (a v : ℕ) : ℕ → ℕ :=
  fun b => if a ≤ b ∧ b < a + 8 then v / 256 ^ (b - a) % 256 else mem b

/-- The word at `a`. -/
def load64 (mem : ℕ → ℕ) (a : ℕ) : ℕ :=
  (List.range 8).foldr (fun k v => mem (a + k) + 256 * v) 0

section Words

variable {mem mem' : ℕ → ℕ} {a v b : ℕ}

theorem fillZero_of_mem {len : ℕ} (h1 : a ≤ b) (h2 : b < a + len) : fillZero mem a len b = 0 :=
  if_pos ⟨h1, h2⟩

theorem fillZero_of_notMem {len : ℕ} (h : b < a ∨ a + len ≤ b) : fillZero mem a len b = mem b :=
  if_neg (by omega)

theorem store64_of_notMem (h : b < a ∨ a + 8 ≤ b) : store64 mem a v b = mem b :=
  if_neg (by omega)

theorem load64_congr (h : ∀ b, a ≤ b → b < a + 8 → mem' b = mem b) : load64 mem' a = load64 mem a := by
  have hbyte : ∀ k, k < 8 → mem' (a + k) = mem (a + k) := fun k hk => h _ (by omega) (by omega)
  simp only [load64, List.range_succ, List.range_zero, List.nil_append, List.cons_append,
    List.foldr_cons, List.foldr_nil]
  rw [hbyte 0 (by omega), hbyte 1 (by omega), hbyte 2 (by omega), hbyte 3 (by omega),
    hbyte 4 (by omega), hbyte 5 (by omega), hbyte 6 (by omega), hbyte 7 (by omega)]

theorem load64_store64 (hv : v < 2 ^ 64) : load64 (store64 mem a v) a = v := by
  have hbyte : ∀ k, k < 8 → store64 mem a v (a + k) = v / 256 ^ k % 256 := by
    intro k hk
    rw [store64, if_pos (by omega), Nat.add_sub_cancel_left]
  simp only [load64, List.range_succ, List.range_zero, List.nil_append, List.cons_append,
    List.foldr_cons, List.foldr_nil]
  rw [hbyte 0 (by omega), hbyte 1 (by omega), hbyte 2 (by omega), hbyte 3 (by omega),
    hbyte 4 (by omega), hbyte 5 (by omega), hbyte 6 (by omega), hbyte 7 (by omega)]
  norm_num
  omega

end Words

/-! ### Values of any size -/

/-- The memory with the `n` bytes of `v` written at `a`. -/
def storeBytes (mem : ℕ → ℕ) (a n v : ℕ) : ℕ → ℕ :=
  fun b => if a ≤ b ∧ b < a + n then v / 256 ^ (b - a) % 256 else mem b

/-- The value of the `n` bytes at `a`. -/
def loadBytes (mem : ℕ → ℕ) (a : ℕ) : ℕ → ℕ
  | 0 => 0
  | n + 1 => mem a + 256 * loadBytes mem (a + 1) n

/-- The `n` bytes at `a` are those of `v`. -/
def Holds (mem : ℕ → ℕ) (a n v : ℕ) : Prop := ∀ k < n, mem (a + k) = v / 256 ^ k % 256

section Bytes

variable {mem mem' : ℕ → ℕ} {a b k m n v : ℕ}

theorem storeBytes_of_notMem (h : b < a ∨ a + n ≤ b) : storeBytes mem a n v b = mem b :=
  if_neg (by omega)

theorem holds_storeBytes : Holds (storeBytes mem a n v) a n v := by
  intro k hk
  rw [storeBytes, if_pos (by omega), Nat.add_sub_cancel_left]

theorem holds_zero (h : ∀ b, a ≤ b → b < a + n → mem b = 0) : Holds mem a n 0 := by
  intro k hk
  rw [h _ (by omega) (by omega), Nat.zero_div, Nat.zero_mod]

theorem Holds.congr (h : Holds mem a n v) (hmem : ∀ b, a ≤ b → b < a + n → mem' b = mem b) : Holds mem' a n v := by
  intro k hk
  rw [hmem _ (by omega) (by omega)]
  exact h k hk

theorem Holds.part (h : Holds mem a n v) (hk : k + m ≤ n) : loadBytes mem (a + k) m = v / 256 ^ k % 256 ^ m := by
  induction m generalizing k with
  | zero => simp [loadBytes, Nat.mod_one]
  | succ m ih =>
      have hrest : loadBytes mem (a + k + 1) m = v / 256 ^ (k + 1) % 256 ^ m := by
        rw [Nat.add_assoc]
        exact ih (by omega)
      rw [loadBytes, h k (by omega), hrest, pow_succ, ← Nat.div_div_eq_div_mul, pow_succ' 256 m, Nat.mod_mul]

theorem Holds.sub (h : Holds mem a n v) (hk : k + m ≤ n) : Holds mem (a + k) m (v / 256 ^ k) := by
  intro j hj
  rw [Nat.add_assoc, h _ (by omega), pow_add, Nat.div_div_eq_div_mul]

theorem holds_mod_iff : Holds mem a n (v % 256 ^ n) ↔ Holds mem a n v := by
  refine forall₂_congr fun k hk => ?_
  have hsplit : 256 ^ n = 256 ^ k * 256 ^ (n - k) := by rw [← pow_add, Nat.add_sub_cancel' hk.le]
  have hdvd : 256 ∣ 256 ^ (n - k) := dvd_pow_self _ (by omega)
  rw [hsplit, Nat.mod_mul_right_div_self, Nat.mod_mod_of_dvd _ hdvd]

theorem Holds.append (h : Holds mem a n v) (h' : Holds mem (a + n) m (v / 256 ^ n)) : Holds mem a (n + m) v := by
  intro k hk
  by_cases hkn : k < n
  · exact h k hkn
  · have hpart := h' (k - n) (by omega)
    rwa [Nat.add_assoc, Nat.add_sub_cancel' (by omega), Nat.div_div_eq_div_mul, ← pow_add,
      Nat.add_sub_cancel' (by omega)] at hpart

theorem Holds.load (h : Holds mem a n v) (hv : v < 256 ^ n) : loadBytes mem a n = v := by
  have hpart := h.part (k := 0) (m := n) (by omega)
  rwa [Nat.add_zero, pow_zero, Nat.div_one, Nat.mod_eq_of_lt hv] at hpart

end Bytes

/-! ### Lists in memory -/

/-- From `head` on, the nodes `xs` are linked through their first words, and the list ends there. -/
def LinkedFrom (mem : ℕ → ℕ) : ℕ → List ℕ → Prop
  | head, [] => head = 0
  | head, x :: xs => head = x ∧ x ≠ 0 ∧ LinkedFrom mem (load64 mem x) xs

section Lists

variable {mem mem' : ℕ → ℕ} {head : ℕ} {xs : List ℕ}

@[simp] theorem linkedFrom_nil : LinkedFrom mem head [] ↔ head = 0 := Iff.rfl

@[simp] theorem linkedFrom_cons {x : ℕ} : LinkedFrom mem head (x :: xs) ↔
    head = x ∧ x ≠ 0 ∧ LinkedFrom mem (load64 mem x) xs := Iff.rfl

theorem LinkedFrom.eq_nil_iff (h : LinkedFrom mem head xs) : head = 0 ↔ xs = [] := by
  cases xs with
  | nil => simpa using h
  | cons x xs =>
      obtain ⟨rfl, hne, -⟩ := h
      simp [hne]

/-- A list survives every change outside the words of its nodes. -/
theorem LinkedFrom.congr (h : LinkedFrom mem head xs)
    (hmem : ∀ x ∈ xs, ∀ b, x ≤ b → b < x + 8 → mem' b = mem b) : LinkedFrom mem' head xs := by
  induction xs generalizing head with
  | nil => exact h
  | cons x xs ih =>
      obtain ⟨h1, h2, h3⟩ := h
      refine ⟨h1, h2, ?_⟩
      rw [load64_congr (hmem x (List.mem_cons_self ..))]
      exact ih h3 fun y hy => hmem y (List.mem_cons_of_mem _ hy)

theorem LinkedFrom.push (h : LinkedFrom mem head xs) {x : ℕ} (hx : x ≠ 0) (hhead : head < 2 ^ 64)
    (hdisj : ∀ y ∈ xs, y + 8 ≤ x ∨ x + 8 ≤ y) : LinkedFrom (store64 mem x head) x (x :: xs) := by
  refine ⟨rfl, hx, ?_⟩
  rw [load64_store64 hhead]
  apply h.congr
  intro y hy b h1 h2
  have := hdisj y hy
  exact store64_of_notMem (by omega)

end Lists

end HyveMind.Lib
