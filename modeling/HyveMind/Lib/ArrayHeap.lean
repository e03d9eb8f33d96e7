import Mathlib.Tactic
import Mathlib.Order.Interval.Finset.Nat

/-! # Binary heaps in an array

The elements `a 1, …, a n` of an array, read as a tree in which `i / 2` is the parent of `i`, and
ordered by a key (`Ordered`).  The library has no loops of its own: `UpFrom` is the order while an
element moves towards the root and `DownFrom` while it moves away from it, each with the lemma for
one exchange and the lemma for the end of the loop.  `elems` is what the array holds, with
multiplicity, which an exchange does not change. -/

namespace HyveMind.Lib.ArrayHeap

variable {α β : Type*}

/-- The array with two elements exchanged. -/
def swap (a : ℕ → α) (i j : ℕ) : ℕ → α := Function.update (Function.update a i (a j)) j (a i)

/-- The elements `a 1, …, a n`. -/
def elems (a : ℕ → α) (n : ℕ) : Multiset α := (Multiset.range n).map fun i => a (i + 1)

theorem swap_apply (a : ℕ → α) (i j k : ℕ) :
    swap a i j k = if k = j then a i else if k = i then a j else a k := by
  simp only [swap, Function.update_apply]

/-! ### What the array holds -/

@[simp] theorem elems_zero (a : ℕ → α) : elems a 0 = 0 := rfl

theorem elems_succ (a : ℕ → α) (n : ℕ) : elems a (n + 1) = a (n + 1) ::ₘ elems a n := by
  rw [elems, Multiset.range_succ, Multiset.map_cons, elems]

@[simp] theorem card_elems (a : ℕ → α) (n : ℕ) : (elems a n).card = n := by simp [elems]

theorem mem_elems {a : ℕ → α} {n : ℕ} {x : α} : x ∈ elems a n ↔ ∃ i, 1 ≤ i ∧ i ≤ n ∧ a i = x := by
  simp only [elems, Multiset.mem_map, Multiset.mem_range]
  constructor
  · rintro ⟨i, hi, rfl⟩
    exact ⟨i + 1, by omega, by omega, rfl⟩
  · rintro ⟨i, h1, h2, rfl⟩
    exact ⟨i - 1, by omega, by rw [show i - 1 + 1 = i by omega]⟩

theorem elems_congr {a b : ℕ → α} {n : ℕ} (h : ∀ i, 1 ≤ i → i ≤ n → a i = b i) :
    elems a n = elems b n := by
  refine Multiset.map_congr rfl fun i hi => ?_
  rw [Multiset.mem_range] at hi
  exact h (i + 1) (by omega) (by omega)

theorem elems_swap (a : ℕ → α) {i j n : ℕ} (hi : 1 ≤ i ∧ i ≤ n) (hj : 1 ≤ j ∧ j ≤ n) :
    elems (swap a i j) n = elems a n := by
  have hperm : (Multiset.range n).map (Equiv.swap (i - 1) (j - 1)) = Multiset.range n := by
    rw [← Finset.range_val, ← Finset.image_val_of_injOn (Equiv.injective _).injOn]
    congr 1
    ext k
    simp only [Finset.mem_image, Finset.mem_range]
    constructor
    · rintro ⟨l, hl, rfl⟩
      rw [Equiv.swap_apply_def]
      split_ifs <;> omega
    · intro hk
      refine ⟨Equiv.swap (i - 1) (j - 1) k, ?_, Equiv.swap_apply_self _ _ _⟩
      rw [Equiv.swap_apply_def]
      split_ifs <;> omega
  unfold elems
  conv_rhs => rw [← hperm, Multiset.map_map]
  refine Multiset.map_congr rfl fun k _ => ?_
  rw [Function.comp_apply, swap_apply, Equiv.swap_apply_def]
  split_ifs with h1 h2 h3 h4 h5 <;> first | rfl | (congr 1; omega)

theorem elems_push (a : ℕ → α) (n : ℕ) (x : α) :
    elems (Function.update a (n + 1) x) (n + 1) = x ::ₘ elems a n := by
  rw [elems_succ, Function.update_self]
  congr 1
  exact elems_congr fun i _ h2 => Function.update_of_ne (by omega) _ _

theorem elems_remove (a : ℕ → α) {i n : ℕ} (h1 : 1 ≤ i) (h2 : i ≤ n + 1) :
    a i ::ₘ elems (Function.update a i (a (n + 1))) n = elems a (n + 1) := by
  rw [← elems_swap a ⟨h1, h2⟩ ⟨Nat.le_add_left 1 n, le_rfl⟩, elems_succ, swap_apply, if_pos rfl]
  congr 1
  exact elems_congr fun j _ hj => (Function.update_of_ne (by omega) _ _).symm

/-! ### Order -/

variable [LinearOrder β]

/-- No element has a smaller key than its child. -/
def Ordered (key : α → β) (a : ℕ → α) (n : ℕ) : Prop :=
  ∀ i, 2 ≤ i → i ≤ n → key (a (i / 2)) ≤ key (a i)

/-- The order while the element at `c` moves towards the root. -/
structure UpFrom (key : α → β) (a : ℕ → α) (n c : ℕ) : Prop where
  except : ∀ i, 2 ≤ i → i ≤ n → i ≠ c → key (a (i / 2)) ≤ key (a i)
  grand : ∀ i, i ≤ n → i / 2 = c → 2 ≤ c → key (a (c / 2)) ≤ key (a i)

/-- The order while the element at `c` moves away from the root. -/
structure DownFrom (key : α → β) (a : ℕ → α) (n c : ℕ) : Prop where
  except : ∀ i, 2 ≤ i → i ≤ n → i / 2 ≠ c → key (a (i / 2)) ≤ key (a i)
  grand : ∀ i, i ≤ n → i / 2 = c → 2 ≤ c → key (a (c / 2)) ≤ key (a i)

variable {key : α → β} {a : ℕ → α} {n c : ℕ}

theorem Ordered.root_le (h : Ordered key a n) {i : ℕ} (h1 : 1 ≤ i) (h2 : i ≤ n) :
    key (a 1) ≤ key (a i) := by
  induction i using Nat.strong_induction_on with
  | _ i ih =>
      rcases Nat.lt_or_ge i 2 with hlt | hge
      · rw [show i = 1 by omega]
      · exact (ih (i / 2) (by omega) (by omega) (by omega)).trans (h i hge h2)

theorem UpFrom.swap (h : UpFrom key a n c) (hc : 2 ≤ c) (hcn : c ≤ n)
    (hlt : key (a c) < key (a (c / 2))) : UpFrom key (swap a c (c / 2)) n (c / 2) := by
  constructor
  · intro i h1 h2 hne
    have hi := h.except i h1 h2
    have hup := h.except (c / 2)
    simp only [swap_apply]
    grind [h.grand]
  · intro i h1 h2 h3
    have hup := h.except (c / 2)
    have hi := h.except i (by omega) h1
    simp only [swap_apply]
    grind

theorem UpFrom.ordered (h : UpFrom key a n c)
    (hstop : 2 ≤ c → key (a (c / 2)) ≤ key (a c)) : Ordered key a n := by
  intro i h1 h2
  by_cases hic : i = c
  · exact hic ▸ hstop (hic ▸ h1)
  · exact h.except i h1 h2 hic

/-- One exchange on the way down, with the smaller child `m`. -/
theorem DownFrom.swap (h : DownFrom key a n c) {m : ℕ} (hc : 1 ≤ c) (hm : m / 2 = c) (hmn : m ≤ n)
    (hlt : key (a m) < key (a c)) (hmin : ∀ i, i ≤ n → i / 2 = c → key (a m) ≤ key (a i)) :
    DownFrom key (swap a c m) n m := by
  constructor
  · intro i h1 h2 hne
    have hi := h.except i h1 h2
    simp only [swap_apply]
    grind [h.grand]
  · intro i h1 h2 h3
    have hi := h.except i (by omega) h1
    simp only [swap_apply]
    grind

/-- The last element in the place of another one: only the children of the place can be before it, when
the parent is not behind it. -/
theorem Ordered.downFrom (h : Ordered key a (n + 1)) (hc : 1 ≤ c)
    (hparent : 2 ≤ c → c ≤ n → key (a (c / 2)) ≤ key (a (n + 1))) :
    DownFrom key (Function.update a c (a (n + 1))) n c := by
  constructor
  · intro i h1 h2 hne
    rw [Function.update_of_ne hne]
    by_cases hic : i = c
    · subst hic
      rw [Function.update_self]
      exact hparent h1 h2
    · rw [Function.update_of_ne hic]
      exact h i h1 (by omega)
  · intro i h1 h2 h3
    rw [Function.update_of_ne (by omega), Function.update_of_ne (by omega)]
    have hi := h i (by omega) (by omega)
    rw [h2] at hi
    exact (h c h3 (by omega)).trans hi

theorem DownFrom.ordered (h : DownFrom key a n c)
    (hstop : ∀ i, i ≤ n → i / 2 = c → key (a c) ≤ key (a i)) : Ordered key a n := by
  intro i h1 h2
  by_cases hic : i / 2 = c
  · exact hic ▸ hstop i h2 hic
  · exact h.except i h1 h2 hic

end HyveMind.Lib.ArrayHeap
