import Mathlib.Data.List.Range
import Mathlib.Tactic

/-! # Finite sets of numbers in ascending order

`membersFrom n p off` lists the numbers below `n` that satisfy `p`, from `off` on.  A search for the
first one and a loop over all of them are read off its equations. -/

namespace HyveMind.Lib

variable {n off i : ℕ} {p : ℕ → Bool}

def membersFrom (n : ℕ) (p : ℕ → Bool) (off : ℕ) : List ℕ := (List.range' off (n - off)).filter p

theorem mem_membersFrom : i ∈ membersFrom n p off ↔ off ≤ i ∧ i < n ∧ p i = true := by
  have hrange : off ≤ i ∧ i < off + (n - off) ↔ off ≤ i ∧ i < n := by omega
  rw [membersFrom, List.mem_filter, List.mem_range'_1, hrange, and_assoc]

theorem membersFrom_of_le (h : n ≤ off) : membersFrom n p off = [] := by
  rw [membersFrom, Nat.sub_eq_zero_of_le h]
  rfl

theorem membersFrom_of_lt (h : off < n) :
    membersFrom n p off =
      if p off then off :: membersFrom n p (off + 1) else membersFrom n p (off + 1) := by
  obtain ⟨k, hk⟩ : ∃ k, n - off = k + 1 := ⟨n - off - 1, by omega⟩
  have hk' : n - (off + 1) = k := by omega
  rw [membersFrom, membersFrom, hk, hk', List.range'_succ, List.filter_cons]

theorem membersFrom_eq_cons {l : List ℕ} (h : membersFrom n p off = i :: l) :
    off ≤ i ∧ i < n ∧ l = membersFrom n p (i + 1) := by
  induction hk : n - off generalizing off with
  | zero =>
      rw [membersFrom_of_le (by omega)] at h
      cases h
  | succ k ih =>
      rw [membersFrom_of_lt (by omega)] at h
      split_ifs at h with hp
      · cases h
        exact ⟨le_rfl, by omega, rfl⟩
      · obtain ⟨hle, hlt, hl⟩ := ih h (by omega)
        exact ⟨by omega, hlt, hl⟩

theorem membersFrom_eq_append {l₁ l₂ : List ℕ} (h : membersFrom n p off = l₁ ++ i :: l₂) :
    l₂ = membersFrom n p (i + 1) := by
  induction l₁ generalizing off with
  | nil => exact (membersFrom_eq_cons h).2.2
  | cons j l₁ ih => exact ih (membersFrom_eq_cons h).2.2.symm

theorem membersFrom_pairwise : (membersFrom n p off).Pairwise (· < ·) :=
  List.Pairwise.filter _ (List.pairwise_lt_range' ..)

end HyveMind.Lib
