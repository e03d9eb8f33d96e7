import Mathlib.Data.List.Induction
import Mathlib.Data.List.Nodup

/-! # Numbering by first appearance

A register with room for `cap` elements, to which elements are presented one after the other.  An
element that the register does not hold yet is taken while there is room.
`take_eraseDups_concat`: the register holds the first `cap` distinct elements in the order of their
first appearance.  The position of an element never changes. -/

namespace HyveMind.Lib

variable {α : Type*} [DecidableEq α]

/-- The register after `x` was presented. -/
def present (cap : ℕ) (held : List α) (x : α) : List α :=
  if x ∈ held ∨ cap ≤ held.length then held else held ++ [x]

theorem present_cases (cap : ℕ) (held : List α) (x : α) :
    (x ∈ held ∨ cap ≤ held.length) ∧ present cap held x = held ∨
      x ∉ held ∧ held.length < cap ∧ present cap held x = held ++ [x] := by
  by_cases h : x ∈ held ∨ cap ≤ held.length
  · exact .inl ⟨h, if_pos h⟩
  · have hpresent : present cap held x = held ++ [x] := if_neg h
    rw [not_or, Nat.not_le] at h
    exact .inr ⟨h.1, h.2, hpresent⟩

theorem eraseDups_concat (xs : List α) (x : α) :
    (xs ++ [x]).eraseDups = if x ∈ xs then xs.eraseDups else xs.eraseDups ++ [x] := by
  rw [List.eraseDups_append]
  split_ifs with h
  · simp [List.removeAll, h]
  · simp [List.removeAll, h, List.eraseDups_cons]

theorem nodup_eraseDups (xs : List α) : xs.eraseDups.Nodup := by
  induction xs using List.reverseRecOn with
  | nil => simp
  | append_singleton xs x ih =>
      rw [eraseDups_concat]
      split_ifs with h
      · exact ih
      · rw [← List.concat_eq_append]
        exact ih.concat (by simpa using h)

theorem take_eraseDups_concat (cap : ℕ) (xs : List α) (x : α) :
    (xs ++ [x]).eraseDups.take cap = present cap (xs.eraseDups.take cap) x := by
  rw [eraseDups_concat]
  by_cases hfull : cap ≤ xs.eraseDups.length
  · have hlen : cap ≤ (xs.eraseDups.take cap).length := by
      rw [List.length_take]
      omega
    have hpresent : present cap (xs.eraseDups.take cap) x = xs.eraseDups.take cap :=
      if_pos (.inr hlen)
    rw [hpresent]
    split_ifs with h
    · rfl
    · rw [List.take_append_of_le_length hfull]
  · have htake : xs.eraseDups.take cap = xs.eraseDups := List.take_of_length_le (by omega)
    simp only [present, htake, List.mem_eraseDups, hfull, or_false]
    split_ifs with h
    · exact htake
    · exact List.take_of_length_le (by simp; omega)

theorem idxOf_eraseDups_append {xs : List α} {x : α} (hx : x ∈ xs) (ys : List α) :
    (xs ++ ys).eraseDups.idxOf x = xs.eraseDups.idxOf x := by
  rw [List.eraseDups_append, List.idxOf_append_of_mem (List.mem_eraseDups.mpr hx)]

end HyveMind.Lib
