import Mathlib.Data.Int.CardIntervalMod
import Mathlib.Data.List.Infix
import Mathlib.Data.List.Nodup

/-! # Round robin

`InTurn S cs`: the elements of `S` take turns in `cs`, from the first one on.  Then any
`S.length` elements in a row are distinct, and no element of `S` is ahead of another one by more
than one turn. -/

namespace HyveMind.Lib

variable {α : Type*} {S cs : List α}

def InTurn (S cs : List α) : Prop := ∀ i < cs.length, cs[i]? = S[i % S.length]?

theorem inTurn_nil (S : List α) : InTurn S [] := by
  intro i hi
  cases hi

theorem InTurn.concat (h : InTurn S cs) {c : α} (hc : S[cs.length % S.length]? = some c) :
    InTurn S (cs ++ [c]) := by
  intro i hi
  rw [List.length_append, List.length_singleton] at hi
  by_cases hlt : i < cs.length
  · rw [List.getElem?_append_left hlt, h i hlt]
  · have heq : i = cs.length := by omega
    rw [heq, List.getElem?_concat_length, hc]

theorem InTurn.of_append {ds : List α} (h : InTurn S (cs ++ ds)) : InTurn S cs := by
  intro i hi
  rw [← h i (by rw [List.length_append]; omega), List.getElem?_append_left hi]

theorem InTurn.mem (h : InTurn S cs) {c : α} (hc : c ∈ cs) : c ∈ S := by
  obtain ⟨i, hi, hget⟩ := List.mem_iff_getElem.mp hc
  have hturn := h i hi
  rw [List.getElem?_eq_getElem hi, hget] at hturn
  exact List.mem_of_getElem? hturn.symm

/-- A window that is no longer than one round has no repetition. -/
theorem InTurn.window_nodup (h : InTurn S cs) (hS : S.Nodup) {w : List α} (hw : w <:+: cs)
    (hlen : w.length ≤ S.length) : w.Nodup := by
  obtain ⟨p, q, hcs⟩ := hw
  have hturn : ∀ i < w.length, w[i]? = S[(p.length + i) % S.length]? := by
    intro i hi
    have hlt : p.length + i < cs.length := by
      rw [← hcs, List.length_append, List.length_append]
      omega
    rw [← h _ hlt, ← hcs, List.append_assoc, List.getElem?_append_right (Nat.le_add_right ..),
      Nat.add_sub_cancel_left, List.getElem?_append_left hi]
  rw [List.nodup_iff_getElem?_ne_getElem?]
  intro i j hij hj heq
  rw [hturn i (by omega), hturn j hj] at heq
  have hpos : 0 < S.length := by omega
  have hmod : (p.length + i) % S.length = (p.length + j) % S.length :=
    (List.getElem?_inj (Nat.mod_lt _ hpos) hS).mp heq
  have hdvd : S.length ∣ j - i := by
    have := (Nat.modEq_iff_dvd' (by omega)).mp hmod
    rwa [Nat.add_sub_add_left] at this
  have := Nat.le_of_dvd (by omega) hdvd
  omega

variable [DecidableEq α]

theorem InTurn.count_eq (h : InTurn S cs) (hS : S.Nodup) {a : α} {r : ℕ} (ha : S[r]? = some a) :
    cs.count a = Nat.count (· ≡ r [MOD S.length]) cs.length := by
  have hr : r < S.length := (List.getElem?_eq_some_iff.mp ha).1
  induction cs using List.reverseRecOn with
  | nil => simp
  | append_singleton cs c ih =>
      have hc := h cs.length (by simp)
      rw [List.getElem?_concat_length] at hc
      have hiff : c = a ↔ cs.length ≡ r [MOD S.length] := by
        rw [Nat.ModEq, Nat.mod_eq_of_lt hr, ← List.getElem?_inj (Nat.mod_lt _ (by omega)) hS, ← hc,
          ha, Option.some.injEq]
      rw [List.count_append, ih h.of_append, List.length_append, List.length_singleton,
        Nat.count_succ, List.count_singleton]
      simp [hiff]

/-- No element is ahead of another one by more than one turn. -/
theorem InTurn.count_le (h : InTurn S cs) (hS : S.Nodup) {a b : α} (ha : a ∈ S) (hb : b ∈ S) :
    cs.count a ≤ cs.count b + 1 := by
  obtain ⟨i, hi⟩ := List.mem_iff_getElem?.mp ha
  obtain ⟨j, hj⟩ := List.mem_iff_getElem?.mp hb
  have hpos : 0 < S.length := List.length_pos_of_mem ha
  rw [h.count_eq hS hi, h.count_eq hS hj, Nat.count_modEq_card _ hpos, Nat.count_modEq_card _ hpos]
  split_ifs <;> omega

end HyveMind.Lib
