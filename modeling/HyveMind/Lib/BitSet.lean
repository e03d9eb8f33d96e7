import Mathlib.Tactic

/-! # Bit vectors as sets of bits

`BitsIn v a`: every bit of `v` is a bit of `a`.  The lemmas read the usual mask tests as statements
about these sets: `a &&& v = v` is inclusion, and `v = (v ||| low) &&& high` is being between two
bounds. -/

namespace HyveMind.Lib

variable {w : ℕ} {u v a b : BitVec w}

/-- The bits of `v` are among those of `a`. -/
def BitsIn (v a : BitVec w) : Prop := ∀ i, v.getLsbD i = true → a.getLsbD i = true

theorem BitsIn.refl (v : BitVec w) : BitsIn v v := fun _ h => h

theorem BitsIn.trans (hua : BitsIn u a) (hab : BitsIn a b) : BitsIn u b := fun i h => hab i (hua i h)

theorem bitsIn_zero (a : BitVec w) : BitsIn 0 a := fun i h => by simp at h

theorem bitsIn_or_left (v u : BitVec w) : BitsIn v (v ||| u) := fun i h => by
  rw [BitVec.getLsbD_or, h, Bool.true_or]

theorem bitsIn_or_right (v u : BitVec w) : BitsIn u (v ||| u) := fun i h => by
  rw [BitVec.getLsbD_or, h, Bool.or_true]

theorem bitsIn_or_iff : BitsIn (v ||| u) a ↔ BitsIn v a ∧ BitsIn u a := by
  refine ⟨fun h => ⟨(bitsIn_or_left v u).trans h, (bitsIn_or_right v u).trans h⟩, ?_⟩
  rintro ⟨hv, hu⟩ i hi
  rw [BitVec.getLsbD_or, Bool.or_eq_true] at hi
  exact hi.elim (hv i) (hu i)

theorem bitsIn_and_iff : BitsIn v (a &&& b) ↔ BitsIn v a ∧ BitsIn v b := by
  simp only [BitsIn, BitVec.getLsbD_and, Bool.and_eq_true]
  exact ⟨fun h => ⟨fun i hi => (h i hi).1, fun i hi => (h i hi).2⟩,
    fun h i hi => ⟨h.1 i hi, h.2 i hi⟩⟩

theorem and_eq_iff_bitsIn : a &&& v = v ↔ BitsIn v a := by
  constructor
  · intro h i hi
    rw [← h, BitVec.getLsbD_and, Bool.and_eq_true] at hi
    exact hi.1
  · intro h
    refine BitVec.eq_of_getLsbD_eq fun i _ => ?_
    rw [BitVec.getLsbD_and]
    cases hv : v.getLsbD i with
    | false => rw [Bool.and_false]
    | true => rw [h i hv, Bool.true_and]

instance (v a : BitVec w) : Decidable (BitsIn v a) := decidable_of_iff _ and_eq_iff_bitsIn

theorem eq_and_iff_bitsIn : v = v &&& a ↔ BitsIn v a := by
  rw [BitVec.and_comm, eq_comm, and_eq_iff_bitsIn]

/-- Forcing the bits of `low` and masking by `high` changes nothing iff the bits are between the
two. -/
theorem eq_or_and_iff {low high : BitVec w} (h : BitsIn low high) :
    v = (v ||| low) &&& high ↔ BitsIn low v ∧ BitsIn v high := by
  constructor
  · intro heq
    refine ⟨fun i hi => ?_, fun i hi => ?_⟩
    · rw [heq, BitVec.getLsbD_and, BitVec.getLsbD_or, hi, h i hi, Bool.or_true, Bool.and_true]
    · rw [heq, BitVec.getLsbD_and, Bool.and_eq_true] at hi
      exact hi.2
  · rintro ⟨hlow, hhigh⟩
    refine BitVec.eq_of_getLsbD_eq fun i _ => ?_
    rw [BitVec.getLsbD_and, BitVec.getLsbD_or]
    cases hv : v.getLsbD i with
    | true => rw [hhigh i hv, Bool.true_or, Bool.and_true]
    | false =>
        cases hl : low.getLsbD i with
        | false => rw [Bool.or_false, Bool.false_and]
        | true => exact absurd (hlow i hl) (by rw [hv]; exact Bool.false_ne_true)

theorem getLsbD_one_shiftLeft {n : ℕ} (hn : n < w) (i : ℕ) :
    (1#w <<< n).getLsbD i = decide (i = n) := by
  rw [← BitVec.twoPow_eq, BitVec.getLsbD_twoPow]
  by_cases hi : i = n
  · simp [hi, hn]
  · simp [hi, Ne.symm hi]

theorem bitsIn_one_shiftLeft_iff {n : ℕ} (hn : n < w) : BitsIn (1#w <<< n) a ↔ a.getLsbD n = true := by
  constructor
  · intro h
    exact h n (by rw [getLsbD_one_shiftLeft hn, decide_eq_true_eq])
  · intro h i hi
    rw [getLsbD_one_shiftLeft hn, decide_eq_true_eq] at hi
    rwa [hi]

theorem and_one_shiftLeft_ne_zero_iff {n : ℕ} (hn : n < w) :
    a &&& (1#w <<< n) ≠ 0 ↔ a.getLsbD n = true := by
  constructor
  · intro h
    by_contra hbit
    apply h
    refine BitVec.eq_of_getLsbD_eq fun i _ => ?_
    rw [BitVec.getLsbD_and, getLsbD_one_shiftLeft hn]
    by_cases hi : i = n
    · simpa [hi] using hbit
    · simp [hi]
  · intro h hzero
    have hbit : (a &&& (1#w <<< n)).getLsbD n = true := by
      rw [BitVec.getLsbD_and, getLsbD_one_shiftLeft hn, h, decide_eq_true rfl, Bool.and_self]
    rw [hzero] at hbit
    simp at hbit

end HyveMind.Lib
