import Mathlib.Tactic

/-! # Scanning for a run of free cells

A left-to-right scan over cells `0, 1, 2, …`, each free or used, that looks for `nr` consecutive
free cells.  The scan keeps the length `run` of the streak of free cells right before its
position; `Streak used nr seg pos run` is what it knows at position `pos` when it started at
`seg`: the last `run` cells are free, the streak is maximal, and no run of `nr` free cells ends
at or before `pos`.  `Streak.extend`, `Streak.reset` and `Streak.found` are the three things one
cell can do to it. -/

namespace HyveMind.Lib

variable {used : ℕ → Bool} {nr seg pos run : ℕ}

/-- The cells `a, …, a + n - 1` are all free. -/
def FreeRun (used : ℕ → Bool) (a n : ℕ) : Prop := ∀ q, a ≤ q → q < a + n → used q = false

theorem freeRun_iff_forall_lt {a n : ℕ} :
    FreeRun used a n ↔ ∀ i < n, used (a + i) = false := by
  refine ⟨fun h i hi => h _ (by omega) (by omega), fun h q h1 h2 => ?_⟩
  have := h (q - a) (by omega)
  rwa [Nat.add_sub_cancel' h1] at this

instance (used : ℕ → Bool) (a n : ℕ) : Decidable (FreeRun used a n) :=
  decidable_of_iff _ freeRun_iff_forall_lt.symm

/-- What a scan from `seg` for `nr` free cells knows at position `pos`. -/
structure Streak (used : ℕ → Bool) (nr seg pos run : ℕ) : Prop where
  le : seg + run ≤ pos
  lt : run < nr
  free : FreeRun used (pos - run) run
  maximal : seg + run < pos → used (pos - run - 1) = true
  noRun : ∀ a, seg ≤ a → a + nr ≤ pos → ¬ FreeRun used a nr

theorem Streak.init (used : ℕ → Bool) (seg : ℕ) (h : 0 < nr) : Streak used nr seg seg 0 where
  le := le_refl _
  lt := h
  free := fun q h1 h2 => by omega
  maximal := fun h => by omega
  noRun := fun a h1 h2 => by omega

theorem Streak.reset (s : Streak used nr seg pos run) (hu : used pos = true) :
    Streak used nr seg (pos + 1) 0 where
  le := by have := s.le; omega
  lt := by have := s.lt; omega
  free := fun q h1 h2 => by omega
  maximal := fun _ => by simpa using hu
  noRun := fun a h1 h2 hf => by
    have hpos : pos < a + nr ∨ a + nr ≤ pos := by omega
    rcases hpos with h | h
    · have := hf pos (by have := s.lt; omega) h
      rw [hu] at this
      cases this
    · exact s.noRun a h1 h hf

theorem Streak.extend (s : Streak used nr seg pos run) (hu : used pos = false)
    (hlt : run + 1 < nr) : Streak used nr seg (pos + 1) (run + 1) where
  le := by have := s.le; omega
  lt := hlt
  free := fun q h1 h2 => by
    have := s.le
    by_cases hq : q = pos
    · rw [hq]; exact hu
    · exact s.free q (by omega) (by omega)
  maximal := fun h => by
    have := s.maximal (by omega)
    have e : pos + 1 - (run + 1) - 1 = pos - run - 1 := by omega
    rw [e]
    exact this
  noRun := fun a h1 h2 hf => by
    by_cases h : a + nr ≤ pos
    · exact s.noRun a h1 h hf
    · have := hf (pos - run - 1) (by omega) (by omega)
      rw [s.maximal (by omega)] at this
      cases this

theorem Streak.found (s : Streak used nr seg pos run) (hu : used pos = false)
    (h : run + 1 = nr) : FreeRun used (pos - run) nr := by
  intro q h1 h2
  have := s.le
  by_cases hq : q = pos
  · rw [hq]; exact hu
  · exact s.free q h1 (by omega)

theorem Streak.le_of_freeRun (s : Streak used nr seg pos run) (h : run + 1 = nr) {a : ℕ} (ha : seg ≤ a)
    (hf : FreeRun used a nr) : pos - run ≤ a := by
  by_contra hlt
  exact s.noRun a ha (by omega) hf

/-- With no streak open, no run of free cells can reach back over the position. -/
theorem Streak.not_freeRun (s : Streak used nr seg pos 0) {a : ℕ} (h1 : seg ≤ a) (h2 : a < pos) :
    ¬ FreeRun used a nr := by
  intro hf
  by_cases h : a + nr ≤ pos
  · exact s.noRun a h1 h hf
  · have hu := s.maximal (by omega)
    have := hf (pos - 0 - 1) (by omega) (by omega)
    rw [hu] at this
    cases this

end HyveMind.Lib
