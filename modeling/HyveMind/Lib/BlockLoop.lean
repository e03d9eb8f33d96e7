import Mathlib.Tactic

/-! # Loops over the aligned blocks of an address range

`overBlocks done bits body s first last` is the loop that every level of a page-table walk runs
over the addresses `first, …, last`: it cuts the range at the boundaries of the aligned blocks of
`2 ^ bits` addresses and calls `body` on each piece in turn, as long as `body` answers `done`.
Addresses are 64 bits wide and wrap around.

`overBlocks_eq` unfolds one round, `overBlocks_rule` is the rule for proving a property of the
whole loop from a property of its rounds that composes, and `overBlocks_split` cuts the loop in two
at a block boundary. -/

namespace HyveMind.Lib

variable {σ ρ : Type*} [DecidableEq ρ] {done : ρ} {bits : ℕ}
  {body : σ → ℕ → ℕ → Option (σ × ρ)}

/-- The last address of the aligned block of `2 ^ bits` addresses that holds `addr`. -/
def blockEnd (bits addr : ℕ) : ℕ := addr ||| (2 ^ bits - 1)

/-- The loop with at most `fuel` rounds; `none` if they do not suffice. -/
def forBlocks (done : ρ) (bits : ℕ) (body : σ → ℕ → ℕ → Option (σ × ρ)) (last : ℕ) :
    ℕ → σ → ℕ → Option (σ × ρ)
  | 0, s, curr => if curr ≤ last then none else some (s, done)
  | fuel + 1, s, curr =>
      if curr ≤ last then
        let currEnd := min last (blockEnd bits curr)
        (body s curr currEnd).bind fun (s', r) =>
          if r = done then forBlocks done bits body last fuel s' ((currEnd + 1) % 2 ^ 64)
          else some (s', r)
      else some (s, done)

/-- The loop over `first, …, last`. -/
def overBlocks (done : ρ) (bits : ℕ) (body : σ → ℕ → ℕ → Option (σ × ρ)) (s : σ)
    (first last : ℕ) : Option (σ × ρ) :=
  forBlocks done bits body last (last + 1 - first) s first

theorem blockEnd_eq (bits addr : ℕ) :
    blockEnd bits addr = addr / 2 ^ bits * 2 ^ bits + (2 ^ bits - 1) := by
  have hpos : 0 < 2 ^ bits := Nat.two_pow_pos bits
  have hor := Nat.two_pow_add_eq_or_of_lt (show 2 ^ bits - 1 < 2 ^ bits by omega)
    (addr / 2 ^ bits)
  rw [Nat.mul_comm, hor]
  unfold blockEnd
  apply Nat.eq_of_testBit_eq
  intro i
  simp only [Nat.testBit_or, Nat.testBit_two_pow_sub_one, Nat.testBit_two_pow_mul]
  by_cases hi : i < bits
  · simp [hi]
  · rw [Nat.testBit_div_two_pow]
    have hle : bits ≤ i := by omega
    simp [hi, hle]

theorem le_blockEnd (bits addr : ℕ) : addr ≤ blockEnd bits addr := Nat.left_le_or

theorem forBlocks_fuel {last : ℕ} (hlast : last + 1 < 2 ^ 64) {fuel fuel' : ℕ} {s : σ} {curr : ℕ}
    (h : last + 1 ≤ curr + fuel) (h' : last + 1 ≤ curr + fuel') :
    forBlocks done bits body last fuel s curr = forBlocks done bits body last fuel' s curr := by
  induction fuel generalizing fuel' s curr with
  | zero =>
      have hn : ¬ curr ≤ last := by omega
      cases fuel' with
      | zero => rfl
      | succ fuel' => simp [forBlocks, hn]
  | succ fuel ih =>
      cases fuel' with
      | zero =>
          have hn : ¬ curr ≤ last := by omega
          simp [forBlocks, hn]
      | succ fuel' =>
          have hend := le_blockEnd bits curr
          by_cases hle : curr ≤ last
          · have hwrap : (min last (blockEnd bits curr) + 1) % 2 ^ 64 =
                min last (blockEnd bits curr) + 1 := Nat.mod_eq_of_lt (by omega)
            simp only [forBlocks, if_pos hle, hwrap]
            congr 1
            funext p
            split
            · exact ih (by omega) (by omega)
            · rfl
          · simp [forBlocks, hle]

theorem overBlocks_eq {last : ℕ} (hlast : last + 1 < 2 ^ 64) {s : σ} {first : ℕ}
    (hle : first ≤ last) :
    overBlocks done bits body s first last =
      (body s first (min last (blockEnd bits first))).bind fun (s', r) =>
        if r = done then overBlocks done bits body s' (min last (blockEnd bits first) + 1) last
        else some (s', r) := by
  have hend := le_blockEnd bits first
  have hwrap : (min last (blockEnd bits first) + 1) % 2 ^ 64 =
      min last (blockEnd bits first) + 1 := Nat.mod_eq_of_lt (by omega)
  unfold overBlocks
  rw [show last + 1 - first = (last - first) + 1 by omega]
  simp only [forBlocks, if_pos hle, hwrap]
  congr 1
  funext p
  split
  · exact forBlocks_fuel hlast (by omega) (by omega)
  · rfl

theorem overBlocks_of_lt {last : ℕ} {s : σ} {first : ℕ} (h : last < first) :
    overBlocks done bits body s first last = some (s, done) := by
  unfold overBlocks
  rw [show last + 1 - first = 0 by omega]
  simp [forBlocks, show ¬ first ≤ last by omega]

/-- **The loop rule.**  Let every round be defined and satisfy `Q`.  If `Q` of a round that answers
`done` and of the rest of the loop gives `Q` of both together, and `Q` of a round that stops the
loop gives `Q` of the whole range, then the loop is defined and satisfies `Q`. -/
theorem overBlocks_rule {P : σ → ℕ → Prop} {Q : ℕ → ℕ → σ → σ → ρ → Prop} {last : ℕ}
    (hlast : last + 1 < 2 ^ 64)
    (hbody : ∀ s curr, P s curr → curr ≤ last →
      ∃ s' r, body s curr (min last (blockEnd bits curr)) = some (s', r) ∧
        Q curr (min last (blockEnd bits curr)) s s' r ∧
        (r = done → P s' (min last (blockEnd bits curr) + 1)))
    (hcomp : ∀ s curr s₁ s₂ r, blockEnd bits curr < last → P s curr →
      Q curr (blockEnd bits curr) s s₁ done → Q (blockEnd bits curr + 1) last s₁ s₂ r →
      Q curr last s s₂ r)
    (hstop : ∀ s curr s₁ r, blockEnd bits curr < last → P s curr → r ≠ done →
      Q curr (blockEnd bits curr) s s₁ r → Q curr last s s₁ r)
    {s : σ} {first : ℕ} (hP : P s first) (hle : first ≤ last) :
    ∃ s' r, overBlocks done bits body s first last = some (s', r) ∧ Q first last s s' r := by
  induction hn : last - first using Nat.strong_induction_on generalizing s first with
  | _ n ih =>
      have hend := le_blockEnd bits first
      obtain ⟨s₁, r₁, hcall, hQ, hnext⟩ := hbody s first hP hle
      rw [overBlocks_eq hlast hle, hcall]
      by_cases hr : r₁ = done
      · subst hr
        simp only [Option.bind_some, if_true]
        by_cases hlt : blockEnd bits first < last
        · rw [min_eq_right hlt.le] at hQ hnext ⊢
          obtain ⟨s₂, r, hrest, hQ'⟩ := ih (last - (blockEnd bits first + 1)) (by omega)
            (hnext rfl) (by omega) rfl
          exact ⟨s₂, r, hrest, hcomp s first s₁ s₂ r hlt hP hQ hQ'⟩
        · rw [min_eq_left (by omega)] at hQ ⊢
          exact ⟨s₁, r₁, overBlocks_of_lt (by omega), hQ⟩
      · simp only [Option.bind_some, if_neg hr]
        by_cases hlt : blockEnd bits first < last
        · rw [min_eq_right hlt.le] at hQ
          exact ⟨s₁, r₁, rfl, hstop s first s₁ r₁ hlt hP hr hQ⟩
        · rw [min_eq_left (by omega)] at hQ
          exact ⟨s₁, r₁, rfl, hQ⟩

theorem overBlocks_congr {body' : σ → ℕ → ℕ → Option (σ × ρ)} {last : ℕ}
    (h : ∀ s curr, curr ≤ last → body s curr (min last (blockEnd bits curr)) =
      body' s curr (min last (blockEnd bits curr))) (s : σ) (first : ℕ) :
    overBlocks done bits body s first last = overBlocks done bits body' s first last := by
  have hfuel : ∀ fuel s curr, forBlocks done bits body last fuel s curr =
      forBlocks done bits body' last fuel s curr := by
    intro fuel
    induction fuel with
    | zero => exact fun _ _ => rfl
    | succ fuel ih =>
        intro s curr
        by_cases hle : curr ≤ last
        · simp only [forBlocks, if_pos hle, h s curr hle, ih]
        · simp only [forBlocks, if_neg hle]
  exact hfuel _ _ _

/-- A loop up to the last address never comes to its end: there is no address behind it. -/
theorem forBlocks_top {fuel : ℕ} {s s' : σ} {curr : ℕ} (hcurr : curr < 2 ^ 64) :
    forBlocks done bits body (2 ^ 64 - 1) fuel s curr ≠ some (s', done) := by
  have hle : curr ≤ 2 ^ 64 - 1 := by omega
  induction fuel generalizing s curr with
  | zero =>
      rw [forBlocks, if_pos hle]
      exact nofun
  | succ fuel ih =>
      rw [forBlocks, if_pos hle]
      intro h
      obtain ⟨⟨s₁, r₁⟩, -, hrest⟩ := Option.bind_eq_some_iff.mp h
      by_cases hr : r₁ = done
      · have hmod : (min (2 ^ 64 - 1) (blockEnd bits curr) + 1) % 2 ^ 64 < 2 ^ 64 :=
          Nat.mod_lt _ (by norm_num)
        simp only [hr, if_true] at hrest
        exact ih hmod (by omega) hrest
      · simp only [if_neg hr, Option.some.injEq, Prod.mk.injEq] at hrest
        exact hr hrest.2

/-- The answer of the loop is one of its rounds', or `done`. -/
theorem forBlocks_answer {last fuel : ℕ} {s s' : σ} {curr : ℕ} {r : ρ}
    (hbody : ∀ s curr currEnd s' r, body s curr currEnd = some (s', r) → r = done)
    (h : forBlocks done bits body last fuel s curr = some (s', r)) : r = done := by
  induction fuel generalizing s curr with
  | zero =>
      unfold forBlocks at h
      split_ifs at h
      cases h
      rfl
  | succ fuel ih =>
      unfold forBlocks at h
      split_ifs at h
      · obtain ⟨⟨s₁, r₁⟩, hcall, hrest⟩ := Option.bind_eq_some_iff.mp h
        simp only [hbody _ _ _ _ _ hcall, if_true] at hrest
        exact ih hrest
      · cases h
        rfl

/-- What every round keeps, the loop keeps, wherever the range ends. -/
theorem forBlocks_inv {J : σ → Prop} {last fuel : ℕ}
    (hbody : ∀ s curr currEnd s' r, J s → body s curr currEnd = some (s', r) → J s')
    {s s' : σ} {first : ℕ} {r : ρ} (hs : J s)
    (h : forBlocks done bits body last fuel s first = some (s', r)) : J s' := by
  induction fuel generalizing s first with
  | zero =>
      unfold forBlocks at h
      split_ifs at h
      cases h
      exact hs
  | succ fuel ih =>
      unfold forBlocks at h
      split_ifs at h
      · obtain ⟨⟨s₁, r₁⟩, hcall, hrest⟩ := Option.bind_eq_some_iff.mp h
        have hs₁ := hbody _ _ _ _ _ hs hcall
        by_cases hr : r₁ = done
        · simp only [hr, if_true] at hrest
          exact ih hs₁ hrest
        · simp only [if_neg hr, Option.some.injEq, Prod.mk.injEq] at hrest
          exact hrest.1 ▸ hs₁
      · cases h
        exact hs

theorem overBlocks_inv {J : σ → Prop} {last : ℕ}
    (hbody : ∀ s curr currEnd s' r, J s → body s curr currEnd = some (s', r) → J s')
    {s s' : σ} {first : ℕ} {r : ρ} (hs : J s)
    (h : overBlocks done bits body s first last = some (s', r)) : J s' :=
  forBlocks_inv hbody hs h

/-- **The loop rule for calls that need not return.**  As `overBlocks_rule`, for a range that may go up
to the last address, and for runs after which `L` holds.  Once lost, `L` does not come back, so that it
holds after every round.  A round that reaches the last address must not answer `done`. -/
theorem overBlocks_partial {G L : σ → Prop} {P : σ → ℕ → Prop} {Q : ℕ → ℕ → σ → σ → ρ → Prop}
    {last : ℕ}
    (hback : ∀ s curr currEnd s' r, G s → body s curr currEnd = some (s', r) → G s' ∧ (L s' → L s))
    (hbody : ∀ s curr s' r, P s curr → curr ≤ last →
      body s curr (min last (blockEnd bits curr)) = some (s', r) → L s' →
      Q curr (min last (blockEnd bits curr)) s s' r ∧ (r = done →
        P s' (min last (blockEnd bits curr) + 1) ∧ min last (blockEnd bits curr) + 1 < 2 ^ 64))
    (hcomp : ∀ s curr s₁ s₂ r, blockEnd bits curr < last → P s curr →
      Q curr (blockEnd bits curr) s s₁ done → Q (blockEnd bits curr + 1) last s₁ s₂ r →
      Q curr last s s₂ r)
    (hstop : ∀ s curr s₁ r, blockEnd bits curr < last → P s curr → r ≠ done →
      Q curr (blockEnd bits curr) s s₁ r → Q curr last s s₁ r)
    {s s' : σ} {first : ℕ} {r : ρ} (hG : G s) (hP : P s first) (hle : first ≤ last)
    (h : overBlocks done bits body s first last = some (s', r)) (hL : L s') : Q first last s s' r := by
  unfold overBlocks at h
  generalize last + 1 - first = fuel at h
  induction fuel generalizing s first with
  | zero =>
      rw [forBlocks, if_pos hle] at h
      cases h
  | succ fuel ih =>
      rw [forBlocks, if_pos hle] at h
      obtain ⟨⟨s₁, r₁⟩, hcall, hrest⟩ := Option.bind_eq_some_iff.mp h
      have hG₁ := (hback _ _ _ _ _ hG hcall).1
      have hend := le_blockEnd bits first
      by_cases hr : r₁ = done
      · simp only [hr, if_true] at hrest
        have hL₁ : L s₁ := (forBlocks_inv (J := fun s => G s ∧ (L s → L s₁))
          (fun _ _ _ _ _ hJ hround => ⟨(hback _ _ _ _ _ hJ.1 hround).1,
            fun hL => hJ.2 ((hback _ _ _ _ _ hJ.1 hround).2 hL)⟩) ⟨hG₁, id⟩ hrest).2 hL
        obtain ⟨hQ, hnext⟩ := hbody s first s₁ r₁ hP hle hcall hL₁
        obtain ⟨hP₁, hwrap⟩ := hnext hr
        simp only [Nat.mod_eq_of_lt hwrap] at hrest
        by_cases hlt : blockEnd bits first < last
        · rw [min_eq_right hlt.le] at hQ hP₁ hrest
          exact hcomp s first s₁ s' r hlt hP (hr ▸ hQ) (ih hG₁ hP₁ (by omega) hrest)
        · rw [min_eq_left (by omega)] at hQ hrest
          have hend' : ¬ last + 1 ≤ last := by omega
          cases fuel <;> simp only [forBlocks, hend', if_false, Option.some.injEq,
            Prod.mk.injEq] at hrest <;> obtain ⟨rfl, rfl⟩ := hrest <;> exact hr ▸ hQ
      · simp only [if_neg hr, Option.some.injEq, Prod.mk.injEq] at hrest
        obtain ⟨rfl, rfl⟩ := hrest
        have hQ := (hbody s first s₁ r₁ hP hle hcall hL).1
        by_cases hlt : blockEnd bits first < last
        · rw [min_eq_right hlt.le] at hQ
          exact hstop s first s₁ r₁ hlt hP hr hQ
        · rwa [min_eq_left (by omega)] at hQ

/-- The loop cut in two behind the block that ends at `mid`. -/
theorem overBlocks_split {last mid : ℕ} (hlast : last + 1 < 2 ^ 64) (hmid : mid < last)
    (hblock : blockEnd bits mid = mid) {s : σ} {first : ℕ} (hle : first ≤ mid) :
    overBlocks done bits body s first last =
      (overBlocks done bits body s first mid).bind fun (s', r) =>
        if r = done then overBlocks done bits body s' (mid + 1) last else some (s', r) := by
  induction hn : mid - first using Nat.strong_induction_on generalizing s first with
  | _ n ih =>
      have hend := le_blockEnd bits first
      have hendmid : blockEnd bits first ≤ mid := by
        rw [← hblock, blockEnd_eq, blockEnd_eq]
        have := Nat.mul_le_mul_right (2 ^ bits) (Nat.div_le_div_right hle (c := 2 ^ bits))
        omega
      rw [overBlocks_eq hlast (by omega), overBlocks_eq (show mid + 1 < 2 ^ 64 by omega) hle,
        min_eq_right (by omega), min_eq_right hendmid, Option.bind_assoc]
      congr 1
      funext p
      by_cases hr : p.2 = done
      · simp only [hr, if_true]
        rcases Nat.lt_or_ge (blockEnd bits first) mid with hlt | hge
        · rw [ih (mid - (blockEnd bits first + 1)) (by omega) (by omega) rfl]
        · have heq : blockEnd bits first = mid := by omega
          rw [heq, overBlocks_of_lt (show mid < mid + 1 by omega)]
          simp
      · simp [hr]

end HyveMind.Lib
