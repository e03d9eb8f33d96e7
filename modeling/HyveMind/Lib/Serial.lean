import HyveMind.Lib.Run

/-! # Work that is done one job at a time

A `Work` says what a job does to an object, step by step; the object can also change by itself.
`Serial W a₀ jobs a`: the jobs, each from its start to its end before the next one, take the object from
`a₀` to `a`.  `Serial.inv` and `Exec.inv` are the rules for what a sequence of jobs and what a part of
one job keeps. -/

namespace HyveMind.Lib

variable {α β κ : Type*}

/-- Jobs `β` on an object `α`; a job that is under way is at a point `κ`. -/
structure Work (α β κ : Type*) where
  start : β → κ
  step : κ → α → κ → α → Prop
  done : κ → Prop
  /-- What the object does by itself. -/
  env : α → α → Prop

/-- From the point `k₀` with the object `a₀` to the point `k` with the object `a`. -/
inductive Exec (W : Work α β κ) (k₀ : κ) (a₀ : α) : κ → α → Prop
  | refl : Exec W k₀ a₀ k₀ a₀
  | step {k k' : κ} {a a' : α} : Exec W k₀ a₀ k a → W.step k a k' a' → Exec W k₀ a₀ k' a'
  | env {k : κ} {a a' : α} : Exec W k₀ a₀ k a → W.env a a' → Exec W k₀ a₀ k a'

inductive Serial (W : Work α β κ) (a₀ : α) : List β → α → Prop
  | nil : Serial W a₀ [] a₀
  | env {jobs : List β} {a a' : α} : Serial W a₀ jobs a → W.env a a' → Serial W a₀ jobs a'
  | job {jobs : List β} {job : β} {k : κ} {a a' : α} : Serial W a₀ jobs a →
      Exec W (W.start job) a k a' → W.done k → Serial W a₀ (jobs ++ [job]) a'

variable {W : Work α β κ} {k k₀ : κ} {a a₀ : α} {jobs : List β}

theorem Exec.inv {J : κ → α → Prop}
    (hstep : ∀ k a k' a', J k a → W.step k a k' a' → J k' a')
    (henv : ∀ k a a', J k a → W.env a a' → J k a')
    (h : Exec W k₀ a₀ k a) (h₀ : J k₀ a₀) : J k a := by
  induction h with
  | refl => exact h₀
  | step _ hs ih => exact hstep _ _ _ _ ih hs
  | env _ he ih => exact henv _ _ _ ih he

/-- The rule for a sequence of jobs.  `J jobs k a` speaks of a job that is at `k`, behind `jobs`. -/
theorem Serial.inv {I : List β → α → Prop} {J : List β → κ → α → Prop}
    (hstart : ∀ jobs job a, I jobs a → J (jobs ++ [job]) (W.start job) a)
    (hstep : ∀ jobs k a k' a', J jobs k a → W.step k a k' a' → J jobs k' a')
    (hjob : ∀ jobs k a a', J jobs k a → W.env a a' → J jobs k a')
    (hend : ∀ jobs k a, J jobs k a → W.done k → I jobs a)
    (henv : ∀ jobs a a', I jobs a → W.env a a' → I jobs a')
    (h : Serial W a₀ jobs a) (h₀ : I [] a₀) : I jobs a := by
  induction h with
  | nil => exact h₀
  | env _ he ih => exact henv _ _ _ ih he
  | job _ hexec hdone ih =>
      have hJ := hexec.inv (J := J _) (hstep _) (hjob _) (hstart _ _ _ ih)
      exact hend _ _ _ hJ hdone

end HyveMind.Lib
