import Mathlib.Tactic

/-! # Programs with early returns

A `Prog ε σ α` runs on a state `σ` and either ends with a value or returns early with a code `ε`;
in both cases it leaves a state.  `Meets P m Q E` is the triple: from a state with `P` the program
`m` ends with `Q`, or returns early with `E`.

The rules are made for straight-line code that consists of reads, checks and calls: `bind_step` for
a part whose value is known, `bind_exitIf` for a check, which hands its negation on to the rest. -/

namespace HyveMind.Lib

theorem exists_of_bind_eq_ok {ε α β : Type} {x : Except ε α} {f : α → Except ε β} {b : β}
    (h : x >>= f = .ok b) : ∃ a, x = .ok a ∧ f a = .ok b := by
  cases x with
  | error e => cases h
  | ok a => exact ⟨a, rfl, h⟩

/-- A program with early returns. -/
def Prog (ε σ α : Type) : Type := σ → Except ε α × σ

namespace Prog

variable {ε σ α β : Type}

/-- The end of a program. -/
def ret (a : α) : Prog ε σ α := fun s => (.ok a, s)

/-- An early return. -/
def exit (e : ε) : Prog ε σ α := fun s => (.error e, s)

/-- One program after the other; an early return of the first skips the second. -/
def andThen (m : Prog ε σ α) (f : α → Prog ε σ β) : Prog ε σ β := fun s =>
  match m s with
  | (.ok a, s') => f a s'
  | (.error e, s') => (.error e, s')

instance : Monad (Prog ε σ) where
  pure := ret
  bind := andThen

/-- A change of the state. -/
def modify (f : σ → σ) : Prog ε σ Unit := fun s => (.ok (), f s)

/-- `if (c) return e;` -/
def exitIf (c : Prop) [Decidable c] (e : ε) : Prog ε σ Unit := if c then exit e else ret ()

/-- A postcondition for each of the two ways to end. -/
def Ends (Q : α → σ → Prop) (E : ε → σ → Prop) : Except ε α × σ → Prop
  | (.ok a, s) => Q a s
  | (.error e, s) => E e s

/-- The triple of a program. -/
structure Meets (P : σ → Prop) (m : Prog ε σ α) (Q : α → σ → Prop) (E : ε → σ → Prop) : Prop where
  ends : ∀ s, P s → Ends Q E (m s)

section Rules

variable {P P' : σ → Prop} {m : Prog ε σ α} {f : α → Prog ε σ β} {Q : β → σ → Prop}
variable {R : α → σ → Prop} {E : ε → σ → Prop}

theorem Meets.of_ok (h : Meets P m R E) {s : σ} (hs : P s) {a : α} (ha : (m s).1 = .ok a) :
    R a (m s).2 := by
  have hm := h.ends s hs
  generalize m s = out at hm ha
  obtain ⟨r, s'⟩ := out
  obtain rfl : r = .ok a := ha
  exact hm

theorem Meets.of_both (h : Meets P m R E) {I : σ → Prop} (hR : ∀ a s, R a s → I s)
    (hE : ∀ e s, E e s → I s) {s : σ} (hs : P s) : I (m s).2 := by
  have hm := h.ends s hs
  generalize m s = out at hm
  obtain ⟨e | a, s'⟩ := out
  · exact hE e s' hm
  · exact hR a s' hm

theorem Meets.pure {a : α} (h : ∀ s, P s → R a s) :
    Meets P (Pure.pure a : Prog ε σ α) R E := ⟨fun s hs => h s hs⟩

theorem Meets.bind (h1 : Meets P m R E) (h2 : ∀ a, Meets (R a) (f a) Q E) :
    Meets P (m >>= f) Q E := by
  refine ⟨fun s hs => ?_⟩
  have hm := h1.ends s hs
  simp only [Bind.bind, andThen]
  generalize m s = out at hm
  obtain ⟨e | a, s'⟩ := out
  · exact hm
  · exact (h2 a).ends s' hm

theorem Meets.bind_step {a : α} (h1 : ∀ s, P s → ∃ s', m s = (.ok a, s') ∧ P' s')
    (h2 : Meets P' (f a) Q E) : Meets P (m >>= f) Q E := by
  refine ⟨fun s hs => ?_⟩
  obtain ⟨s', hm, hs'⟩ := h1 s hs
  simp only [Bind.bind, andThen, hm]
  exact h2.ends s' hs'

theorem Meets.of_pre (h : ∀ s, P s → ∃ P', P' s ∧ Meets P' m R E) : Meets P m R E := by
  refine ⟨fun s hs => ?_⟩
  obtain ⟨P', hs', hm⟩ := h s hs
  exact hm.ends s hs'

theorem Meets.exitIf {c : Prop} [Decidable c] {e : ε} {Q : Unit → σ → Prop}
    (hexit : ∀ s, P s → c → E e s) (h : ¬ c → ∀ s, P s → Q () s) :
    Meets P (Prog.exitIf c e) Q E := by
  by_cases hc : c
  · refine ⟨fun s hs => ?_⟩
    simp only [Prog.exitIf, if_pos hc, exit]
    exact hexit s hs hc
  · refine ⟨fun s hs => ?_⟩
    simp only [Prog.exitIf, if_neg hc, ret]
    exact h hc s hs

theorem Meets.bind_exitIf {c : Prop} [Decidable c] {e : ε} {rest : Unit → Prog ε σ β}
    (hexit : ∀ s, P s → c → E e s) (h : ¬ c → Meets P (rest ()) Q E) :
    Meets P (Prog.exitIf c e >>= rest) Q E := by
  have hcheck : Meets P (Prog.exitIf c e) (fun _ s => ¬ c ∧ P s) E :=
    Meets.exitIf hexit fun hc s hs => ⟨hc, hs⟩
  apply Meets.bind hcheck
  intro _
  exact ⟨fun s hs => (h hs.1).ends s hs.2⟩

end Rules

end Prog

end HyveMind.Lib
