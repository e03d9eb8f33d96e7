import HyveMind.Lib.Serial

/-! # Programs that read and write ports

An `Io` is a program that talks to a `Device` through ports; the device can change by itself between any
two accesses.  `Outline D P m Q` is the proof outline of a program: assertions that the device keeps by
itself, one in front of each access.  `Outline.exec`: wherever a program has come to, there is an outline
for the rest, and its assertion holds. -/

namespace HyveMind.Lib

/-- A program on ports with values `ν` that ends with a `γ`. -/
inductive Io (ν γ : Type)
  | ret (x : γ)
  | outb (port : ℕ) (v : ν) (next : Io ν γ)
  | inb (port : ℕ) (next : ν → Io ν γ)
  /-- `do { v = inb(port); } while (!test(v));` -/
  | poll (port : ℕ) (test : ν → Bool) (next : Io ν γ)

namespace Io

variable {ν γ δ : Type}

def bind : Io ν γ → (γ → Io ν δ) → Io ν δ
  | ret x, f => f x
  | outb port v next, f => outb port v (next.bind f)
  | inb port next, f => inb port fun v => (next v).bind f
  | poll port test next, f => poll port test (next.bind f)

instance : Monad (Io ν) where
  pure := ret
  bind := bind

theorem bind_assoc {ε : Type} (m : Io ν γ) (f : γ → Io ν δ) (g : δ → Io ν ε) :
    (m.bind f).bind g = m.bind fun x => (f x).bind g := by
  induction m with
  | ret x => rfl
  | outb port v next ih => rw [bind, bind, bind, ih]
  | inb port next ih =>
      rw [bind, bind, bind]
      exact congrArg _ (funext ih)
  | poll port test next ih => rw [bind, bind, bind, ih]

end Io

/-- What the accesses to a port do. -/
structure Device (σ ν : Type) where
  reads : σ → ℕ → ν → σ → Prop
  writes : σ → ℕ → ν → σ → Prop
  /-- What the device does by itself. -/
  env : σ → σ → Prop

variable {σ β ν γ δ : Type}

/-- One access. -/
inductive Io.Step (D : Device σ ν) : Io ν γ → σ → Io ν γ → σ → Prop
  | outb {port : ℕ} {v : ν} {next : Io ν γ} {u u' : σ} (h : D.writes u port v u') :
      Step D (.outb port v next) u next u'
  | inb {port : ℕ} {v : ν} {next : ν → Io ν γ} {u u' : σ} (h : D.reads u port v u') :
      Step D (.inb port next) u (next v) u'
  | again {port : ℕ} {v : ν} {test : ν → Bool} {next : Io ν γ} {u u' : σ} (h : D.reads u port v u')
      (ht : test v = false) : Step D (.poll port test next) u (.poll port test next) u'
  | passed {port : ℕ} {v : ν} {test : ν → Bool} {next : Io ν γ} {u u' : σ} (h : D.reads u port v u')
      (ht : test v = true) : Step D (.poll port test next) u next u'

/-- The jobs on a device, each with its program. -/
def Device.work (D : Device σ ν) (program : β → Io ν γ) : Work σ β (Io ν γ) where
  start := program
  step := Io.Step D
  done m := ∃ x, m = .ret x
  env := D.env

/-- The device keeps `P` by itself. -/
def Device.Stable (D : Device σ ν) (P : σ → Prop) : Prop := ∀ u u', P u → D.env u u' → P u'

inductive Outline (D : Device σ ν) (Q : γ → σ → Prop) : (σ → Prop) → Io ν γ → Prop
  | ret {P : σ → Prop} {x : γ} (hP : D.Stable P) (h : ∀ u, P u → Q x u) : Outline D Q P (.ret x)
  | outb {P P' : σ → Prop} {port : ℕ} {v : ν} {next : Io ν γ} (hP : D.Stable P)
      (h : ∀ u u', P u → D.writes u port v u' → P' u') (hnext : Outline D Q P' next) :
      Outline D Q P (.outb port v next)
  | inb {P : σ → Prop} {P' : ν → σ → Prop} {port : ℕ} {next : ν → Io ν γ} (hP : D.Stable P)
      (h : ∀ u v u', P u → D.reads u port v u' → P' v u') (hnext : ∀ v, Outline D Q (P' v) (next v)) :
      Outline D Q P (.inb port next)
  /-- `P` is the invariant of the loop. -/
  | poll {P P' : σ → Prop} {port : ℕ} {test : ν → Bool} {next : Io ν γ} (hP : D.Stable P)
      (hagain : ∀ u v u', P u → D.reads u port v u' → test v = false → P u')
      (h : ∀ u v u', P u → D.reads u port v u' → test v = true → P' u')
      (hnext : Outline D Q P' next) : Outline D Q P (.poll port test next)
  | pre {P P' : σ → Prop} {m : Io ν γ} (hP : D.Stable P) (h : ∀ u, P u → P' u)
      (hm : Outline D Q P' m) : Outline D Q P m

namespace Outline

variable {D : Device σ ν} {P : σ → Prop} {Q : γ → σ → Prop} {R : δ → σ → Prop} {m m' : Io ν γ} {u u' : σ}
  {program : β → Io ν γ}

theorem stable (h : Outline D Q P m) : D.Stable P := by
  cases h with
  | ret hP => exact hP
  | outb hP => exact hP
  | inb hP => exact hP
  | poll hP => exact hP
  | pre hP => exact hP

theorem step (h : Outline D Q P m) (hu : P u) (hstep : Io.Step D m u m' u') :
    ∃ P', Outline D Q P' m' ∧ P' u' := by
  induction h with
  | ret => cases hstep
  | outb _ h hnext =>
      cases hstep with
      | outb hw => exact ⟨_, hnext, h _ _ hu hw⟩
  | inb _ h hnext =>
      cases hstep with
      | inb hr => exact ⟨_, hnext _, h _ _ _ hu hr⟩
  | poll hP hagain h hnext =>
      cases hstep with
      | again hr ht => exact ⟨_, .poll hP hagain h hnext, hagain _ _ _ hu hr ht⟩
      | passed hr ht => exact ⟨_, hnext, h _ _ _ hu hr ht⟩
  | pre _ h _ ih => exact ih (h u hu) hstep

theorem exec (h : Outline D Q P m) (hu : P u) (hexec : Exec (D.work program) m u m' u') :
    ∃ P', Outline D Q P' m' ∧ P' u' := by
  refine hexec.inv (J := fun m u => ∃ P, Outline D Q P m ∧ P u) ?_ ?_ ⟨P, h, hu⟩
  · rintro m u m' u' ⟨P, h, hu⟩ hstep
    exact h.step hu hstep
  · rintro m u u' ⟨P, h, hu⟩ henv
    exact ⟨P, h, h.stable u u' hu henv⟩

theorem of_ret {x : γ} (h : Outline D Q P (.ret x)) (hu : P u) : Q x u := by
  generalize hm : Io.ret x = m at h
  induction h with
  | ret _ h =>
      cases hm
      exact h u hu
  | outb => cases hm
  | inb => cases hm
  | poll => cases hm
  | pre _ h _ ih => exact ih (h u hu) hm

theorem ends {x : γ} (h : Outline D Q P m) (hu : P u) (hexec : Exec (D.work program) m u (.ret x) u') :
    Q x u' := by
  obtain ⟨P', h', hu'⟩ := h.exec hu hexec
  exact h'.of_ret hu'

theorem bind {f : γ → Io ν δ} (h : Outline D Q P m) (hf : ∀ x, Outline D R (Q x) (f x)) :
    Outline D R P (m.bind f) := by
  induction h with
  | ret hP h => exact .pre hP h (hf _)
  | outb hP h _ ih => exact .outb hP h ih
  | inb hP h _ ih => exact .inb hP h ih
  | poll hP hagain h _ ih => exact .poll hP hagain h ih
  | pre hP h _ ih => exact .pre hP h ih

end Outline

end HyveMind.Lib
