import HyveMind.Lib.Run
import Mathlib.Data.Set.Insert
import Mathlib.Order.CompletePartialOrder

/-! # Threads that share an object under locks

A `Cmd` is a program of a thread: it takes and releases locks, and its other actions are atomic accesses to a
shared object.  The threads of a `Threads` make calls; each call runs a program, and the actions of different
threads interleave in any way.  A call can also begin with locks, which is how an interrupt begins that keeps
other interrupts away.

`Rules` say what a thread that holds certain locks may do to the object, and what holds of the object while a
lock is free.  `Proves` is the proof outline of one program under such rules: its assertions need only be
stable under what others may do meanwhile.  `Threads.sound`: the outlines of the programs are true of all
interleavings. -/

namespace HyveMind.Lib

/-- A program that ends with a `γ`. -/
inductive Cmd (κ σ γ : Type) : Type 1
  | ret (x : γ)
  | acquire (l : κ) (next : Cmd κ σ γ)
  | release (l : κ) (next : Cmd κ σ γ)
  /-- An access to the object, with the value that it yields. -/
  | act {ν : Type} (access : σ → ν → σ → Prop) (next : ν → Cmd κ σ γ)

namespace Cmd

variable {κ σ ν γ : Type}

def read (f : σ → ν) (next : ν → Cmd κ σ γ) : Cmd κ σ γ := .act (fun u v u' => v = f u ∧ u' = u) next

def write (f : σ → σ) (next : Cmd κ σ γ) : Cmd κ σ γ :=
  .act (ν := Unit) (fun u _ u' => u' = f u) fun _ => next

end Cmd

/-- The calls `β` that threads make. -/
structure Threads (κ σ β γ : Type) where
  program : β → Cmd κ σ γ
  /-- What happens to the object when a call begins. -/
  start : β → σ → σ → Prop
  /-- The locks with which a call begins. -/
  takes : β → List κ
  /-- What the object does by itself. -/
  env : σ → σ → Prop

namespace Threads

structure State (ι κ σ β γ : Type) where
  obj : σ
  holder : κ → Option ι
  /-- The call that a thread is in, and the rest of its program. -/
  thread : ι → Option (β × Cmd κ σ γ)

inductive Label (ι β γ : Type)
  | call (i : ι) (job : β)
  | step (i : ι)
  | done (i : ι) (job : β) (x : γ)
  | env

variable {ι κ σ β γ : Type}

def init (u : σ) : State ι κ σ β γ := ⟨u, fun _ => none, fun _ => none⟩

inductive Step [DecidableEq ι] [DecidableEq κ] (T : Threads κ σ β γ) :
    State ι κ σ β γ → Label ι β γ → State ι κ σ β γ → Prop
  | call {s : State ι κ σ β γ} {i : ι} {job : β} {u : σ} (hi : s.thread i = none)
      (hfree : ∀ l ∈ T.takes job, s.holder l = none) (hu : T.start job s.obj u) :
      Step T s (.call i job)
        ⟨u, fun l => if l ∈ T.takes job then some i else s.holder l,
          Function.update s.thread i (some (job, T.program job))⟩
  | acquire {s : State ι κ σ β γ} {i : ι} {job : β} {l : κ} {next : Cmd κ σ γ}
      (hi : s.thread i = some (job, .acquire l next)) (hl : s.holder l = none) :
      Step T s (.step i)
        ⟨s.obj, Function.update s.holder l (some i), Function.update s.thread i (some (job, next))⟩
  | release {s : State ι κ σ β γ} {i : ι} {job : β} {l : κ} {next : Cmd κ σ γ}
      (hi : s.thread i = some (job, .release l next)) :
      Step T s (.step i)
        ⟨s.obj, Function.update s.holder l none, Function.update s.thread i (some (job, next))⟩
  | act {s : State ι κ σ β γ} {i : ι} {job : β} {ν : Type} {access : σ → ν → σ → Prop}
      {next : ν → Cmd κ σ γ} {v : ν} {u : σ} (hi : s.thread i = some (job, .act access next))
      (hu : access s.obj v u) :
      Step T s (.step i) ⟨u, s.holder, Function.update s.thread i (some (job, next v))⟩
  | done {s : State ι κ σ β γ} {i : ι} {job : β} {x : γ} (hi : s.thread i = some (job, .ret x)) :
      Step T s (.done i job x) ⟨s.obj, s.holder, Function.update s.thread i none⟩
  | env {s : State ι κ σ β γ} {u : σ} (hu : T.env s.obj u) : Step T s .env ⟨u, s.holder, s.thread⟩

end Threads

/-! ### The rules -/

structure Rules (κ σ : Type) where
  /-- What a thread that holds the locks `H` may do. -/
  may : Set κ → σ → σ → Prop
  /-- What holds while a lock is free. -/
  inv : κ → σ → Prop
  /-- What always holds. -/
  always : σ → Prop
  may_refl : ∀ H u, may H u u
  always_may : ∀ {H u u'}, may H u u' → always u → always u'
  inv_may : ∀ {H u u' l}, l ∉ H → may H u u' → always u → inv l u → inv l u'

namespace Rules

variable {κ σ ν γ : Type} (R : Rules κ σ)

/-- Others, with other locks, do not change `P`. -/
def Stable (H : Set κ) (P : σ → Prop) : Prop :=
  ∀ H' u u', Disjoint H' H → R.may H' u u' → R.always u → P u → P u'

/-- The proof outline of a program that holds the locks `H`. -/
inductive Proves (Q : γ → σ → Prop) : Set κ → (σ → Prop) → Cmd κ σ γ → Prop
  | ret {P : σ → Prop} {x : γ} (hP : R.Stable ∅ P) (h : ∀ u, R.always u → P u → Q x u) :
      Proves Q ∅ P (.ret x)
  | acquire {H : Set κ} {P W : σ → Prop} {l : κ} {next : Cmd κ σ γ} (hl : l ∉ H) (hP : R.Stable H P)
      (h : ∀ u, R.always u → P u → R.inv l u → W u) (hnext : Proves Q (insert l H) W next) :
      Proves Q H P (.acquire l next)
  | release {H : Set κ} {P W : σ → Prop} {l : κ} {next : Cmd κ σ γ} (hl : l ∈ H) (hP : R.Stable H P)
      (h : ∀ u, R.always u → P u → R.inv l u ∧ W u) (hnext : Proves Q (H \ {l}) W next) :
      Proves Q H P (.release l next)
  | act {H : Set κ} {P : σ → Prop} {ν : Type} {W : ν → σ → Prop} {access : σ → ν → σ → Prop}
      {next : ν → Cmd κ σ γ} (hP : R.Stable H P)
      (h : ∀ u v u', R.always u → P u → access u v u' → R.may H u u' ∧ W v u')
      (hnext : ∀ v, Proves Q H (W v) (next v)) : Proves Q H P (.act access next)
  | unreachable {H : Set κ} {P : σ → Prop} {m : Cmd κ σ γ} (h : ∀ u, R.always u → ¬ P u) : Proves Q H P m

variable {R} {Q : γ → σ → Prop} {H : Set κ} {P : σ → Prop}

theorem Proves.stable {m : Cmd κ σ γ} (h : R.Proves Q H P m) : R.Stable H P := by
  cases h with
  | ret hP => exact hP
  | acquire _ hP => exact hP
  | release _ hP => exact hP
  | act hP => exact hP
  | unreachable h => exact fun _ u _ _ _ hu hP => absurd hP (h u hu)

theorem Proves.mono {Q' : γ → σ → Prop} {m : Cmd κ σ γ} (h : R.Proves Q H P m)
    (hQ : ∀ x u, Q x u → Q' x u) : R.Proves Q' H P m := by
  induction h with
  | ret hP h => exact .ret hP fun u hu hPu => hQ _ _ (h u hu hPu)
  | acquire hl hP h _ ih => exact .acquire hl hP h ih
  | release hl hP h _ ih => exact .release hl hP h ih
  | act hP h _ ih => exact .act hP h ih
  | unreachable h => exact .unreachable h

theorem Proves.read {W : ν → σ → Prop} {f : σ → ν} {next : ν → Cmd κ σ γ} (hP : R.Stable H P)
    (h : ∀ u, R.always u → P u → W (f u) u)
    (hnext : ∀ v, R.Proves Q H (W v) (next v)) : R.Proves Q H P (.read f next) := by
  refine .act hP ?_ hnext
  rintro u v u' hu hPu ⟨rfl, rfl⟩
  exact ⟨R.may_refl _ _, h _ hu hPu⟩

theorem Proves.write {W : σ → Prop} {f : σ → σ} {next : Cmd κ σ γ} (hP : R.Stable H P)
    (h : ∀ u, R.always u → P u → R.may H u (f u) ∧ W (f u)) (hnext : R.Proves Q H W next) :
    R.Proves Q H P (.write f next) := by
  refine .act (W := fun _ => W) hP ?_ fun _ => hnext
  rintro u v u' hu hPu rfl
  exact h _ hu hPu

end Rules

/-! ### All interleavings -/

namespace Threads

variable {ι κ σ β γ : Type} {T : Threads κ σ β γ} {R : Rules κ σ}
  {Q : β → γ → σ → Prop} {s s' : State ι κ σ β γ} {l : Label ι β γ} {ls : List (Label ι β γ)} {u₀ : σ}

/-- The programs have outlines, which begin where the calls begin and end with `Q`. -/
structure Correct (T : Threads κ σ β γ) (R : Rules κ σ) (Q : β → γ → σ → Prop) : Prop where
  program : ∀ job, ∃ P, R.Proves (Q job) {l | l ∈ T.takes job} P (T.program job) ∧
    ∀ u u', R.always u → (∀ l ∈ T.takes job, R.inv l u) → T.start job u u' →
      R.may {l | l ∈ T.takes job} u u' ∧ P u'
  result : ∀ job x, R.Stable ∅ (Q job x)
  env : ∀ u u', T.env u u' → R.may ∅ u u'

/-- A thread is where its outline says, with the locks that the outline names. -/
structure At (R : Rules κ σ) (Q : β → γ → σ → Prop) (s : State ι κ σ β γ) (i : ι) (job : β)
    (m : Cmd κ σ γ) (H : Set κ) (P : σ → Prop) : Prop where
  proves : R.Proves (Q job) H P m
  holds : P s.obj
  locks : ∀ l, s.holder l = some i ↔ l ∈ H

structure Sound (R : Rules κ σ) (Q : β → γ → σ → Prop) (s : State ι κ σ β γ) : Prop where
  always : R.always s.obj
  threads : ∀ i job m, s.thread i = some (job, m) → ∃ H P, At R Q s i job m H P
  idle : ∀ i, s.thread i = none → ∀ l, s.holder l ≠ some i
  free : ∀ l, s.holder l = none → R.inv l s.obj

theorem sound_init (halways : R.always u₀) (hinv : ∀ l, R.inv l u₀) :
    Sound R Q (init u₀ : State ι κ σ β γ) where
  always := halways
  threads _ _ _ h := nomatch h
  idle _ _ _ h := nomatch h
  free l _ := hinv l

/-- Locks that `i` holds, gives or takes: the other threads hold what they held. -/
theorem update_holder [DecidableEq κ] {holder : κ → Option ι} {i j : ι} {l l' : κ} {o : Option ι} (hj : j ≠ i)
    (hl : holder l = some i ∨ holder l = none) (ho : o = some i ∨ o = none) :
    Function.update holder l o l' = some j ↔ holder l' = some j := by
  by_cases hl' : l' = l
  · subst hl'
    rw [Function.update_self]
    have hne : ∀ o : Option ι, o = some i ∨ o = none → o ≠ some j := by
      rintro o (rfl | rfl) hoj
      · exact hj (Option.some.inj hoj).symm
      · cases hoj
    exact ⟨fun h => absurd h (hne o ho), fun h => absurd h (hne _ hl)⟩
  · rw [Function.update_of_ne hl']

theorem Sound.env (hT : Correct T R Q) (h : Sound R Q s) {u : σ} (hu : T.env s.obj u) :
    Sound R Q ⟨u, s.holder, s.thread⟩ := by
  have hmay := hT.env _ _ hu
  refine ⟨R.always_may hmay h.always, fun j job m hj => ?_, h.idle, fun l hl => ?_⟩
  · obtain ⟨H, P, hat⟩ := h.threads j job m hj
    exact ⟨H, P, hat.proves, hat.proves.stable ∅ _ _ (Set.empty_disjoint H) hmay h.always hat.holds,
      hat.locks⟩
  · exact R.inv_may (Set.notMem_empty _) hmay h.always (h.free l hl)

variable [DecidableEq ι]

/-- The thread `i` moves, and meanwhile the object changes as it may under the locks `H`. -/
theorem Sound.move (h : Sound R Q s) {i : ι} {H : Set κ} (hmay : R.may H s.obj s'.obj)
    (hH : ∀ l ∈ H, s.holder l = some i ∨ s.holder l = none)
    (hthread : ∀ j ≠ i, s'.thread j = s.thread j)
    (hholder : ∀ j ≠ i, ∀ l, s'.holder l = some j ↔ s.holder l = some j)
    (hi : ∀ job m, s'.thread i = some (job, m) → ∃ H P, At R Q s' i job m H P)
    (hidle : s'.thread i = none → ∀ l, s'.holder l ≠ some i)
    (hfree : ∀ l, s'.holder l = none → R.inv l s'.obj) : Sound R Q s' where
  always := R.always_may hmay h.always
  threads := by
    intro j job m hj
    by_cases hji : j = i
    · subst hji
      exact hi job m hj
    · rw [hthread j hji] at hj
      obtain ⟨H', P, hat⟩ := h.threads j job m hj
      have hdisj : Disjoint H H' := by
        rw [Set.disjoint_left]
        intro l hl hl'
        have hlj := (hat.locks l).mpr hl'
        rcases hH l hl with hli | hnone
        · exact hji (Option.some.inj (hlj.symm.trans hli))
        · rw [hnone] at hlj
          cases hlj
      refine ⟨H', P, hat.proves, hat.proves.stable H _ _ hdisj hmay h.always hat.holds, fun l => ?_⟩
      rw [hholder j hji]
      exact hat.locks l
  idle := by
    intro j hj l
    by_cases hji : j = i
    · subst hji
      exact hidle hj l
    · rw [hthread j hji] at hj
      rw [Ne, hholder j hji]
      exact h.idle j hj l
  free := hfree

theorem Sound.act (h : Sound R Q s) {i : ι} {job : β} {ν : Type} {access : σ → ν → σ → Prop}
    {next : ν → Cmd κ σ γ} {v : ν} {u : σ} (hi : s.thread i = some (job, .act access next))
    (hu : access s.obj v u) :
    Sound R Q ⟨u, s.holder, Function.update s.thread i (some (job, next v))⟩ := by
  obtain ⟨H, P, hat⟩ := h.threads i job _ hi
  cases hat.proves with
  | unreachable hno => exact absurd hat.holds (hno _ h.always)
  | @act _ _ _ W _ _ hP hW hnext =>
  obtain ⟨hmay, hPv⟩ := hW _ _ _ h.always hat.holds hu
  refine h.move (i := i) hmay (fun l hl => .inl ((hat.locks l).mpr hl))
    (fun j hj => Function.update_of_ne hj ..) (fun _ _ _ => Iff.rfl) (fun job' m hm => ?_)
    (fun hm => ?_) fun l hl => ?_
  · dsimp only at hm
    rw [Function.update_self] at hm
    cases hm
    exact ⟨H, W v, hnext v, hPv, hat.locks⟩
  · dsimp only at hm
    rw [Function.update_self] at hm
    cases hm
  · refine R.inv_may (fun hmem => ?_) hmay h.always (h.free l hl)
    have hheld := (hat.locks l).mpr hmem
    rw [show s.holder l = none from hl] at hheld
    cases hheld

theorem Sound.done (h : Sound R Q s) {i : ι} {job : β} {x : γ} (hi : s.thread i = some (job, .ret x)) :
    Sound R Q ⟨s.obj, s.holder, Function.update s.thread i none⟩ := by
  obtain ⟨H, P, hat⟩ := h.threads i job _ hi
  cases hat.proves with
  | unreachable hno => exact absurd hat.holds (hno _ h.always)
  | ret hP hQ =>
  refine h.move (i := i) (H := ∅) (R.may_refl _ _) (fun _ hl => absurd hl (Set.notMem_empty _))
    (fun j hj => Function.update_of_ne hj ..) (fun _ _ _ => Iff.rfl) (fun job' m hm => ?_)
    (fun _ l hl => ?_) h.free
  · dsimp only at hm
    rw [Function.update_self] at hm
    cases hm
  · exact absurd ((hat.locks l).mp hl) (Set.notMem_empty _)

variable [DecidableEq κ]

theorem Sound.call (hT : Correct T R Q) (h : Sound R Q s) {i : ι} {job : β} {u : σ} (hi : s.thread i = none)
    (hfree : ∀ l ∈ T.takes job, s.holder l = none) (hu : T.start job s.obj u) :
    Sound R Q ⟨u, fun l => if l ∈ T.takes job then some i else s.holder l,
      Function.update s.thread i (some (job, T.program job))⟩ := by
  obtain ⟨P, hproves, hstart⟩ := hT.program job
  obtain ⟨hmay, hP⟩ := hstart _ _ h.always (fun l hl => h.free l (hfree l hl)) hu
  refine h.move (i := i) hmay (fun l hl => .inr (hfree l hl)) (fun j hj => Function.update_of_ne hj ..)
    (fun j hj l => ?_) (fun job' m hm => ?_) (fun hm => ?_) fun l hl => ?_
  · dsimp only
    split_ifs with hmem
    · refine ⟨fun he => absurd (Option.some.inj he).symm hj, fun he => ?_⟩
      rw [hfree l hmem] at he
      cases he
    · exact Iff.rfl
  · dsimp only at hm
    rw [Function.update_self] at hm
    cases hm
    refine ⟨_, P, hproves, hP, fun l => ?_⟩
    dsimp only
    split_ifs with hmem
    · exact ⟨fun _ => hmem, fun _ => rfl⟩
    · exact ⟨fun he => absurd he (h.idle i hi l), fun he => absurd he hmem⟩
  · dsimp only at hm
    rw [Function.update_self] at hm
    cases hm
  · dsimp only at hl ⊢
    split_ifs at hl with hmem
    exact R.inv_may hmem hmay h.always (h.free l hl)

theorem Sound.acquire (h : Sound R Q s) {i : ι} {job : β} {l : κ} {next : Cmd κ σ γ}
    (hi : s.thread i = some (job, .acquire l next)) (hl : s.holder l = none) :
    Sound R Q ⟨s.obj, Function.update s.holder l (some i), Function.update s.thread i (some (job, next))⟩ := by
  obtain ⟨H, P, hat⟩ := h.threads i job _ hi
  cases hat.proves with
  | unreachable hno => exact absurd hat.holds (hno _ h.always)
  | @acquire _ _ W _ _ hnot hP hW hnext =>
  refine h.move (i := i) (H := ∅) (R.may_refl _ _) (fun _ hl => absurd hl (Set.notMem_empty _))
    (fun j hj => Function.update_of_ne hj ..)
    (fun j hj l' => update_holder hj (.inr hl) (.inl rfl)) (fun job' m hm => ?_) (fun hm => ?_)
    fun l' hl' => ?_
  · dsimp only at hm
    rw [Function.update_self] at hm
    cases hm
    refine ⟨_, W, hnext, hW _ h.always hat.holds (h.free l hl), fun l' => ?_⟩
    dsimp only
    by_cases hll : l' = l
    · subst hll
      simp
    · rw [Function.update_of_ne hll, hat.locks, Set.mem_insert_iff]
      exact ⟨.inr, fun h => h.resolve_left hll⟩
  · dsimp only at hm
    rw [Function.update_self] at hm
    cases hm
  · dsimp only at hl' ⊢
    by_cases hll : l' = l
    · subst hll
      rw [Function.update_self] at hl'
      cases hl'
    · rw [Function.update_of_ne hll] at hl'
      exact h.free l' hl'

theorem Sound.release (h : Sound R Q s) {i : ι} {job : β} {l : κ} {next : Cmd κ σ γ}
    (hi : s.thread i = some (job, .release l next)) :
    Sound R Q ⟨s.obj, Function.update s.holder l none, Function.update s.thread i (some (job, next))⟩ := by
  obtain ⟨H, P, hat⟩ := h.threads i job _ hi
  cases hat.proves with
  | unreachable hno => exact absurd hat.holds (hno _ h.always)
  | @release _ _ W _ _ hmem hP hW hnext =>
  have hheld : s.holder l = some i := (hat.locks l).mpr hmem
  obtain ⟨hinv, hW⟩ := hW _ h.always hat.holds
  refine h.move (i := i) (H := ∅) (R.may_refl _ _) (fun _ hl => absurd hl (Set.notMem_empty _))
    (fun j hj => Function.update_of_ne hj ..)
    (fun j hj l' => update_holder hj (.inl hheld) (.inr rfl)) (fun job' m hm => ?_) (fun hm => ?_)
    fun l' hl' => ?_
  · dsimp only at hm
    rw [Function.update_self] at hm
    cases hm
    refine ⟨_, W, hnext, hW, fun l' => ?_⟩
    dsimp only
    by_cases hll : l' = l
    · subst hll
      simp
    · rw [Function.update_of_ne hll, hat.locks]
      exact ⟨fun h => ⟨h, hll⟩, fun h => h.1⟩
  · dsimp only at hm
    rw [Function.update_self] at hm
    cases hm
  · dsimp only at hl' ⊢
    by_cases hll : l' = l
    · subst hll
      exact hinv
    · rw [Function.update_of_ne hll] at hl'
      exact h.free l' hl'

theorem Sound.step (hT : Correct T R Q) (h : Sound R Q s) (hstep : Step T s l s') : Sound R Q s' := by
  cases hstep with
  | call hi hfree hu => exact h.call hT hi hfree hu
  | acquire hi hl => exact h.acquire hi hl
  | release hi => exact h.release hi
  | act hi hu => exact h.act hi hu
  | done hi => exact h.done hi
  | env hu => exact h.env hT hu

/-- What a step may do: something under the locks of one thread, or nothing. -/
theorem Sound.may (hT : Correct T R Q) (h : Sound R Q s) (hstep : Step T s l s') :
    ∃ H, R.may H s.obj s'.obj := by
  cases hstep with
  | @call i job u hi hfree hu =>
      obtain ⟨P, -, hstart⟩ := hT.program job
      exact ⟨_, (hstart _ _ h.always (fun l hl => h.free l (hfree l hl)) hu).1⟩
  | acquire | release | done => exact ⟨∅, R.may_refl _ _⟩
  | @act i job ν access next v u hi hu =>
      obtain ⟨H, P, hat⟩ := h.threads i job _ hi
      cases hat.proves with
      | act hP hW hnext => exact ⟨H, (hW _ _ _ h.always hat.holds hu).1⟩
      | unreachable hno => exact absurd hat.holds (hno _ h.always)
  | env hu => exact ⟨∅, hT.env _ _ hu⟩

/-- The results of the calls that have returned. -/
def Results (Q : β → γ → σ → Prop) (ls : List (Label ι β γ)) (u : σ) : Prop :=
  ∀ i job x, .done i job x ∈ ls → Q job x u

/-- In every run every thread is where its outline says, and what was true when a call returned is
still true. -/
theorem sound (hT : Correct T R Q) (halways : R.always u₀) (hinv : ∀ l, R.inv l u₀)
    (hrun : Run (Step T) (init u₀) ls s) : Sound R Q s ∧ Results Q ls s.obj := by
  refine hrun.history (I := fun ls s => Sound R Q s ∧ Results Q ls s.obj)
    ⟨sound_init halways hinv, fun _ _ _ h => absurd h List.not_mem_nil⟩ ?_
  rintro ls s l s' ⟨h, hres⟩ hstep
  refine ⟨h.step hT hstep, fun i job x hmem => ?_⟩
  obtain ⟨H, hmay⟩ := h.may hT hstep
  rcases List.mem_append.mp hmem with hold | hnew
  · exact hT.result job x H _ _ (Set.disjoint_empty H) hmay h.always (hres i job x hold)
  · rw [List.mem_singleton] at hnew
    subst hnew
    cases hstep with
    | done hi =>
        obtain ⟨H, P, hat⟩ := h.threads i job _ hi
        cases hat.proves with
        | ret hP hQ => exact hQ _ h.always hat.holds
        | unreachable hno => exact absurd hat.holds (hno _ h.always)

end Threads

end HyveMind.Lib
