import HyveMind.Lib.Serial

/-! # Spin locks

`arch/x64/spinlock.c`.  The contexts `ι` (CPUs, or the threads and interrupt handlers on them) call
functions that take one lock, work under it and release it again; the steps of different contexts
interleave in any way.  What is done under the lock is a parameter (`Work`).

`mutual_exclusion` is the safety of the lock.  `serializable` says what it is there for: the object is
always as if the calls had been made one after the other, in the order in which they got the lock. -/

namespace HyveMind

namespace SpinLock

open Lib

/-- `SPINLOCK_FREE` -/
def spinlockFree : BitVec 8 := 0

/-- `SPINLOCK_USED` -/
def spinlockUsed : BitVec 8 := 1

/-- `lock cmpxchg`: the zero flag, the accumulator and the destination afterwards. -/
def lockCmpxchg (accumulator dest src : BitVec 8) : Bool × BitVec 8 × BitVec 8 :=
  if accumulator = dest then (true, accumulator, src) else (false, dest, dest)

/-- `lock xchg`: the register and the destination afterwards. -/
def lockXchg (dest reg : BitVec 8) : BitVec 8 × BitVec 8 := (dest, reg)

/-- `atomic_acquire`: the result and the flag afterwards. -/
def atomicAcquire (flag : BitVec 8) : Bool × BitVec 8 :=
  let queriedState := spinlockFree
  let (res, _, flag) := lockCmpxchg queriedState flag spinlockUsed
  (res, flag)

/-- `atomic_release`: the flag afterwards. -/
def atomicRelease (flag : BitVec 8) : BitVec 8 :=
  let release := spinlockFree
  (lockXchg flag release).2

@[simp] theorem atomicAcquire_free : atomicAcquire spinlockFree = (true, spinlockUsed) := by decide

@[simp] theorem atomicAcquire_used : atomicAcquire spinlockUsed = (false, spinlockUsed) := by decide

@[simp] theorem atomicRelease_eq (flag : BitVec 8) : atomicRelease flag = spinlockFree := rfl

/-! ### The contexts -/

variable {ι α β κ : Type*}

/-- Where a context is in a call. -/
inductive Place (β κ : Type*)
  | outside
  /-- In the loop of `arch_spinlock_acquire`. -/
  | acquire (job : β)
  | inside (k : κ)

structure State (ι α β κ : Type*) where
  flag : BitVec 8
  obj : α
  place : ι → Place β κ

inductive Label (ι β : Type*)
  | call (i : ι) (job : β)
  /-- A round of the loop, with the result of `atomic_acquire`. -/
  | acquire (i : ι) (job : β) (res : Bool)
  | work (i : ι)
  | release (i : ι)
  /-- A change of the object by itself. -/
  | env

/-- `DEFINE_SPINLOCK`, and no context in a call. -/
def boot (a₀ : α) : State ι α β κ := ⟨spinlockFree, a₀, fun _ => .outside⟩

/-- The call that a context waits with. -/
def Place.waiting : Place β κ → List β
  | .acquire job => [job]
  | _ => []

/-- Who gets the lock, and for which call. -/
def acquired (ls : List (Label ι β)) : List (ι × β) := ls.filterMap fun
  | .acquire i job true => some (i, job)
  | _ => none

theorem acquired_append (ls ls' : List (Label ι β)) :
    acquired (ls ++ ls') = acquired ls ++ acquired ls' := List.filterMap_append ..

/-! ### The owner -/

/-- Nobody is inside and the lock is free, or `i` is inside, alone, and it is taken. -/
inductive Owner (s : State ι α β κ) : Option (ι × κ) → Prop
  | free (hflag : s.flag = spinlockFree) (hout : ∀ i k, s.place i ≠ .inside k) : Owner s none
  | used {i : ι} {k : κ} (hflag : s.flag = spinlockUsed) (hi : s.place i = .inside k)
      (hout : ∀ j k', s.place j = .inside k' → j = i) : Owner s (some (i, k))

/-- What a step does to the owner, the object and the history. -/
inductive Moves (W : Work α β κ) : Option (ι × κ) → α → Label ι β → Option (ι × κ) → α → Prop
  | stay {o : Option (ι × κ)} {a : α} {l : Label ι β} (hl : acquired [l] = []) : Moves W o a l o a
  | enter {i : ι} {job : β} {a : α} {l : Label ι β} (hl : acquired [l] = [(i, job)]) :
      Moves W none a l (some (i, W.start job)) a
  | work {i : ι} {k k' : κ} {a a' : α} {l : Label ι β} (hl : acquired [l] = [])
      (hk : W.step k a k' a') : Moves W (some (i, k)) a l (some (i, k')) a'
  | leave {i : ι} {k : κ} {a : α} {l : Label ι β} (hl : acquired [l] = []) (hk : W.done k) :
      Moves W (some (i, k)) a l none a
  | env {o : Option (ι × κ)} {a a' : α} {l : Label ι β} (hl : acquired [l] = []) (ha : W.env a a') :
      Moves W o a l o a'

/-- The object, with the calls that got the lock so far: all of them are complete, except that the last
one may still be under way. -/
inductive Served (W : Work α β κ) (a₀ : α) : List (ι × β) → Option (ι × κ) → α → Prop
  | free {log : List (ι × β)} {a : α} (h : Serial W a₀ (log.map Prod.snd) a) : Served W a₀ log none a
  | used {log : List (ι × β)} {i : ι} {job : β} {k : κ} {a a' : α}
      (h : Serial W a₀ (log.map Prod.snd) a) (hexec : Exec W (W.start job) a k a') :
      Served W a₀ (log ++ [(i, job)]) (some (i, k)) a'

variable {W : Work α β κ} {s s' : State ι α β κ} {l : Label ι β} {ls : List (Label ι β)} {a a' a₀ : α}
  {i j : ι} {k : κ} {o o' : Option (ι × κ)}

theorem owner_boot (a₀ : α) : Owner (boot a₀ : State ι α β κ) none :=
  Owner.free rfl fun _ _ h => nomatch h

theorem Owner.eq_some (h : Owner s o) (hi : s.place i = .inside k) : o = some (i, k) := by
  cases h with
  | free _ hout => exact absurd hi (hout i k)
  | used _ hj hout =>
      obtain rfl := hout i k hi
      rw [hj, Place.inside.injEq] at hi
      rw [hi]

theorem Served.moves {log : List (ι × β)} (h : Served W a₀ log o a) (hm : Moves W o a l o' a') :
    Served W a₀ (log ++ acquired [l]) o' a' := by
  cases hm with
  | stay hl => rwa [hl, List.append_nil]
  | enter hl =>
      rw [hl]
      cases h with
      | free h => exact Served.used h Exec.refl
  | work hl hk =>
      rw [hl, List.append_nil]
      cases h with
      | used h hexec => exact Served.used h (hexec.step hk)
  | leave hl hk =>
      rw [hl, List.append_nil]
      cases h with
      | @used log i job k a a' h hexec =>
          refine Served.free ?_
          rw [List.map_append, List.map_cons, List.map_nil]
          exact h.job hexec hk
  | env hl ha =>
      rw [hl, List.append_nil]
      cases h with
      | free h => exact Served.free (h.env ha)
      | used h hexec => exact Served.used h (hexec.env ha)

theorem Served.complete {log : List (ι × β)} (h : Served W a₀ log none a) :
    Serial W a₀ (log.map Prod.snd) a := by
  cases h with
  | free h => exact h

theorem Served.under_way {log : List (ι × β)} (h : Served W a₀ log (some (i, k)) a') :
    ∃ log' job a, log = log' ++ [(i, job)] ∧ Serial W a₀ (log'.map Prod.snd) a ∧
      Exec W (W.start job) a k a' := by
  cases h with
  | used h hexec => exact ⟨_, _, _, rfl, h, hexec⟩

/-! ### The steps -/

section Steps

variable [DecidableEq ι]

def State.move (s : State ι α β κ) (i : ι) (p : Place β κ) : State ι α β κ :=
  { s with place := Function.update s.place i p }

@[simp] theorem State.place_move (s : State ι α β κ) (i : ι) (p : Place β κ) :
    (s.move i p).place = Function.update s.place i p := rfl

inductive Step (W : Work α β κ) : State ι α β κ → Label ι β → State ι α β κ → Prop
  | call {s : State ι α β κ} {i : ι} {job : β} (hi : s.place i = .outside) :
      Step W s (.call i job) (s.move i (.acquire job))
  | acquire {s : State ι α β κ} {i : ι} {job : β} (hi : s.place i = .acquire job) :
      Step W s (.acquire i job (atomicAcquire s.flag).1)
        { s with
          flag := (atomicAcquire s.flag).2
          place := Function.update s.place i
            (if (atomicAcquire s.flag).1 then .inside (W.start job) else .acquire job) }
  | work {s : State ι α β κ} {i : ι} {k k' : κ} {a' : α} (hi : s.place i = .inside k)
      (hk : W.step k s.obj k' a') :
      Step W s (.work i) { s with obj := a', place := Function.update s.place i (.inside k') }
  | release {s : State ι α β κ} {i : ι} {k : κ} (hi : s.place i = .inside k) (hk : W.done k) :
      Step W s (.release i)
        { s with flag := atomicRelease s.flag, place := Function.update s.place i .outside }
  | env {s : State ι α β κ} {a' : α} (ha : W.env s.obj a') : Step W s .env { s with obj := a' }

/-- The calls of a context. -/
def calls (i : ι) (ls : List (Label ι β)) : List β := ls.filterMap fun
  | .call j job => if j = i then some job else none
  | _ => none

theorem calls_append (i : ι) (ls ls' : List (Label ι β)) : calls i (ls ++ ls') = calls i ls ++ calls i ls' :=
  List.filterMap_append ..

theorem update_inside {p : Place β κ} (hp : ∀ k, p ≠ .inside k) {f : ι → Place β κ}
    (h : Function.update f i p j = .inside k) : j ≠ i ∧ f j = .inside k := by
  by_cases hj : j = i
  · subst hj
    rw [Function.update_self] at h
    exact absurd h (hp k)
  · rw [Function.update_of_ne hj] at h
    exact ⟨hj, h⟩

/-- A context that is not inside can be moved to another place outside. -/
theorem Owner.moveOut {p : Place β κ} (h : Owner s o) (hi : ∀ k, s.place i ≠ .inside k)
    (hp : ∀ k, p ≠ .inside k) : Owner (s.move i p) o := by
  cases h with
  | free hflag hout => exact Owner.free hflag fun j k hj => hout j k (update_inside hp hj).2
  | @used i' k' hflag hi' hout =>
      have hne : i' ≠ i := fun he => hi k' (he ▸ hi')
      refine Owner.used hflag ?_ fun j k hj => hout j k (update_inside hp hj).2
      exact (Function.update_of_ne hne ..).trans hi'

theorem Owner.step (h : Owner s o) (hstep : Step W s l s') :
    ∃ o', Owner s' o' ∧ Moves W o s.obj l o' s'.obj := by
  cases hstep with
  | @call i job hi =>
      refine ⟨o, h.moveOut (fun k hk => ?_) (fun k hk => nomatch hk), Moves.stay rfl⟩
      rw [hi] at hk
      cases hk
  | @acquire i job hi =>
      cases h with
      | free hflag hout =>
          rw [hflag, atomicAcquire_free]
          refine ⟨some (i, W.start job), Owner.used rfl (Function.update_self ..) ?_, Moves.enter rfl⟩
          intro j k' hj
          by_contra hne
          simp only [Function.update_of_ne hne] at hj
          exact hout j k' hj
      | @used i' k' hflag hi' hout =>
          rw [hflag, atomicAcquire_used]
          refine ⟨some (i', k'), ?_, Moves.stay rfl⟩
          have hmove := (Owner.used hflag hi' hout).moveOut (i := i) (p := .acquire job)
            (fun k hk => by rw [hi] at hk; cases hk) (fun k hk => nomatch hk)
          rwa [State.move, hflag] at hmove
  | @work i k k' a' hi hk =>
      have ho := h.eq_some hi
      subst ho
      cases h with
      | used hflag _ hout =>
          refine ⟨some (i, k'), Owner.used hflag (Function.update_self ..) ?_, Moves.work rfl hk⟩
          intro j k'' hj
          by_contra hne
          simp only [Function.update_of_ne hne] at hj
          exact hne (hout j k'' hj)
  | @release i k hi hk =>
      have ho := h.eq_some hi
      subst ho
      cases h with
      | used hflag _ hout =>
          refine ⟨none, Owner.free rfl fun j k' hj => ?_, Moves.leave rfl hk⟩
          have hj := update_inside (by simp) hj
          exact hj.1 (hout j k' hj.2)
  | @env a' ha =>
      refine ⟨o, ?_, Moves.env rfl ha⟩
      cases h with
      | free hflag hout => exact Owner.free hflag hout
      | used hflag hi hout => exact Owner.used hflag hi hout

theorem owner_run (h : Run (Step W) (boot a₀) ls s) : ∃ o, Owner s o := by
  refine h.invariant (I := fun s => ∃ o, Owner s o) ?_ ⟨none, owner_boot a₀⟩
  rintro s l s' ⟨o, ho⟩ hstep
  obtain ⟨o', ho', _⟩ := ho.step hstep
  exact ⟨o', ho'⟩

/-- At any time at most one context is between `arch_spinlock_acquire` and `arch_spinlock_release`, the
flag is `SPINLOCK_USED` exactly while there is one, and a round of the loop gets the lock exactly if
there is none. -/
theorem mutual_exclusion (h : Run (Step W) (boot a₀) ls s) :
    (∀ i j k k', s.place i = .inside k → s.place j = .inside k' → i = j) ∧
      (s.flag = spinlockUsed ↔ ∃ i k, s.place i = .inside k) ∧
      ((atomicAcquire s.flag).1 = true ↔ ∀ i k, s.place i ≠ .inside k) := by
  obtain ⟨o, ho⟩ := owner_run h
  refine ⟨fun i j k k' hi hj => ?_, ?_⟩
  · have hij := (ho.eq_some hi).symm.trans (ho.eq_some hj)
    exact congrArg Prod.fst (Option.some.inj hij)
  · cases ho with
    | free hflag hout =>
        rw [hflag, atomicAcquire_free]
        exact ⟨⟨fun h => absurd h (by decide), fun ⟨i, k, hi⟩ => absurd hi (hout i k)⟩,
          fun _ => hout, fun _ => rfl⟩
    | @used i k hflag hi hout =>
        rw [hflag, atomicAcquire_used]
        exact ⟨⟨fun _ => ⟨i, k, hi⟩, fun _ => rfl⟩, fun h => (Bool.false_ne_true h).elim,
          fun h => absurd hi (h i k)⟩

/-- A counter: every call adds one. -/
def counter : Work ℕ Unit Bool where
  start _ := false
  step k n k' n' := k = false ∧ k' = true ∧ n' = n + 1
  done k := k = true
  env _ _ := False

theorem contended_run : ∃ (ls : List (Label (Fin 2) Unit)) (s : State (Fin 2) ℕ Unit Bool),
    Run (Step counter) (boot 0) ls s ∧ s.place 0 = .inside true ∧ s.place 1 = .acquire () ∧ calls 1 ls = [()] := by
  have h := (Run.nil (boot 0 : State (Fin 2) ℕ Unit Bool)).snoc (@Step.call _ _ _ _ _ counter _ 0 () rfl)
  have h := h.snoc (Step.acquire (i := 0) rfl)
  have h := h.snoc (@Step.call _ _ _ _ _ _ _ 1 () rfl)
  have h := h.snoc (Step.acquire (i := 1) rfl)
  have h := h.snoc (Step.work (i := 0) rfl ⟨rfl, rfl, rfl⟩)
  exact ⟨_, _, h, rfl, rfl, rfl⟩

theorem mutual_exclusion_contended : ∃ s : State (Fin 2) ℕ Unit Bool, s.place 1 = .acquire () ∧
    (∀ i j k k', s.place i = .inside k → s.place j = .inside k' → i = j) ∧
      (s.flag = spinlockUsed ↔ ∃ i k, s.place i = .inside k) ∧
      ((atomicAcquire s.flag).1 = true ↔ ∀ i k, s.place i ≠ .inside k) := by
  obtain ⟨ls, s, h, _, hwaits, _⟩ := contended_run
  exact ⟨s, hwaits, mutual_exclusion h⟩

/-! ### One after the other -/

theorem served_run (h : Run (Step W) (boot a₀) ls s) :
    ∃ o, Owner s o ∧ Served W a₀ (acquired ls) o s.obj := by
  refine h.history (I := fun ls s => ∃ o, Owner s o ∧ Served W a₀ (acquired ls) o s.obj)
    ⟨none, owner_boot a₀, Served.free Serial.nil⟩ ?_
  rintro ls s l s' ⟨o, ho, hserved⟩ hstep
  obtain ⟨o', ho', hm⟩ := ho.step hstep
  refine ⟨o', ho', ?_⟩
  rw [acquired_append]
  exact hserved.moves hm

/-- A context gets the lock for its calls in the order in which it makes them, once for each. -/
theorem program_order (h : Run (Step W) (boot a₀) ls s) (i : ι) :
    ((acquired ls).filter (·.1 = i)).map Prod.snd ++ (s.place i).waiting = calls i ls := by
  refine h.history (I := fun ls s =>
    ((acquired ls).filter (·.1 = i)).map Prod.snd ++ (s.place i).waiting = calls i ls) rfl ?_
  intro ls s l s' ih hstep
  rw [acquired_append, calls_append, ← ih, List.filter_append, List.map_append, List.append_assoc,
    List.append_assoc, List.append_cancel_left_eq]
  have hself : ∀ (j : ι) (p : Place β κ), j ≠ i → Function.update s.place j p i = s.place i :=
    fun j p hj => Function.update_of_ne (Ne.symm hj) ..
  cases hstep with
  | @call j job hj =>
      by_cases hji : j = i
      · subst hji
        simp [acquired, calls, State.move, hj, Place.waiting]
      · simp [acquired, calls, State.move, hji, hself]
  | @acquire j job hj =>
      by_cases hji : j = i
      · subst hji
        cases hres : (atomicAcquire s.flag).1 <;> simp [acquired, calls, hj, Place.waiting]
      · cases hres : (atomicAcquire s.flag).1 <;> simp [acquired, calls, hji, hself]
  | @work j k k' a' hj hk =>
      by_cases hji : j = i
      · subst hji
        simp [acquired, calls, hj, Place.waiting]
      · simp [acquired, calls, hji, hself]
  | @release j k hj hk =>
      by_cases hji : j = i
      · subst hji
        simp [acquired, calls, hj, Place.waiting]
      · simp [acquired, calls, hji, hself]
  | env ha => simp [acquired, calls]

/-- Whatever the contexts do under the lock, and in whichever way their steps interleave: the object is
as if the calls had been made one after the other, in the order in which they got the lock; if the lock
is taken, the last of these calls is the holder's and has come to where the holder is. -/
theorem serializable (h : Run (Step W) (boot a₀) ls s) :
    (s.flag = spinlockFree → Serial W a₀ ((acquired ls).map Prod.snd) s.obj) ∧
      (∀ i k, s.place i = .inside k → ∃ log job a, acquired ls = log ++ [(i, job)] ∧
        Serial W a₀ (log.map Prod.snd) a ∧ Exec W (W.start job) a k s.obj) ∧
      ∀ i, ((acquired ls).filter (·.1 = i)).map Prod.snd ++ (s.place i).waiting = calls i ls := by
  obtain ⟨o, ho, hserved⟩ := served_run h
  refine ⟨fun hfree => ?_, fun i k hi => ?_, program_order h⟩
  · cases ho with
    | free => exact hserved.complete
    | used hflag =>
        rw [hflag] at hfree
        exact absurd hfree (by decide)
  · rw [ho.eq_some hi] at hserved
    exact hserved.under_way

theorem serializable_contended : ∃ (ls : List (Label (Fin 2) Unit)) (s : State (Fin 2) ℕ Unit Bool),
    s.place 0 = .inside true ∧
    (∃ log job a, acquired ls = log ++ [(0, job)] ∧ Serial counter 0 (log.map Prod.snd) a ∧
      Exec counter (counter.start job) a true s.obj) ∧
    ((acquired ls).filter (·.1 = 1)).map Prod.snd ++ [()] = [()] := by
  obtain ⟨ls, s, h, hinside, hwaits, hcalls⟩ := contended_run
  obtain ⟨_, hused, horder⟩ := serializable h
  refine ⟨ls, s, hinside, hused 0 true hinside, ?_⟩
  have horder := horder 1
  rwa [hwaits, hcalls] at horder

end Steps

end SpinLock

end HyveMind
