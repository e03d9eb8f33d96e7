import HyveMind.SpinLock

/-! # Spin locks and interrupts

Every CPU runs a thread and, while `RFLAGS.IF` is set, can be interrupted by a handler, which runs with
`IF` clear until it returns.  Both take the lock, either with `spinlock_acquire` or with
`spinlock_acquire_irq_save`, which saves the flags and clears `IF` first; `spinlock_release_irq_restore`
puts the saved flags back after the release.

`self_deadlock_iff` says for which use of a lock a handler can come to wait for the thread that it has
interrupted, `deadlocked_forever` that the lock is then lost, and `holder_runs` that with the other
uses the holder of the lock can always go on. -/

namespace HyveMind

namespace SpinLock

open Lib

inductive Level
  | thread
  | handler
deriving DecidableEq, Repr

/-- How a lock is used: which calls save the interrupt flag, and which are made where. -/
structure Usage (β : Type*) where
  irqSave : β → Bool
  jobs : Level → Set β

variable {ι α β κ : Type*}

structure IrqState (ι α β κ : Type*) where
  lock : State (ι × Level) α β κ
  ifFlag : ι → Bool
  inHandler : ι → Bool
  /-- The variable `flags` of the caller, from the call until it is restored. -/
  flags : ι × Level → Option Bool

inductive IrqLabel (ι β : Type*)
  | lock (l : Label (ι × Level) β)
  | restore (c : ι × Level)
  | interrupt (i : ι)
  | iret (i : ι)

/-- The context that makes a step. -/
def Label.context : Label ι β → Option ι
  | .call i _ | .acquire i _ _ | .work i | .release i => some i
  | .env => none

def Label.isCall : Label ι β → Bool
  | .call _ _ => true
  | _ => false

def Level.isHandler : Level → Bool
  | .thread => false
  | .handler => true

/-- The context is the one that its CPU executes. -/
def IrqState.Active (s : IrqState ι α β κ) (c : ι × Level) : Prop := s.inHandler c.1 = c.2.isHandler

/-- No CPU is in a call or in a handler, and interrupts are on. -/
def irqBoot (a₀ : α) : IrqState ι α β κ := ⟨boot a₀, fun _ => true, fun _ => false, fun _ => none⟩

variable {s s' : IrqState ι α β κ} {i : ι}

/-- The CPU that makes a step. -/
def IrqLabel.cpu : IrqLabel ι β → Option ι
  | .lock l => l.context.map Prod.fst
  | .restore c => some c.1
  | .interrupt i | .iret i => some i

/-- CPU `i` is as it was. -/
structure SameAt (s s' : IrqState ι α β κ) (i : ι) : Prop where
  place : ∀ lv, s'.lock.place (i, lv) = s.lock.place (i, lv)
  flags : ∀ lv, s'.flags (i, lv) = s.flags (i, lv)
  ifFlag : s'.ifFlag i = s.ifFlag i
  inHandler : s'.inHandler i = s.inHandler i

theorem context_ne {o : Option (ι × Level)} (h : o.map Prod.fst ≠ some i) (lv : Level) :
    o ≠ some (i, lv) := by
  rintro rfl
  exact h rfl

/-- The thread of CPU `i` is not interrupted while it uses the lock. -/
structure Shielded (s : IrqState ι α β κ) (i : ι) : Prop where
  idle : s.inHandler i = false →
    s.lock.place (i, .handler) = .outside ∧ s.flags (i, .handler) = none
  saved : s.lock.place (i, .thread) ≠ .outside → ∃ f, s.flags (i, .thread) = some f
  off : ∀ f, s.flags (i, .thread) = some f → s.ifFlag i = false ∧ s.inHandler i = false

theorem Shielded.same (h : Shielded s i) (hsame : SameAt s s' i) : Shielded s' i := by
  constructor
  · rw [hsame.inHandler, hsame.place, hsame.flags]
    exact h.idle
  · rw [hsame.place, hsame.flags]
    exact h.saved
  · intro f
    rw [hsame.flags, hsame.ifFlag, hsame.inHandler]
    exact h.off f

/-- While its thread waits or is inside, a CPU is not in the handler. -/
theorem Shielded.inHandler (h : Shielded s i) (hi : s.lock.place (i, .thread) ≠ .outside) :
    s.inHandler i = false := by
  obtain ⟨f, hf⟩ := h.saved hi
  exact (h.off f hf).2

variable [DecidableEq ι]

/-- `disable_irq_save_status` -/
def IrqState.disableIrqSaveStatus (s : IrqState ι α β κ) (c : ι × Level) : IrqState ι α β κ :=
  { s with
    flags := Function.update s.flags c (some (s.ifFlag c.1))
    ifFlag := Function.update s.ifFlag c.1 false }

inductive IrqStep (W : Work α β κ) (U : Usage β) :
    IrqState ι α β κ → IrqLabel ι β → IrqState ι α β κ → Prop
  /-- `spinlock_acquire`, or `spinlock_acquire_irq_save`. -/
  | call {s : IrqState ι α β κ} {c : ι × Level} {job : β} {t : State (ι × Level) α β κ}
      (hactive : s.Active c) (hjob : job ∈ U.jobs c.2) (hflags : s.flags c = none)
      (h : Step W s.lock (.call c job) t) :
      IrqStep W U s (.lock (.call c job))
        { (if U.irqSave job then s.disableIrqSaveStatus c else s) with lock := t }
  | lock {s : IrqState ι α β κ} {l : Label (ι × Level) β} {t : State (ι × Level) α β κ}
      (hactive : ∀ c, l.context = some c → s.Active c) (hl : l.isCall = false)
      (h : Step W s.lock l t) : IrqStep W U s (.lock l) { s with lock := t }
  /-- `restore_irq_status` -/
  | restore {s : IrqState ι α β κ} {c : ι × Level} {f : Bool} (hactive : s.Active c)
      (hout : s.lock.place c = .outside) (hflags : s.flags c = some f) :
      IrqStep W U s (.restore c)
        { s with flags := Function.update s.flags c none, ifFlag := Function.update s.ifFlag c.1 f }
  | interrupt {s : IrqState ι α β κ} {i : ι} (hif : s.ifFlag i = true) (hi : s.inHandler i = false) :
      IrqStep W U s (.interrupt i)
        { s with
          inHandler := Function.update s.inHandler i true
          ifFlag := Function.update s.ifFlag i false }
  /-- The flags of the interrupted thread come back. -/
  | iret {s : IrqState ι α β κ} {i : ι} (hi : s.inHandler i = true)
      (hout : s.lock.place (i, .handler) = .outside) (hflags : s.flags (i, .handler) = none) :
      IrqStep W U s (.iret i)
        { s with
          inHandler := Function.update s.inHandler i false
          ifFlag := Function.update s.ifFlag i true }

variable {W : Work α β κ} {U : Usage β} {t t' : State ι α β κ} {a₀ : α} {l : IrqLabel ι β}
  {ls ls' : List (IrqLabel ι β)} {lb : Label ι β} {c : ι} {k : κ} {job : β}

/-! ### What a step changes -/

theorem Step.place_of_ne (h : Step W t lb t') (hc : lb.context ≠ some c) : t'.place c = t.place c := by
  cases h with
  | call hi => exact Function.update_of_ne (fun (h : c = _) => hc (congrArg some h.symm)) ..
  | acquire hi => exact Function.update_of_ne (fun (h : c = _) => hc (congrArg some h.symm)) ..
  | work hi hk => exact Function.update_of_ne (fun (h : c = _) => hc (congrArg some h.symm)) ..
  | release hi hk => exact Function.update_of_ne (fun (h : c = _) => hc (congrArg some h.symm)) ..
  | env => rfl

theorem Step.place_ne_outside (h : Step W t lb t') (hc : lb.context = some c)
    (hcall : lb.isCall = false) : t.place c ≠ .outside := by
  cases h with
  | call => cases hcall
  | acquire hi | work hi | release hi =>
      obtain rfl := Option.some.inj hc
      rw [hi]
      exact fun h => nomatch h
  | env => cases hc

/-- The steps on the lock. -/
def lockLabels (ls : List (IrqLabel ι β)) : List (Label (ι × Level) β) := ls.filterMap fun
  | .lock l => some l
  | _ => none

theorem lock_run (h : Run (IrqStep W U) s ls s') : Run (Step W) s.lock (lockLabels ls) s'.lock := by
  refine h.history (I := fun ls t => Run (Step W) s.lock (lockLabels ls) t.lock) (Run.nil _) ?_
  intro ls t l t' hrun hstep
  rw [lockLabels, List.filterMap_append]
  cases hstep with
  | call _ _ _ h => exact hrun.snoc h
  | lock _ _ h => exact hrun.snoc h
  | restore | interrupt | iret =>
      rw [List.filterMap_cons_none rfl, List.filterMap_nil, List.append_nil]
      exact hrun

theorem IrqStep.same (h : IrqStep W U s l s') (hl : l.cpu ≠ some i) : SameAt s s' i := by
  cases h with
  | @call c job t hactive hjob hflags h =>
      have hi : i ≠ c.1 := fun he => hl (congrArg some he.symm)
      have hc : ∀ lv, (i, lv) ≠ c := fun lv he => hi (congrArg Prod.fst he)
      refine ⟨fun lv => h.place_of_ne (fun he => hc lv (Option.some.inj he).symm), fun lv => ?_, ?_, ?_⟩
      · dsimp only
        split
        · exact Function.update_of_ne (hc lv) ..
        · rfl
      · dsimp only
        split
        · exact Function.update_of_ne hi ..
        · rfl
      · dsimp only
        split <;> rfl
  | lock _ _ h => exact ⟨fun lv => h.place_of_ne (context_ne hl lv), fun _ => rfl, rfl, rfl⟩
  | @restore c f =>
      have hi : i ≠ c.1 := fun he => hl (congrArg some he.symm)
      exact ⟨fun _ => rfl, fun lv => Function.update_of_ne (fun he => hi (congrArg Prod.fst he)) ..,
        Function.update_of_ne hi .., rfl⟩
  | @interrupt j =>
      have hi : i ≠ j := fun he => hl (congrArg some he.symm)
      exact ⟨fun _ => rfl, fun _ => rfl, Function.update_of_ne hi .., Function.update_of_ne hi ..⟩
  | @iret j =>
      have hi : i ≠ j := fun he => hl (congrArg some he.symm)
      exact ⟨fun _ => rfl, fun _ => rfl, Function.update_of_ne hi .., Function.update_of_ne hi ..⟩

/-! ### With the interrupts off -/

theorem Shielded.step (h : Shielded s i) (hsave : ∀ job ∈ U.jobs .thread, U.irqSave job = true)
    (hstep : IrqStep W U s l s') : Shielded s' i := by
  by_cases hl : l.cpu = some i
  · cases hstep with
    | @call c job t hactive hjob hflags hbase =>
        obtain ⟨j, lv⟩ := c
        obtain rfl : j = i := Option.some.inj hl
        cases lv with
        | thread =>
            have hin : s.inHandler j = false := hactive
            have hhandler : t.place (j, .handler) = s.lock.place (j, .handler) :=
              hbase.place_of_ne (by simp [Label.context])
            rw [if_pos (hsave job hjob)]
            refine ⟨fun _ => ?_, fun _ => ⟨_, Function.update_self ..⟩, fun _ _ => ⟨?_, hin⟩⟩
            · rw [hhandler]
              refine ⟨(h.idle hin).1, ?_⟩
              exact (Function.update_of_ne (by simp) ..).trans (h.idle hin).2
            · exact Function.update_self ..
        | handler =>
            have hin : s.inHandler j = true := hactive
            have hthread : t.place (j, .thread) = s.lock.place (j, .thread) :=
              hbase.place_of_ne (by simp [Label.context])
            have hout : s.lock.place (j, .thread) = .outside := by
              by_contra hne
              rw [h.inHandler hne] at hin
              cases hin
            have hnone : ∀ f, s.flags (j, .thread) ≠ some f := by
              intro f hf
              rw [(h.off f hf).2] at hin
              cases hin
            split
            · refine ⟨fun hfalse => ?_, fun hne => absurd (hthread.trans hout) hne, fun f hf => ?_⟩
              · exact absurd (hin.symm.trans hfalse) (by simp)
              · exact absurd ((Function.update_of_ne (by simp) ..).symm.trans hf) (hnone f)
            · exact ⟨fun hfalse => absurd (hin.symm.trans hfalse) (by simp),
                fun hne => absurd (hthread.trans hout) hne, fun f hf => absurd hf (hnone f)⟩
    | @lock lb t hactive hcall hbase =>
        obtain ⟨⟨j, lv⟩, hc, hj⟩ := Option.map_eq_some_iff.mp (show lb.context.map Prod.fst = some i from hl)
        obtain rfl : j = i := hj
        have hin := hactive _ hc
        cases lv with
        | thread =>
            have hhandler : t.place (j, .handler) = s.lock.place (j, .handler) :=
              hbase.place_of_ne (by rw [hc]; simp)
            refine ⟨fun _ => ?_, fun _ => h.saved (hbase.place_ne_outside hc hcall), h.off⟩
            rw [hhandler]
            exact h.idle hin
        | handler =>
            have hthread : t.place (j, .thread) = s.lock.place (j, .thread) :=
              hbase.place_of_ne (by rw [hc]; simp)
            refine ⟨fun hfalse => absurd (hin.symm.trans hfalse) (by simp [Level.isHandler]), ?_, h.off⟩
            rw [hthread]
            exact h.saved
    | @restore c f hactive hout hflags =>
        obtain ⟨j, lv⟩ := c
        obtain rfl : j = i := Option.some.inj hl
        cases lv with
        | thread =>
            refine ⟨fun hin => ⟨(h.idle hin).1, ?_⟩, fun hne => absurd hout hne, fun f' hf => ?_⟩
            · exact (Function.update_of_ne (by simp) ..).trans (h.idle hin).2
            · exact absurd ((Function.update_self ..).symm.trans hf) (by simp)
        | handler =>
            have hin : s.inHandler j = true := hactive
            have hflags' : ∀ v, Function.update s.flags (j, .handler) v (j, .thread) = s.flags (j, .thread) :=
              fun v => Function.update_of_ne (by simp) ..
            refine ⟨fun hfalse => absurd (hin.symm.trans hfalse) (by simp), fun hne => ?_, fun f' hf => ?_⟩
            · obtain ⟨f', hf⟩ := h.saved hne
              exact ⟨f', (hflags' none).trans hf⟩
            · exact absurd (hin.symm.trans (h.off f' ((hflags' none).symm.trans hf)).2) (by simp)
    | @interrupt j hif hi =>
        obtain rfl : j = i := Option.some.inj hl
        refine ⟨fun hfalse => ?_, h.saved, fun f hf => ?_⟩
        · exact absurd ((Function.update_self ..).symm.trans hfalse) (by simp)
        · exact absurd (hif.symm.trans (h.off f hf).1) (by simp)
    | @iret j hi hout hflags =>
        obtain rfl : j = i := Option.some.inj hl
        refine ⟨fun _ => ⟨hout, hflags⟩, h.saved, fun f hf => ?_⟩
        exact absurd (hi.symm.trans (h.off f hf).2) (by simp)
  · exact h.same (hstep.same hl)

/-- If every thread saves the interrupt flag, the CPU of the holder executes the holder: it is never in a
handler on top of it. -/
theorem holder_runs (hsave : ∀ job ∈ U.jobs .thread, U.irqSave job = true)
    (h : Run (IrqStep W U) (irqBoot a₀) ls s) {c : ι × Level} (hc : s.lock.place c = .inside k) :
    s.Active c := by
  have hshield : ∀ i, Shielded s i := by
    intro i
    refine h.invariant (I := fun s => Shielded s i) (fun s l s' hs hstep => hs.step hsave hstep) ?_
    exact ⟨fun _ => ⟨rfl, rfl⟩, fun hne => absurd rfl hne, fun f hf => nomatch hf⟩
  obtain ⟨i, lv⟩ := c
  cases lv with
  | thread => exact (hshield i).inHandler (by rw [hc]; simp)
  | handler =>
      by_contra hne
      have hidle := ((hshield i).idle (Bool.eq_false_iff.mpr hne)).1
      rw [hc] at hidle
      cases hidle

/-! ### With the interrupts on -/

/-- The handler of CPU `i` waits for the lock, which the thread under it has. -/
structure Deadlocked (s : IrqState ι α β κ) (i : ι) (k : κ) : Prop where
  inHandler : s.inHandler i = true
  inside : s.lock.place (i, .thread) = .inside k
  waits : ∃ job, s.lock.place (i, .handler) = .acquire job

/-- While the lock is taken nobody gets it, and who waits goes on waiting. -/
theorem Step.taken (h : Step W t lb t') (hflag : t.flag = spinlockUsed) :
    acquired [lb] = [] ∧ ∀ c job, t.place c = .acquire job → t'.place c = .acquire job := by
  refine ⟨?_, fun c job hc => ?_⟩
  · cases h with
    | acquire hi =>
        rw [hflag, atomicAcquire_used]
        rfl
    | call | work | release | env => rfl
  · by_cases hctx : lb.context = some c
    · cases h with
      | call hi | work hi | release hi =>
          obtain rfl := Option.some.inj hctx
          rw [hi] at hc
          cases hc
      | acquire hi =>
          obtain rfl := Option.some.inj hctx
          rw [hi] at hc
          rw [hflag, atomicAcquire_used]
          exact (Function.update_self ..).trans hc
      | env => cases hctx
    · rw [h.place_of_ne hctx]
      exact hc

/-- A step on the lock, made by another context than the two that are deadlocked or by the waiting one. -/
theorem Deadlocked.lock {t : State (ι × Level) α β κ} {lb : Label (ι × Level) β} (h : Deadlocked s i k)
    (howner : Owner s.lock (some ((i, .thread), k))) (hl : lb.context ≠ some (i, .thread))
    (hstep : Step W s.lock lb t) :
    t.place (i, .thread) = .inside k ∧ (∃ job, t.place (i, .handler) = .acquire job) ∧
      Owner t (some ((i, .thread), k)) ∧ acquired [lb] = [] := by
  have hflag : s.lock.flag = spinlockUsed := by
    cases howner with
    | used hflag => exact hflag
  have hinside : t.place (i, .thread) = .inside k := (hstep.place_of_ne hl).trans h.inside
  obtain ⟨job, hjob⟩ := h.waits
  obtain ⟨hnone, hwaits⟩ := hstep.taken hflag
  obtain ⟨o, ho, _⟩ := howner.step hstep
  rw [ho.eq_some hinside] at ho
  exact ⟨hinside, ⟨job, hwaits _ _ hjob⟩, ho, hnone⟩

theorem Deadlocked.step (h : Deadlocked s i k) (howner : Owner s.lock (some ((i, .thread), k)))
    (hstep : IrqStep W U s l s') :
    Deadlocked s' i k ∧ Owner s'.lock (some ((i, .thread), k)) ∧ acquired (lockLabels [l]) = [] := by
  have hnot : ¬ s.Active (i, .thread) := fun ha => by
    have ha : s.inHandler i = false := ha
    rw [h.inHandler] at ha
    cases ha
  cases hstep with
  | @call c job t hactive hjob hflags hbase =>
      have hne : (Label.call c job).context ≠ some (i, .thread) := by
        intro he
        obtain rfl := Option.some.inj he
        exact hnot hactive
      obtain ⟨hinside, hwaits, ho, hnone⟩ := h.lock howner hne hbase
      refine ⟨⟨?_, hinside, hwaits⟩, ho, hnone⟩
      dsimp only
      split <;> exact h.inHandler
  | lock hactive _ hbase =>
      obtain ⟨hinside, hwaits, ho, hnone⟩ := h.lock howner (fun he => hnot (hactive _ he)) hbase
      exact ⟨⟨h.inHandler, hinside, hwaits⟩, ho, hnone⟩
  | restore => exact ⟨⟨h.inHandler, h.inside, h.waits⟩, howner, rfl⟩
  | @interrupt j hif hj =>
      have hij : i ≠ j := by
        rintro rfl
        rw [h.inHandler] at hj
        cases hj
      exact ⟨⟨(Function.update_of_ne hij ..).trans h.inHandler, h.inside, h.waits⟩, howner, rfl⟩
  | @iret j hj hout =>
      have hij : i ≠ j := by
        rintro rfl
        obtain ⟨job, hjob⟩ := h.waits
        rw [hjob] at hout
        cases hout
      exact ⟨⟨(Function.update_of_ne hij ..).trans h.inHandler, h.inside, h.waits⟩, howner, rfl⟩

/-- A lock on which a CPU waits for itself is lost: the CPU waits for ever, and nobody gets the lock any
more. -/
theorem deadlocked_forever (h : Run (IrqStep W U) (irqBoot a₀) ls s) (hs : Deadlocked s i k)
    (h' : Run (IrqStep W U) s ls' s') :
    Deadlocked s' i k ∧ s'.lock.flag = spinlockUsed ∧ acquired (lockLabels ls') = [] := by
  obtain ⟨o, howner⟩ := owner_run (lock_run h)
  rw [howner.eq_some hs.inside] at howner
  have hinv := h'.history (I := fun ls s => Deadlocked s i k ∧ Owner s.lock (some ((i, .thread), k)) ∧
    acquired (lockLabels ls) = []) ⟨hs, howner, rfl⟩ ?_
  · obtain ⟨hd, ho, hnone⟩ := hinv
    refine ⟨hd, ?_, hnone⟩
    cases ho with
    | used hflag => exact hflag
  · rintro ls s l s' ⟨hd, ho, hnone⟩ hstep
    obtain ⟨hd', ho', hnone'⟩ := hd.step ho hstep
    refine ⟨hd', ho', ?_⟩
    rw [lockLabels, List.filterMap_append, acquired_append]
    change acquired (lockLabels ls) ++ acquired (lockLabels [l]) = []
    rw [hnone, hnone']
    rfl

/-! ### Which locks -/

theorem Step.waiting (h : Step W t lb t') (hc : t'.place c = .acquire job) :
    t.place c = .acquire job ∨ lb = .call c job := by
  by_cases hctx : lb.context = some c
  · cases h with
    | call hi =>
        obtain rfl := Option.some.inj hctx
        rw [State.place_move, Function.update_self, Place.acquire.injEq] at hc
        exact .inr (by rw [hc])
    | acquire hi =>
        obtain rfl := Option.some.inj hctx
        have hc := (Function.update_self ..).symm.trans hc
        split at hc
        · cases hc
        · exact .inl (hi.trans hc)
    | work hi | release hi =>
        obtain rfl := Option.some.inj hctx
        have hc := (Function.update_self ..).symm.trans hc
        cases hc
    | env => cases hctx
  · rw [h.place_of_ne hctx] at hc
    exact .inl hc

/-- Who waits or is inside has made one of the calls that are made there. -/
theorem waiting_mem (h : Run (IrqStep W U) (irqBoot a₀) ls s) {c : ι × Level} {job : β}
    (hc : s.lock.place c = .acquire job) : job ∈ U.jobs c.2 := by
  refine h.invariant (I := fun s => ∀ c job, s.lock.place c = .acquire job → job ∈ U.jobs c.2) ?_ ?_ c job hc
  · intro s l s' hs hstep d job hd
    cases hstep with
    | call hactive hjob hflags hbase =>
        rcases hbase.waiting hd with hbefore | hcall
        · exact hs d job hbefore
        · obtain ⟨rfl, rfl⟩ := Label.call.inj hcall
          exact hjob
    | lock hactive hcall hbase =>
        rcases hbase.waiting hd with hbefore | rfl
        · exact hs d job hbefore
        · cases hcall
    | restore | interrupt | iret => exact hs d job hd
  · intro c job hc
    cases hc

/-- A thread with the interrupts on takes the lock, is interrupted, and the handler wants it too. -/
theorem deadlock_run {job job' : β} (hjob : job ∈ U.jobs .thread) (hsave : U.irqSave job = false)
    (hjob' : job' ∈ U.jobs .handler) (W : Work α β κ) (a₀ : α) (i : ι) :
    ∃ ls s, Run (IrqStep W U) (irqBoot a₀) ls s ∧ Deadlocked s i (W.start job) := by
  let t₁ := (boot a₀ : State (ι × Level) α β κ).move (i, .thread) (.acquire job)
  let s₀ : IrqState ι α β κ := irqBoot a₀
  have hcall : IrqStep W U s₀ (.lock (.call (i, .thread) job)) { s₀ with lock := t₁ } := by
    have hstep : IrqStep W U s₀ (.lock (.call (i, .thread) job)) _ := .call rfl hjob rfl (.call rfl)
    rwa [hsave, if_neg Bool.false_ne_true] at hstep
  let t₂ : State (ι × Level) α β κ := ⟨spinlockUsed, a₀, Function.update t₁.place (i, .thread) (.inside (W.start job))⟩
  have hacquire : IrqStep W U { s₀ with lock := t₁ } (.lock (.acquire (i, .thread) job true))
      { s₀ with lock := t₂ } := by
    refine .lock (fun c hc => ?_) rfl (Step.acquire (Function.update_self ..))
    obtain rfl := Option.some.inj hc
    rfl
  let s₃ : IrqState ι α β κ := { s₀ with
    lock := t₂
    inHandler := Function.update (fun _ => false) i true
    ifFlag := Function.update (fun _ => true) i false }
  have hinterrupt : IrqStep W U { s₀ with lock := t₂ } (.interrupt i) s₃ := .interrupt rfl rfl
  have hout : t₂.place (i, .handler) = .outside := by
    simp [t₂, t₁, State.move, boot]
  have hin : s₃.inHandler i = true := by simp only [s₃, Function.update_self]
  have hcall' : IrqStep W U s₃ (.lock (.call (i, .handler) job')) _ := .call hin hjob' rfl (.call hout)
  refine ⟨_, _, ((((Run.nil _).snoc hcall).snoc hacquire).snoc hinterrupt).snoc hcall', ?_, ?_, job', ?_⟩
  · dsimp only
    split <;> exact hin
  · exact (Function.update_of_ne (by simp) ..).trans (Function.update_self ..)
  · exact Function.update_self ..

/-- A run in which a CPU comes to wait for itself exists exactly if some thread takes the lock without
saving the interrupt flag and some handler takes it at all.  The CPU then waits for ever, and nobody gets
the lock any more. -/
theorem self_deadlock_iff [Nonempty ι] (W : Work α β κ) (U : Usage β) (a₀ : α) :
    ((∃ ls s, ∃ (i : ι) (k : κ), Run (IrqStep W U) (irqBoot a₀) ls s ∧ Deadlocked s i k) ↔
      (∃ job ∈ U.jobs .thread, U.irqSave job = false) ∧ (U.jobs .handler).Nonempty) ∧
    ∀ ls s ls' s', ∀ (i : ι) (k : κ), Run (IrqStep W U) (irqBoot a₀) ls s → Deadlocked s i k →
      Run (IrqStep W U) s ls' s' → Deadlocked s' i k ∧ acquired (lockLabels ls') = [] := by
  refine ⟨⟨?_, ?_⟩, fun ls s ls' s' i k hrun hd hrun' => ?_⟩
  · rintro ⟨ls, s, i, k, hrun, hd⟩
    constructor
    · by_contra hall
      push Not at hall
      have hactive := holder_runs (fun job hjob => Bool.eq_true_of_not_eq_false (hall job hjob)) hrun hd.inside
      have hactive : s.inHandler i = false := hactive
      rw [hd.inHandler] at hactive
      cases hactive
    · obtain ⟨job, hjob⟩ := hd.waits
      exact ⟨job, waiting_mem hrun hjob⟩
  · rintro ⟨⟨job, hjob, hsave⟩, job', hjob'⟩
    obtain ⟨ls, s, hrun, hd⟩ := deadlock_run hjob hsave hjob' W a₀ (Classical.arbitrary ι)
    exact ⟨ls, s, _, _, hrun, hd⟩
  · obtain ⟨hd', _, hnone⟩ := deadlocked_forever hrun hd hrun'
    exact ⟨hd', hnone⟩

/-- `global_print_lock`: the handlers print as well, and `__printf` never saves the flag. -/
theorem self_deadlock_print :
    ∃ ls s, ∃ (i : Fin 2) (k : Bool),
      Run (IrqStep counter ⟨fun _ => false, fun _ => Set.univ⟩) (irqBoot 0) ls s ∧ Deadlocked s i k :=
  (self_deadlock_iff counter ⟨fun _ => false, fun _ => Set.univ⟩ 0).1.mpr ⟨⟨(), trivial, rfl⟩, (), trivial⟩

end SpinLock

end HyveMind
