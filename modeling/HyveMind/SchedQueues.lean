import HyveMind.Sched

/-! # Who holds a scheduling unit

Every unit has one place: it is free, in one list of one task queue, or with the CPU whose round
has picked it.  As long as the places of the units agree with the lists and with the CPUs
(`Placed`), no unit is held twice.

Taking a unit out of a queue and putting it back keep that.  The branch of `__schedule` for an empty
queue does not take its unit from anywhere: it keeps it only if the idle task is free.  Once a CPU
has fallen back on the idle task, the task stays with that CPU or in its queue (`IdleHome`), so the
places agree up to the second time that some CPU falls back. -/

namespace HyveMind.Sched

open Lib ListHead

/-! ### Places -/

inductive Place
  | free
  | queue (k : Queue) (c : Cpuid)
  | cpu (c : Cpuid)
deriving DecidableEq

/-- The contents of all lists. -/
abbrev Contents := Queue → Cpuid → List SchedUnit

/-- The lists hold `q`, which is what `place` says. -/
structure Queues (l : Links Node) (q : Contents) (place : SchedUnit → Place) : Prop where
  ring : ∀ k c, Ring l (.head k c) ((q k c).map .unit)
  mem : ∀ k c u, u ∈ q k c ↔ place u = .queue k c

/-- `q` with another content of one list. -/
def setList (q : Contents) (k : Queue) (c : Cpuid) (xs : List SchedUnit) : Contents :=
  Function.update q k (Function.update (q k) c xs)

theorem setList_self (q : Contents) (k : Queue) (c : Cpuid) (xs : List SchedUnit) :
    setList q k c xs k c = xs := by
  simp [setList]

theorem setList_of_ne (q : Contents) {k k' : Queue} {c c' : Cpuid} (xs : List SchedUnit)
    (h : (k', c') ≠ (k, c)) : setList q k c xs k' c' = q k' c' := by
  unfold setList
  by_cases hk : k' = k
  · subst hk
    have hc : c' ≠ c := fun hc => h (by rw [hc])
    simp [hc]
  · simp [hk]

variable {l l' : Links Node} {q : Contents} {place : SchedUnit → Place} {k k' : Queue} {c c' : Cpuid}
  {u : SchedUnit} {xs : List SchedUnit}

theorem Queues.disjoint (h : Queues l q place) (hne : (k', c') ≠ (k, c)) {x : Node}
    (hx : x ∈ .head k' c' :: (q k' c').map Node.unit) :
    x ∉ .head k c :: (q k c).map Node.unit := by
  intro hx'
  rcases List.mem_cons.mp hx with rfl | hx
  · rcases List.mem_cons.mp hx' with hx' | hx'
    · cases hx'
      exact hne rfl
    · obtain ⟨u, -, hu⟩ := List.mem_map.mp hx'
      cases hu
  · obtain ⟨u, hu, rfl⟩ := List.mem_map.mp hx
    rcases List.mem_cons.mp hx' with hx' | hx'
    · cases hx'
    · obtain ⟨v, hv, hvu⟩ := List.mem_map.mp hx'
      cases hvu
      have hplace := ((h.mem k' c' u).mp hu).symm.trans ((h.mem k c u).mp hv)
      cases hplace
      exact hne rfl

/-- The lists after one of them and the place of one unit have changed. -/
theorem Queues.set (h : Queues l q place) (hring : Ring l' (.head k c) (xs.map .unit))
    (hag : ∀ x ∉ .head k c :: .unit u :: (q k c).map Node.unit,
      l'.next x = l.next x ∧ l'.prev x = l.prev x)
    {p : Place} (hxs : ∀ v, v ∈ xs ↔ Function.update place u p v = .queue k c)
    (hp : ∀ k' c', p = .queue k' c' → (k', c') = (k, c))
    (hu : ∀ k' c', place u = .queue k' c' → (k', c') = (k, c)) :
    Queues l' (setList q k c xs) (Function.update place u p) := by
  constructor
  · intro k' c'
    by_cases hne : (k', c') = (k, c)
    · cases hne
      rwa [setList_self]
    · rw [setList_of_ne q xs hne]
      apply (h.ring k' c').congr
      intro x hx
      apply hag
      have hout := h.disjoint hne hx
      rw [List.mem_cons, not_or] at hout ⊢
      refine ⟨hout.1, ?_⟩
      rw [List.mem_cons, not_or]
      refine ⟨?_, hout.2⟩
      rintro rfl
      rcases List.mem_cons.mp hx with hx | hx
      · cases hx
      · obtain ⟨v, hv, hvu⟩ := List.mem_map.mp hx
        cases hvu
        exact hne (hu k' c' ((h.mem k' c' u).mp hv))
  · intro k' c' v
    by_cases hne : (k', c') = (k, c)
    · cases hne
      rw [setList_self]
      exact hxs v
    · rw [setList_of_ne q xs hne, h.mem k' c' v]
      by_cases hv : v = u
      · subst hv
        rw [Function.update_self]
        exact ⟨fun hq => absurd (hu k' c' hq) hne, fun hq => absurd (hp k' c' hq) hne⟩
      · rw [Function.update_of_ne hv]

theorem Queues.add (h : Queues l q place) (hu : ∀ k c, place u ≠ .queue k c) (k : Queue)
    (c : Cpuid) : ∃ l', listAddTail l (.head k c) (.unit u) = some l' ∧
      Queues l' (setList q k c (q k c ++ [u])) (Function.update place u (.queue k c)) := by
  have hout : Node.unit u ∉ .head k c :: (q k c).map Node.unit := by
    intro hmem
    rcases List.mem_cons.mp hmem with hmem | hmem
    · cases hmem
    · obtain ⟨v, hv, hvu⟩ := List.mem_map.mp hmem
      cases hvu
      exact hu k c ((h.mem k c u).mp hv)
  obtain ⟨l', hcall, hring, hag⟩ := listAddTail_spec (h.ring k c) hout
  refine ⟨l', hcall, h.set ?_ ?_ ?_ ?_ ?_⟩
  · rwa [List.map_append]
  · intro x hx
    apply hag
    intro hmem
    exact hx ((List.Perm.swap _ _ _).mem_iff.mp hmem)
  · intro v
    rw [List.mem_append, List.mem_singleton, h.mem k c v]
    by_cases hv : v = u
    · simp [hv]
    · rw [Function.update_of_ne hv]
      simp [hv]
  · intro k' c' hp
    cases hp
    rfl
  · exact fun k' c' hq => absurd hq (hu k' c')

/-- `tq_submit_task` puts the unit into the list for its state, or leaves it out. -/
theorem Queues.submit (h : Queues l q place) (hu : ∀ k c, place u ≠ .queue k c) (c : Cpuid)
    (state : TaskSchedState) : ∃ l' q' p, tqSubmitTask l c u state = some l' ∧
      Queues l' q' (Function.update place u p) ∧ (p = .free ∨ ∃ k, p = .queue k c) ∧
      (p = .queue .runnableTasks c ↔ state = .runnable ∨ state = .running) ∧
      ∀ k' c', q' k' c' = q k' c' ∨ q' k' c' = q k' c' ++ [u] ∧ p = .queue k' c' := by
  have hput : ∀ k, ∃ l', listAddTail l (.head k c) (.unit u) = some l' ∧
      Queues l' (setList q k c (q k c ++ [u])) (Function.update place u (.queue k c)) ∧
      ∀ k' c', setList q k c (q k c ++ [u]) k' c' = q k' c' ∨
        setList q k c (q k c ++ [u]) k' c' = q k' c' ++ [u] ∧ Place.queue k c = .queue k' c' := by
    intro k
    obtain ⟨l', hcall, hq⟩ := h.add hu k c
    refine ⟨l', hcall, hq, fun k' c' => ?_⟩
    by_cases hne : (k', c') = (k, c)
    · cases hne
      exact .inr ⟨setList_self .., rfl⟩
    · exact .inl (setList_of_ne _ _ hne)
  have hleave : Queues l q (Function.update place u .free) := by
    refine ⟨h.ring, fun k c v => ?_⟩
    rw [h.mem k c v]
    by_cases hv : v = u
    · subst hv
      simp [hu k c]
    · rw [Function.update_of_ne hv]
  cases state with
  | running =>
      obtain ⟨l', hcall, hq, hcontents⟩ := hput .runnableTasks
      exact ⟨l', _, _, hcall, hq, .inr ⟨_, rfl⟩, by simp, hcontents⟩
  | runnable =>
      obtain ⟨l', hcall, hq, hcontents⟩ := hput .runnableTasks
      exact ⟨l', _, _, hcall, hq, .inr ⟨_, rfl⟩, by simp, hcontents⟩
  | blocked =>
      obtain ⟨l', hcall, hq, hcontents⟩ := hput .blockedTasks
      exact ⟨l', _, _, hcall, hq, .inr ⟨_, rfl⟩, by simp, hcontents⟩
  | notSchedulable =>
      exact ⟨l, q, .free, rfl, hleave, .inl rfl, by simp, fun _ _ => .inl rfl⟩
  | killed =>
      exact ⟨l, q, .free, rfl, hleave, .inl rfl, by simp, fun _ _ => .inl rfl⟩

theorem Queues.getNextTask_nil (h : Queues l q place) (hq : q .runnableTasks c = []) :
    tqGetNextTask l c = some (l, none) := by
  have hring := h.ring .runnableTasks c
  rw [hq] at hring
  simp [tqGetNextTask, listFirstEntryNullable_eq hring]

theorem Queues.getNextTask_cons (h : Queues l q place) (hq : q .runnableTasks c = u :: xs) :
    ∃ l', tqGetNextTask l c = some (l', some u) ∧
      Queues l' (setList q .runnableTasks c xs) (Function.update place u (.cpu c)) := by
  have hring := h.ring .runnableTasks c
  rw [hq, List.map_cons] at hring
  obtain ⟨l', hcall, hring', -, hag⟩ := listRemoveHead_spec hring
  have hnodup : (u :: xs).Nodup := by
    have := (h.ring .runnableTasks c).nodup
    rw [hq] at this
    exact this.of_map
  refine ⟨l', ?_, h.set hring' ?_ ?_ ?_ ?_⟩
  · simp [tqGetNextTask, listFirstEntryNullable_eq hring, hcall, Node.schedUnit]
  · intro x hx
    apply hag
    rw [hq, List.map_cons] at hx
    intro hmem
    apply hx
    rcases List.mem_cons.mp hmem with rfl | hmem
    · exact List.mem_cons_self ..
    · exact List.mem_cons_of_mem _ (List.mem_cons_of_mem _ hmem)
  · intro v
    by_cases hv : v = u
    · subst hv
      simp [(List.nodup_cons.mp hnodup).1]
    · rw [Function.update_of_ne hv, ← h.mem .runnableTasks c v, hq]
      simp [hv]
  · intro k' c' hp
    cases hp
  · intro k' c' hplace
    have hmem : u ∈ q .runnableTasks c := by rw [hq]; exact List.mem_cons_self ..
    have hplace' := hplace.symm.trans ((h.mem .runnableTasks c u).mp hmem)
    cases hplace'
    rfl

/-! ### Units with a CPU -/

/-- Every unit is where its place says.  `home` is the CPU that has fallen back on the idle task. -/
structure Placed (s : Sys) (q : Contents) (place : SchedUnit → Place) (home : Option Cpuid) :
    Prop where
  queues : Queues s.links q place
  task : ∀ c u, (s.pc c).task = some u ↔ place u = .cpu c
  fresh : ∀ n, s.submitted ≤ n → place (.vcpu n) = .free
  current : ∀ c u, s.pc c = .launched u → s.current c = some u
  idleState : s.taskState .idleTask = .runnable ∨ s.taskState .idleTask = .running
  idleFree : home = none → place .idleTask = .free
  /-- From its first round on the idle task stays with one CPU, which then never finds its queue
  empty again. -/
  idleHome : ∀ c, home = some c → place .idleTask = .cpu c ∨
    place .idleTask = .queue .runnableTasks c ∧ s.pc c ≠ .picked none

variable {s s' : Sys} {home : Option Cpuid} {lb : Label}

theorem placed_init : Placed init (fun _ _ => []) (fun _ => .free) none := by
  constructor
  · refine ⟨fun k c => ?_, by simp⟩
    rw [List.map_nil, ring_nil_iff]
    simp [init]
  · simp [init, Pc.task]
  · simp
  · simp [init]
  · simp [init]
  · simp
  · simp

theorem setPc_pc (s : Sys) (c c' : Cpuid) (pc : Pc) :
    (s.setPc c pc).pc c' = if c' = c then pc else s.pc c' :=
  Function.update_apply ..

theorem Placed.quiet (h : Placed s q place home) (hlinks : s'.links = s.links)
    (hsub : s'.submitted = s.submitted) (htask : ∀ c, (s'.pc c).task = (s.pc c).task)
    (hnone : ∀ c, s'.pc c = .picked none → s.pc c = .picked none)
    (hcur : ∀ c u, s'.pc c = .launched u → s'.current c = some u)
    (hidle : s'.taskState .idleTask = .runnable ∨ s'.taskState .idleTask = .running) :
    Placed s' q place home := by
  constructor
  · rw [hlinks]
    exact h.queues
  · intro c u
    rw [htask]
    exact h.task c u
  · rw [hsub]
    exact h.fresh
  · exact hcur
  · exact hidle
  · exact h.idleFree
  · intro c hc
    rcases h.idleHome c hc with hcpu | ⟨hq, hpc⟩
    · exact .inl hcpu
    · exact .inr ⟨hq, fun hp => hpc (hnone c hp)⟩

/-- A step of CPU `c` that moves no unit and neither starts nor changes a task. -/
theorem Placed.quietPc (h : Placed s q place home) {pc : Pc} (hs : s' = { s with
      lock := s'.lock, cpuState := s'.cpuState, kick := s'.kick, bsp := s'.bsp }.setPc c pc)
    (htask : pc.task = (s.pc c).task) (hnone : pc ≠ .picked none) (hlaunch : ∀ u, pc ≠ .launched u) :
    Placed s' q place home := by
  have hpc : ∀ c', s'.pc c' = if c' = c then pc else s.pc c' := by
    intro c'
    rw [hs, setPc_pc]
  refine h.quiet ?_ ?_ ?_ ?_ ?_ ?_
  · rw [hs]; rfl
  · rw [hs]; rfl
  · intro c'
    rw [hpc]
    split
    · rename_i hc
      rw [hc, htask]
    · rfl
  · intro c'
    rw [hpc]
    split
    · exact fun hp => absurd hp hnone
    · exact id
  · intro c' u
    have hcur : s'.current = s.current := by rw [hs]; rfl
    rw [hpc, hcur]
    split
    · exact fun hp => absurd hp (hlaunch u)
    · exact h.current c' u
  · have hstate : s'.taskState = s.taskState := by rw [hs]; rfl
    rw [hstate]
    exact h.idleState

theorem Placed.not_queued (h : Placed s q place home) (hu : (s.pc c).task = some u) (k : Queue)
    (c' : Cpuid) : place u ≠ .queue k c' := by
  rw [(h.task c u).mp hu]
  exact fun hp => by cases hp

theorem Placed.task_take (h : Placed s q place home) {pc : Pc} (hpc : (s.pc c).task = none)
    (htask : pc.task = some u) (hu : ∀ c', place u ≠ .cpu c') (c' : Cpuid) (v : SchedUnit) :
    ((s.setPc c pc).pc c').task = some v ↔ Function.update place u (.cpu c) v = .cpu c' := by
  rw [setPc_pc]
  by_cases hv : v = u
  · subst hv
    rw [Function.update_self, Place.cpu.injEq]
    split
    · rename_i hc
      simp [htask, hc]
    · rename_i hc
      simp [h.task c' v, hu c', Ne.symm hc]
  · rw [Function.update_of_ne hv, ← h.task c' v]
    split
    · rename_i hc
      rw [hc, hpc, htask]
      simp [Ne.symm hv]
    · rfl

theorem Placed.task_give (h : Placed s q place home) {pc : Pc} {p : Place}
    (hpc : (s.pc c).task = some u) (htask : pc.task = none) (hp : ∀ c', p ≠ .cpu c') (c' : Cpuid)
    (v : SchedUnit) :
    ((s.setPc c pc).pc c').task = some v ↔ Function.update place u p v = .cpu c' := by
  have hu := (h.task c u).mp hpc
  rw [setPc_pc]
  by_cases hv : v = u
  · subst hv
    rw [Function.update_self]
    split
    · simp [htask, hp c']
    · rename_i hc
      rw [h.task c' v, hu]
      simp [hp c', Ne.symm hc]
  · rw [Function.update_of_ne hv, ← h.task c' v]
    split
    · rename_i hc
      rw [hc, hpc, htask]
      simp [Ne.symm hv]
    · rfl

theorem update_of_free {v : SchedUnit} (hv : place v = .free) (hu : place u ≠ .free) (p : Place) :
    Function.update place u p v = .free := by
  rw [Function.update_of_ne, hv]
  rintro rfl
  exact hu hv

theorem Placed.current_setPc (h : Placed s q place home) {t : Sys} (hpcs : t.pc = s.pc)
    (hcur : t.current = s.current) {pc : Pc} (hlaunch : ∀ u, pc ≠ .launched u) (c' : Cpuid)
    (v : SchedUnit) : (t.setPc c pc).pc c' = .launched v → (t.setPc c pc).current c' = some v := by
  intro hp
  have hcur' : (t.setPc c pc).current = s.current := hcur
  rw [setPc_pc, hpcs] at hp
  rw [hcur']
  split at hp
  · exact absurd hp (hlaunch v)
  · exact h.current c' v hp

/-- The idle task stays where it is while another unit moves. -/
theorem Placed.idleHome_of_ne (h : Placed s q place home) (hu : u ≠ .idleTask) {p : Place} {t : Sys}
    (hpcs : t.pc = s.pc) {pc : Pc} (hnone : pc ≠ .picked none) (c' : Cpuid) (hhome : home = some c') :
    Function.update place u p .idleTask = .cpu c' ∨
      Function.update place u p .idleTask = .queue .runnableTasks c' ∧
        (t.setPc c pc).pc c' ≠ .picked none := by
  rw [Function.update_of_ne (Ne.symm hu)]
  refine (h.idleHome c' hhome).imp_right fun hqueue => ⟨hqueue.1, ?_⟩
  rw [setPc_pc, hpcs]
  split
  · exact hnone
  · exact hqueue.2

theorem Placed.getNextTask_nil (h : Placed s q place home) (hpc : s.pc c = .locked)
    (hq : q .runnableTasks c = []) : Placed (s.setPc c (.picked none)) q place home := by
  refine ⟨h.queues, ?_, h.fresh, h.current_setPc rfl rfl (by simp), h.idleState, h.idleFree, ?_⟩
  · intro c' v
    rw [← h.task c' v, setPc_pc]
    split
    · rename_i hc
      rw [hc, hpc]
      rfl
    · rfl
  · intro c' hc'
    refine (h.idleHome c' hc').imp_right fun hqueue => ⟨hqueue.1, ?_⟩
    rw [setPc_pc]
    split
    · rename_i hc
      subst hc
      have hmem := (h.queues.mem _ _ _).mpr hqueue.1
      rw [hq] at hmem
      cases hmem
    · exact hqueue.2

/-- `tq_get_next_task` moves a unit from the queue to the CPU. -/
theorem Placed.getNextTask (h : Placed s q place home) (hpc : s.pc c = .locked) {l : Links Node}
    {next : Option SchedUnit} (hcall : tqGetNextTask s.links c = some (l, next)) :
    ∃ q' place', Placed ({ s with links := l }.setPc c (.picked next)) q' place' home ∧
      next = (q .runnableTasks c).head? ∧ q' .runnableTasks c = (q .runnableTasks c).tail := by
  cases hq : q .runnableTasks c with
  | nil =>
      rw [h.queues.getNextTask_nil hq] at hcall
      obtain ⟨rfl, rfl⟩ := Prod.mk.inj (Option.some.inj hcall)
      exact ⟨q, place, h.getNextTask_nil hpc hq, rfl, hq⟩
  | cons u xs =>
      obtain ⟨l', hcall', hqueues⟩ := h.queues.getNextTask_cons hq
      rw [hcall'] at hcall
      obtain ⟨rfl, rfl⟩ := Prod.mk.inj (Option.some.inj hcall)
      have htask : (s.pc c).task = none := by rw [hpc]; rfl
      have hu : place u = .queue .runnableTasks c :=
        (h.queues.mem _ _ _).mp (by rw [hq]; exact List.mem_cons_self ..)
      have hne : place u ≠ .free := by simp [hu]
      refine ⟨_, _, ⟨hqueues, ?_, fun n hn => update_of_free (h.fresh n hn) hne _,
        h.current_setPc rfl rfl (by simp), h.idleState, fun hnone => update_of_free (h.idleFree hnone) hne _,
        ?_⟩, rfl, setList_self ..⟩
      · exact h.task_take htask rfl (fun c' hp => by rw [hu] at hp; cases hp)
      · intro c' hc'
        by_cases hidle : u = .idleTask
        · subst hidle
          rcases h.idleHome c' hc' with hcpu | ⟨hqueue, -⟩
          · rw [hcpu] at hu
            cases hu
          · rw [hqueue] at hu
            cases hu
            exact .inl (Function.update_self ..)
        · exact h.idleHome_of_ne hidle rfl (by simp) c' hc'

/-- `tq_re_enqueue_task` moves the unit of the CPU to a list of its queue, or frees it. -/
theorem Placed.reEnqueue (h : Placed s q place home) (hpc : s.pc c = .reinit u) {l : Links Node}
    (hcall : tqSubmitTask s.links c u (s.taskState u) = some l) :
    ∃ q' place', Placed ({ s with links := l }.setPc c .start) q' place' home := by
  have htask : (s.pc c).task = some u := by rw [hpc]; rfl
  have hu := (h.task c u).mp htask
  have hne : place u ≠ .free := by simp [hu]
  obtain ⟨l', q', p, hcall', hqueues, hp, hrun, -⟩ :=
    h.queues.submit (h.not_queued htask) c (s.taskState u)
  rw [hcall', Option.some.injEq] at hcall
  subst hcall
  refine ⟨q', _, hqueues, ?_, fun n hn => update_of_free (h.fresh n hn) hne _,
    h.current_setPc rfl rfl (by simp), h.idleState, fun hnone => update_of_free (h.idleFree hnone) hne _, ?_⟩
  · apply h.task_give htask rfl
    rintro c' rfl
    rcases hp with hp | ⟨k, hp⟩ <;> cases hp
  · intro c' hc'
    by_cases hidle : u = .idleTask
    · subst hidle
      rcases h.idleHome c' hc' with hcpu | ⟨hqueue, -⟩
      · rw [hcpu] at hu
        cases hu
        rw [Function.update_self, hrun.mpr h.idleState, setPc_pc, if_pos rfl]
        exact .inr ⟨rfl, by simp⟩
      · rw [hqueue] at hu
        cases hu
    · exact h.idleHome_of_ne hidle rfl (by simp) c' hc'

theorem Placed.submit (h : Placed s q place home) {target : Cpuid} {l : Links Node}
    (hcall : tqSubmitTask s.links target (.vcpu s.submitted) (s.taskState (.vcpu s.submitted)) =
      some l) (bsp : BspPc) :
    ∃ q' place', Placed { s with links := l, submitted := s.submitted + 1, bsp := bsp } q' place'
      home := by
  have hu := h.fresh s.submitted (Nat.le_refl _)
  obtain ⟨l', q', p, hcall', hqueues, hp, -, -⟩ := h.queues.submit
    (fun k c hq => by rw [hu] at hq; cases hq) target (s.taskState (.vcpu s.submitted))
  rw [hcall', Option.some.injEq] at hcall
  subst hcall
  have hidle : Function.update place (.vcpu s.submitted) p .idleTask = place .idleTask :=
    Function.update_of_ne (by simp) ..
  refine ⟨q', _, hqueues, ?_, ?_, h.current, h.idleState, ?_, ?_⟩
  · intro c' v
    refine (h.task c' v).trans ?_
    by_cases hv : v = .vcpu s.submitted
    · subst hv
      rw [Function.update_self, hu]
      rcases hp with rfl | ⟨k, rfl⟩ <;> simp
    · rw [Function.update_of_ne hv]
  · intro n hn
    have hne : SchedUnit.vcpu n ≠ .vcpu s.submitted := by
      intro heq
      cases heq
      exact absurd hn (by simp)
    rw [Function.update_of_ne hne]
    exact h.fresh n (Nat.le_of_succ_le hn)
  · rw [hidle]
    exact h.idleFree
  · intro c' hc'
    rw [hidle]
    exact h.idleHome c' hc'

theorem Placed.step (h : Placed s q place home) (hstep : Trans s lb s')
    (hfb : lb.isFallBack = false) : ∃ q' place', Placed s' q' place' home := by
  cases hstep with
  | acquire hpc | reacquire hpc | reset hpc | release hpc | «return» hpc =>
      exact ⟨q, place, h.quietPc rfl (by rw [hpc]; rfl) (by simp) (by simp)⟩
  | wake _ hpc => exact ⟨q, place, h.quietPc rfl (by rw [hpc]; rfl) (by simp) (by simp)⟩
  | getNextTask hpc hcall =>
      obtain ⟨q', place', h', -⟩ := h.getNextTask hpc hcall
      exact ⟨q', place', h'⟩
  | fallBack hpc => cases hfb
  | @launch c task hpc =>
      refine ⟨q, place, h.quiet rfl rfl ?_ ?_ ?_ ?_⟩
      · intro c'
        rw [setPc_pc]
        split
        · rename_i hc
          rw [hc, hpc]
          rfl
        · rfl
      · intro c'
        rw [setPc_pc]
        split
        · exact fun hp => by cases hp
        · exact id
      · intro c' v
        rw [setPc_pc]
        split
        · rename_i hc
          subst hc
          intro hp
          cases hp
          exact Function.update_self ..
        · rename_i hc
          exact fun hp => (Function.update_of_ne hc ..).trans (h.current c' v hp)
      · by_cases htask : task = .idleTask
        · exact .inr (htask ▸ Function.update_self ..)
        · refine Or.imp ?_ ?_ h.idleState <;>
            exact (Function.update_of_ne (Ne.symm htask) ..).trans
  | @setTaskState c n current state hpc hcur =>
      rw [h.current c _ hpc, Option.some.injEq] at hcur
      subst hcur
      refine ⟨q, place, h.quiet rfl rfl (fun _ => rfl) (fun _ => id) h.current ?_⟩
      exact h.idleState
  | takeKick | lockTarget | kickTarget =>
      exact ⟨q, place, h.quiet rfl rfl (fun _ => rfl) (fun _ => id) h.current h.idleState⟩
  | reEnqueue hpc hcall => exact h.reEnqueue hpc hcall
  | submit hbsp hcall => exact h.submit hcall _

theorem Placed.fallBack (h : Placed s q place none) (hstep : Trans s (.fallBack c) s') :
    ∃ place', Placed s' q place' (some c) := by
  cases hstep with
  | fallBack hpc =>
      have hfree := h.idleFree rfl
      have hmem : ∀ k c' u, u ∈ q k c' ↔
          Function.update place .idleTask (.cpu c) u = .queue k c' := by
        intro k c' u
        rw [h.queues.mem k c' u]
        by_cases hu : u = .idleTask
        · rw [hu, Function.update_self, hfree]
          simp
        · rw [Function.update_of_ne hu]
      refine ⟨_, ⟨h.queues.ring, hmem⟩, ?_, ?_, h.current_setPc rfl rfl (by simp), h.idleState, nofun, ?_⟩
      · exact h.task_take (by rw [hpc]; rfl) rfl (fun c' hp => by rw [hfree] at hp; cases hp)
      · intro n hn
        rw [Function.update_of_ne (by simp)]
        exact h.fresh n hn
      · intro c' hc'
        cases hc'
        exact .inl (Function.update_self ..)

/-! ### Exclusivity -/

/-- Every list is intact, no unit is in two lists, in a list and with a CPU, or with two CPUs. -/
structure Exclusive (s : Sys) : Prop where
  intact : ∀ k c, ∃ xs, Ring s.links (.head k c) xs
  oneList : ∀ u k c k' c', Linked s k c u → Linked s k' c' u → k = k' ∧ c = c'
  oneCpu : ∀ u c c', (s.pc c).task = some u → (s.pc c').task = some u → c = c'
  notLinked : ∀ u c k c', (s.pc c).task = some u → ¬ Linked s k c' u

theorem Queues.linked_iff (h : Queues s.links q place) : Linked s k c u ↔ place u = .queue k c := by
  rw [← h.mem k c u]
  constructor
  · rintro ⟨xs, hring, hmem⟩
    rw [hring.unique (h.ring k c)] at hmem
    obtain ⟨v, hv, hvu⟩ := List.mem_map.mp hmem
    cases hvu
    exact hv
  · exact fun hmem => ⟨_, h.ring k c, List.mem_map.mpr ⟨u, hmem, rfl⟩⟩

theorem Placed.exclusive (h : Placed s q place home) : Exclusive s := by
  constructor
  · exact fun k c => ⟨_, h.queues.ring k c⟩
  · intro u k c k' c' h1 h2
    have heq := (h.queues.linked_iff.mp h1).symm.trans (h.queues.linked_iff.mp h2)
    exact Place.queue.inj heq
  · intro u c c' h1 h2
    exact Place.cpu.inj (((h.task c u).mp h1).symm.trans ((h.task c' u).mp h2))
  · intro u c k c' h1 h2
    have heq := ((h.task c u).mp h1).symm.trans (h.queues.linked_iff.mp h2)
    cases heq

theorem Placed.found_of_home (h : Placed s q place (some c)) : s.pc c ≠ .picked none := by
  intro hpc
  rcases h.idleHome c rfl with hcpu | ⟨-, hpc'⟩
  · have htask := (h.task c _).mpr hcpu
    rw [hpc] at htask
    cases htask
  · exact hpc' hpc

/-- A second fallback is by another CPU, while the first one still has the idle task. -/
theorem Placed.not_exclusive (h : Placed s q place (some c')) (hstep : Trans s (.fallBack c) s') :
    ¬ Exclusive s' := by
  cases hstep with
  | fallBack hpc =>
      intro hex
      have hne : c' ≠ c := by
        rintro rfl
        exact h.found_of_home hpc
      have htask : (Function.update s.pc c (.picked (some .idleTask)) c).task = some .idleTask := by
        rw [Function.update_self]
        rfl
      rcases h.idleHome c' rfl with hcpu | ⟨hqueue, -⟩
      · apply hne
        apply hex.oneCpu .idleTask c' c _ htask
        rw [show (_ : Sys).pc c' = s.pc c' from Function.update_of_ne hne ..]
        exact (h.task c' _).mpr hcpu
      · exact hex.notLinked _ _ .runnableTasks c' htask
          ⟨_, h.queues.ring _ _, List.mem_map.mpr ⟨_, (h.queues.mem _ _ _).mpr hqueue, rfl⟩⟩

/-- Up to the second fallback all units are placed; the second one is a violation. -/
theorem run_placed {ls : List Label} (h : Run Step init ls s) :
    (∃ q place home, Placed s q place home ∧ ls.countP Label.isFallBack ≤ 1 ∧
        (home = none ↔ ls.countP Label.isFallBack = 0)) ∨
      1 < ls.countP Label.isFallBack ∧ ∃ p t, p <+: ls ∧ Run Step init p t ∧ ¬ Exclusive t := by
  induction h with
  | nil => exact .inl ⟨_, _, none, placed_init, by simp, by simp⟩
  | @snoc s₁ s₂ ls lb hrun hstep ih =>
      have hcount : (ls ++ [lb]).countP Label.isFallBack =
          ls.countP Label.isFallBack + if lb.isFallBack then 1 else 0 := by
        rw [List.countP_append, List.countP_singleton]
      have htrans := step_cases hstep
      rcases ih with ⟨q, place, home, hplaced, hle, hhome⟩ | ⟨hlt, p, t, hp, hpt, hbad⟩
      · cases hfb : lb.isFallBack with
        | false =>
            obtain ⟨q', place', h'⟩ := hplaced.step htrans hfb
            rw [hcount, hfb]
            exact .inl ⟨q', place', home, h', hle, hhome⟩
        | true =>
            obtain ⟨c, rfl⟩ : ∃ c, lb = .fallBack c := by
              cases lb with
              | fallBack c => exact ⟨c, rfl⟩
              | _ => cases hfb
            cases home with
            | none =>
                obtain ⟨place', h'⟩ := hplaced.fallBack htrans
                rw [hcount, hhome.mp rfl]
                exact .inl ⟨q, place', some c, h', by simp [Label.isFallBack],
                  by simp [Label.isFallBack]⟩
            | some c' =>
                refine .inr ⟨?_, _, s₂, List.prefix_refl _, hrun.snoc hstep,
                  hplaced.not_exclusive htrans⟩
                have hpos : ls.countP Label.isFallBack ≠ 0 := fun h0 => by cases hhome.mpr h0
                rw [hcount, hfb, if_pos rfl]
                omega
      · refine .inr ⟨?_, p, t, hp.trans (List.prefix_append ls [lb]), hpt, hbad⟩
        rw [hcount]
        omega

/-- **Queue exclusivity.** All states of a run are exclusive exactly if at most one round of the
whole run, over all CPUs, finds its queue empty. -/
theorem exclusive_iff {ls : List Label} (h : Run Step init ls s) :
    (∀ p t, p <+: ls → Run Step init p t → Exclusive t) ↔ ls.countP Label.isFallBack ≤ 1 := by
  constructor
  · intro hall
    rcases run_placed h with ⟨_, _, _, -, hle, -⟩ | ⟨-, p, t, hp, hpt, hbad⟩
    · exact hle
    · exact absurd (hall p t hp hpt) hbad
  · intro hle p t hp hpt
    have hle' := hp.sublist.countP_le (p := Label.isFallBack)
    rcases run_placed hpt with ⟨_, _, _, hplaced, -⟩ | ⟨hlt, -⟩
    · exact hplaced.exclusive
    · omega

/-- One round up to the halt in the idle task. -/
def idleRound (c : Cpuid) : List Label :=
  [.acquire c, .getNextTask c, .fallBack c, .release c, .launch c]

/-- The submission of one vCPU. -/
def submission (target : Cpuid) : List Label := [.submit target, .lockTarget, .kickTarget]

theorem exclusive_iff_one_idle_cpu :
    ∃ s, Run Step init (idleRound 1 ++ submission 2) s ∧ Exclusive s ∧
      Linked s .runnableTasks 2 (.vcpu 0) := by
  have hend : ((idleRound 1 ++ submission 2).foldlM step init).map
      (fun s : Sys => decide (Ring s.links (.head .runnableTasks 2) [.unit (.vcpu 0)])) = some true := by
    decide
  obtain ⟨s, hs, hring⟩ := Option.map_eq_some_iff.mp hend
  have hrun : Run Step init _ s := Run.of_foldlM step (fun _ _ _ _ h => h) hs
  refine ⟨s, hrun, ?_, _, of_decide_eq_true hring, List.mem_singleton_self _⟩
  exact (exclusive_iff hrun).mpr (by decide) _ s (List.prefix_refl _) hrun

/-- Two CPUs whose queues are empty halt in the same idle task. -/
theorem two_idle_cpus_share_idle_task :
    ∃ s, Run Step init (idleRound 1 ++ idleRound 2) s ∧ s.current 1 = some .idleTask ∧
      s.current 2 = some .idleTask ∧ ¬ Exclusive s := by
  have hend : ((idleRound 1 ++ idleRound 2).foldlM step init).map
      (fun s : Sys => (s.current 1, s.current 2, s.pc 1, s.pc 2)) =
        some (some .idleTask, some .idleTask, .launched .idleTask, .launched .idleTask) := by
    decide
  obtain ⟨s, hs, hcur⟩ := Option.map_eq_some_iff.mp hend
  obtain ⟨hcur1, hcur2, hpc1, hpc2⟩ : s.current 1 = some .idleTask ∧ s.current 2 = some .idleTask ∧
      s.pc 1 = .launched .idleTask ∧ s.pc 2 = .launched .idleTask := by
    simpa only [Prod.mk.injEq] using hcur
  refine ⟨s, Run.of_foldlM step (fun _ _ _ _ h => h) hs, hcur1, hcur2, fun hex => ?_⟩
  have h12 := hex.oneCpu .idleTask 1 2 (by rw [hpc1]; rfl) (by rw [hpc2]; rfl)
  cases h12

end HyveMind.Sched
