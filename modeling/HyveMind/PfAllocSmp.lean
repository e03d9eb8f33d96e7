import HyveMind.PfAllocRun
import HyveMind.SpinLock

/-! # The page frame allocator on many CPUs

`__get_pages` and `free_pages_raw` hold `global_pfalloc_lock`; the zeroing of `get_pages_zeroed` and the use
of the frames come after the release.  `bodyStep` is the code between `spinlock_acquire` and
`spinlock_release`, one access to the allocator at a time, and `Rest` relates a point of it to what is left
of the whole call.  The steps of the CPUs interleave in any way.

`frames_owned_once`: no frame is with two CPUs, and no access misses the bitmap.  `zeroed_pages_zero`: the
pages of `get_pages_zeroed` are zero when it returns, whatever the other CPUs do meanwhile, and what a CPU
keeps in its frames changes only through its own steps. -/

namespace HyveMind.PfAlloc

open Lib

namespace Smp

/-! ### The code under the lock -/

/-- The functions that take the lock. -/
inductive Job
  /-- `__get_pages` -/
  | getPages (nr : ℕ)
  /-- `free_pages_raw` -/
  | freePages (nr addr : ℕ)
deriving DecidableEq, Repr

/-- Where a CPU is between `spinlock_acquire` and `spinlock_release`. -/
inductive Point
  | check (nr : ℕ)
  | readHint (nr : ℕ)
  | scan (nr : ℕ) (s : Scan)
  /-- In `set_bitmap_region`, with `i` frames done. -/
  | setRegion (nr start i : ℕ)
  | count (nr start : ℕ)
  | storeHint (nr start : ℕ)
  | got (res : Option ℕ)
  | clearRegion (nr addr i : ℕ)
  | uncount (nr : ℕ)
  | freed
deriving DecidableEq, Repr

/-- `pfn`, as `__get_pages` puts it together again from `area_byte_index` and `area_bit_index`. -/
def areaPfn (start : ℕ) : ℕ := ((start >>> 3) <<< 3) + start % 8

/-- One statement.  `none`: there is none left, or it reads or writes outside of the bitmap. -/
def bodyStep (a : PfAlloc) : Point → Option (Point × PfAlloc)
  | .check nr => some (if nr = 0 ∨ a.freeFrames < nr then .got none else .readHint nr, a)
  | .readHint nr => some (.scan nr (a.initScan nr), a)
  | .scan nr s =>
      if SearchTest a s then
        (searchBody a nr s).map fun r => (r.elim (fun start => .setRegion nr start 0) (.scan nr), a)
      else some (.got none, a)
  | .setRegion nr start i =>
      if i < nr then
        (a.setBitmapEntry (u64 (pfnToPhys (areaPfn start) + i * pageSize))).map
          fun a' => (.setRegion nr start (i + 1), a')
      else some (.count nr start, a)
  | .count nr start => some (.storeHint nr start, a.allocatedNrFrames nr)
  | .storeHint nr start =>
      some (.got (some (pfnToPhys (areaPfn start))), PfAlloc.storeHint a (start >>> 3) (start % 8) nr)
  | .clearRegion nr addr i =>
      if i < nr then
        (a.clearBitmapEntry (u64 (addr + i * pageSize))).map fun a' => (.clearRegion nr addr (i + 1), a')
      else some (.uncount nr, a)
  | .uncount nr => some (.freed, a.freedNrFrames nr)
  | .got _ => none
  | .freed => none

/-- At `spinlock_release`. -/
def Point.Finished : Point → Prop
  | .got _ => True
  | .freed => True
  | _ => False

/-- What is done under `global_pfalloc_lock`. -/
def work : Work PfAlloc Job Point where
  start
    | .getPages nr => .check nr
    | .freePages nr addr => .clearRegion nr addr 0
  step k a k' a' := bodyStep a k = some (k', a')
  done := Point.Finished
  env _ _ := False

/-! ### What is left of a call -/

/-- `__get_pages` gets to the search. -/
def Serves (a : PfAlloc) (nr : ℕ) : Prop := ¬ (nr = 0 ∨ a.freeFrames < nr)

/-- The statements of a call, at most. -/
def Job.statements (bitmapSize : ℕ) : Job → ℕ
  | .getPages nr => 2 * (bitmapSize <<< 3) + nr + 6
  | .freePages nr _ => nr + 2

/-- A call that began with the allocator `a₀` is at a point, with the allocator `a` and at most `n` statements in
front of it. -/
inductive Rest (a₀ : PfAlloc) : Job → ℕ → Point → PfAlloc → Prop
  | check {nr : ℕ} : Rest a₀ (.getPages nr) (2 * (a₀.bitmapSize <<< 3) + nr + 6) (.check nr) a₀
  | readHint {nr : ℕ} (h : Serves a₀ nr) :
      Rest a₀ (.getPages nr) (2 * (a₀.bitmapSize <<< 3) + nr + 5) (.readHint nr) a₀
  | scan {nr fuel : ℕ} {s : Scan} (h : Serves a₀ nr) (hs : searchLoop a₀ nr fuel s = a₀.search nr)
      (hfuel : fuel ≤ 2 * (a₀.bitmapSize <<< 3) + 1) :
      Rest a₀ (.getPages nr) (fuel + nr + 3) (.scan nr s) a₀
  | setRegion {nr start i : ℕ} {a : PfAlloc} (h : Serves a₀ nr) (hs : a₀.search nr = some (some start))
      (hi : i ≤ nr) (ha : bitmapRegion setBitmapEntry a₀ (pfnToPhys (areaPfn start)) i = some a) :
      Rest a₀ (.getPages nr) (nr - i + 3) (.setRegion nr start i) a
  | count {nr start : ℕ} {a : PfAlloc} (h : Serves a₀ nr) (hs : a₀.search nr = some (some start))
      (ha : a₀.setBitmapRegion (pfnToPhys (areaPfn start)) nr = some a) :
      Rest a₀ (.getPages nr) 2 (.count nr start) a
  | storeHint {nr start : ℕ} {a : PfAlloc} (h : Serves a₀ nr) (hs : a₀.search nr = some (some start))
      (ha : a₀.setBitmapRegion (pfnToPhys (areaPfn start)) nr = some a) :
      Rest a₀ (.getPages nr) 1 (.storeHint nr start) (a.allocatedNrFrames nr)
  | got {nr : ℕ} {res : Option ℕ} {a : PfAlloc} (h : a₀.getPagesImpl nr = some (a, res)) :
      Rest a₀ (.getPages nr) 0 (.got res) a
  | clearRegion {nr addr i : ℕ} {a : PfAlloc} (hi : i ≤ nr)
      (ha : bitmapRegion clearBitmapEntry a₀ addr i = some a) :
      Rest a₀ (.freePages nr addr) (nr - i + 2) (.clearRegion nr addr i) a
  | uncount {nr addr : ℕ} {a : PfAlloc} (ha : a₀.clearBitmapRegion addr nr = some a) :
      Rest a₀ (.freePages nr addr) 1 (.uncount nr) a
  | freed {nr addr : ℕ} {a : PfAlloc} (h : a₀.freePagesRaw nr addr = some a) :
      Rest a₀ (.freePages nr addr) 0 .freed a

section Rest

variable {a₀ a a' : PfAlloc} {job : Job} {k k' : Point} {nr addr n : ℕ}

theorem rest_start (a₀ : PfAlloc) (job : Job) : ∃ n, Rest a₀ job n (work.start job) a₀ := by
  cases job with
  | getPages nr => exact ⟨_, .check⟩
  | freePages nr addr => exact ⟨_, .clearRegion (Nat.zero_le _) rfl⟩

theorem Rest.le (h : Rest a₀ job n k a) : n ≤ job.statements a.bitmapSize := by
  cases h <;> simp only [Job.statements] <;> omega

theorem getPagesImpl_of_not_serves (h : ¬ Serves a nr) : a.getPagesImpl nr = some (a, none) :=
  if_pos (not_not.mp h)

theorem getPagesImpl_of_serves (h : Serves a nr) : a.getPagesImpl nr =
    (a.search nr).bind fun r => r.elim (some (a, none)) fun start =>
      (a.setBitmapRegion (pfnToPhys (areaPfn start)) nr).map fun a' =>
        (PfAlloc.storeHint (a'.allocatedNrFrames nr) (start >>> 3) (start % 8) nr,
          some (pfnToPhys (areaPfn start))) := by
  rw [PfAlloc.getPagesImpl, if_neg h]
  rcases a.search nr with _ | _ | start
  · rfl
  · rfl
  · simp only [Option.bind_some, Option.elim_some, areaPfn]
    cases a.setBitmapRegion (pfnToPhys ((start >>> 3) <<< 3 + start % 8)) nr <;> rfl

theorem bitmapRegion_succ {entry : PfAlloc → ℕ → Option PfAlloc} {i : ℕ}
    (h : bitmapRegion entry a₀ addr i = some a) :
    bitmapRegion entry a₀ addr (i + 1) = entry a (u64 (addr + i * pageSize)) := by
  rw [bitmapRegion, h]
  rfl

/-- A statement goes on with the call, and there is one less in front of it. -/
theorem Rest.step (h : Rest a₀ job n k a) (hok : a₀.HintOk) (hk : bodyStep a k = some (k', a')) :
    ∃ m < n, Rest a₀ job m k' a' := by
  cases h with
  | @check nr =>
      obtain ⟨rfl, rfl⟩ := Prod.mk.inj (Option.some.inj hk)
      split_ifs with hs
      · exact ⟨_, by omega, .got (getPagesImpl_of_not_serves (not_not.mpr hs))⟩
      · exact ⟨_, by omega, .readHint hs⟩
  | readHint hs =>
      obtain ⟨rfl, rfl⟩ := Prod.mk.inj (Option.some.inj hk)
      exact ⟨_, by omega, .scan hs rfl le_rfl⟩
  | @scan nr fuel s hs hsearch hfuel =>
      obtain ⟨r, hr, -⟩ := search_firstFit hok (Nat.pos_of_ne_zero fun h0 => hs (.inl h0))
      rw [hr] at hsearch
      cases fuel with
      | zero => cases hsearch
      | succ fuel =>
          rw [searchLoop_succ] at hsearch
          rw [bodyStep] at hk
          by_cases htest : SearchTest a₀ s
          · rw [if_pos htest] at hsearch hk
            obtain ⟨x, hx, hk⟩ := Option.map_eq_some_iff.mp hk
            obtain ⟨rfl, rfl⟩ := Prod.mk.inj hk
            rw [hx] at hsearch
            cases x with
            | inl start => exact ⟨_, by omega, .setRegion hs (hr.trans hsearch.symm) (Nat.zero_le _) rfl⟩
            | inr s' => exact ⟨_, by omega, .scan hs (hsearch.trans hr.symm) (by omega)⟩
          · rw [if_neg htest] at hsearch hk
            obtain ⟨rfl, rfl⟩ := Prod.mk.inj (Option.some.inj hk)
            refine ⟨_, by omega, .got ?_⟩
            rw [getPagesImpl_of_serves hs, hr, ← hsearch]
            rfl
  | @setRegion nr start i a hs hsearch hi ha =>
      rw [bodyStep] at hk
      split_ifs at hk with hlt
      · obtain ⟨x, hx, hk⟩ := Option.map_eq_some_iff.mp hk
        obtain ⟨rfl, rfl⟩ := Prod.mk.inj hk
        exact ⟨_, by omega, .setRegion hs hsearch hlt ((bitmapRegion_succ ha).trans hx)⟩
      · obtain ⟨rfl, rfl⟩ := Prod.mk.inj (Option.some.inj hk)
        obtain rfl : i = nr := by omega
        exact ⟨_, by omega, .count hs hsearch ha⟩
  | count hs hsearch ha =>
      obtain ⟨rfl, rfl⟩ := Prod.mk.inj (Option.some.inj hk)
      exact ⟨_, by omega, .storeHint hs hsearch ha⟩
  | storeHint hs hsearch ha =>
      obtain ⟨rfl, rfl⟩ := Prod.mk.inj (Option.some.inj hk)
      refine ⟨_, by omega, .got ?_⟩
      rw [getPagesImpl_of_serves hs, hsearch, Option.bind_some, Option.elim_some, ha]
      rfl
  | got => cases hk
  | @clearRegion nr addr i a hi ha =>
      rw [bodyStep] at hk
      split_ifs at hk with hlt
      · obtain ⟨x, hx, hk⟩ := Option.map_eq_some_iff.mp hk
        obtain ⟨rfl, rfl⟩ := Prod.mk.inj hk
        exact ⟨_, by omega, .clearRegion hlt ((bitmapRegion_succ ha).trans hx)⟩
      · obtain ⟨rfl, rfl⟩ := Prod.mk.inj (Option.some.inj hk)
        obtain rfl : i = nr := by omega
        exact ⟨_, by omega, .uncount ha⟩
  | uncount ha =>
      obtain ⟨rfl, rfl⟩ := Prod.mk.inj (Option.some.inj hk)
      refine ⟨_, by omega, .freed ?_⟩
      rw [PfAlloc.freePagesRaw, ha]
      rfl
  | freed => cases hk

/-- The whole call is defined. -/
def Defined (a₀ : PfAlloc) : Job → Prop
  | .getPages nr => ∃ x, a₀.getPagesImpl nr = some x
  | .freePages nr addr => ∃ a, a₀.freePagesRaw nr addr = some a

theorem bitmapRegion_front {entry : PfAlloc → ℕ → Option PfAlloc} {i n : ℕ}
    (h : bitmapRegion entry a₀ addr n ≠ none) (hi : i ≤ n) : bitmapRegion entry a₀ addr i ≠ none := by
  induction n with
  | zero =>
      obtain rfl := Nat.le_zero.mp hi
      exact h
  | succ n ih =>
      rcases Nat.lt_or_eq_of_le hi with hlt | rfl
      · refine ih (fun hn => h ?_) (by omega)
        rw [bitmapRegion, hn]
        rfl
      · exact h

theorem entry_of_region {entry : PfAlloc → ℕ → Option PfAlloc} {i n : ℕ}
    (h : bitmapRegion entry a₀ addr n ≠ none) (ha : bitmapRegion entry a₀ addr i = some a) (hi : i < n) :
    ∃ a', entry a (u64 (addr + i * pageSize)) = some a' := by
  rw [← bitmapRegion_succ ha]
  exact Option.ne_none_iff_exists'.mp (bitmapRegion_front h hi)

/-- A call that is defined does not stop in front of its end. -/
theorem Rest.progress (h : Rest a₀ job n k a) (hok : a₀.HintOk) (hdef : Defined a₀ job) :
    k.Finished ∨ ∃ k' a', bodyStep a k = some (k', a') := by
  cases h with
  | check => exact .inr ⟨_, _, rfl⟩
  | readHint => exact .inr ⟨_, _, rfl⟩
  | @scan nr fuel s hs hsearch _ =>
      obtain ⟨r, hr, -⟩ := search_firstFit hok (Nat.pos_of_ne_zero fun h0 => hs (.inl h0))
      rw [hr] at hsearch
      cases fuel with
      | zero => cases hsearch
      | succ fuel =>
          right
          rw [searchLoop_succ] at hsearch
          rw [bodyStep]
          by_cases htest : SearchTest a₀ s
          · rw [if_pos htest] at hsearch ⊢
            obtain ⟨x, hx, -⟩ := Option.bind_eq_some_iff.mp hsearch
            exact ⟨_, _, by rw [hx]; rfl⟩
          · exact ⟨_, _, if_neg htest⟩
  | @setRegion nr start i a hs hsearch hi ha =>
      right
      rw [bodyStep]
      split_ifs with hlt
      · obtain ⟨x, hx⟩ := hdef
        rw [getPagesImpl_of_serves hs, hsearch, Option.bind_some, Option.elim_some] at hx
        obtain ⟨y, hy, -⟩ := Option.map_eq_some_iff.mp hx
        obtain ⟨a', ha'⟩ := entry_of_region (by rw [← setBitmapRegion, hy]; simp) ha hlt
        exact ⟨_, _, by rw [ha']; rfl⟩
      · exact ⟨_, _, rfl⟩
  | count => exact .inr ⟨_, _, rfl⟩
  | storeHint => exact .inr ⟨_, _, rfl⟩
  | got => exact .inl trivial
  | @clearRegion nr addr i a hi ha =>
      right
      rw [bodyStep]
      split_ifs with hlt
      · obtain ⟨x, hx⟩ := hdef
        obtain ⟨y, hy, -⟩ := Option.bind_eq_some_iff.mp hx
        obtain ⟨a', ha'⟩ := entry_of_region (by rw [← clearBitmapRegion, hy]; simp) ha hlt
        exact ⟨_, _, by rw [ha']; rfl⟩
      · exact ⟨_, _, rfl⟩
  | uncount => exact .inr ⟨_, _, rfl⟩
  | freed => exact .inl trivial

end Rest

/-! ### The CPUs -/

/-- The calls of the interface that are modelled; `get_page`, `get_page_raw`, `get_page_zeroed`, `free_page`
and `free_page_raw` are these with one page. -/
inductive Request
  | getPagesRaw (nr : ℕ)
  | getPages (nr : ℕ)
  | getPagesZeroed (nr : ℕ)
  | freePagesRaw (nr addr : ℕ)
  | freePages (nr addr : ℕ)
deriving DecidableEq, Repr

def Request.job : Request → Job
  | .getPagesRaw nr => .getPages nr
  | .getPages nr => .getPages nr
  | .getPagesZeroed nr => .getPages nr
  | .freePagesRaw nr addr => .freePages nr addr
  | .freePages nr addr => .freePages nr (virtToPhys addr)

/-- What a CPU is doing. -/
inductive Task
  /-- Its own code. -/
  | own
  | calling (req : Request)
  /-- In `memset`, behind `n` bytes. -/
  | zeroing (nr vaddr n : ℕ)
deriving DecidableEq, Repr

structure State (ι : Type*) where
  lock : SpinLock.State ι PfAlloc Job Point
  task : ι → Task
  /-- Who uses a range of frames. -/
  owner : ℕ × ℕ → Option ι
  /-- The physical memory. -/
  mem : ℕ → BitVec 8

inductive Label (ι : Type*)
  | call (i : ι) (req : Request)
  /-- A round of `arch_spinlock_acquire`, or a statement under the lock. -/
  | step (i : ι)
  /-- `spinlock_release`, with `*start_addr` (`none` for `-1`, and for a release). -/
  | release (i : ι) (req : Request) (res : Option ℕ)
  | zero (i : ι)
  /-- The return of `get_pages_zeroed`. -/
  | zeroed (i : ι) (nr vaddr : ℕ)
  | write (i : ι) (addr : ℕ) (v : BitVec 8)
  /-- The use of a range goes to another CPU. -/
  | give (i j : ι) (r : ℕ × ℕ)

/-- The CPU whose step it is. -/
def Label.actor {ι : Type*} : Label ι → ι
  | .call i _ => i
  | .step i => i
  | .release i _ _ => i
  | .zero i => i
  | .zeroed i _ _ => i
  | .write i _ _ => i
  | .give i _ _ => i

variable {ι : Type*}

/-- A release gives back a range that the CPU uses. -/
def Request.Allowed (req : Request) (i : ι) (owner : ℕ × ℕ → Option ι) : Prop :=
  match req with
  | .freePagesRaw nr addr => ∃ p, owner (p, nr) = some i ∧ addr = pfnToPhys p
  | .freePages nr vaddr => ∃ p, owner (p, nr) = some i ∧ vaddr = physToVirt (pfnToPhys p)
  | _ => True

/-- What `__get_pages` stores in `*start_addr`. -/
def Point.result : Point → Option ℕ
  | .got res => res
  | _ => none

@[simp] theorem Point.result_got (res : Option ℕ) : (Point.got res).result = res := rfl

@[simp] theorem Point.result_freed : Point.freed.result = none := rfl

/-- What the CPU does behind the release of the lock. -/
def Request.next : Request → Option ℕ → Task
  | .getPagesZeroed nr, some addr => .zeroing nr (physToVirt addr) 0
  | _, _ => .own

section Steps

variable [DecidableEq ι]

/-- The ranges that are in use afterwards. -/
def Job.owner (j : Job) (i : ι) (res : Option ℕ) (owner : ℕ × ℕ → Option ι) : ℕ × ℕ → Option ι :=
  match j, res with
  | .getPages nr, some addr => Function.update owner (physToPfn addr, nr) (some i)
  | .getPages _, none => owner
  | .freePages nr addr, _ => Function.update owner (physToPfn addr, nr) none

inductive Step : State ι → Label ι → State ι → Prop
  | call {s : State ι} {i : ι} {req : Request} {lock : SpinLock.State ι PfAlloc Job Point}
      (hown : s.task i = .own) (hreq : req.Allowed i s.owner)
      (hlock : SpinLock.Step work s.lock (.call i req.job) lock) :
      Step s (.call i req) { s with lock := lock, task := Function.update s.task i (.calling req) }
  | acquire {s : State ι} {i : ι} {j : Job} {res : Bool} {lock : SpinLock.State ι PfAlloc Job Point}
      (hlock : SpinLock.Step work s.lock (.acquire i j res) lock) : Step s (.step i) { s with lock := lock }
  | body {s : State ι} {i : ι} {lock : SpinLock.State ι PfAlloc Job Point}
      (hlock : SpinLock.Step work s.lock (.work i) lock) : Step s (.step i) { s with lock := lock }
  | release {s : State ι} {i : ι} {req : Request} {k : Point} {lock : SpinLock.State ι PfAlloc Job Point}
      (hcalling : s.task i = .calling req) (hi : s.lock.place i = .inside k)
      (hlock : SpinLock.Step work s.lock (.release i) lock) :
      Step s (.release i req k.result)
        { s with
          lock := lock
          task := Function.update s.task i (req.next k.result)
          owner := req.job.owner i k.result s.owner }
  | zero {s : State ι} {i : ι} {nr vaddr n : ℕ} (hi : s.task i = .zeroing nr vaddr n)
      (hn : n < u64 (nr <<< pageShift)) :
      Step s (.zero i)
        { s with
          task := Function.update s.task i (.zeroing nr vaddr (n + 1))
          mem := Function.update s.mem (virtToPhys (u64 (vaddr + n))) 0 }
  | zeroed {s : State ι} {i : ι} {nr vaddr n : ℕ} (hi : s.task i = .zeroing nr vaddr n)
      (hn : ¬ n < u64 (nr <<< pageShift)) :
      Step s (.zeroed i nr vaddr) { s with task := Function.update s.task i .own }
  | write {s : State ι} {i : ι} {r : ℕ × ℕ} {addr : ℕ} {v : BitVec 8} (hown : s.task i = .own)
      (hr : s.owner r = some i) (haddr : physToPfn addr ∈ frames r) :
      Step s (.write i addr v) { s with mem := Function.update s.mem addr v }
  | give {s : State ι} {i j : ι} {r : ℕ × ℕ} (hown : s.task i = .own) (hr : s.owner r = some i) :
      Step s (.give i j r) { s with owner := Function.update s.owner r (some j) }

end Steps

/-- The state behind `early_init_page_frame_allocator`. -/
def boot (a : PfAlloc) (mem : ℕ → BitVec 8) : State ι := ⟨SpinLock.boot a, fun _ => .own, fun _ => none, mem⟩

/-! ### The invariant -/

/-- A CPU is in the functions of the lock exactly while it calls, and it uses what it works on. -/
def TaskOk (s : State ι) (i : ι) : Prop :=
  match s.task i with
  | .own => s.lock.place i = .outside
  | .calling req => req.Allowed i s.owner ∧
      (s.lock.place i = .acquire req.job ∨ ∃ k, s.lock.place i = .inside k)
  | .zeroing nr vaddr n => s.lock.place i = .outside ∧ ∃ p, vaddr = physToVirt (pfnToPhys p) ∧
      s.owner (p, nr) = some i ∧ n ≤ nr * 4096 ∧ ∀ b < n, s.mem (p * 4096 + b) = 0

/-- The allocator is as the last complete call left it, or inside of the next call. -/
def Between (s : State ι) (a : PfAlloc) : Option (ι × Point) → Prop
  | none => s.lock.obj = a
  | some (i, k) => ∃ req n, s.task i = .calling req ∧ Rest a req.job n k s.lock.obj

structure Good (mm : List LimineMemmapEntry) (md : ℕ × ℕ) (mem₀ : ℕ → BitVec 8) (s : State ι)
    (o : Option (ι × Point)) (a : PfAlloc) (live : List (ℕ × ℕ)) : Prop where
  lock : SpinLock.Owner s.lock o
  inv : Inv mm md a live
  owned : ∀ r, r ∈ live ↔ (s.owner r).isSome
  between : Between s a o
  tasks : ∀ i, TaskOk s i
  metadata : ∀ addr, physToPfn addr ∈ frames md → s.mem addr = mem₀ addr

variable {mm : List LimineMemmapEntry} {md : ℕ × ℕ} {mem₀ : ℕ → BitVec 8} {s s' : State ι} {l : Label ι}
  {o : Option (ι × Point)} {a : PfAlloc} {live : List (ℕ × ℕ)} {i j : ι} {r : ℕ × ℕ}

theorem physToPfn_add {p b : ℕ} : physToPfn (p * 4096 + b) = p + b / 4096 := by
  rw [physToPfn_eq]
  omega

theorem mem_frames_of_lt {p nr b : ℕ} (h : b < nr * 4096) : physToPfn (p * 4096 + b) ∈ frames (p, nr) := by
  rw [mem_frames, physToPfn_add]
  omega

theorem TaskOk.frame (h : TaskOk s j) (htask : s'.task j = s.task j)
    (hplace : s'.lock.place j = s.lock.place j) (howner : ∀ r, s.owner r = some j → s'.owner r = some j)
    (hmem : ∀ r, s.owner r = some j → ∀ addr, physToPfn addr ∈ frames r → s'.mem addr = s.mem addr) :
    TaskOk s' j := by
  unfold TaskOk at h ⊢
  rw [htask, hplace]
  cases htj : s.task j with
  | own =>
      rw [htj] at h
      exact h
  | calling req =>
      rw [htj] at h
      refine ⟨?_, h.2⟩
      have hallowed := h.1
      cases req with
      | freePagesRaw nr addr =>
          obtain ⟨p, hp, haddr⟩ := hallowed
          exact ⟨p, howner _ hp, haddr⟩
      | freePages nr addr =>
          obtain ⟨p, hp, haddr⟩ := hallowed
          exact ⟨p, howner _ hp, haddr⟩
      | _ => trivial
  | zeroing nr vaddr n =>
      rw [htj] at h
      obtain ⟨hout, p, hvaddr, hp, hn, hzero⟩ := h
      refine ⟨hout, p, hvaddr, howner _ hp, hn, fun b hb => ?_⟩
      rw [hmem _ hp _ (mem_frames_of_lt (by omega))]
      exact hzero b hb

theorem Between.frame (h : Between s a o) (hobj : s'.lock.obj = s.lock.obj)
    (htask : ∀ i k, o = some (i, k) → s'.task i = s.task i) : Between s' a o := by
  cases o with
  | none => exact hobj.trans h
  | some ik =>
      obtain ⟨req, n, hreq, hrest⟩ := h
      refine ⟨req, n, (htask _ _ rfl).trans hreq, ?_⟩
      rw [hobj]
      exact hrest

namespace Good

theorem eq_of_mem (h : Good mm md mem₀ s o a live) {t : ℕ × ℕ} (hr : s.owner r = some i)
    (ht : s.owner t = some j) {q : ℕ} (hqr : q ∈ frames r) (hqt : q ∈ frames t) : r = t := by
  refine h.inv.eq_of_mem ((h.owned r).mpr ?_) ((h.owned t).mpr ?_) hqr hqt
  · rw [hr]; rfl
  · rw [ht]; rfl

theorem live_of_owner (h : Good mm md mem₀ s o a live) (hr : s.owner r = some i) : r ∈ live :=
  (h.owned r).mpr (by rw [hr]; rfl)

/-- A range ends inside of the memory, and it is not the whole of it. -/
theorem range_le (h : Good mm md mem₀ s o a live) (hmd : 0 < md.2) (hr : s.owner r = some i) :
    r.1 + r.2 ≤ 2 ^ 52 ∧ r.2 < 2 ^ 52 := by
  have hlive := h.live_of_owner hr
  have hle := h.inv.live_le hlive
  have hsize := h.inv.size_le
  have hsum : r.2 ≤ (live.map Prod.snd).sum := List.le_sum_of_mem (List.mem_map_of_mem hlive)
  have hall := h.inv.allocated
  have htot := h.inv.total_le
  constructor <;> omega

theorem allowed_free {req : Request} (h : Good mm md mem₀ s o a live) (hmd : 0 < md.2)
    (hreq : req.Allowed i s.owner) {nr addr : ℕ} (hjob : req.job = .freePages nr addr) :
    ∃ p, s.owner (p, nr) = some i ∧ addr = p * 4096 ∧ physToPfn addr = p := by
  have hphys : ∀ p, s.owner (p, nr) = some i → pfnToPhys p = p * 4096 ∧ p * 4096 < 2 ^ 64 := by
    intro p hp
    have hle := h.range_le hmd hp
    have hpos := (h.inv.liveUsable _ (h.live_of_owner hp)).1
    simp only at hle hpos
    exact ⟨pfnToPhys_eq (by omega), by omega⟩
  have hpfn : ∀ p, physToPfn (p * 4096) = p := fun p => by simpa using physToPfn_add (p := p) (b := 0)
  cases req with
  | freePagesRaw nr' addr' =>
      obtain ⟨rfl, rfl⟩ := Job.freePages.inj hjob
      obtain ⟨p, hp, rfl⟩ := hreq
      refine ⟨p, hp, (hphys p hp).1, ?_⟩
      rw [(hphys p hp).1, hpfn]
  | freePages nr' addr' =>
      obtain ⟨rfl, rfl⟩ := Job.freePages.inj hjob
      obtain ⟨p, hp, hvaddr⟩ := hreq
      have haddr : virtToPhys addr' = p * 4096 := by
        rw [hvaddr, (hphys p hp).1]
        exact virtToPhys_physToVirt (hphys p hp).2
      exact ⟨p, hp, haddr, by rw [haddr, hpfn]⟩
  | _ => cases hjob

/-- What the end of a call means for the ranges. -/
structure Commit (mm : List LimineMemmapEntry) (md : ℕ × ℕ) (s : State ι) (a' : PfAlloc) (i : ι)
    (req : Request) (res : Option ℕ) (live' : List (ℕ × ℕ)) : Prop where
  inv : Inv mm md a' live'
  owned : ∀ r, r ∈ live' ↔ (req.job.owner i res s.owner r).isSome
  others : ∀ r j, j ≠ i → s.owner r = some j → req.job.owner i res s.owner r = some j
  given : ∀ nr addr, req.job = .getPages nr → res = some addr →
    ∃ p, addr = pfnToPhys p ∧ req.job.owner i res s.owner (p, nr) = some i

theorem commit {req : Request} {k : Point} {a' : PfAlloc} (h : Good mm md mem₀ s o a live) (hmd : 0 < md.2)
    (hreq : req.Allowed i s.owner) {n : ℕ} (hrest : Rest a req.job n k a') (hk : k.Finished) :
    ∃ live', Commit mm md s a' i req k.result live' := by
  generalize hjob : req.job = jb at hrest
  cases hrest with
  | @got nr res a' hcall =>
      obtain ⟨b, res', hcall', hnone, hsome⟩ := h.inv.getPagesImpl nr
      rw [hcall] at hcall'
      obtain ⟨rfl, rfl⟩ := Prod.mk.inj (Option.some.inj hcall')
      cases res with
      | none =>
          obtain rfl := hnone rfl
          refine ⟨live, h.inv, fun r => ?_, fun r j _ hr => ?_, fun nr addr _ hres => nomatch hres⟩
          · rw [h.owned, hjob]
            rfl
          · rw [hjob]
            exact hr
      | some addr =>
          obtain ⟨p, rfl, hle, -, hinv⟩ := hsome addr rfl
          have hsize := h.inv.size_le
          have hpos := (hinv.liveUsable (p, nr) (List.mem_cons_self ..)).1
          simp only at hpos
          have hphys : pfnToPhys p = p * 4096 := pfnToPhys_eq (by omega)
          have hpfn : physToPfn (p * 4096) = p := by simpa using physToPfn_add (p := p) (b := 0)
          have howner : req.job.owner i (some (p * 4096)) s.owner = Function.update s.owner (p, nr) (some i) := by
            rw [hjob, Job.owner, hpfn]
          have hnew : (p, nr) ∉ live := (List.nodup_cons.mp hinv.nodup).1
          refine ⟨_, hinv, fun r => ?_, fun r j _ hr => ?_, fun nr' addr hjob' hres => ?_⟩
          · rw [Point.result_got, howner, List.mem_cons]
            by_cases hr : r = (p, nr)
            · subst hr
              simp
            · rw [Function.update_of_ne hr, ← h.owned]
              simp [hr]
          · rw [Point.result_got, howner, Function.update_of_ne ?_]
            · exact hr
            · rintro rfl
              exact hnew (h.live_of_owner hr)
          · obtain rfl := Option.some.inj hres
            obtain rfl := Job.getPages.inj (hjob.symm.trans hjob')
            refine ⟨p, hphys.symm, ?_⟩
            rw [Point.result_got, howner, Function.update_self]
  | @freed nr addr a' hcall =>
      obtain ⟨p, hp, rfl, hpfn⟩ := h.allowed_free hmd hreq hjob
      obtain ⟨b, hcall', hinv⟩ := h.inv.freePagesRaw (h.live_of_owner hp)
      simp only at hcall'
      rw [hcall] at hcall'
      obtain rfl := Option.some.inj hcall'
      have howner : req.job.owner i none s.owner = Function.update s.owner (p, nr) none := by
        rw [hjob, Job.owner, hpfn]
      refine ⟨_, hinv, fun r => ?_, fun r j hj hr => ?_, fun nr' addr hjob' => ?_⟩
      · rw [Point.result_freed, howner, h.inv.nodup.mem_erase_iff]
        by_cases hr : r = (p, nr)
        · subst hr
          simp
        · rw [Function.update_of_ne hr, ← h.owned]
          simp [hr]
      · rw [Point.result_freed, howner, Function.update_of_ne ?_]
        · exact hr
        · rintro rfl
          rw [hp] at hr
          exact hj (Option.some.inj hr).symm
      · rw [hjob] at hjob'
        cases hjob'
  | _ => exact hk.elim

/-- Where `memset` is: a byte of the range, until all of it is done. -/
theorem zeroing_addr {nr vaddr n : ℕ} (h : Good mm md mem₀ s o a live) (hmd : 0 < md.2)
    (hi : s.task i = .zeroing nr vaddr n) : ∃ p, vaddr = physToVirt (pfnToPhys p) ∧ s.owner (p, nr) = some i ∧
      u64 (nr <<< pageShift) = nr * 4096 ∧ n ≤ nr * 4096 ∧ (∀ b < n, s.mem (p * 4096 + b) = 0) ∧
      ∀ b < nr * 4096, virtToPhys (u64 (vaddr + b)) = p * 4096 + b := by
  have hok := h.tasks i
  rw [TaskOk, hi] at hok
  obtain ⟨-, p, hvaddr, hp, hn, hzero⟩ := hok
  obtain ⟨hle, hlt⟩ := h.range_le hmd hp
  simp only at hle hlt
  have hpos := (h.inv.liveUsable _ (h.live_of_owner hp)).1
  simp only at hpos
  refine ⟨p, hvaddr, hp, ?_, hn, hzero, fun b hb => ?_⟩
  · have hshift : nr <<< pageShift = nr * 4096 := by simp [pageShift, Nat.shiftLeft_eq]
    rw [hshift, u64_of_lt (by omega)]
  · have hvirt : u64 (vaddr + b) = physToVirt (p * 4096 + b) := by
      rw [hvaddr, pfnToPhys_eq (by omega)]
      simp only [physToVirt, physToVirtAt, u64]
      omega
    rw [hvirt]
    exact virtToPhys_physToVirt (by omega)

variable [DecidableEq ι]

theorem call {req : Request} {lock : SpinLock.State ι PfAlloc Job Point} (h : Good mm md mem₀ s o a live)
    (hown : s.task i = .own) (hreq : req.Allowed i s.owner)
    (hlock : SpinLock.Step work s.lock (.call i req.job) lock) :
    Good mm md mem₀ { s with lock := lock, task := Function.update s.task i (.calling req) } o a live := by
  cases hlock with
  | call hi =>
      have hin : ∀ k, s.lock.place i ≠ .inside k := fun k hk => by rw [hi] at hk; cases hk
      refine ⟨h.lock.moveOut hin (fun k hk => nomatch hk), h.inv, h.owned, ?_, fun j => ?_, h.metadata⟩
      · refine h.between.frame rfl fun i' k ho => ?_
        subst ho
        obtain ⟨req', -, hreq', -⟩ := h.between
        refine Function.update_of_ne ?_ ..
        rintro rfl
        rw [hown] at hreq'
        cases hreq'
      · by_cases hj : j = i
        · subst hj
          simp only [TaskOk, Function.update_self, SpinLock.State.place_move]
          exact ⟨hreq, .inl trivial⟩
        · exact (h.tasks j).frame (Function.update_of_ne hj ..) (Function.update_of_ne hj ..)
            (fun _ hr => hr) fun _ _ _ _ => rfl

theorem acquire {jb : Job} {res : Bool} {lock : SpinLock.State ι PfAlloc Job Point}
    (h : Good mm md mem₀ s o a live) (hlock : SpinLock.Step work s.lock (.acquire i jb res) lock) :
    ∃ o', Good mm md mem₀ { s with lock := lock } o' a live := by
  have hnext := h.lock.step hlock
  cases hlock with
  | acquire hi =>
      have htask : ∃ req, s.task i = .calling req ∧ req.Allowed i s.owner ∧ req.job = jb := by
        have hok := h.tasks i
        unfold TaskOk at hok
        rw [hi] at hok
        cases hti : s.task i with
        | own =>
            rw [hti] at hok
            cases hok
        | calling req =>
            rw [hti] at hok
            obtain ⟨hallowed, hplace | ⟨k, hk⟩⟩ := hok
            · exact ⟨req, rfl, hallowed, (SpinLock.Place.acquire.inj hplace).symm⟩
            · cases hk
        | zeroing nr vaddr n =>
            rw [hti] at hok
            cases hok.1
      obtain ⟨req, hreq, hallowed, rfl⟩ := htask
      have hother : ∀ (p : SpinLock.Place Job Point) (j : ι), j ≠ i →
          Function.update s.lock.place i p j = s.lock.place j := fun p j hj => Function.update_of_ne hj ..
      obtain ⟨o', ho', -⟩ := hnext
      have hown := h.lock
      cases hown with
      | free hflag hout =>
          have hacq : SpinLock.atomicAcquire s.lock.flag = (true, SpinLock.spinlockUsed) := by
            rw [hflag, SpinLock.atomicAcquire_free]
          rw [hacq] at ho' ⊢
          obtain rfl := ho'.eq_some (i := i) (k := work.start req.job) (Function.update_self ..)
          obtain ⟨n, hstart⟩ := rest_start a req.job
          refine ⟨_, ho', h.inv, h.owned, ⟨req, n, hreq, ?_⟩, fun j => ?_, h.metadata⟩
          · have hobj : s.lock.obj = a := h.between
            change Rest a req.job n _ s.lock.obj
            rw [hobj]
            exact hstart
          · by_cases hj : j = i
            · subst hj
              simp only [TaskOk, hreq, Function.update_self]
              exact ⟨hallowed, .inr ⟨_, rfl⟩⟩
            · exact (h.tasks j).frame rfl (hother _ j hj) (fun _ hr => hr) fun _ _ _ _ => rfl
      | @used i' k' hflag hi' hout =>
          have hacq : SpinLock.atomicAcquire s.lock.flag = (false, s.lock.flag) := by
            rw [hflag, SpinLock.atomicAcquire_used]
          refine ⟨some (i', k'), ?_⟩
          rw [hacq]
          simp only [Bool.false_eq_true, if_false]
          rw [← hi, Function.update_eq_self]
          exact h

theorem body {lock : SpinLock.State ι PfAlloc Job Point} (h : Good mm md mem₀ s o a live)
    (hlock : SpinLock.Step work s.lock (.work i) lock) : ∃ o', Good mm md mem₀ { s with lock := lock } o' a live := by
  obtain ⟨o', ho', -⟩ := h.lock.step hlock
  cases hlock with
  | @work i k k' a' hi hk =>
      obtain rfl := h.lock.eq_some hi
      obtain rfl := ho'.eq_some (i := i) (k := k') (Function.update_self ..)
      obtain ⟨req, n, hreq, hrest⟩ := h.between
      obtain ⟨m, -, hnext⟩ := hrest.step h.inv.hintOk hk
      refine ⟨_, ho', h.inv, h.owned, ⟨req, m, hreq, hnext⟩, fun j => ?_, h.metadata⟩
      by_cases hj : j = i
      · subst hj
        have hok := h.tasks j
        simp only [TaskOk, hreq, Function.update_self] at hok ⊢
        exact ⟨hok.1, .inr ⟨_, rfl⟩⟩
      · exact (h.tasks j).frame rfl (Function.update_of_ne hj ..) (fun _ hr => hr) fun _ _ _ _ => rfl

theorem release {req : Request} {k : Point} {lock : SpinLock.State ι PfAlloc Job Point}
    (h : Good mm md mem₀ s o a live) (hmd : 0 < md.2) (hcalling : s.task i = .calling req)
    (hi : s.lock.place i = .inside k) (hlock : SpinLock.Step work s.lock (.release i) lock) :
    ∃ a' live', Commit mm md s a' i req k.result live' ∧
      Good mm md mem₀
        { s with
          lock := lock
          task := Function.update s.task i (req.next k.result)
          owner := req.job.owner i k.result s.owner } none a' live' := by
  obtain ⟨o', ho', -⟩ := h.lock.step hlock
  have hallowed : req.Allowed i s.owner := by
    have hok := h.tasks i
    rw [TaskOk, hcalling] at hok
    exact hok.1
  cases hlock with
  | @release i k' hi' hk =>
      obtain rfl := SpinLock.Place.inside.inj (hi.symm.trans hi')
      obtain rfl := h.lock.eq_some hi
      obtain ⟨req', n, hreq', hrest⟩ := h.between
      obtain rfl := Task.calling.inj (hcalling.symm.trans hreq')
      obtain ⟨live', hcommit⟩ := h.commit hmd hallowed hrest hk
      refine ⟨_, live', hcommit, ?_, hcommit.inv, hcommit.owned, rfl, fun j => ?_, h.metadata⟩
      · cases ho' with
        | free hflag hout => exact .free hflag hout
        | @used j k' hflag hj hout =>
            obtain ⟨hne, hj⟩ := SpinLock.update_inside (by simp) hj
            have heq := h.lock.eq_some hj
            exact absurd (congrArg Prod.fst (Option.some.inj heq)).symm hne
      · by_cases hj : j = i
        · subst hj
          simp only [TaskOk, Function.update_self]
          cases hres : k.result with
          | none => cases req <;> exact trivial
          | some addr =>
              cases req with
              | getPagesZeroed nr =>
                  obtain ⟨p, rfl, hp⟩ := hcommit.given nr addr rfl hres
                  rw [hres] at hp
                  exact ⟨trivial, p, rfl, hp, Nat.zero_le _, fun b hb => absurd hb (Nat.not_lt_zero _)⟩
              | _ => exact trivial
        · exact (h.tasks j).frame (Function.update_of_ne hj ..) (Function.update_of_ne hj ..)
            (fun r hr => hcommit.others r j hj hr) fun _ _ _ _ => rfl

theorem setMem {addr : ℕ} {v : BitVec 8} (h : Good mm md mem₀ s o a live) (task : ι → Task)
    (hr : s.owner r = some i) (haddr : physToPfn addr ∈ frames r)
    (hother : ∀ j ≠ i, task j = s.task j) (hbetween : Between { s with task := task } a o)
    (htask : TaskOk { s with task := task, mem := Function.update s.mem addr v } i) :
    Good mm md mem₀ { s with task := task, mem := Function.update s.mem addr v } o a live := by
  refine ⟨h.lock, h.inv, h.owned, hbetween, fun j => ?_, fun addr' haddr' => ?_⟩
  · by_cases hj : j = i
    · subst hj
      exact htask
    · refine (h.tasks j).frame (hother j hj) rfl (fun _ hr => hr) fun t ht addr' haddr' => ?_
      refine Function.update_of_ne ?_ ..
      rintro rfl
      obtain rfl := h.eq_of_mem hr ht haddr haddr'
      rw [hr] at ht
      exact hj (Option.some.inj ht).symm
  · rw [← h.metadata addr' haddr']
    refine Function.update_of_ne ?_ ..
    rintro rfl
    exact ((h.inv.liveUsable _ (h.live_of_owner hr)).2 _ haddr).2 haddr'

theorem between_task {t : Task} (h : Good mm md mem₀ s o a live) (hi : ∀ req, s.task i ≠ .calling req) :
    Between { s with task := Function.update s.task i t } a o := by
  refine h.between.frame rfl fun i' k ho => ?_
  subst ho
  obtain ⟨req, -, hreq, -⟩ := h.between
  refine Function.update_of_ne ?_ ..
  rintro rfl
  exact hi req hreq

theorem zero {nr vaddr n : ℕ} (h : Good mm md mem₀ s o a live) (hmd : 0 < md.2)
    (hi : s.task i = .zeroing nr vaddr n) (hn : n < u64 (nr <<< pageShift)) :
    Good mm md mem₀
      { s with
        task := Function.update s.task i (.zeroing nr vaddr (n + 1))
        mem := Function.update s.mem (virtToPhys (u64 (vaddr + n))) 0 } o a live := by
  obtain ⟨p, hvaddr, hp, hsize, -, hzero, haddr⟩ := h.zeroing_addr hmd hi
  rw [hsize] at hn
  rw [haddr n hn]
  refine h.setMem _ hp (mem_frames_of_lt hn) (fun j hj => Function.update_of_ne hj ..)
    (h.between_task fun req => by rw [hi]; simp) ?_
  have hok := h.tasks i
  rw [TaskOk, hi] at hok
  simp only [TaskOk, Function.update_self]
  refine ⟨hok.1, p, hvaddr, hp, hn, fun b hb => ?_⟩
  by_cases hbn : b = n
  · rw [hbn, Function.update_self]
  · rw [Function.update_of_ne (by omega)]
    exact hzero b (by omega)

theorem zeroed {nr vaddr n : ℕ} (h : Good mm md mem₀ s o a live) (hi : s.task i = .zeroing nr vaddr n) :
    Good mm md mem₀ { s with task := Function.update s.task i .own } o a live := by
  refine ⟨h.lock, h.inv, h.owned, h.between_task fun req => by rw [hi]; simp, fun j => ?_, h.metadata⟩
  by_cases hj : j = i
  · subst hj
    have hok := h.tasks j
    rw [TaskOk, hi] at hok
    simp only [TaskOk, Function.update_self]
    exact hok.1
  · exact (h.tasks j).frame (Function.update_of_ne hj ..) rfl (fun _ hr => hr) fun _ _ _ _ => rfl

theorem write {addr : ℕ} {v : BitVec 8} (h : Good mm md mem₀ s o a live) (hown : s.task i = .own)
    (hr : s.owner r = some i) (haddr : physToPfn addr ∈ frames r) :
    Good mm md mem₀ { s with mem := Function.update s.mem addr v } o a live := by
  have hbetween : Between { s with task := s.task } a o := h.between
  refine h.setMem s.task hr haddr (fun _ _ => rfl) hbetween ?_
  have hok := h.tasks i
  simp only [TaskOk, hown] at hok ⊢
  exact hok

theorem give {i' : ι} (h : Good mm md mem₀ s o a live) (hown : s.task i = .own) (hr : s.owner r = some i) :
    Good mm md mem₀ { s with owner := Function.update s.owner r (some i') } o a live := by
  refine ⟨h.lock, h.inv, fun t => ?_, h.between.frame rfl fun _ _ _ => rfl, fun j => ?_, h.metadata⟩
  · by_cases ht : t = r
    · subst ht
      simp [h.live_of_owner hr]
    · simp only [Function.update_of_ne ht]
      exact h.owned t
  · by_cases hj : j = i
    · subst hj
      have hok := h.tasks j
      simp only [TaskOk, hown] at hok ⊢
      exact hok
    · refine (h.tasks j).frame rfl rfl (fun t ht => ?_) fun _ _ _ _ => rfl
      refine (Function.update_of_ne ?_ ..).trans ht
      rintro rfl
      rw [hr] at ht
      exact hj (Option.some.inj ht).symm

/-- One step, and what it means for a CPU that does not make it. -/
theorem step (h : Good mm md mem₀ s o a live) (hmd : 0 < md.2) (hstep : Step s l s') :
    (∃ o' a' live', Good mm md mem₀ s' o' a' live') ∧ ∀ j ≠ l.actor, ∀ r, s.owner r = some j →
      s'.owner r = some j ∧ ∀ addr, physToPfn addr ∈ frames r → s'.mem addr = s.mem addr := by
  have hbyte : ∀ {i : ι} {t : ℕ × ℕ} {addr : ℕ} {v : BitVec 8}, s.owner t = some i → physToPfn addr ∈ frames t →
      ∀ j ≠ i, ∀ r, s.owner r = some j → ∀ addr', physToPfn addr' ∈ frames r →
        Function.update s.mem addr v addr' = s.mem addr' := by
    intro i t addr v ht haddr j hj r hr addr' haddr'
    refine Function.update_of_ne ?_ ..
    rintro rfl
    obtain rfl := h.eq_of_mem ht hr haddr haddr'
    rw [ht] at hr
    exact hj (Option.some.inj hr).symm
  cases hstep with
  | call hown hreq hlock => exact ⟨⟨_, _, _, h.call hown hreq hlock⟩, fun _ _ _ hr => ⟨hr, fun _ _ => rfl⟩⟩
  | acquire hlock =>
      obtain ⟨o', h'⟩ := h.acquire hlock
      exact ⟨⟨_, _, _, h'⟩, fun _ _ _ hr => ⟨hr, fun _ _ => rfl⟩⟩
  | body hlock =>
      obtain ⟨o', h'⟩ := h.body hlock
      exact ⟨⟨_, _, _, h'⟩, fun _ _ _ hr => ⟨hr, fun _ _ => rfl⟩⟩
  | release hcalling hi hlock =>
      obtain ⟨a', live', hcommit, h'⟩ := h.release hmd hcalling hi hlock
      exact ⟨⟨_, _, _, h'⟩, fun j hj r hr => ⟨hcommit.others r j hj hr, fun _ _ => rfl⟩⟩
  | @zero i nr vaddr n hi hn =>
      obtain ⟨p, -, hp, hsize, -, -, haddr⟩ := h.zeroing_addr hmd hi
      have hmem : physToPfn (virtToPhys (u64 (vaddr + n))) ∈ frames (p, nr) := by
        rw [hsize] at hn
        rw [haddr _ hn]
        exact mem_frames_of_lt hn
      have hkeep := hbyte (v := 0) hp hmem
      exact ⟨⟨_, _, _, h.zero hmd hi hn⟩, fun j hj r hr => ⟨hr, hkeep j hj r hr⟩⟩
  | zeroed hi => exact ⟨⟨_, _, _, h.zeroed hi⟩, fun _ _ _ hr => ⟨hr, fun _ _ => rfl⟩⟩
  | @write i t addr v hown ht haddr =>
      exact ⟨⟨_, _, _, h.write hown ht haddr⟩, fun j hj r hr => ⟨hr, hbyte ht haddr j hj r hr⟩⟩
  | @give i i' t hown ht =>
      refine ⟨⟨_, _, _, h.give hown ht⟩, fun j hj r hr => ⟨?_, fun _ _ => rfl⟩⟩
      refine (Function.update_of_ne ?_ ..).trans hr
      rintro rfl
      rw [ht] at hr
      exact hj (Option.some.inj hr).symm

/-- Inside of a call there is a next statement, up to the release of the lock. -/
theorem progress (h : Good mm md mem₀ s o a live) (hmd : 0 < md.2) {k : Point}
    (hi : s.lock.place i = .inside k) : k.Finished ∨ ∃ s', Step s (.step i) s' := by
  obtain rfl := h.lock.eq_some hi
  obtain ⟨req, n, hreq, hrest⟩ := h.between
  have hallowed : req.Allowed i s.owner := by
    have hok := h.tasks i
    rw [TaskOk, hreq] at hok
    exact hok.1
  have hdef : Defined a req.job := by
    cases hjob : req.job with
    | getPages nr =>
        obtain ⟨a', res, hcall, -⟩ := h.inv.getPagesImpl nr
        exact ⟨_, hcall⟩
    | freePages nr addr =>
        obtain ⟨p, hp, rfl, -⟩ := h.allowed_free hmd hallowed hjob
        obtain ⟨a', hcall, -⟩ := h.inv.freePagesRaw (h.live_of_owner hp)
        exact ⟨a', hcall⟩
  rcases hrest.progress h.inv.hintOk hdef with hk | ⟨k', a', hk⟩
  · exact .inl hk
  · exact .inr ⟨_, .body (.work hi hk)⟩

end Good

/-! ### The length of a call -/

section Length

variable {n : ℕ}

/-- A CPU holds the lock, with at most `n` statements in front of it. -/
def Left (s : State ι) (i : ι) (n : ℕ) : Prop :=
  ∃ a₀ job k, a₀.HintOk ∧ s.lock.place i = .inside k ∧ Rest a₀ job n k s.lock.obj

theorem Left.of_eq (h : Left s i n) (hplace : s'.lock.place i = s.lock.place i)
    (hobj : s'.lock.obj = s.lock.obj) : Left s' i n := by
  obtain ⟨a₀, job, k, hok, hi, hrest⟩ := h
  refine ⟨a₀, job, k, hok, hplace.trans hi, ?_⟩
  rw [hobj]
  exact hrest

variable [DecidableEq ι]

/-- The statements of a CPU in a run. -/
def steps (i : ι) (ls : List (Label ι)) : ℕ :=
  (ls.filterMap fun
    | .step j => if j = i then some () else none
    | _ => none).length

theorem steps_append (i : ι) (ls : List (Label ι)) (l : Label ι) :
    steps i (ls ++ [l]) = steps i ls + steps i [l] := by
  rw [steps, List.filterMap_append, List.length_append]
  rfl

theorem steps_other (hj : j ≠ i) : steps i [.step j] = 0 := by
  simp [steps, hj]

theorem steps_self (i : ι) : steps i [.step i] = 1 := by
  simp [steps]

theorem Left.step (hlock : SpinLock.Owner s.lock o) (h : Left s i n) (hstep : Step s l s')
    (hl : ∀ req res, l ≠ .release i req res) : ∃ m, Left s' i m ∧ m + steps i [l] ≤ n := by
  obtain ⟨a₀, job, k, hok, hi, hrest⟩ := id h
  have hother : ∀ {j p} {f : SpinLock.Place Job Point}, s.lock.place j = p → (∀ k, p ≠ .inside k) →
      Function.update s.lock.place j f i = s.lock.place i := by
    intro j p f hj hp
    refine Function.update_of_ne ?_ ..
    rintro rfl
    exact hp k (hj.symm.trans hi)
  cases hstep with
  | call _ _ hstep =>
      cases hstep with
      | call hj => exact ⟨n, h.of_eq (hother hj fun _ hp => nomatch hp) rfl, le_rfl⟩
  | @acquire j _ _ _ hstep =>
      cases hstep with
      | acquire hj =>
          have hne : j ≠ i := by
            rintro rfl
            rw [hi] at hj
            cases hj
          refine ⟨n, h.of_eq (hother hj fun _ hp => nomatch hp) rfl, ?_⟩
          rw [steps_other hne]
          exact le_rfl
  | @body j _ hstep =>
      cases hstep with
      | @work j k₁ k' a' hj hk =>
          have hown := (hlock.eq_some hj).symm.trans (hlock.eq_some hi)
          obtain ⟨rfl, rfl⟩ := Prod.mk.inj (Option.some.inj hown)
          obtain ⟨m, hm, hnext⟩ := hrest.step hok hk
          refine ⟨m, ⟨a₀, job, k', hok, Function.update_self .., hnext⟩, ?_⟩
          rw [steps_self]
          exact hm
  | @release j req k₁ _ _ _ hstep =>
      cases hstep with
      | release hj =>
          refine ⟨n, h.of_eq (Function.update_of_ne ?_ ..) rfl, le_rfl⟩
          rintro rfl
          exact hl _ _ rfl
  | zero | zeroed | write | give => exact ⟨n, h.of_eq rfl rfl, le_rfl⟩

/-- As long as a CPU has not released the lock, it has made at most the statements that it had in front of it,
whatever the others do meanwhile. -/
theorem Left.run {ls : List (Label ι)} (hmd : 0 < md.2) (hgood : Good mm md mem₀ s o a live) (h : Left s i n)
    (hrun : Run Step s ls s') (hno : ∀ req res, .release i req res ∉ ls) : steps i ls ≤ n := by
  have hall := hrun.history (I := fun ls s' => (∃ o a live, Good mm md mem₀ s' o a live) ∧
    ((∀ req res, .release i req res ∉ ls) → ∃ m, Left s' i m ∧ m + steps i ls ≤ n))
    ⟨⟨o, a, live, hgood⟩, fun _ => ⟨n, h, le_rfl⟩⟩ ?_
  · obtain ⟨m, -, hm⟩ := hall.2 hno
    omega
  rintro ls s₁ l s₂ ⟨⟨o, a, live, hgood⟩, ih⟩ hstep
  refine ⟨(hgood.step hmd hstep).1, fun hno => ?_⟩
  obtain ⟨m, hleft, hm⟩ := ih fun req res hmem => hno req res (List.mem_append_left _ hmem)
  obtain ⟨m', hleft', hm'⟩ := hleft.step hgood.lock hstep fun req res hl => hno req res (by simp [hl])
  refine ⟨m', hleft', ?_⟩
  rw [steps_append]
  omega

end Length

/-! ### Whole runs -/

section Runs

variable [DecidableEq ι] {ls : List (Label ι)}

theorem metadataRange_pos {memInfo : SysMemInfo} {offset : ℕ}
    (hinit : earlyInitPageFrameAllocator memInfo mm offset = some (some a)) :
    0 < (metadataRange memInfo mm).2 := by
  rw [metadataRange]
  cases hfind : metadataEntry mm (metadataSize memInfo) with
  | none =>
      rw [earlyInitPageFrameAllocator, findContiguousMemoryRegion_eq] at hinit
      rw [metadataSize] at hfind
      rw [hfind] at hinit
      cases hinit
  | some e =>
      change 0 < byteLenToPages (pfAllocStructSize + bitmapSizeOf memInfo.nrOfPfns)
      rw [byteLenToPages, pfAllocStructSize, pageSize]
      split_ifs <;> omega

theorem good_run (hmm : MemmapOk mm) {offset : ℕ}
    (hinit : earlyInitPageFrameAllocator (initSystemMemoryInfo (getBootMemInfo mm)) mm offset =
      some (some a))
    (h : Run Step (boot a mem₀) ls s) :
    ∃ o a' live, Good mm (metadataRange (initSystemMemoryInfo (getBootMemInfo mm)) mm) mem₀ s o a' live := by
  refine h.invariant (I := fun s => ∃ o a' live,
    Good mm (metadataRange (initSystemMemoryInfo (getBootMemInfo mm)) mm) mem₀ s o a' live) ?_ ?_
  · rintro s l s' ⟨o, a', live, hgood⟩ hstep
    exact (hgood.step (metadataRange_pos hinit) hstep).1
  · refine ⟨none, a, [], SpinLock.owner_boot a, inv_run hmm hinit (Run.nil _), fun r => ?_, rfl, fun i => rfl,
      fun _ _ => rfl⟩
    simp [boot]

/-- Any number of CPUs allocate, free, zero and use page frames, in any interleaving.  The ranges in use
are disjoint and consist of usable frames outside of the allocator's own; no CPU that holds the lock stops
in front of its release, so that no access misses the bitmap, and it gets there within the statements of its
call, so that no search runs forever; while the lock is free, exactly the frames in use, the metadata and the
unusable frames are marked, and the counters are exact; and nobody writes to the frames of the allocator. -/
theorem frames_owned_once (hmm : MemmapOk mm) {offset : ℕ}
    (hinit : earlyInitPageFrameAllocator (initSystemMemoryInfo (getBootMemInfo mm)) mm offset =
      some (some a))
    (h : Run Step (boot a mem₀) ls s) :
    let md := metadataRange (initSystemMemoryInfo (getBootMemInfo mm)) mm
    (∀ r t i j, s.owner r = some i → s.owner t = some j → r ≠ t → Disjoint (frames r) (frames t)) ∧
    (∀ r i, s.owner r = some i → ∀ q ∈ frames r, UsableFrame mm q ∧ q ∉ frames md) ∧
    (∀ i k, s.lock.place i = .inside k → (k.Finished ∨ ∃ s', Step s (.step i) s') ∧
      ∃ req, s.task i = .calling req ∧ ∀ ls' s', Run Step s ls' s' → (∀ req' res, .release i req' res ∉ ls') →
        steps i ls' ≤ req.job.statements s.lock.obj.bitmapSize) ∧
    (s.lock.flag = SpinLock.spinlockFree →
      (∀ q, bitSet s.lock.obj.bitmap q = false ↔
        UsableFrame mm q ∧ q ∉ frames md ∧ ∀ r i, s.owner r = some i → q ∉ frames r) ∧
      s.lock.obj.allocatableFrames = (clearFrames s.lock.obj.bitmap).card ∧
      ∃ live : List (ℕ × ℕ), live.Nodup ∧ (∀ r, r ∈ live ↔ (s.owner r).isSome) ∧
        s.lock.obj.allocatedPageFrames = md.2 + (live.map Prod.snd).sum) ∧
    ∀ addr, physToPfn addr ∈ frames md → s.mem addr = mem₀ addr := by
  intro md
  obtain ⟨o, a', live, hgood⟩ := good_run hmm hinit h
  have howned : ∀ r, r ∈ live ↔ ∃ i, s.owner r = some i := fun r => by
    rw [hgood.owned, Option.isSome_iff_exists]
  refine ⟨fun r t i j hr ht hne => ?_, fun r i hr => (hgood.inv.liveUsable r (hgood.live_of_owner hr)).2,
    fun i k hi => ⟨hgood.progress (metadataRange_pos hinit) hi, ?_⟩, fun hfree => ?_, hgood.metadata⟩
  · refine Finset.disjoint_left.mpr fun q hqr hqt => hne ?_
    exact hgood.eq_of_mem hr ht hqr hqt
  · obtain rfl := hgood.lock.eq_some hi
    obtain ⟨req, n, hreq, hrest⟩ := hgood.between
    refine ⟨req, hreq, fun ls' s' hrun hno => ?_⟩
    have hleft : Left s i n := ⟨a', req.job, k, hgood.inv.hintOk, hi, hrest⟩
    exact (hleft.run (metadataRange_pos hinit) hgood hrun hno).trans hrest.le
  · have hobj : s.lock.obj = a' := by
      have hlock := hgood.lock
      cases hlock with
      | free => exact hgood.between
      | used hflag =>
          rw [hflag] at hfree
          exact absurd hfree (by decide)
    rw [hobj]
    refine ⟨fun q => ?_, hgood.inv.allocatable, live, hgood.inv.nodup, hgood.owned, hgood.inv.allocated⟩
    rw [hgood.inv.bits]
    refine and_congr_right fun _ => and_congr_right fun _ => ⟨fun hq r i hr => ?_, fun hq r hr => ?_⟩
    · exact hq r (hgood.live_of_owner hr)
    · obtain ⟨i, hi⟩ := (howned r).mp hr
      exact hq r i hi

/-- CPU `0` of two asks for a zeroed page and gets to `memset`, with all memory `0xFF` before. -/
theorem sample_run : ∃ (ls : List (Label (Fin 2))) (s : State (Fin 2)),
    Run Step (boot fourFramesInit fun _ => 0xFF) ls s ∧ s.task 0 = .zeroing 1 (physToVirt (pfnToPhys 1)) 0 ∧
      s.owner (1, 1) = some 0 := by
  have hallowed : (Request.getPagesZeroed 1).Allowed (0 : Fin 2) (boot fourFramesInit fun _ => 0xFF).owner := trivial
  have h := (Run.nil (boot fourFramesInit fun _ => 0xFF : State (Fin 2))).snoc
    (Step.call (i := 0) rfl hallowed (.call rfl))
  have h := h.snoc (Step.acquire (i := 0) (j := .getPages 1) (.acquire rfl))
  have h := h.snoc (Step.body (i := 0) (.work rfl rfl))
  have h := h.snoc (Step.body (i := 0) (.work rfl rfl))
  have h := h.snoc (Step.body (i := 0) (.work rfl rfl))
  have h := h.snoc (Step.body (i := 0) (.work rfl rfl))
  have h := h.snoc (Step.body (i := 0) (.work rfl rfl))
  have h := h.snoc (Step.body (i := 0) (.work rfl rfl))
  have h := h.snoc (Step.body (i := 0) (.work rfl rfl))
  have h := h.snoc (Step.body (i := 0) (.work rfl rfl))
  have h := h.snoc (Step.release (i := 0) rfl rfl (.release rfl trivial))
  exact ⟨_, _, h, rfl, rfl⟩

theorem frames_owned_once_sample :
    let md := metadataRange (initSystemMemoryInfo (getBootMemInfo fourFrames)) fourFrames
    ∃ s : State (Fin 2), s.owner (1, 1) = some 0 ∧
      (∀ q ∈ frames (1, 1), UsableFrame fourFrames q ∧ q ∉ frames md) ∧
      ∀ addr, physToPfn addr ∈ frames md → s.mem addr = 0xFF := by
  intro md
  obtain ⟨ls, s, h, -, hr⟩ := sample_run
  obtain ⟨-, husable, -, -, hmetadata⟩ := frames_owned_once fourFrames_ok fourFrames_init h
  exact ⟨s, hr, husable _ 0 hr, hmetadata⟩

/-- What a CPU has in its ranges stays as it is while only others move. -/
theorem kept_run (hmm : MemmapOk mm) {offset : ℕ}
    (hinit : earlyInitPageFrameAllocator (initSystemMemoryInfo (getBootMemInfo mm)) mm offset =
      some (some a))
    (h : Run Step (boot a mem₀) ls s) {ls' : List (Label ι)}
    (h' : Run (fun s l s' => Step s l s' ∧ l.actor ≠ i) s ls' s') (hr : s.owner r = some i) :
    s'.owner r = some i ∧ ∀ addr, physToPfn addr ∈ frames r → s'.mem addr = s.mem addr := by
  have hgood := good_run hmm hinit h
  refine (h'.invariant_of (I := fun s' => (∃ o a' live,
      Good mm (metadataRange (initSystemMemoryInfo (getBootMemInfo mm)) mm) mem₀ s' o a' live) ∧
    s'.owner r = some i ∧ ∀ addr, physToPfn addr ∈ frames r → s'.mem addr = s.mem addr)
    ?_ ⟨hgood, hr, fun _ _ => rfl⟩).2
  rintro s₁ l s₂ ⟨⟨o, a', live, hgood⟩, hr₁, hmem⟩ hl hstep
  obtain ⟨hnext, hothers⟩ := hgood.step (metadataRange_pos hinit) hstep
  obtain ⟨hr₂, hmem₂⟩ := hothers i hl.symm r hr₁
  exact ⟨hnext, hr₂, fun addr haddr => (hmem₂ addr haddr).trans (hmem addr haddr)⟩

/-- When `get_pages_zeroed` returns, the CPU uses the pages and all their bytes are zero, whatever the other
CPUs did meanwhile; and as long as only other CPUs make steps, a range stays with its CPU, with every byte
of it as it was. -/
theorem zeroed_pages_zero (hmm : MemmapOk mm) {offset : ℕ}
    (hinit : earlyInitPageFrameAllocator (initSystemMemoryInfo (getBootMemInfo mm)) mm offset =
      some (some a))
    (h : Run Step (boot a mem₀) ls s) :
    (∀ i nr vaddr s', Step s (.zeroed i nr vaddr) s' → ∃ p, vaddr = physToVirt (pfnToPhys p) ∧
      s'.owner (p, nr) = some i ∧ ∀ b < nr * 4096, s'.mem (virtToPhys (u64 (vaddr + b))) = 0) ∧
    ∀ i r ls' s', Run (fun s l s' => Step s l s' ∧ l.actor ≠ i) s ls' s' → s.owner r = some i →
      s'.owner r = some i ∧ ∀ addr, physToPfn addr ∈ frames r → s'.mem addr = s.mem addr := by
  refine ⟨fun i nr vaddr s' hstep => ?_, fun i r ls' s' h' hr => kept_run hmm hinit h h' hr⟩
  obtain ⟨o, a', live, hgood⟩ := good_run hmm hinit h
  cases hstep with
  | @zeroed i nr vaddr n hi hn =>
      obtain ⟨p, hvaddr, hp, hsize, hle, hzero, haddr⟩ := hgood.zeroing_addr (metadataRange_pos hinit) hi
      refine ⟨p, hvaddr, hp, fun b hb => ?_⟩
      rw [haddr b hb]
      exact hzero b (by omega)

theorem zero_run {s₀ : State ι} {nr vaddr : ℕ} (h : Run Step s₀ ls s) (hi : s.task i = .zeroing nr vaddr 0) (n : ℕ)
    (hn : n ≤ u64 (nr <<< pageShift)) : ∃ ls s', Run Step s₀ ls s' ∧ s'.task i = .zeroing nr vaddr n := by
  induction n with
  | zero => exact ⟨ls, s, h, hi⟩
  | succ n ih =>
      obtain ⟨ls', s', h', hi'⟩ := ih (by omega)
      exact ⟨_, _, h'.snoc (.zero hi' hn), Function.update_self ..⟩

theorem zeroed_pages_zero_sample : ∃ (s' : State (Fin 2)) (p : ℕ), s'.owner (p, 1) = some 0 ∧
    ∀ b < 4096, s'.mem (virtToPhys (u64 (physToVirt (pfnToPhys 1) + b))) = 0 := by
  obtain ⟨ls, s, h, hi, -⟩ := sample_run
  obtain ⟨ls', s₁, h', hi'⟩ := zero_run h hi _ le_rfl
  have hstep : Step s₁ (.zeroed 0 1 (physToVirt (pfnToPhys 1))) _ := .zeroed hi' (lt_irrefl _)
  obtain ⟨p, -, howner, hzero⟩ := (zeroed_pages_zero fourFrames_ok fourFrames_init h').1 _ _ _ _ hstep
  exact ⟨_, p, howner, hzero⟩

end Runs

end Smp

end HyveMind.PfAlloc
