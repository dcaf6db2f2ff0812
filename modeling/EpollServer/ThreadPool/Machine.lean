import EpollServer.ThreadPool.Basic
import EpollServer.Library.Tally
import EpollServer.Library.Run
import Mathlib.Data.List.Basic

/-!
# The thread pool as a concurrent system

One thread runs the loop of `create`, any number of clients call `submit`, every created
thread runs `thread_routine`, and one caller at a time (it holds `mtx_`) runs `shutdown`.
The pthread calls succeed. A critical section under `lock_` is one step, and so is every
access of an atomic counter outside of it; all accesses to the ring, to `shutdown_` and to
`shutdown_mode_` are inside critical sections.

What a running task does is left open: `R` is the state of a task in progress,
`start` its state when `run` is called, and `Act.work` changes it in any way.

`accepted`, `delivered` and `joined` are history: no step reads them.
-/
namespace EpollServer.ThreadPool

open Library

/-- Where a created thread is in `thread_routine`. -/
inductive Pc (R : Type) where
  /-- Created, no instruction executed yet. -/
  | created
  /-- After `started_num_++`. -/
  | started
  /-- After `thread_count_++`. -/
  | counted
  /-- About to lock `lock_` at the top of the loop. -/
  | ready
  /-- Inside `pthread_cond_wait`, not holding `lock_`. -/
  | parked
  /-- Unparked, about to get `lock_` back. -/
  | woken
  | running (r : R)
  /-- Out of the loop, `lock_` released. -/
  | leaving
  | terminated
  deriving DecidableEq

/-- A created thread; `cpus` is the set it passed to `pthread_setaffinity_np`. -/
structure Thread (R : Type) where
  pc : Pc R
  cpus : Option (Finset ℕ)
  deriving DecidableEq

/-- Where the caller of `create` is: before the call, in iteration `i` of its loop over
`n` threads, or returned. -/
inductive Creator where
  | idle
  | zeroMask (i n cpuCore : Int)
  | setMask (i n cpuCore : Int)
  | spawn (i n cpuCore : Int)
  | returned (code : Int)
  deriving DecidableEq

/-- Where the caller of `shutdown` is after the critical section of
`shutdown_interval`. -/
inductive Closer where
  | idle
  /-- At the loop test `i < thread_count_`. -/
  | joinTest (i : ℕ)
  /-- In `pthread_join(threads_.at(i))`. -/
  | joinWait (i : ℕ)
  /-- At the test `started_num_ > 0` of `free_resource`. -/
  | freeResource
  | destroy
  | delete
  | deleted
  deriving DecidableEq

structure State (Fn Arg R : Type) where
  pool : Pool Fn Arg
  creator : Creator
  threads : List (Thread R)
  closer : Closer
  /-- The lock is destroyed or the object deleted. -/
  released : Bool
  fault : Option Fault
  accepted : List (Task Fn Arg)
  delivered : List (Task Fn Arg)
  joined : List ℕ

variable {Fn Arg R : Type}

/-- A pool object after its constructor. -/
def State.constructed : State Fn Arg R where
  pool := .constructed
  creator := .idle
  threads := []
  closer := .idle
  released := false
  fault := none
  accepted := []
  delivered := []
  joined := []

inductive Act (Fn Arg R : Type) where
  /-- `create` is called and makes its assignments. -/
  | create (cpuCore threadCount queueSize : Int)
  /-- The next statement of `create`'s loop; `ok` is the outcome of `pthread_create`. -/
  | creator (ok : Bool)
  /-- A client calls `submit`; its signal unparks the threads `woken`. -/
  | submit (args : Option Arg) (func : Option Fn) (woken : List ℕ)
  /-- A spurious wake-up. -/
  | wake (i : ℕ)
  /-- The next step of thread `i`; a running task returns. -/
  | thread (i : ℕ)
  /-- The task that thread `i` runs goes on to state `r`. -/
  | work (i : ℕ) (r : R)
  /-- `shutdown` is called and passes the critical section of `shutdown_interval`. -/
  | shutdown (mode : ShutdownMode)
  /-- The next step of the caller of `shutdown`. -/
  | closer

def Pc.isParked : Pc R → Bool
  | .parked => true
  | _ => false

/-- The next step of the thread uses the pool object. -/
def Pc.usesPool : Pc R → Bool
  | .created | .started | .counted | .ready | .woken => true
  | .parked | .running _ | .leaving | .terminated => false

/-- Unpark the parked threads among the selected ones. -/
def unpark (selected : ℕ → Bool) (threads : List (Thread R)) : List (Thread R) :=
  threads.mapIdx fun i t =>
    if selected i && t.pc.isParked then { t with pc := .woken } else t

/-- `pthread_cond_signal` may unpark the listed threads: at least one of them is parked,
unless none is parked at all. -/
def signals (woken : List ℕ) (threads : List (Thread R)) : Bool :=
  !threads.any (·.pc.isParked) || woken.any fun i => threads[i]?.any (·.pc.isParked)

def State.setThread (s : State Fn Arg R) (i : ℕ) (t : Thread R) : State Fn Arg R :=
  { s with threads := s.threads.set i t }

def State.raise (s : State Fn Arg R) (f : Fault) : State Fn Arg R := { s with fault := some f }

/-- The loop test of `create` in iteration `i`. -/
def Creator.next (i n cpuCore : Int) : Creator :=
  if i < n then .zeroMask i n cpuCore else .returned 0

def creatorStep (s : State Fn Arg R) (ok : Bool) : Option (State Fn Arg R) :=
  match s.creator with
  | .idle | .returned _ => none
  | .zeroMask i n cpuCore =>
    some { s with pool := { s.pool with mask := ∅ }, creator := .setMask i n cpuCore }
  | .setMask i n cpuCore =>
    match cMod i cpuCore with
    | .error f => some (s.raise f)
    | .ok cpu =>
      some { s with pool := { s.pool with mask := cpuSet cpu.toNat s.pool.mask },
                    creator := .spawn i n cpuCore }
  | .spawn i n cpuCore =>
    if ok then
      some { s with threads := s.threads ++ [⟨.created, none⟩],
                    creator := .next (i + 1) n cpuCore }
    else some { s with creator := .returned (-1) }

def submitStep (s : State Fn Arg R) (args : Option Arg) (func : Option Fn) (woken : List ℕ) :
    Option (State Fn Arg R) :=
  match s.pool.submit args func .succeed with
  | .error f => some (s.raise f)
  | .ok (pool, code) =>
    if code ≠ 0 then some { s with pool := pool }
    else if signals woken s.threads then
      some { s with pool := pool, threads := unpark (woken.contains ·) s.threads,
                    accepted := s.accepted ++ [⟨func, args⟩] }
    else none

/-- Thread `i` passes its critical section. -/
def criticalSection (start : Task Fn Arg → R) (s : State Fn Arg R) (i : ℕ) (t : Thread R) :
    State Fn Arg R :=
  match s.pool.takeTurn with
  | .error f => s.raise f
  | .ok (pool, .wait) => { s.setThread i { t with pc := .parked } with pool := pool }
  | .ok (pool, .leave) => { s.setThread i { t with pc := .leaving } with pool := pool }
  | .ok (pool, .work task) =>
    { s.setThread i { t with pc := .running (start task) } with
      pool := pool, delivered := s.delivered ++ [task] }

def threadStep (start : Task Fn Arg → R) (s : State Fn Arg R) (i : ℕ) (t : Thread R) :
    Option (State Fn Arg R) :=
  if s.released && t.pc.usesPool then some (s.raise .useAfterFree)
  else match t.pc with
  | .created =>
    some { s.setThread i { t with pc := .started } with
           pool := { s.pool with startedNum := s.pool.startedNum + 1 } }
  | .started =>
    some { s.setThread i { t with pc := .counted } with
           pool := { s.pool with threadCount := s.pool.threadCount + 1 } }
  | .counted => some (s.setThread i ⟨.ready, some s.pool.mask⟩)
  | .ready | .woken => some (criticalSection start s i t)
  | .running _ => some (s.setThread i { t with pc := .ready })
  | .leaving => some (s.setThread i { t with pc := .terminated })
  | .parked | .terminated => none

def workStep (s : State Fn Arg R) (i : ℕ) (r : R) (t : Thread R) : Option (State Fn Arg R) :=
  match t.pc with
  | .running _ => some (s.setThread i { t with pc := .running r })
  | _ => none

def closerStep (s : State Fn Arg R) : Option (State Fn Arg R) :=
  match s.closer with
  | .idle | .deleted => none
  | .joinTest i =>
    some { s with closer := if i < s.pool.threadCount then .joinWait i else .freeResource }
  | .joinWait i =>
    match s.threads[i]? with
    | none => some (s.raise .outOfRange)
    | some t =>
      if t.pc matches .terminated then
        some { s with closer := .joinTest (i + 1), joined := s.joined ++ [i] }
      else none
  | .freeResource =>
    some { s with closer := if s.pool.startedNum > 0 then .delete else .destroy }
  | .destroy => some { s with closer := .delete, released := true }
  | .delete => some { s with closer := .deleted, released := true }

/-- `create` and `shutdown` are not called while the other is under way. -/
def Creator.underWay : Creator → Bool
  | .zeroMask .. | .setMask .. | .spawn .. => true
  | .idle | .returned _ => false

def step (start : Task Fn Arg → R) (s : State Fn Arg R) (a : Act Fn Arg R) :
    Option (State Fn Arg R) :=
  if s.fault.isSome then none
  else match a with
  | .create cpuCore threadCount queueSize =>
    if s.creator = .idle ∧ s.closer = .idle then
      some { s with pool := s.pool.create queueSize,
                    creator := .next 0 (createdThreads cpuCore threadCount) cpuCore }
    else none
  | .creator ok => creatorStep s ok
  | .submit args func woken => if s.released then none else submitStep s args func woken
  | .wake i => some { s with threads := unpark (· == i) s.threads }
  | .thread i => s.threads[i]?.bind (threadStep start s i)
  | .work i r => s.threads[i]?.bind (workStep s i r)
  | .shutdown mode =>
    if s.closer = .idle ∧ !s.creator.underWay then
      if s.pool.shutdown then some { s with closer := .delete }
      else some { s with pool := s.pool.raiseShutdown mode,
                         threads := unpark (fun _ => true) s.threads, closer := .joinTest 0 }
    else none
  | .closer => closerStep s

/-- Unparking keeps what does not depend on whether a thread is parked or woken. -/
theorem unpark_map {β : Type*} (f : Thread R → β)
    (same : ∀ t : Thread R, t.pc = .parked → f { t with pc := .woken } = f t)
    (selected : ℕ → Bool) (threads : List (Thread R)) :
    (unpark selected threads).map f = threads.map f := by
  refine List.ext_getElem (by simp [unpark]) fun i h₁ h₂ => ?_
  simp only [unpark, List.getElem_map, List.getElem_mapIdx]
  split_ifs with h
  · obtain ⟨-, parked⟩ := Bool.and_eq_true_iff.mp h
    refine same _ ?_
    revert parked
    unfold Pc.isParked
    split
    · exact fun _ => ‹_›
    · exact fun parked => by cases parked
  · rfl

/-! ## What a step can do -/

/-- The steps one by one, with what enables each of them and what it changes. -/
inductive Move (start : Task Fn Arg → R) (s : State Fn Arg R) :
    Act Fn Arg R → State Fn Arg R → Prop where
  | create (cpuCore threadCount queueSize : Int) (fresh : s.creator = .idle)
      (open_ : s.closer = .idle) :
      Move start s (.create cpuCore threadCount queueSize)
        { s with pool := s.pool.create queueSize,
                 creator := .next 0 (createdThreads cpuCore threadCount) cpuCore }
  | zeroMask (ok : Bool) {i n cpuCore : Int} (at_ : s.creator = .zeroMask i n cpuCore) :
      Move start s (.creator ok)
        { s with pool := { s.pool with mask := ∅ }, creator := .setMask i n cpuCore }
  | setMask (ok : Bool) {i n cpuCore cpu : Int} (at_ : s.creator = .setMask i n cpuCore)
      (cpu_eq : cMod i cpuCore = .ok cpu) :
      Move start s (.creator ok)
        { s with pool := { s.pool with mask := cpuSet cpu.toNat s.pool.mask },
                 creator := .spawn i n cpuCore }
  | setMaskFault (ok : Bool) {i n cpuCore : Int} {f : Fault}
      (at_ : s.creator = .setMask i n cpuCore) (fault : cMod i cpuCore = .error f) :
      Move start s (.creator ok) (s.raise f)
  | spawn {i n cpuCore : Int} (at_ : s.creator = .spawn i n cpuCore) :
      Move start s (.creator true)
        { s with threads := s.threads ++ [⟨.created, none⟩],
                 creator := .next (i + 1) n cpuCore }
  | spawnFail {i n cpuCore : Int} (at_ : s.creator = .spawn i n cpuCore) :
      Move start s (.creator false) { s with creator := .returned (-1) }
  | refuse (args : Option Arg) (func : Option Fn) (woken : List ℕ)
      (refused : s.pool.workCount = s.pool.queueSize ∨ s.pool.shutdown = true) :
      Move start s (.submit args func woken) s
  | submitFault (args : Option Arg) (func : Option Fn) (woken : List ℕ) {f : Fault}
      (space : s.pool.workCount ≠ s.pool.queueSize) (open_ : s.pool.shutdown = false)
      (fault : s.pool.enqueue ⟨func, args⟩ = .error f) :
      Move start s (.submit args func woken) (s.raise f)
  | accept (args : Option Arg) (func : Option Fn) (woken : List ℕ) {pool : Pool Fn Arg}
      (space : s.pool.workCount ≠ s.pool.queueSize) (open_ : s.pool.shutdown = false)
      (enqueued : s.pool.enqueue ⟨func, args⟩ = .ok pool)
      (signal : signals woken s.threads = true) :
      Move start s (.submit args func woken)
        { s with pool := pool, threads := unpark (woken.contains ·) s.threads,
                 accepted := s.accepted ++ [⟨func, args⟩] }
  | wake (i : ℕ) : Move start s (.wake i) { s with threads := unpark (· == i) s.threads }
  | useAfterFree (i : ℕ) {t : Thread R} (at_ : s.threads[i]? = some t)
      (released : s.released = true) (uses : t.pc.usesPool = true) :
      Move start s (.thread i) (s.raise .useAfterFree)
  | start (i : ℕ) {t : Thread R} (at_ : s.threads[i]? = some t) (pc : t.pc = .created)
      (alive : s.released = false) :
      Move start s (.thread i)
        { s.setThread i { t with pc := .started } with
          pool := { s.pool with startedNum := s.pool.startedNum + 1 } }
  | count (i : ℕ) {t : Thread R} (at_ : s.threads[i]? = some t) (pc : t.pc = .started)
      (alive : s.released = false) :
      Move start s (.thread i)
        { s.setThread i { t with pc := .counted } with
          pool := { s.pool with threadCount := s.pool.threadCount + 1 } }
  | pin (i : ℕ) {t : Thread R} (at_ : s.threads[i]? = some t) (pc : t.pc = .counted)
      (alive : s.released = false) :
      Move start s (.thread i) (s.setThread i ⟨.ready, some s.pool.mask⟩)
  | dequeueFault (i : ℕ) {t : Thread R} {f : Fault} (at_ : s.threads[i]? = some t)
      (pc : t.pc = .ready ∨ t.pc = .woken) (alive : s.released = false)
      (open_ : s.pool.shutdown = false) (work : s.pool.workCount ≠ 0)
      (fault : s.pool.dequeue = .error f) :
      Move start s (.thread i) (s.raise f)
  | park (i : ℕ) {t : Thread R} (at_ : s.threads[i]? = some t)
      (pc : t.pc = .ready ∨ t.pc = .woken) (alive : s.released = false)
      (open_ : s.pool.shutdown = false) (empty : s.pool.workCount = 0) :
      Move start s (.thread i) (s.setThread i { t with pc := .parked })
  | leave (i : ℕ) {t : Thread R} (at_ : s.threads[i]? = some t)
      (pc : t.pc = .ready ∨ t.pc = .woken) (alive : s.released = false)
      (closed : s.pool.shutdown = true) :
      Move start s (.thread i)
        { s.setThread i { t with pc := .leaving } with
          pool := { s.pool with startedNum := s.pool.startedNum - 1 } }
  | take (i : ℕ) {t : Thread R} {task : Task Fn Arg} {pool : Pool Fn Arg}
      (at_ : s.threads[i]? = some t) (pc : t.pc = .ready ∨ t.pc = .woken)
      (alive : s.released = false) (open_ : s.pool.shutdown = false)
      (work : s.pool.workCount ≠ 0) (dequeued : s.pool.dequeue = .ok (task, pool)) :
      Move start s (.thread i)
        { s.setThread i { t with pc := .running (start task) } with
          pool := pool, delivered := s.delivered ++ [task] }
  | finish (i : ℕ) {t : Thread R} {r : R} (at_ : s.threads[i]? = some t)
      (pc : t.pc = .running r) :
      Move start s (.thread i) (s.setThread i { t with pc := .ready })
  | exit (i : ℕ) {t : Thread R} (at_ : s.threads[i]? = some t) (pc : t.pc = .leaving) :
      Move start s (.thread i) (s.setThread i { t with pc := .terminated })
  | work (i : ℕ) (r : R) {t : Thread R} {r₀ : R} (at_ : s.threads[i]? = some t)
      (pc : t.pc = .running r₀) :
      Move start s (.work i r) (s.setThread i { t with pc := .running r })
  | shutdown (mode : ShutdownMode) (first : s.closer = .idle)
      (created : s.creator.underWay = false) (open_ : s.pool.shutdown = false) :
      Move start s (.shutdown mode)
        { s with pool := s.pool.raiseShutdown mode,
                 threads := unpark (fun _ => true) s.threads, closer := .joinTest 0 }
  | shutdownAgain (mode : ShutdownMode) (first : s.closer = .idle)
      (created : s.creator.underWay = false) (closed : s.pool.shutdown = true) :
      Move start s (.shutdown mode) { s with closer := .delete }
  | joinNext {i : ℕ} (at_ : s.closer = .joinTest i) (more : i < s.pool.threadCount) :
      Move start s .closer { s with closer := .joinWait i }
  | joinLast {i : ℕ} (at_ : s.closer = .joinTest i) (last : s.pool.threadCount ≤ i) :
      Move start s .closer { s with closer := .freeResource }
  | joinFault {i : ℕ} (at_ : s.closer = .joinWait i) (outside : s.threads[i]? = none) :
      Move start s .closer (s.raise .outOfRange)
  | join {i : ℕ} {t : Thread R} (at_ : s.closer = .joinWait i)
      (thread : s.threads[i]? = some t) (done : t.pc = .terminated) :
      Move start s .closer { s with closer := .joinTest (i + 1), joined := s.joined ++ [i] }
  | freeResource (at_ : s.closer = .freeResource) :
      Move start s .closer
        { s with closer := if s.pool.startedNum > 0 then .delete else .destroy }
  | destroy (at_ : s.closer = .destroy) :
      Move start s .closer { s with closer := .delete, released := true }
  | delete (at_ : s.closer = .delete) :
      Move start s .closer { s with closer := .deleted, released := true }

variable {start : Task Fn Arg → R} {s s' : State Fn Arg R} {a : Act Fn Arg R}

theorem Move.of_creatorStep {ok : Bool} (h : creatorStep s ok = some s') :
    Move start s (.creator ok) s' := by
  unfold creatorStep at h
  split at h
  · cases h
  · cases h
  · rename_i at_
    obtain rfl := Option.some.inj h
    exact .zeroMask ok at_
  · rename_i at_
    split at h <;> rename_i he <;> obtain rfl := Option.some.inj h
    · exact .setMaskFault ok at_ he
    · exact .setMask ok at_ he
  · rename_i at_
    cases ok <;> obtain rfl := Option.some.inj h
    · exact .spawnFail at_
    · exact .spawn at_

theorem Move.of_submitStep {args : Option Arg} {func : Option Fn} {woken : List ℕ}
    (h : submitStep s args func woken = some s') : Move start s (.submit args func woken) s' := by
  unfold submitStep at h
  rw [Pool.submit_succeed] at h
  by_cases full : s.pool.workCount = s.pool.queueSize
  · obtain rfl : s = s' := by simpa [full, threadpoolQueueFull] using h
    exact .refuse args func woken (.inl full)
  rw [if_neg full] at h
  by_cases closed : s.pool.shutdown = true
  · obtain rfl : s = s' := by simpa [closed, threadpoolShutdown] using h
    exact .refuse args func woken (.inr closed)
  rw [if_neg closed] at h
  have open_ : s.pool.shutdown = false := by simpa using closed
  cases he : s.pool.enqueue ⟨func, args⟩ with
  | error f =>
    obtain rfl : s.raise f = s' := by simpa [he, Except.map] using h
    exact .submitFault args func woken full open_ he
  | ok pool =>
    simp only [he, Except.map, ne_eq, not_true_eq_false, if_false,
      Option.ite_none_right_eq_some, Option.some.injEq] at h
    obtain ⟨signal, rfl⟩ := h
    exact .accept args func woken full open_ he signal

theorem Move.of_criticalSection {i : ℕ} {t : Thread R} (at_ : s.threads[i]? = some t)
    (pc : t.pc = .ready ∨ t.pc = .woken) (alive : s.released = false) :
    Move start s (.thread i) (criticalSection start s i t) := by
  unfold criticalSection
  rw [Pool.takeTurn_eq]
  by_cases closed : s.pool.shutdown = true
  · rw [if_pos closed]
    exact .leave i at_ pc alive closed
  rw [if_neg closed]
  have open_ : s.pool.shutdown = false := by simpa using closed
  by_cases empty : s.pool.workCount = 0
  · rw [if_pos empty]
    exact .park i at_ pc alive open_ empty
  rw [if_neg empty]
  cases hd : s.pool.dequeue with
  | error f => exact .dequeueFault i at_ pc alive open_ empty hd
  | ok r => exact .take i at_ pc alive open_ empty hd

theorem Move.of_threadStep {i : ℕ} {t : Thread R} (at_ : s.threads[i]? = some t)
    (h : threadStep start s i t = some s') : Move start s (.thread i) s' := by
  unfold threadStep at h
  split_ifs at h with stale
  · obtain ⟨released, uses⟩ : s.released = true ∧ t.pc.usesPool = true := by simpa using stale
    obtain rfl := Option.some.inj h
    exact .useAfterFree i at_ released uses
  · have alive (uses : t.pc.usesPool = true) : s.released = false := by simpa [uses] using stale
    split at h <;> rename_i pc <;>
      first
      | obtain rfl := Option.some.inj h
      | cases h
    · exact .start i at_ pc (alive (by rw [pc]; rfl))
    · exact .count i at_ pc (alive (by rw [pc]; rfl))
    · exact .pin i at_ pc (alive (by rw [pc]; rfl))
    · exact .of_criticalSection at_ (.inl pc) (alive (by rw [pc]; rfl))
    · exact .of_criticalSection at_ (.inr pc) (alive (by rw [pc]; rfl))
    · exact .finish i at_ pc
    · exact .exit i at_ pc

theorem Move.of_closerStep (h : closerStep s = some s') : Move start s .closer s' := by
  unfold closerStep at h
  split at h
  · cases h
  · cases h
  · rename_i i at_
    obtain rfl := Option.some.inj h
    by_cases more : (i : Int) < s.pool.threadCount
    · simp only [more, if_true]
      exact .joinNext at_ more
    · simp only [more, if_false]
      exact .joinLast at_ (by omega)
  · rename_i i at_
    split at h
    · rename_i outside
      obtain rfl := Option.some.inj h
      exact .joinFault at_ outside
    · rename_i t thread
      split at h
      · rename_i done
        obtain rfl := Option.some.inj h
        exact .join at_ thread (by revert done; cases t.pc <;> simp)
      · cases h
  · rename_i at_
    obtain rfl := Option.some.inj h
    exact .freeResource at_
  · rename_i at_
    obtain rfl := Option.some.inj h
    exact .destroy at_
  · rename_i at_
    obtain rfl := Option.some.inj h
    exact .delete at_

/-- Every step is one of the moves. -/
theorem Move.of_step (h : step start s a = some s') : Move start s a s' := by
  obtain ⟨-, h⟩ := Option.ite_none_left_eq_some.mp h
  cases a with
  | create cpuCore threadCount queueSize =>
    simp only [Option.ite_none_right_eq_some, Option.some.injEq] at h
    obtain ⟨⟨fresh, open_⟩, rfl⟩ := h
    exact .create cpuCore threadCount queueSize fresh open_
  | creator ok => exact .of_creatorStep h
  | submit args func woken =>
    simp only [Option.ite_none_left_eq_some] at h
    exact .of_submitStep h.2
  | wake i =>
    obtain rfl := Option.some.inj h
    exact .wake i
  | thread i =>
    obtain ⟨t, at_, h⟩ := Option.bind_eq_some_iff.mp h
    exact .of_threadStep at_ h
  | work i r =>
    obtain ⟨t, at_, h⟩ := Option.bind_eq_some_iff.mp h
    unfold workStep at h
    split at h
    · rename_i pc
      obtain rfl := Option.some.inj h
      exact .work i r at_ pc
    · cases h
  | shutdown mode =>
    simp only [Option.ite_none_right_eq_some] at h
    obtain ⟨⟨first, created⟩, h⟩ := h
    have created : s.creator.underWay = false := by simpa using created
    split_ifs at h with closed <;> obtain rfl := Option.some.inj h
    · exact .shutdownAgain mode first created closed
    · exact .shutdown mode first created (by simpa using closed)
  | closer => exact .of_closerStep h

end EpollServer.ThreadPool
