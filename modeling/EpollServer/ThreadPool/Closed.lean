import EpollServer.ThreadPool.Shutdown
import EpollServer.ThreadPool.Submit
import EpollServer.ThreadPool.Wakeup

/-!
# The pool after `shutdown_` was set

Both modes do the same: no task enters or leaves the ring any more, and a thread that comes to
its critical section leaves the loop. So each thread has a fixed number of own steps left: it
finishes the task it had dequeued, or its start-up, and then only goes on to its end.

`started_num_` is the number of threads that have started and not left, in every run.
-/
namespace EpollServer.ThreadPool

open Library

variable {Fn Arg R : Type}

/-! ## The counter of started threads -/

/-- The thread has executed `started_num_++`. -/
def Pc.hasStarted : Pc R → Bool
  | .created => false
  | _ => true

/-- The thread has executed `started_num_--`. -/
def Pc.hasLeft : Pc R → Bool
  | .leaving | .terminated => true
  | _ => false

def startedIn (threads : List (Thread R)) : ℕ := tally (fun t => ind t.pc.hasStarted) threads

def leftIn (threads : List (Thread R)) : ℕ := tally (fun t => ind t.pc.hasLeft) threads

/-- `started_num_` against the threads. -/
def CountsStarted (s : State Fn Arg R) : Prop :=
  s.pool.startedNum + leftIn s.threads = startedIn s.threads

variable {start : Task Fn Arg → R} {s s' s₁ s₂ : State Fn Arg R} {a : Act Fn Arg R}

theorem unpark_startedIn (selected : ℕ → Bool) (threads : List (Thread R)) :
    startedIn (unpark selected threads) = startedIn threads ∧
      leftIn (unpark selected threads) = leftIn threads := by
  constructor <;> refine tally_mapIdx _ _ _ _ fun i t => ?_ <;> split_ifs with h
  · obtain ⟨-, parked⟩ := Bool.and_eq_true_iff.mp h
    revert parked
    cases t.pc <;> simp [Pc.isParked, Pc.hasStarted]
  · rfl
  · obtain ⟨-, parked⟩ := Bool.and_eq_true_iff.mp h
    revert parked
    cases t.pc <;> simp [Pc.isParked, Pc.hasLeft]
  · rfl

/-- A step of one thread changes the counter as it changes what is counted. -/
theorem CountsStarted.setThread (h : CountsStarted s) {i : ℕ} {t u : Thread R}
    (at_ : s.threads[i]? = some t) (threads : s'.threads = s.threads.set i u)
    (change : s'.pool.startedNum + ind t.pc.hasStarted + ind u.pc.hasLeft =
      s.pool.startedNum + ind u.pc.hasStarted + ind t.pc.hasLeft) : CountsStarted s' := by
  have begun : startedIn (s.threads.set i u) + ind t.pc.hasStarted =
    startedIn s.threads + ind u.pc.hasStarted := tally_set at_
  have gone : leftIn (s.threads.set i u) + ind t.pc.hasLeft =
    leftIn s.threads + ind u.pc.hasLeft := tally_set at_
  unfold CountsStarted at h ⊢
  rw [threads]
  omega

theorem CountsStarted.unpark (h : CountsStarted s) {selected : ℕ → Bool}
    (threads : s'.threads = unpark selected s.threads)
    (same : s'.pool.startedNum = s.pool.startedNum) : CountsStarted s' := by
  obtain ⟨begun, gone⟩ := unpark_startedIn selected s.threads
  unfold CountsStarted at h ⊢
  rw [threads, begun, gone, same]
  exact h

theorem CountsStarted.step (h : CountsStarted s) (closing : Closing s) (m : Move start s a s') :
    CountsStarted s' := by
  cases m
  case create fresh _ =>
    have none_ := closing.unborn fresh
    simp [CountsStarted, none_, startedIn, leftIn, Pool.create]
  case spawn => simpa [CountsStarted, startedIn, leftIn, Pc.hasStarted, Pc.hasLeft] using h
  case accept enqueued _ =>
    obtain ⟨_, _, rfl⟩ := Pool.enqueue_eq enqueued
    exact h.unpark rfl rfl
  case wake | shutdown => exact h.unpark rfl rfl
  case start at_ pc _ =>
    refine h.setThread at_ rfl ?_
    simp [pc, Pc.hasStarted, Pc.hasLeft]
  case leave at_ pc _ _ =>
    refine h.setThread at_ rfl ?_
    rcases pc with pc | pc <;> simp [pc, Pc.hasStarted, Pc.hasLeft]
  case park at_ pc _ _ _ =>
    refine h.setThread at_ rfl ?_
    rcases pc with pc | pc <;> simp [State.setThread, pc, Pc.hasStarted, Pc.hasLeft]
  case take at_ pc _ _ _ dequeued =>
    obtain ⟨_, _, rfl⟩ := Pool.dequeue_eq dequeued
    refine h.setThread at_ rfl ?_
    rcases pc with pc | pc <;> simp [pc, Pc.hasStarted, Pc.hasLeft]
  case count | pin | finish | exit | work =>
    refine h.setThread ‹s.threads[_]? = some _› rfl ?_
    simp [State.setThread, ‹Thread.pc _ = _›, Pc.hasStarted, Pc.hasLeft]
  all_goals exact h

/-! ## What no run does before the release -/

/-- The join loop waits for threads that exist, and once the pool is closed nothing fails
before it is released. -/
structure Sound (s : State Fn Arg R) : Prop where
  joins : ∀ i, s.closer = .joinWait i → i < s.threads.length
  fault : s.pool.shutdown = true → s.released = false → s.fault = none

theorem Closing.busy (h : Closing s) (closed : s.pool.shutdown = true) : s.closer ≠ .idle := by
  intro idle
  simp [(h.opened idle).1] at closed

theorem Sound.step (h : Sound s) (closing : Closing s) (running : s.fault = none)
    (m : Move start s a s') : Sound s' := by
  cases m
  case setMaskFault at_ _ =>
    refine ⟨h.joins, fun closed => ?_⟩
    have := closing.settled (closing.busy closed)
    simp [at_, Creator.underWay] at this
  case submitFault open_ _ | dequeueFault open_ _ _ =>
    exact ⟨h.joins, fun closed => by simp [State.raise, open_] at closed⟩
  case useAfterFree released _ =>
    exact ⟨h.joins, fun _ alive => by simp [State.raise, released] at alive⟩
  case joinFault i at_ outside =>
    have inside := h.joins i at_
    have := List.getElem?_eq_none_iff.mp outside
    omega
  case joinNext i at_ more =>
    refine ⟨fun k hk => ?_, fun _ _ => running⟩
    obtain rfl : i = k := by simpa using hk
    have := closing.counted
    have : countedIn s.threads ≤ s.threads.length := tally_ind_le_length _ _
    simp only
    omega
  case freeResource =>
    refine ⟨fun k hk => ?_, fun _ _ => running⟩
    simp only at hk
    split_ifs at hk
  case create fresh open_ => exact ⟨by simp [open_], fun _ _ => running⟩
  case spawn => exact ⟨fun k hk => by have := h.joins k hk; simp; omega, fun _ _ => running⟩
  case accept | wake => exact ⟨by simpa [unpark] using h.joins, fun _ _ => running⟩
  case shutdown | shutdownAgain | joinLast | join | destroy | delete =>
    exact ⟨by simp, fun _ _ => running⟩
  all_goals exact ⟨by simpa [State.setThread] using h.joins, fun _ _ => running⟩

theorem running_of_step (h : step start s a = some s') : s.fault = none := by
  simpa using (Option.ite_none_left_eq_some.mp h).1

theorem sound_of_run {acts : List (Act Fn Arg R)}
    (h : run (step start) .constructed acts = some s) : Sound s ∧ CountsStarted s := by
  refine run_induction (P := fun _ s => Sound s ∧ CountsStarted s) ?_ ?_ acts s h
  · exact ⟨⟨by simp [State.constructed], fun _ _ => rfl⟩, rfl⟩
  · rintro as s a s' hrun ⟨sound, counts⟩ hs
    have closing := closing_of_run hrun
    exact ⟨sound.step closing (running_of_step hs) (Move.of_step hs),
      counts.step closing (Move.of_step hs)⟩

/-! ## Steps of a closed pool -/

/-- The own steps a thread of a closed pool makes until it has terminated. -/
def Pc.stepsLeft : Pc R → ℕ
  | .created => 5
  | .started => 4
  | .counted | .running _ => 3
  | .ready | .parked | .woken => 2
  | .leaving => 1
  | .terminated => 0

/-- The action is the next step of thread `i`. -/
def Act.stepsOf (i : ℕ) : Act Fn Arg R → Bool
  | .thread j => j == i
  | _ => false

/-- The ring, the shutdown flag and the history are in `s'` as they are in `s`. -/
structure Frozen (s s' : State Fn Arg R) : Prop where
  workQueue : s'.pool.workQueue = s.pool.workQueue
  queueSize : s'.pool.queueSize = s.pool.queueSize
  curr : s'.pool.curr = s.pool.curr
  tail : s'.pool.tail = s.pool.tail
  workCount : s'.pool.workCount = s.pool.workCount
  shutdown : s'.pool.shutdown = s.pool.shutdown
  accepted : s'.accepted = s.accepted
  delivered : s'.delivered = s.delivered

theorem Frozen.refl (s : State Fn Arg R) : Frozen s s := ⟨rfl, rfl, rfl, rfl, rfl, rfl, rfl, rfl⟩

theorem Frozen.trans (h : Frozen s₁ s) (h' : Frozen s s₂) : Frozen s₁ s₂ where
  workQueue := h'.workQueue.trans h.workQueue
  queueSize := h'.queueSize.trans h.queueSize
  curr := h'.curr.trans h.curr
  tail := h'.tail.trans h.tail
  workCount := h'.workCount.trans h.workCount
  shutdown := h'.shutdown.trans h.shutdown
  accepted := h'.accepted.trans h.accepted
  delivered := h'.delivered.trans h.delivered

/-- What a step of a closed pool does to its threads. -/
inductive Winding (s : State Fn Arg R) : Act Fn Arg R → State Fn Arg R → Prop where
  | own {i : ℕ} {t u : Thread R} {s' : State Fn Arg R} (thread : s.threads[i]? = some t)
      (threads : s'.threads = s.threads.set i u) (less : u.pc.stepsLeft + 1 = t.pc.stepsLeft)
      (idle : ∀ r, u.pc ≠ .running r) : Winding s (.thread i) s'
  | work {i : ℕ} {t : Thread R} {r₀ r : R} {s' : State Fn Arg R} (thread : s.threads[i]? = some t)
      (pc : t.pc = .running r₀)
      (threads : s'.threads = s.threads.set i { t with pc := .running r }) :
      Winding s (.work i r) s'
  | useAfterFree {i : ℕ} {s' : State Fn Arg R} (fault : s'.released = true)
      (threads : s'.threads = s.threads) : Winding s (.thread i) s'
  | other {a : Act Fn Arg R} {s' : State Fn Arg R} (foreign : ∀ i, a.stepsOf i = false)
      (threads : s'.threads = s.threads) : Winding s a s'

/-- With nobody parked there is nobody to unpark. -/
theorem unpark_eq_self {threads : List (Thread R)} (none_ : parkedIn threads = 0)
    (selected : ℕ → Bool) : unpark selected threads = threads := by
  refine List.ext_getElem (by simp [unpark]) fun i h₁ h₂ => ?_
  have awake : threads[i].pc.isParked = false := by
    have := tally_eq_zero.mp none_ threads[i] (List.getElem_mem h₂)
    cases h : threads[i].pc.isParked with
    | false => rfl
    | true => simp [h] at this
  simp [unpark, awake]

theorem Move.winding (m : Move start s a s') (closed : s.pool.shutdown = true)
    (closing : Closing s) (attended : Attended s) : Frozen s s' ∧ Winding s a s' := by
  have busy := closing.busy closed
  have settled := closing.settled busy
  have awake := attended.closed closed
  cases m
  case create open_ => exact absurd open_ busy
  case zeroMask at_ | setMask at_ _ | setMaskFault at_ _ | spawn at_ | spawnFail at_ =>
    simp [at_, Creator.underWay] at settled
  case submitFault open_ _ | accept open_ _ _ | dequeueFault open_ _ _ | park open_ _ |
      take open_ _ _ | shutdown open_ =>
    simp [open_] at closed
  -- What is left changes no more than the two counters.
  all_goals refine ⟨⟨rfl, rfl, rfl, rfl, rfl, rfl, rfl, rfl⟩, ?_⟩
  case wake => exact .other (fun _ => rfl) (unpark_eq_self awake _)
  case useAfterFree released _ => exact .useAfterFree released rfl
  case start at_ pc _ | count at_ pc _ | pin at_ pc _ | finish at_ pc | exit at_ pc =>
    exact .own at_ rfl (by rw [pc]; rfl) (by simp)
  case leave at_ pc _ _ =>
    exact .own at_ rfl (by rcases pc with pc | pc <;> rw [pc] <;> rfl) (by simp)
  case work at_ pc => exact .work at_ pc rfl
  all_goals exact .other (fun _ => rfl) rfl

theorem Move.alive (m : Move start s a s') (alive : s'.released = false) : s.released = false := by
  cases m
  case destroy | delete => cases alive
  all_goals exact alive

/-- Its own step brings a thread one step nearer to its end, and no step gives it a task. -/
theorem Winding.thread (h : Winding s a s') (alive : s'.released = false) {i : ℕ} {t : Thread R}
    (at_ : s.threads[i]? = some t) :
    ∃ t', s'.threads[i]? = some t' ∧ t'.pc.stepsLeft + ind (a.stepsOf i) = t.pc.stepsLeft ∧
      ((∃ r, t'.pc = .running r) → ∃ r, t.pc = .running r) := by
  have inside := (List.getElem?_eq_some_iff.mp at_).1
  cases h with
  | @own j u v _ thread threads less idle =>
    rw [threads]
    by_cases same : j = i
    · subst same
      obtain rfl : t = u := by simpa [at_] using thread
      refine ⟨v, by simp [inside], ?_, fun ⟨r, hr⟩ => absurd hr (idle r)⟩
      simpa [Act.stepsOf] using less
    · have foreign : (j == i) = false := by simpa using same
      exact ⟨t, by rw [List.getElem?_set_ne same, at_], by simp [Act.stepsOf, foreign], id⟩
  | @work j u r₀ r _ thread pc threads =>
    rw [threads]
    by_cases same : j = i
    · subst same
      obtain rfl : t = u := by simpa [at_] using thread
      refine ⟨{ t with pc := .running r }, by simp [inside], ?_, fun _ => ⟨r₀, pc⟩⟩
      simp [Act.stepsOf, pc, Pc.stepsLeft]
    · exact ⟨t, by rw [List.getElem?_set_ne same, at_], by simp [Act.stepsOf], id⟩
  | useAfterFree released => simp [released] at alive
  | other foreign threads =>
    rw [threads]
    exact ⟨t, at_, by simp [foreign i], id⟩

/-- What the run `as` of a closed pool has done since `s₁`. -/
structure Since (s₁ : State Fn Arg R) (as : List (Act Fn Arg R)) (s : State Fn Arg R) : Prop where
  frozen : Frozen s₁ s
  threads : s.released = false → ∀ i t₁, s₁.threads[i]? = some t₁ →
    ∃ t, s.threads[i]? = some t ∧
      t.pc.stepsLeft + as.countP (Act.stepsOf i) = t₁.pc.stepsLeft ∧
      ((∃ r, t.pc = .running r) → ∃ r, t₁.pc = .running r)

theorem Since.refl (s : State Fn Arg R) : Since s [] s where
  frozen := .refl s
  threads _ _ t at_ := ⟨t, at_, rfl, id⟩

theorem Since.step {as : List (Act Fn Arg R)} (h : Since s₁ as s) (frozen : Frozen s s')
    (winding : Winding s a s') (m : Move start s a s') : Since s₁ (as ++ [a]) s' where
  frozen := h.frozen.trans frozen
  threads alive i t₁ at₁ := by
    obtain ⟨t, at_, left, running⟩ := h.threads (m.alive alive) i t₁ at₁
    obtain ⟨t', at', left', running'⟩ := winding.thread alive at_
    refine ⟨t', at', ?_, running ∘ running'⟩
    have one : List.countP (Act.stepsOf i) [a] = ind (a.stepsOf i) := by
      cases h : a.stepsOf i <;> simp [h]
    rw [List.countP_append, one]
    omega

theorem since_of_run {pre post : List (Act Fn Arg R)}
    (h₁ : run (step start) .constructed pre = some s₁) (closed : s₁.pool.shutdown = true)
    (h₂ : run (step start) s₁ post = some s₂) : Since s₁ post s₂ := by
  refine run_induction (.refl s₁) ?_ post s₂ h₂
  intro as s a s' hrun since hs
  have reached : run (step start) .constructed (pre ++ as) = some s := by
    rw [run_append, h₁]
    exact hrun
  have m := Move.of_step hs
  obtain ⟨frozen, winding⟩ := m.winding (since.frozen.shutdown.trans closed)
    (closing_of_run reached) (attended_of_run reached)
  exact since.step frozen winding m

/-- A thread that has not terminated and is not parked can go on. -/
theorem thread_enabled (running : s.fault = none) {i : ℕ} {t : Thread R}
    (at_ : s.threads[i]? = some t) (alive : t.pc ≠ .terminated) (awake : t.pc ≠ .parked) :
    (step start s (.thread i)).isSome := by
  simp only [ThreadPool.step, running, Option.isSome_none, at_, Option.bind_some]
  unfold threadStep
  split_ifs <;> cases pc : t.pc <;> simp_all

end EpollServer.ThreadPool
