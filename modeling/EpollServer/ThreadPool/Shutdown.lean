import EpollServer.ThreadPool.Machine

/-!
# Shutdown and the threads it joins

`shutdown_interval` joins the threads with index below `thread_count_`, a counter that each
thread increments itself once it is scheduled. The loop is left as soon as its index reaches
the counter, so a thread that has not made its increment by then is not joined and runs on
in a pool that is destroyed and deleted. The invariant below relates the counter, the loop
index and the joined threads; from it the shutdown is safe in exactly the runs in which
every created thread has made its increment when the join loop ends.
-/
namespace EpollServer.ThreadPool

open Library

variable {Fn Arg R : Type}

/-- The thread has executed `thread_count_++`. -/
def Pc.isCounted : Pc R → Bool
  | .created | .started => false
  | _ => true

def countedIn (threads : List (Thread R)) : ℕ := tally (fun t => ind t.pc.isCounted) threads

/-- The joined threads are terminated. -/
def Joined (threads : List (Thread R)) (joined : List ℕ) : Prop :=
  ∀ j ∈ joined, ∃ t, threads[j]? = some t ∧ t.pc = .terminated

/-- The caller of `shutdown` is past its join loop. -/
def Closer.pastJoin : Closer → Bool
  | .freeResource | .destroy | .delete | .deleted => true
  | .idle | .joinTest _ | .joinWait _ => false

/-- What holds of the counter, the join loop and the joined threads in every run. -/
structure Closing (s : State Fn Arg R) : Prop where
  unborn : s.creator = .idle → s.threads = []
  counted : s.pool.threadCount = countedIn s.threads
  opened : s.closer = .idle → s.pool.shutdown = false ∧ s.joined = []
  settled : s.closer ≠ .idle → s.creator.underWay = false
  joined : Joined s.threads s.joined
  order : ∀ i, s.closer = .joinTest i ∨ s.closer = .joinWait i → ∀ j, j ∈ s.joined ↔ j < i
  released : s.released = true → s.closer.pastJoin = true

/-- No thread used the pool after its release, and after the join loop every created thread
is joined. -/
def SafeShutdown (s : State Fn Arg R) : Prop :=
  s.fault ≠ some .useAfterFree ∧
    (s.closer.pastJoin = true → ∀ i < s.threads.length, i ∈ s.joined)

/-- If this step ends the join loop, every created thread has executed
`thread_count_++`. -/
def JoinsLate (s : State Fn Arg R) : Act Fn Arg R → Prop
  | .closer => ∀ i : ℕ, s.closer = .joinTest i → s.pool.threadCount ≤ i →
      ∀ t ∈ s.threads, t.pc.isCounted = true
  | _ => True

/-! ## Threads that change -/

theorem setThread_countedIn {threads : List (Thread R)} {i : ℕ} {t u : Thread R}
    (at_ : threads[i]? = some t) :
    countedIn (threads.set i u) + ind t.pc.isCounted = countedIn threads + ind u.pc.isCounted :=
  tally_set at_

theorem unpark_countedIn (selected : ℕ → Bool) (threads : List (Thread R)) :
    countedIn (unpark selected threads) = countedIn threads := by
  refine tally_mapIdx _ _ _ _ fun i t => ?_
  by_cases h : (selected i && t.pc.isParked) = true
  · have parked : t.pc = .parked := by
      revert h
      cases t.pc <;> simp [Pc.isParked]
    rw [if_pos h, parked]
    rfl
  · rw [if_neg h]

@[simp] theorem length_unpark (selected : ℕ → Bool) (threads : List (Thread R)) :
    (unpark selected threads).length = threads.length := by simp [unpark]

theorem Joined.unpark {threads : List (Thread R)} {joined : List ℕ} (h : Joined threads joined)
    (selected : ℕ → Bool) : Joined (unpark selected threads) joined := by
  intro j mem
  obtain ⟨t, at_, pc⟩ := h j mem
  exact ⟨t, by simp [ThreadPool.unpark, List.getElem?_mapIdx, at_, pc, Pc.isParked], pc⟩

theorem Joined.set {threads : List (Thread R)} {joined : List ℕ} (h : Joined threads joined)
    {i : ℕ} {t u : Thread R} (at_ : threads[i]? = some t) (alive : t.pc ≠ .terminated) :
    Joined (threads.set i u) joined := by
  intro j mem
  obtain ⟨t', at', pc⟩ := h j mem
  have other : i ≠ j := by
    rintro rfl
    obtain rfl : t = t' := by simpa [at_] using at'
    exact alive pc
  exact ⟨t', by rw [List.getElem?_set_ne other, at'], pc⟩

theorem Joined.append {threads : List (Thread R)} {joined : List ℕ} (h : Joined threads joined)
    (t : Thread R) : Joined (threads ++ [t]) joined := by
  intro j mem
  obtain ⟨t', at', pc⟩ := h j mem
  have : j < threads.length := (List.getElem?_eq_some_iff.mp at').1
  exact ⟨t', by rw [List.getElem?_append_left this, at'], pc⟩

variable {start : Task Fn Arg → R} {s s' : State Fn Arg R} {a : Act Fn Arg R}

/-- A step of one thread that leaves the counter and the caller of `shutdown` alone. -/
theorem Closing.setThread (h : Closing s) {i : ℕ} {t u : Thread R} {pool : Pool Fn Arg}
    {delivered : List (Task Fn Arg)} (at_ : s.threads[i]? = some t) (alive : t.pc ≠ .terminated)
    (count : pool.threadCount + ind t.pc.isCounted = s.pool.threadCount + ind u.pc.isCounted)
    (shutdown : pool.shutdown = s.pool.shutdown) :
    Closing { s.setThread i u with pool := pool, delivered := delivered } where
  unborn idle := by simp [h.unborn idle] at at_
  counted := by
    have := setThread_countedIn (u := u) at_
    have := h.counted
    simp only [State.setThread]
    omega
  opened idle := ⟨shutdown.trans (h.opened idle).1, (h.opened idle).2⟩
  settled := h.settled
  joined := h.joined.set at_ alive
  order := h.order
  released := h.released

theorem Closing.unpark (h : Closing s) (selected : ℕ → Bool) :
    Closing { s with threads := unpark selected s.threads } where
  unborn idle := by simp [h.unborn idle, ThreadPool.unpark]
  counted := by
    rw [unpark_countedIn]
    exact h.counted
  opened := h.opened
  settled := h.settled
  joined := h.joined.unpark selected
  order := h.order
  released := h.released

/-- A step of the caller of `shutdown` that joins no thread and stays in its loop, or is past
it. -/
theorem Closing.advance (h : Closing s) {closer : Closer} {released : Bool}
    (busy : s.closer ≠ .idle) (stays : closer ≠ .idle)
    (order : ∀ i, closer = .joinTest i ∨ closer = .joinWait i → ∀ j, j ∈ s.joined ↔ j < i)
    (past : released = true → closer.pastJoin = true) :
    Closing { s with closer := closer, released := released } where
  unborn := h.unborn
  counted := h.counted
  opened idle := absurd idle stays
  settled _ := h.settled busy
  joined := h.joined
  order := order
  released := past

/-- The pool is not released before the join loop has ended. -/
theorem Closing.alive (h : Closing s) (joining : s.closer.pastJoin = false) :
    s.released = false := by
  cases released : s.released with
  | false => rfl
  | true => simp [h.released released] at joining

theorem Closing.step (h : Closing s) (m : Move start s a s') : Closing s' := by
  cases m
  case create cpuCore threadCount size fresh open_ =>
    have none_ := h.unborn fresh
    refine ⟨fun _ => none_, by simp [none_, countedIn, Pool.create], h.opened, ?_, h.joined,
      h.order, h.released⟩
    exact fun closing => absurd open_ closing
  case zeroMask at_ | setMask at_ _ =>
    refine ⟨by simp, h.counted, h.opened, fun closing => ?_, h.joined, h.order, h.released⟩
    simpa [at_, Creator.underWay] using h.settled closing
  case spawn i n cpuCore at_ =>
    have counted : countedIn (s.threads ++ [⟨.created, none⟩]) = countedIn s.threads := by
      simp [countedIn, Pc.isCounted]
    refine ⟨fun idle => ?_, by rw [counted]; exact h.counted, h.opened, fun closing => ?_,
      h.joined.append _, h.order, h.released⟩
    · simp only [Creator.next] at idle
      split_ifs at idle
    · simpa [at_, Creator.underWay] using h.settled closing
  case spawnFail =>
    exact ⟨by simp, h.counted, h.opened, fun _ => rfl, h.joined, h.order, h.released⟩
  case accept args func woken pool _ _ enqueued _ =>
    obtain ⟨workQueue, tail, rfl⟩ := Pool.enqueue_eq enqueued
    have unparked := h.unpark (woken.contains ·)
    exact ⟨unparked.unborn, unparked.counted, h.opened, h.settled, unparked.joined, h.order,
      h.released⟩
  case wake i => exact h.unpark (· == i)
  case start at_ pc _ | count at_ pc _ | pin at_ pc _ | finish at_ pc | exit at_ pc |
      work at_ pc =>
    exact h.setThread at_ (by simp [pc]) (by simp [pc, Pc.isCounted]) rfl
  case park at_ pc _ _ _ | leave at_ pc _ _ =>
    rcases pc with pc | pc <;>
      exact h.setThread at_ (by simp [pc]) (by simp [pc, Pc.isCounted]) rfl
  case take at_ pc _ _ _ dequeued =>
    obtain ⟨workQueue, curr, rfl⟩ := Pool.dequeue_eq dequeued
    rcases pc with pc | pc <;>
      exact h.setThread at_ (by simp [pc]) (by simp [pc, Pc.isCounted]) rfl
  case shutdown mode first created _ =>
    have unparked := h.unpark fun _ => true
    have alive := h.alive (by simp [first, Closer.pastJoin])
    refine ⟨unparked.unborn, unparked.counted, by simp, fun _ => created, unparked.joined, ?_,
      by simp [alive]⟩
    rintro i (at_ | at_) j
    · obtain rfl : 0 = i := by simpa using at_
      simp [(h.opened first).2]
    · simp at at_
  case shutdownAgain mode first _ closed =>
    simp [(h.opened first).1] at closed
  case joinNext i at_ more =>
    have alive := h.alive (by simp [at_, Closer.pastJoin])
    refine h.advance (by simp [at_]) (by simp) ?_ (by simp [alive])
    rintro k (hk | hk) j
    · simp at hk
    · obtain rfl : i = k := by simpa using hk
      exact h.order i (.inl at_) j
  case joinLast at_ _ | destroy at_ | delete at_ =>
    exact h.advance (by simp [at_]) (by simp) (by simp) fun _ => rfl
  case join i t at_ thread done =>
    have alive := h.alive (by simp [at_, Closer.pastJoin])
    refine ⟨h.unborn, h.counted, by simp, fun _ => h.settled (by simp [at_]), ?_, ?_,
      by simp [alive]⟩
    · intro j mem
      rcases List.mem_append.mp mem with mem | mem
      · exact h.joined j mem
      · obtain rfl : j = i := by simpa using mem
        exact ⟨t, thread, done⟩
    · rintro k (hk | hk) j
      · obtain rfl : i + 1 = k := by simpa using hk
        have := h.order i (.inr at_) j
        simp [this]
        omega
      · simp at hk
  case freeResource at_ =>
    refine h.advance (by simp [at_]) ?_ ?_ fun _ => ?_ <;> split_ifs <;> simp [Closer.pastJoin]
  all_goals exact ⟨h.unborn, h.counted, h.opened, h.settled, h.joined, h.order, h.released⟩

theorem Closing.constructed : Closing (.constructed : State Fn Arg R) where
  unborn _ := rfl
  counted := rfl
  opened _ := ⟨rfl, rfl⟩
  settled busy := absurd rfl busy
  joined := by simp [State.constructed, Joined]
  order := by simp [State.constructed]
  released := by simp [State.constructed]

theorem closing_of_run {acts : List (Act Fn Arg R)}
    (h : run (step start) .constructed acts = some s) : Closing s :=
  run_invariant .constructed (fun _ _ _ hs ha => hs.step (Move.of_step ha)) h

/-- After the join loop of a safe shutdown no thread can use the pool any more. -/
theorem SafeShutdown.terminated (h : SafeShutdown s) (closing : Closing s)
    (past : s.closer.pastJoin = true) {i : ℕ} {t : Thread R} (at_ : s.threads[i]? = some t) :
    t.pc = .terminated := by
  obtain ⟨t', at', pc⟩ := closing.joined i (h.2 past i (List.getElem?_eq_some_iff.mp at_).1)
  obtain rfl : t = t' := by simpa [at_] using at'
  exact pc

/-- A step that meets the condition keeps the shutdown safe. -/
theorem SafeShutdown.step (closing : Closing s) (h : SafeShutdown s) (late : JoinsLate s a)
    (m : Move start s a s') : SafeShutdown s' := by
  have ringFault {f : Fault} (hf : f = .divideByZero ∨ f = .outOfRange) :
      SafeShutdown (s.raise f) :=
    ⟨by rcases hf with rfl | rfl <;> simp [State.raise], h.2⟩
  cases m
  case setMaskFault fault => exact ringFault (.inl (cMod_error fault))
  case submitFault fault => exact ringFault (Pool.enqueue_error fault)
  case dequeueFault fault => exact ringFault (Pool.dequeue_error fault)
  case joinFault => exact ringFault (.inr rfl)
  case useAfterFree i t at_ released uses =>
    have pc := h.terminated closing (closing.released released) at_
    simp [pc, Pc.usesPool] at uses
  case spawn i n cpuCore at_ =>
    refine ⟨h.1, fun past => ?_⟩
    have busy : s.closer ≠ .idle := by
      intro idle
      simp [idle, Closer.pastJoin] at past
    simpa [at_, Creator.underWay] using closing.settled busy
  case joinLast i at_ last =>
    refine ⟨h.1, fun _ j hj => (closing.order i (.inl at_) j).mpr ?_⟩
    have all : countedIn s.threads = s.threads.length :=
      tally_ind_eq_length.mpr (late i at_ last)
    have := closing.counted
    simp only at hj
    omega
  case joinNext | join | shutdown => exact ⟨h.1, by simp [Closer.pastJoin]⟩
  case shutdownAgain mode first _ closed => simp [(closing.opened first).1] at closed
  case freeResource at_ | destroy at_ | delete at_ =>
    exact ⟨h.1, fun _ => h.2 (by simp [at_, Closer.pastJoin])⟩
  all_goals exact ⟨h.1, by simpa [State.setThread] using h.2⟩

/-- A step after which the shutdown is safe met the condition: a thread that had not made its
increment cannot be among the joined ones. -/
theorem JoinsLate.of_safe (closing : Closing s) (m : Move start s a s') (h : SafeShutdown s') :
    JoinsLate s a := by
  cases a <;> try trivial
  intro i at_ last t mem
  cases m
  case joinLast k at' _ =>
    obtain rfl : i = k := by simpa [at_] using at'
    obtain ⟨j, hj⟩ := List.mem_iff_getElem?.mp mem
    obtain ⟨t', at', pc⟩ := closing.joined j (h.2 rfl j (List.getElem?_eq_some_iff.mp hj).1)
    obtain rfl : t = t' := by simpa [hj] using at'
    simp [pc, Pc.isCounted]
  case joinNext k at' more =>
    obtain rfl : i = k := by simpa [at_] using at'
    omega
  all_goals simp_all

/-- A shutdown is safe along a run, that is, no thread uses the pool after its release and
every created thread is joined, if and only if the join loop never ends before every created
thread has executed `thread_count_++`. -/
theorem safeShutdown_iff {acts : List (Act Fn Arg R)}
    (h : run (step start) .constructed acts = some s) :
    EveryState (step start) SafeShutdown .constructed acts ↔
      EveryStep (step start) JoinsLate .constructed acts := by
  refine everyState_iff_everyStep (I := Closing) .constructed
    (fun _ _ _ hI hs => hI.step (Move.of_step hs)) ?_
    (fun _ _ _ hI hP hC hs => hP.step hI hC (Move.of_step hs))
    (fun _ _ _ hI hs hP => .of_safe hI (Move.of_step hs) hP) h
  exact ⟨by simp [State.constructed], by simp [State.constructed, Closer.pastJoin]⟩

/-- The only thread makes its increment before `shutdown` is called. -/
def orderlyShutdown : List (Act ℕ ℕ ℕ) :=
  [.create 1 1 1024, .creator true, .creator true, .creator true, .thread 0, .thread 0, .thread 0,
   .shutdown .gracefulShutdown, .thread 0, .closer, .thread 0, .closer, .closer, .closer, .closer,
   .closer]

theorem safeShutdown_iff_orderly :
    ∃ s, run (step fun _ => 0) .constructed orderlyShutdown = some s ∧
      s.closer = .deleted ∧ s.joined = [0] ∧
      (EveryState (step fun _ => 0) SafeShutdown .constructed orderlyShutdown ↔
        EveryStep (step fun _ => 0) JoinsLate .constructed orderlyShutdown) := by
  have end_ : (run (step fun _ => 0) .constructed orderlyShutdown).map
      (fun s => (s.closer, s.joined)) = some (.deleted, [0]) := by decide +kernel
  obtain ⟨s, hs, he⟩ := Option.map_eq_some_iff.mp end_
  obtain ⟨hc, hj⟩ := Prod.mk.inj he
  exact ⟨s, hs, hc, hj, safeShutdown_iff hs⟩

/-- The only thread is created but not scheduled before `shutdown` has run to its end: the
join loop sees `thread_count_ = 0`, the pool is deleted, and the first instruction of the
thread uses it. -/
def hastyShutdown : List (Act ℕ ℕ ℕ) :=
  [.create 1 1 1024, .creator true, .creator true, .creator true, .shutdown .gracefulShutdown,
   .closer, .closer, .closer, .closer, .thread 0]

theorem hastyShutdown_useAfterFree :
    ∃ s, run (step fun _ => 0) .constructed hastyShutdown = some s ∧
      s.closer = .deleted ∧ s.joined = [] ∧ s.fault = some .useAfterFree ∧ ¬ SafeShutdown s := by
  have end_ : (run (step fun _ => 0) .constructed hastyShutdown).map
      (fun s => (s.closer, s.joined, s.fault)) = some (.deleted, [], some .useAfterFree) := by
    decide +kernel
  obtain ⟨s, hs, he⟩ := Option.map_eq_some_iff.mp end_
  simp only [Prod.mk.injEq] at he
  exact ⟨s, hs, he.1, he.2.1, he.2.2, fun safe => safe.1 he.2.2⟩

end EpollServer.ThreadPool
