import EpollServer.ThreadPool.Machine
import EpollServer.Library.Ring

/-!
# The ring of the thread pool is a bounded FIFO queue

`curr_ = tail_` means an empty ring or a full one, so the representation is fixed by
`curr_` and `work_count`: the items are the `work_count` slots from `curr_` on, and
`tail_` is the slot behind them. `enqueue` and `dequeue` keep the representation and never
fail in it; `Queued` carries it through whole runs of the machine, together with a run of
the abstract queue that makes the same history.
-/
namespace EpollServer.ThreadPool

open Library

variable {Fn Arg R : Type}

/-- The ring variables hold `items`, in order, and no other task. -/
structure RingHolds (workQueue : List (Task Fn Arg)) (queueSize curr tail workCount : Int)
    (items : List (Task Fn Arg)) : Prop where
  curr_nonneg : 0 ≤ curr
  curr_lt : curr < queueSize
  tail_nonneg : 0 ≤ tail
  tail_lt : tail < queueSize
  workCount_nonneg : 0 ≤ workCount
  workCount_le : workCount ≤ queueSize
  workCount_eq : workCount = items.length
  tail_eq : tail = (curr + workCount) % queueSize
  size : (workQueue.length : Int) = queueSize
  ring : Ring .empty workQueue curr.toNat items

abbrev Pool.Represents (p : Pool Fn Arg) (items : List (Task Fn Arg)) : Prop :=
  RingHolds p.workQueue p.queueSize p.curr p.tail p.workCount items

namespace Pool.Represents

variable {p : Pool Fn Arg} {items : List (Task Fn Arg)}

/-- Both indices as natural numbers. -/
theorem exists_nat (h : p.Represents items) :
    ∃ head : ℕ, p.curr = head ∧ head < p.workQueue.length ∧
      p.tail = ((head + items.length) % p.workQueue.length : ℕ) ∧
      Ring .empty p.workQueue head items := by
  have hs := h.size
  have hc := h.curr_lt
  obtain ⟨head, hh⟩ := Int.eq_ofNat_of_zero_le h.curr_nonneg
  have hr := h.ring
  rw [hh, Int.toNat_natCast] at hr
  refine ⟨head, hh, by omega, ?_, hr⟩
  rw [h.tail_eq, hh, h.workCount_eq, ← hs]
  rfl

/-- The representation, from natural numbers. -/
theorem of_nat {workQueue : List (Task Fn Arg)} {queueSize curr tail workCount : Int} {head : ℕ}
    (hr : Ring .empty workQueue head items) (hh : head < workQueue.length) (hc : curr = head)
    (ht : tail = ((head + items.length) % workQueue.length : ℕ))
    (hw : workCount = items.length) (hs : (workQueue.length : Int) = queueSize) :
    RingHolds workQueue queueSize curr tail workCount items := by
  subst hc ht hw hs
  have pos : 0 < workQueue.length := by omega
  have := Nat.mod_lt (head + items.length) pos
  have := hr.fits
  exact {
    curr_nonneg := by omega
    curr_lt := by omega
    tail_nonneg := by omega
    tail_lt := by omega
    workCount_nonneg := by omega
    workCount_le := by omega
    workCount_eq := rfl
    tail_eq := by simp
    size := rfl
    ring := by simpa using hr }

theorem enqueue (h : p.Represents items) (space : p.workCount ≠ p.queueSize)
    (task : Task Fn Arg) :
    ∃ q, p.enqueue task = .ok q ∧ q.Represents (items ++ [task]) ∧ q.queueSize = p.queueSize := by
  obtain ⟨head, hc, hh, ht, hr⟩ := h.exists_nat
  have hs := h.size
  have hw := h.workCount_eq
  have room : items.length < p.workQueue.length := by
    have := hr.fits
    omega
  have pos : 0 < p.workQueue.length := by omega
  have next : cMod (p.tail + 1) p.queueSize =
      .ok (((head + items.length) % p.workQueue.length + 1) % p.workQueue.length : ℕ) := by
    rw [ht, ← hs, ← cMod_natCast _ pos]
    rfl
  have slot := vectorSet_natCast (Nat.mod_lt (head + items.length) pos) task
  have held : RingHolds (p.workQueue.set ((head + items.length) % p.workQueue.length) task)
      p.queueSize p.curr
      (((head + items.length) % p.workQueue.length + 1) % p.workQueue.length : ℕ)
      (p.workCount + 1) (items ++ [task]) :=
    of_nat (hr.push room task) (by simpa using hh) hc (by simp [Nat.add_assoc]) (by simp [hw])
      (by simpa using hs)
  refine ⟨{ p with workQueue := _, tail := _, workCount := p.workCount + 1 }, ?_, held, rfl⟩
  unfold Pool.enqueue
  rw [next, ht, slot]
  rfl

theorem dequeue {task : Task Fn Arg} (h : p.Represents (task :: items)) :
    ∃ q, p.dequeue = .ok (task, q) ∧ q.Represents items ∧ q.queueSize = p.queueSize := by
  obtain ⟨head, hc, hh, ht, hr⟩ := h.exists_nat
  have hs := h.size
  have hw := h.workCount_eq
  have pos : 0 < p.workQueue.length := by omega
  have wrap : head % p.workQueue.length = head := Nat.mod_eq_of_lt hh
  have read : vectorAt p.workQueue p.curr = .ok task := by
    rw [hc]
    exact vectorAt_natCast (by simpa [wrap] using hr.front)
  have clear : vectorSet p.workQueue p.curr .empty = .ok (p.workQueue.set head .empty) := by
    rw [hc]
    exact vectorSet_natCast hh .empty
  have next : cMod (p.curr + 1) p.queueSize = .ok (((head + 1) % p.workQueue.length : ℕ)) := by
    rw [hc, ← hs, ← cMod_natCast _ pos]
    rfl
  have popped := hr.pop
  rw [wrap] at popped
  have last : head + (items.length + 1) = head + 1 + items.length := by omega
  have held : RingHolds (p.workQueue.set head .empty) p.queueSize
      ((head + 1) % p.workQueue.length : ℕ) p.tail (p.workCount - 1) items := by
    refine of_nat popped (by simpa using Nat.mod_lt _ pos) rfl ?_ (by simp [hw]) (by simpa using hs)
    rw [ht, List.length_set, List.length_cons, Nat.mod_add_mod, last]
  refine ⟨{ p with workQueue := _, curr := _, workCount := p.workCount - 1 }, ?_, held, rfl⟩
  unfold Pool.dequeue
  rw [read, clear, next]
  rfl

/-- The ring that `create` sets up is empty. -/
theorem create (p : Pool Fn Arg) (queueSize : Int) (h : p.workQueue = []) :
    (p.create queueSize).Represents [] ∧ 0 < (p.create queueSize).queueSize := by
  obtain ⟨lo, hi⟩ := coerceIn_bounds queueSize (l := 1024) (r := maxQueue) (by decide)
  obtain ⟨n, hn⟩ := Int.eq_ofNat_of_zero_le (a := coerceIn queueSize 1024 maxQueue) (by omega)
  have slots : vectorResize p.workQueue n .empty = List.replicate n .empty := by
    simp [vectorResize, h]
  simp only [Pool.create, Pool.Represents, hn, slots]
  exact ⟨of_nat (.replicate _ _) (by simp; omega) rfl (by simp) rfl (by simp), by omega⟩

end Pool.Represents

/-- The pool before `create`: no thread, no slot, no task. -/
structure Unborn (s : State Fn Arg R) : Prop where
  creator : s.creator = .idle
  threads : s.threads = []
  workQueue : s.pool.workQueue = []
  queueSize : s.pool.queueSize = 0
  workCount : s.pool.workCount = 0
  accepted : s.accepted = []
  delivered : s.delivered = []

/-- The ring holds the content of a bounded FIFO queue that was reached by enqueuing and
dequeuing, with `accepted` as its inputs and `delivered` as its outputs. -/
def Queued (p : Pool Fn Arg) (accepted delivered : List (Task Fn Arg)) : Prop :=
  ∃ (capacity : ℕ) (ops : List (FifoOp (Task Fn Arg))) (q : Fifo (Task Fn Arg) capacity),
    run Fifo.step (.empty _ capacity) ops = some q ∧ p.Represents q.items ∧
    p.queueSize = capacity ∧ accepted = q.entered ∧ delivered = q.left

variable {p : Pool Fn Arg} {accepted delivered : List (Task Fn Arg)}
  {start : Task Fn Arg → R} {s s' : State Fn Arg R} {a : Act Fn Arg R}

theorem Queued.accept (h : Queued p accepted delivered) (space : p.workCount ≠ p.queueSize)
    (task : Task Fn Arg) :
    ∃ q, p.enqueue task = .ok q ∧ Queued q (accepted ++ [task]) delivered := by
  obtain ⟨capacity, ops, q, hq, hp, hc, rfl, rfl⟩ := h
  obtain ⟨p', he, hp', hs⟩ := hp.enqueue space task
  have room : q.items.length < capacity := by
    have := q.bounded
    have := hp.workCount_eq
    omega
  obtain ⟨q', hstep, hi, hen, hl⟩ := q.step_enqueue task room
  refine ⟨p', he, capacity, ops ++ [.enqueue task], q', ?_, hi ▸ hp', hs.trans hc, hen.symm,
    hl.symm⟩
  exact run_concat.mpr ⟨q, hq, hstep⟩

theorem Queued.deliver (h : Queued p accepted delivered) (work : p.workCount ≠ 0) :
    ∃ task q, p.dequeue = .ok (task, q) ∧ Queued q accepted (delivered ++ [task]) := by
  obtain ⟨capacity, ops, q, hq, hp, hc, rfl, rfl⟩ := h
  have hw := hp.workCount_eq
  match hi : q.items with
  | [] => simp [hi] at hw; omega
  | task :: rest =>
    obtain ⟨p', hd, hp', hs⟩ := (hi ▸ hp : p.Represents (task :: rest)).dequeue
    obtain ⟨q', hstep, hi', hen, hl⟩ := q.step_dequeue hi
    refine ⟨task, p', hd, capacity, ops ++ [.dequeue], q', ?_, hi' ▸ hp', hs.trans hc, hen.symm,
      hl.symm⟩
    exact run_concat.mpr ⟨q, hq, hstep⟩

/-- Before `create` a step leaves the pool as it is, or is the call of `create`. -/
theorem Unborn.step (h : Unborn s) (m : Move start s a s') :
    Unborn s' ∨ s'.creator ≠ .idle ∧ Queued s'.pool s'.accepted s'.delivered := by
  have full : s.pool.workCount = s.pool.queueSize := h.workCount.trans h.queueSize.symm
  obtain ⟨creator, threads, workQueue, queueSize, workCount, accepted, delivered⟩ := h
  cases m
  case create cpuCore threadCount size _ _ =>
    refine .inr ⟨?_, ?_⟩
    · simp only [Creator.next]
      split_ifs <;> simp
    · obtain ⟨hp, pos⟩ := Pool.Represents.create s.pool size workQueue
      obtain ⟨n, hn⟩ := Int.eq_ofNat_of_zero_le pos.le
      exact ⟨n, [], .empty _ n, rfl, hp, hn, accepted, delivered⟩
  case submitFault space _ _ | accept space _ _ _ => exact absurd full space
  all_goals first
    | simp_all; done
    | exact .inl ⟨creator, threads, workQueue, queueSize, workCount, accepted, delivered⟩
    | exact .inl ⟨creator, by simp [threads, unpark], workQueue, queueSize, workCount, accepted,
        delivered⟩

/-- After it every step keeps the ring in step with a bounded FIFO queue. -/
theorem Queued.step (born : s.creator ≠ .idle) (h : Queued s.pool s.accepted s.delivered)
    (m : Move start s a s') :
    s'.creator ≠ .idle ∧ Queued s'.pool s'.accepted s'.delivered := by
  cases m
  case create fresh _ => exact absurd fresh born
  case spawn =>
    refine ⟨?_, h⟩
    simp only [Creator.next]
    split_ifs <;> simp
  case submitFault args func woken f space _ fault =>
    obtain ⟨q, he, -⟩ := h.accept space ⟨func, args⟩
    simp [he] at fault
  case accept args func woken pool space _ enqueued _ =>
    obtain ⟨q, he, hq⟩ := h.accept space ⟨func, args⟩
    obtain rfl : q = pool := by simpa [he] using enqueued
    exact ⟨born, hq⟩
  case dequeueFault fault =>
    obtain ⟨task, q, hd, -⟩ := h.deliver ‹_›
    simp [hd] at fault
  case take task pool _ _ _ _ work dequeued =>
    obtain ⟨task', q, hd, hq⟩ := h.deliver work
    obtain ⟨rfl, rfl⟩ : task' = task ∧ q = pool := by simpa [hd] using dequeued
    exact ⟨born, hq⟩
  all_goals first
    | exact ⟨born, h⟩
    | exact ⟨by simp, h⟩

/-- The ring in every reachable state. -/
theorem queued_of_run {acts : List (Act Fn Arg R)}
    (h : run (step start) .constructed acts = some s) :
    Unborn s ∨ s.creator ≠ .idle ∧ Queued s.pool s.accepted s.delivered := by
  refine run_invariant
    (I := fun s => Unborn s ∨ s.creator ≠ .idle ∧ Queued s.pool s.accepted s.delivered)
    (.inl ⟨rfl, rfl, rfl, rfl, rfl, rfl, rfl⟩) ?_ h
  rintro s a s' (unborn | ⟨born, queued⟩) hs
  · exact unborn.step (Move.of_step hs)
  · exact .inr (Queued.step born queued (Move.of_step hs))

theorem Pool.Represents.submit (h : p.Represents items) {capacity : ℕ} (hc : p.queueSize = capacity)
    (args : Option Arg) (func : Option Fn) :
    ∃ pool code, p.submit args func .succeed = .ok (pool, code) ∧
      (code = threadpoolQueueFull ↔ items.length = capacity) ∧
      (code = 0 → pool.Represents (items ++ [⟨func, args⟩])) ∧ (code ≠ 0 → pool = p) := by
  have hw := h.workCount_eq
  rw [Pool.submit_succeed]
  by_cases full : p.workCount = p.queueSize
  · exact ⟨p, threadpoolQueueFull, by rw [if_pos full], by simp; omega,
      fun h => absurd h (by decide), fun _ => rfl⟩
  rw [if_neg full]
  have room : items.length ≠ capacity := by omega
  by_cases closed : p.shutdown = true
  · exact ⟨p, threadpoolShutdown, by rw [if_pos closed], by simp [room]; decide,
      fun h => absurd h (by decide), fun _ => rfl⟩
  rw [if_neg closed]
  obtain ⟨pool, he, hp, -⟩ := h.enqueue full ⟨func, args⟩
  exact ⟨pool, 0, by rw [he]; rfl, by simp [room]; decide, fun _ => hp, fun h => absurd rfl h⟩

/-- In every run of the pool the ring refines a bounded FIFO queue: before `create` every
`submit` is refused at once, afterwards the ring variables represent the content of a queue
whose inputs are the accepted tasks and whose outputs are the tasks handed to workers. -/
theorem ring_refines_fifo {acts : List (Act Fn Arg R)}
    (h : run (step start) .constructed acts = some s) :
    (s.creator = .idle → s.pool.queueSize = 0 ∧ ∀ args func,
      s.pool.submit args func .succeed = .ok (s.pool, threadpoolQueueFull)) ∧
    (s.creator ≠ .idle →
      ∃ (capacity : ℕ) (ops : List (FifoOp (Task Fn Arg))) (q : Fifo (Task Fn Arg) capacity),
        run Fifo.step (.empty _ capacity) ops = some q ∧
        q.entered = s.accepted ∧ q.left = s.delivered ∧
        s.pool.queueSize = capacity ∧ s.pool.Represents q.items ∧
        s.accepted = s.delivered ++ q.items ∧ s.delivered <+: s.accepted ∧
        (∀ args func, ∃ pool code, s.pool.submit args func .succeed = .ok (pool, code) ∧
          (code = threadpoolQueueFull ↔ q.items.length = capacity) ∧
          (code = 0 → pool.Represents (q.items ++ [⟨func, args⟩])) ∧
          (code ≠ 0 → pool = s.pool)) ∧
        (s.pool.workCount ≠ 0 → ∃ task rest pool, q.items = task :: rest ∧
          s.pool.dequeue = .ok (task, pool) ∧ pool.Represents rest)) := by
  rcases queued_of_run h with unborn | ⟨born, queued⟩
  · refine ⟨fun _ => ⟨unborn.queueSize, fun args func => ?_⟩,
      fun born => absurd unborn.creator born⟩
    rw [Pool.submit_succeed, if_pos (unborn.workCount.trans unborn.queueSize.symm)]
  · refine ⟨fun idle => absurd idle born, fun _ => ?_⟩
    obtain ⟨capacity, ops, q, hq, hp, hc, ha, hd⟩ := queued
    refine ⟨capacity, ops, q, hq, ha.symm, hd.symm, hc, hp, ?_, ?_,
      fun args func => Pool.Represents.submit hp hc args func, fun work => ?_⟩
    · rw [ha, hd, q.history]
    · rw [ha, hd]
      exact q.left_prefix
    · have hw := hp.workCount_eq
      match hi : q.items with
      | [] => simp [hi] at hw; omega
      | task :: rest =>
        obtain ⟨pool, hd', hp', -⟩ := (hi ▸ hp : s.pool.Represents (task :: rest)).dequeue
        exact ⟨task, rest, pool, rfl, hd', hp'⟩

/-- A pool of two threads, the second of which takes the first of two tasks. -/
theorem ring_refines_fifo_two_tasks :
    ∃ s : State ℕ ℕ ℕ,
      run (step fun _ => 0) .constructed
        [.create 1 2 1024, .creator true, .creator true, .creator true, .creator true,
         .creator true, .creator true, .submit none (some 1) [], .submit none (some 2) [],
         .thread 1, .thread 1, .thread 1, .thread 1] = some s ∧
      s.delivered = [⟨some 1, none⟩] ∧ s.delivered <+: s.accepted := by
  have end_ : (run (step fun _ => 0) (.constructed : State ℕ ℕ ℕ)
        [.create 1 2 1024, .creator true, .creator true, .creator true, .creator true,
         .creator true, .creator true, .submit none (some 1) [], .submit none (some 2) [],
         .thread 1, .thread 1, .thread 1, .thread 1]).map
      (fun s => (s.creator, s.delivered)) = some (.returned 0, [⟨some 1, none⟩]) := by
    decide +kernel
  obtain ⟨s, hs, he⟩ := Option.map_eq_some_iff.mp end_
  obtain ⟨hc, hd⟩ := Prod.mk.inj he
  obtain ⟨-, -, q, -, -, -, -, -, -, h, -⟩ := (ring_refines_fifo hs).2 (by simp [hc])
  exact ⟨s, hs, hd, h⟩

end EpollServer.ThreadPool
