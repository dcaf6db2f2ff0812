import EpollServer.ThreadPool.Closed
import EpollServer.ThreadPool.Holding

/-!
# The graceful shutdown and the queued tasks

The pool is watched by a ledger, which no step of the pool reads: which task each thread has in
hand, and which tasks have returned. A delivered task is in hand or has returned, and at the end
of a shutdown that joins all threads nothing is in hand. So the tasks that were run are those
that were delivered before `shutdown_` was set, and the tasks left in the ring are lost.
-/
namespace EpollServer.ThreadPool

open Library

variable {Fn Arg R : Type}

/-- The pool and the ledger of its tasks. -/
structure Watched (Fn Arg R : Type) where
  state : State Fn Arg R
  /-- The threads that run a task, each with its task. -/
  inHand : List (ℕ × Task Fn Arg)
  /-- The tasks that have returned, one entry for each run. -/
  completed : List (Task Fn Arg)

def Watched.constructed : Watched Fn Arg R := ⟨.constructed, [], []⟩

/-- A step of the pool. When a thread goes on, what it had in hand has returned, and what it
was delivered is in its hand. -/
def watch (start : Task Fn Arg → R) (w : Watched Fn Arg R) (a : Act Fn Arg R) :
    Option (Watched Fn Arg R) :=
  (step start w.state a).map fun s =>
    match a with
    | .thread i =>
      { state := s
        inHand := w.inHand.filter (·.1 != i) ++
          (s.delivered.drop w.state.delivered.length).map (i, ·)
        completed := w.completed ++ (w.inHand.filter (·.1 == i)).map (·.2) }
    | _ => { w with state := s }

variable {start : Task Fn Arg → R} {s s' : State Fn Arg R} {a : Act Fn Arg R}
  {w w' w₁ w₂ : Watched Fn Arg R}

theorem step_of_watch (h : watch start w a = some w') : step start w.state a = some w'.state := by
  obtain ⟨s, hs, he⟩ := Option.map_eq_some_iff.mp h
  rw [hs, ← he]
  cases a <;> rfl

/-! ## Who runs a task -/

theorem running_set {i j : ℕ} {u : Thread R} (threads : s'.threads = s.threads.set i u)
    (other : j ≠ i) : s'.running j = s.running j := by
  unfold State.running
  rw [threads, List.getElem?_set_ne (Ne.symm other)]

theorem running_unpark {selected : ℕ → Bool} (threads : s'.threads = unpark selected s.threads)
    (j : ℕ) : s'.running j = s.running j := by
  unfold State.running unpark at *
  rw [threads, List.getElem?_mapIdx]
  cases s.threads[j]? with
  | none => rfl
  | some t =>
    simp only [Option.map_some, Option.bind_some]
    split_ifs with h
    · obtain ⟨-, parked⟩ := Bool.and_eq_true_iff.mp h
      cases hpc : t.pc <;> simp [hpc, Pc.isParked] at parked ⊢
    · rfl

/-- What a step does to the running tasks and to the delivered ones. -/
inductive Hands (s : State Fn Arg R) : Act Fn Arg R → State Fn Arg R → Prop where
  | own {i : ℕ} {s' : State Fn Arg R} (newly : List (Task Fn Arg))
      (delivered : s'.delivered = s.delivered ++ newly)
      (mine : newly.length = ind (s'.running i).isSome)
      (others : ∀ j, j ≠ i → s'.running j = s.running j) : Hands s (.thread i) s'
  | other {a : Act Fn Arg R} {s' : State Fn Arg R} (foreign : ∀ i, a.stepsOf i = false)
      (delivered : s'.delivered = s.delivered)
      (same : ∀ j, (s'.running j).isSome = (s.running j).isSome) : Hands s a s'

/-- A step of thread `i` after which it runs no task. -/
theorem Hands.idle {i : ℕ} {t u : Thread R} (at_ : s.threads[i]? = some t)
    (threads : s'.threads = s.threads.set i u) (delivered : s'.delivered = s.delivered)
    (idle : ∀ r, u.pc ≠ .running r) : Hands s (.thread i) s' := by
  have inside := (List.getElem?_eq_some_iff.mp at_).1
  refine .own [] (by simp [delivered]) ?_ fun j other => running_set threads other
  have none_ : s'.running i = none := by
    unfold State.running
    simp only [threads, List.getElem?_set_self inside, Option.bind_some]
  rw [none_]
  rfl

/-- A step of thread `i` that only raises a fault. -/
theorem Hands.fault {i : ℕ} {t : Thread R} {f : Fault} (at_ : s.threads[i]? = some t)
    (idle : ∀ r, t.pc ≠ .running r) : Hands s (.thread i) (s.raise f) := by
  refine .own [] (by simp [State.raise]) ?_ fun j _ => rfl
  have none_ : (s.raise f).running i = none := by
    simp only [State.running, State.raise, at_, Option.bind_some]
  rw [none_]
  rfl

theorem Move.hands (m : Move start s a s') : Hands s a s' := by
  cases m
  case spawn =>
    refine .other (fun _ => rfl) rfl fun j => ?_
    unfold State.running
    rcases Nat.lt_trichotomy j s.threads.length with lt | rfl | gt
    · simp [List.getElem?_append_left lt]
    · simp
    · rw [List.getElem?_eq_none (by simp; omega), List.getElem?_eq_none (by omega)]
  case accept | wake | shutdown =>
    exact .other (fun _ => rfl) rfl fun j => by rw [running_unpark rfl]
  case useAfterFree at_ _ uses =>
    refine .fault at_ ?_
    rintro r pc
    simp [pc, Pc.usesPool] at uses
  case dequeueFault at_ pc _ _ _ _ => exact .fault at_ (by rcases pc with pc | pc <;> simp [pc])
  case take i t task pool at_ pc _ _ _ _ =>
    have inside := (List.getElem?_eq_some_iff.mp at_).1
    refine .own [task] rfl ?_ fun j other => running_set rfl other
    simp [State.running, State.setThread, inside]
  case work i r t r₀ at_ pc =>
    refine .other (fun _ => rfl) rfl fun j => ?_
    by_cases same : j = i
    · subst same
      have inside := (List.getElem?_eq_some_iff.mp at_).1
      rw [State.running_of at_ pc]
      simp [State.running, State.setThread, inside]
    · rw [running_set rfl same]
  case start | count | pin | park | leave | finish | exit =>
    exact .idle ‹s.threads[_]? = some _› rfl rfl (by simp)
  all_goals exact .other (fun _ => rfl) rfl fun _ => rfl

/-! ## The ledger -/

/-- A thread that runs a task has one in hand, any other has none; and each delivered task is
in hand or has returned. -/
structure Ledger (w : Watched Fn Arg R) : Prop where
  hands : ∀ i, (w.inHand.filter (·.1 == i)).length = ind (w.state.running i).isSome
  tasks : (w.completed ++ w.inHand.map (·.2)).Perm w.state.delivered

theorem Ledger.step (h : Ledger w) (hw : watch start w a = some w') : Ledger w' := by
  have moved := (Move.of_step (step_of_watch hw)).hands
  obtain ⟨s', hs, rfl⟩ := Option.map_eq_some_iff.mp hw
  cases moved with
  | @own i _ newly delivered mine others =>
    have new : s'.delivered.drop w.state.delivered.length = newly := by
      have delivered : s'.delivered = w.state.delivered ++ newly := delivered
      rw [delivered, List.drop_left]
    refine ⟨fun j => ?_, ?_⟩
    · simp only [new, List.filter_append, List.filter_filter, List.length_append]
      by_cases same : j = i
      · subst same
        have none_ : w.inHand.filter (fun c => c.1 == j && c.1 != j) = [] :=
          List.filter_eq_nil_iff.mpr fun c _ => by simp
        have all : (newly.map (j, ·)).filter (·.1 == j) = newly.map (j, ·) :=
          List.filter_eq_self.mpr fun c hc => by
            obtain ⟨task, -, rfl⟩ := List.mem_map.mp hc
            simp
        rw [none_, all, List.length_map, List.length_nil, Nat.zero_add]
        exact mine
      · have keep : w.inHand.filter (fun c => c.1 == j && c.1 != i) =
            w.inHand.filter (·.1 == j) := List.filter_congr fun c _ => by
          by_cases hc : c.1 = j <;> simp [hc, same]
        have none_ : (newly.map (i, ·)).filter (·.1 == j) = [] :=
          List.filter_eq_nil_iff.mpr fun c hc => by
            obtain ⟨task, -, rfl⟩ := List.mem_map.mp hc
            simpa using Ne.symm same
        rw [keep, none_, List.length_nil, Nat.add_zero]
        exact (h.hands j).trans (by rw [← others j same])
    · have parts : (w.inHand.filter (·.1 == i) ++ w.inHand.filter (·.1 != i)).Perm w.inHand :=
        List.filter_append_perm (·.1 == i) w.inHand
      have before : (w.completed ++ (w.inHand.filter (·.1 == i) ++
          w.inHand.filter (·.1 != i)).map (·.2)).Perm w.state.delivered :=
        ((parts.map _).append_left _).trans h.tasks
      have after := before.append_right newly
      simp only [new, List.map_append, List.map_map, List.append_assoc] at after ⊢
      rw [show ((·.2) ∘ (i, ·) : Task Fn Arg → Task Fn Arg) = id from rfl, List.map_id]
      exact after.trans (.of_eq delivered.symm)
  | other foreign delivered same =>
    cases a
    case thread i => simpa [Act.stepsOf] using foreign i
    all_goals
      exact ⟨fun j => (h.hands j).trans (by rw [← same j]),
        h.tasks.trans (.of_eq delivered.symm)⟩

theorem ledger_of_run {acts : List (Act Fn Arg R)}
    (h : run (watch start) .constructed acts = some w) : Ledger w := by
  refine run_invariant ⟨fun i => ?_, ?_⟩ (fun _ _ _ hw hs => hw.step hs) h
  · simp [Watched.constructed, State.running, State.constructed]
  · simp [Watched.constructed, State.constructed]

/-- When no thread runs a task, the tasks that have returned are the delivered ones. -/
theorem Ledger.completed (h : Ledger w) (idle : ∀ i, w.state.running i = none) :
    w.completed.Perm w.state.delivered := by
  have empty : w.inHand = [] := by
    refine List.eq_nil_iff_forall_not_mem.mpr fun c hc => ?_
    have none_ : w.inHand.filter (·.1 == c.1) = [] := by
      apply List.eq_nil_of_length_eq_zero
      rw [h.hands, idle]
      rfl
    have : c ∈ w.inHand.filter (·.1 == c.1) := List.mem_filter.mpr ⟨hc, by simp⟩
    simp [none_] at this
  simpa [empty] using h.tasks

/-! ## From the flag to the end of `shutdown` -/

theorem Winding.counted (h : Winding s a s') (all : ∀ t ∈ s.threads, t.pc.isCounted = true) :
    ∀ t ∈ s'.threads, t.pc.isCounted = true := by
  have late (pc : Pc R) : pc.isCounted = true ↔ pc.stepsLeft ≤ 3 := by
    cases pc <;> simp [Pc.isCounted, Pc.stepsLeft]
  cases h with
  | @own i t u _ thread threads less idle =>
    rw [threads]
    intro v hv
    rcases List.mem_or_eq_of_mem_set hv with old | rfl
    · exact all v old
    · have := (late _).mp (all t (List.mem_of_getElem? thread))
      exact (late _).mpr (by omega)
  | work _ _ threads =>
    rw [threads]
    intro v hv
    rcases List.mem_or_eq_of_mem_set hv with old | rfl
    · exact all v old
    · rfl
  | useAfterFree _ threads =>
    rw [threads]
    exact all
  | other _ threads =>
    rw [threads]
    exact all

/-- If every created thread has made its increment of `thread_count_` when the pool is closed, the
shutdown is safe to its end. -/
theorem safe_of_counted {pre post : List (Act Fn Arg R)}
    (h₁ : run (step start) .constructed pre = some s) (closed : s.pool.shutdown = true)
    (joining : s.closer = .joinTest 0) (running : s.fault = none)
    (counted : ∀ t ∈ s.threads, t.pc.isCounted = true)
    (h₂ : run (step start) s post = some s') : SafeShutdown s' := by
  refine (run_induction (P := fun as u => SafeShutdown u ∧ ∀ t ∈ u.threads, t.pc.isCounted = true)
    ⟨⟨by simp [running], by simp [joining, Closer.pastJoin]⟩, counted⟩ ?_ post s' h₂).1
  rintro as u a u' hrun ⟨safe, all⟩ hs
  have reached : run (step start) .constructed (pre ++ as) = some u := by
    rw [run_append, h₁]
    exact hrun
  have still := (since_of_run h₁ closed hrun).frozen.shutdown.trans closed
  have closing := closing_of_run reached
  have m := Move.of_step hs
  have late : JoinsLate u a := by
    cases a <;> try trivial
    exact fun _ _ _ => all
  have winding := (m.winding still closing (attended_of_run reached)).2
  exact ⟨safe.step closing late m, winding.counted all⟩

/-- The tasks that are accepted and not yet delivered are those in the ring. -/
theorem backlog_of_run {acts : List (Act Fn Arg R)}
    (h : run (step start) .constructed acts = some s) :
    ∃ items, s.accepted = s.delivered ++ items ∧ s.pool.workCount = items.length := by
  rcases queued_of_run h with unborn | ⟨-, _, _, q, -, held, -, accepted, delivered⟩
  · exact ⟨[], by rw [unborn.accepted, unborn.delivered]; rfl, unborn.workCount⟩
  · exact ⟨q.items, by rw [accepted, delivered, q.history], held.workCount_eq⟩

/-- Every task accepted before `shutdown_` was set has been delivered, and was run exactly
once. -/
def Drained (w₁ w₂ : Watched Fn Arg R) : Prop :=
  w₂.state.delivered = w₁.state.accepted ∧ w₂.completed.Perm w₁.state.accepted

/-- What a shutdown that starts with all threads counted has run when it returns: the tasks that
were delivered before it. -/
theorem completed_of_shutdown {mode : ShutdownMode} {pre post : List (Act Fn Arg R)}
    (h₁ : run (watch start) .constructed pre = some w₁)
    (started : ∀ t ∈ w₁.state.threads, t.pc.isCounted = true)
    (h₂ : run (watch start) w₁ (.shutdown mode :: post) = some w₂)
    (returned : w₂.state.closer = .deleted) :
    w₂.state.delivered = w₁.state.delivered ∧ w₂.completed.Perm w₁.state.delivered := by
  have project (w w' : Watched Fn Arg R) (acts : List (Act Fn Arg R))
      (h : run (watch start) w acts = some w') :
      run (step start) w.state acts = some w'.state :=
    run_project (f := Watched.state) (fun _ _ _ => step_of_watch) h
  have hs₁ : run (step start) .constructed pre = some w₁.state := project _ _ _ h₁
  have hs₂ := project _ _ _ h₂
  obtain ⟨s, shut, rest⟩ := Option.bind_eq_some_iff.mp hs₂
  have running := running_of_step shut
  have reached : run (step start) .constructed (pre ++ [.shutdown mode]) = some s :=
    run_concat.mpr ⟨w₁.state, hs₁, shut⟩
  have hall : run (watch start) .constructed (pre ++ .shutdown mode :: post) = some w₂ := by
    rw [run_append, h₁]
    exact h₂
  cases Move.of_step shut
  case shutdownAgain first _ closed =>
    simp [((closing_of_run hs₁).opened first).1] at closed
  case shutdown =>
    have counted : ∀ t ∈ unpark (fun _ => true) w₁.state.threads, t.pc.isCounted = true := by
      have all := tally_ind_eq_length.mpr started
      apply tally_ind_eq_length.mp
      rw [length_unpark, ← all]
      exact unpark_countedIn _ _
    have safe := safe_of_counted reached rfl rfl running counted rest
    have frozen := (since_of_run reached rfl rest).frozen
    have joined : run (step start) .constructed (pre ++ .shutdown mode :: post) = some w₂.state :=
      project _ _ _ hall
    have idle (i : ℕ) : w₂.state.running i = none := by
      unfold State.running
      cases at_ : w₂.state.threads[i]? with
      | none => rfl
      | some t =>
        have := safe.terminated (closing_of_run joined) (by rw [returned]; rfl) at_
        simp [this]
    have delivered : w₂.state.delivered = w₁.state.delivered := frozen.delivered
    exact ⟨delivered, delivered ▸ (ledger_of_run hall).completed idle⟩

/-- A graceful shutdown that starts when all created threads are started has run every task that
was accepted before it exactly once when it returns, if and only if the ring is empty when
`shutdown_` is set. -/
theorem gracefulShutdown_drains_iff {pre post : List (Act Fn Arg R)}
    (h₁ : run (watch start) .constructed pre = some w₁)
    (started : ∀ t ∈ w₁.state.threads, t.pc.isCounted = true)
    (h₂ : run (watch start) w₁ (.shutdown .gracefulShutdown :: post) = some w₂)
    (returned : w₂.state.closer = .deleted) :
    Drained w₁ w₂ ↔ w₁.state.pool.workCount = 0 := by
  obtain ⟨delivered, completed⟩ := completed_of_shutdown h₁ started h₂ returned
  obtain ⟨items, accepted, count⟩ :=
    backlog_of_run (run_project (f := Watched.state) (fun _ _ _ => step_of_watch) h₁)
  rw [count]
  constructor
  · rintro ⟨all, -⟩
    have : w₁.state.delivered = w₁.state.delivered ++ items := by rw [← accepted, ← all, delivered]
    simpa using this
  · intro empty
    obtain rfl : items = [] := by simpa using empty
    rw [List.append_nil] at accepted
    exact ⟨delivered.trans accepted.symm, accepted ▸ completed⟩

/-- A pool whose only thread is about to take `lock_`, with one task queued. -/
def oneQueued : List (Act ℕ ℕ ℕ) :=
  [.create 1 1 1024, .creator true, .creator true, .creator true, .thread 0, .thread 0, .thread 0,
   .submit none (some 1) []]

/-- The thread leaves its loop and is joined, and `shutdown` returns. -/
def leaveAndJoin : List (Act ℕ ℕ ℕ) :=
  [.thread 0, .thread 0, .closer, .closer, .closer, .closer, .closer, .closer]

/-- The thread has run the task before the shutdown. -/
theorem gracefulShutdown_drains_iff_idle :
    ∃ w₁ w₂, run (watch fun _ => 0) .constructed (oneQueued ++ [.thread 0, .thread 0]) = some w₁ ∧
      run (watch fun _ => 0) w₁ (.shutdown .gracefulShutdown :: leaveAndJoin) = some w₂ ∧
      w₂.state.closer = .deleted ∧ w₁.state.accepted = [⟨some 1, none⟩] ∧ Drained w₁ w₂ := by
  have end_ : (run (watch fun _ => 0) .constructed (oneQueued ++ [.thread 0, .thread 0])).map
      (fun w₁ => (w₁.state.threads.all (·.pc.isCounted), w₁.state.pool.workCount,
        w₁.state.accepted, (run (watch fun _ => 0) w₁
          (.shutdown .gracefulShutdown :: leaveAndJoin)).map (·.state.closer))) =
      some (true, 0, [⟨some 1, none⟩], some .deleted) := by decide +kernel
  obtain ⟨w₁, h₁, he⟩ := Option.map_eq_some_iff.mp end_
  simp only [Prod.mk.injEq] at he
  obtain ⟨started, empty, accepted, he⟩ := he
  obtain ⟨w₂, h₂, returned⟩ := Option.map_eq_some_iff.mp he
  exact ⟨w₁, w₂, h₁, h₂, returned, accepted,
    (gracefulShutdown_drains_iff h₁ (List.all_eq_true.mp started) h₂ returned).mpr empty⟩

/-- The task is still queued when the flag is set: `shutdown` returns and it was never run. -/
theorem oneQueued_lost :
    ∃ w₁ w₂, run (watch fun _ => 0) .constructed oneQueued = some w₁ ∧
      (∀ t ∈ w₁.state.threads, t.pc.isCounted = true) ∧
      run (watch fun _ => 0) w₁ (.shutdown .gracefulShutdown :: leaveAndJoin) = some w₂ ∧
      w₂.state.closer = .deleted ∧ w₁.state.accepted = [⟨some 1, none⟩] ∧
      w₂.completed = [] ∧ ¬ Drained w₁ w₂ := by
  have end_ : (run (watch fun _ => 0) .constructed oneQueued).map
      (fun w₁ => (w₁.state.threads.all (·.pc.isCounted), w₁.state.accepted,
        (run (watch fun _ => 0) w₁ (.shutdown .gracefulShutdown :: leaveAndJoin)).map
          (fun w₂ => (w₂.state.closer, w₂.completed.isEmpty)))) =
      some (true, [⟨some 1, none⟩], some (.deleted, true)) := by decide +kernel
  obtain ⟨w₁, h₁, he⟩ := Option.map_eq_some_iff.mp end_
  simp only [Prod.mk.injEq] at he
  obtain ⟨started, accepted, he⟩ := he
  obtain ⟨w₂, h₂, he⟩ := Option.map_eq_some_iff.mp he
  obtain ⟨returned, completed⟩ := Prod.mk.inj he
  replace completed := List.isEmpty_iff.mp completed
  refine ⟨w₁, w₂, h₁, List.all_eq_true.mp started, h₂, returned, accepted, completed, ?_⟩
  rintro ⟨-, perm⟩
  have := perm.length_eq
  simp [completed, accepted] at this

end EpollServer.ThreadPool
