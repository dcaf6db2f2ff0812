import EpollServer.Server.Journey
import EpollServer.ThreadPool.Names

/-!
# In which order clients go through the server

The ring and `event_storage_` are first in, first out, and a worker holds `locker_` from popping a
client until it is recorded. So no client overtakes another one up to the ring, nor from
`event_storage_` on. Between the two queues pool threads overtake each other; where there is one
pool thread at most, clients go through the whole server in the order in which they were accepted.
-/
namespace EpollServer.Server

open Library

variable {cpuCore : Int} {s s' : State} {act : Act} {n : ℕ} {as bs : List Act} {a b fd : Int}
  {p q : Place}

/-! ## Which of two elements is first -/

theorem before_append {β : Type*} {x y : β} {l m : List β} (h : [x, y].Sublist (l ++ m)) :
    [x, y].Sublist l ∨ x ∈ l ∧ y ∈ m ∨ [x, y].Sublist m := by
  obtain ⟨l', m', pair, left, right⟩ := List.sublist_append_iff.mp h
  match l', m', pair with
  | [], _, rfl => exact .inr (.inr right)
  | [_], [_], rfl => exact .inr (.inl ⟨left.subset (by simp), right.subset (by simp)⟩)
  | [_, _], [], rfl => exact .inl left

/-- What comes behind an element of the second part is in the second part. -/
theorem mem_of_before {β : Type*} {x y : β} {l m : List β} (distinct : (l ++ m).Nodup)
    (order : [x, y].Sublist (l ++ m)) (first : x ∈ m) : y ∈ m := by
  have disjoint : x ∉ l := fun other => (List.nodup_append.mp distinct).2.2 x other x first rfl
  rcases before_append order with left | ⟨left, -⟩ | right
  · exact absurd (left.subset (by simp)) disjoint
  · exact absurd left disjoint
  · exact right.subset (by simp)

theorem ne_of_before {β : Type*} {x y : β} {l : List β} (distinct : l.Nodup)
    (order : [x, y].Sublist l) : x ≠ y := by
  have := distinct.sublist order
  simpa using this

/-- Of two elements the one that is not behind the other is in front of it. -/
theorem before_of_not_behind {β : Type*} {x y : β} {l : List β} (first : x ∈ l) (second : y ∈ l)
    (different : x ≠ y) (order : ∀ m r, l = m ++ y :: r → x ∉ r) : [x, y].Sublist l := by
  obtain ⟨m, r, rfl⟩ := List.append_of_mem second
  have front : x ∈ m := by
    rcases List.mem_append.mp first with front | back
    · exact front
    · exact absurd ((List.mem_cons.mp back).resolve_left different) (order m r rfl)
  have pair : ([x] ++ [y]).Sublist (m ++ y :: r) :=
    (List.singleton_sublist.mpr front).append (List.singleton_sublist.mpr List.mem_cons_self)
  exact pair

/-! ## Up to the ring -/

theorem Sound.isAt_ring (h : Sound s) :
    s.isAt fd .ring = true ↔ fd ∈ s.submitted ∧ some fd ∉ s.pool.delivered.map taskFd := by
  have ring := h.inRing fd
  rw [h.located.tally_accepted, tally_nodup h.counting.submitted_nodup] at ring
  have delivered : 0 < tally (taskCounts (· == fd)) s.pool.delivered ↔
      some fd ∈ s.pool.delivered.map taskFd := by
    simp [tally_pos, taskCounts, ind_pos, Option.any_eq_true]
  rw [State.isAt, decide_eq_true_iff, ← delivered]
  split_ifs at ring with submitted
  · simp only [submitted, true_and]
    omega
  · simp only [submitted, false_and, iff_false]
    omega

theorem Sound.delivered_prefix (h : Sound s) :
    ∃ rest, s.pool.accepted = s.pool.delivered ++ rest := by
  rcases h.queue with unborn | ⟨-, queued⟩
  · exact ⟨[], by simp [unborn.accepted, unborn.delivered]⟩
  · obtain ⟨capacity, ops, q, -, -, -, accepted, delivered⟩ := queued
    exact ⟨q.items, by rw [accepted, delivered, q.history]⟩

/-- A client behind one that is still with the main thread or in the ring is no further. -/
theorem Sound.behind_front (h : Sound s) (order : [a, b].Sublist s.accepted)
    (at_ : s.isAt a p = true) (early : p.rank ≤ 1) :
    ∃ q, s.isAt b q = true ∧ q.rank ≤ p.rank := by
  have pending := h.counting.pending
  have distinct := h.counting.nodup
  cases p with
  | accepted =>
    rw [pending] at order distinct
    have last := mem_of_before distinct order (List.contains_iff_mem.mp at_)
    exact ⟨.accepted, List.contains_iff_mem.mpr last, Nat.le_refl _⟩
  | ring =>
    obtain ⟨submitted, inside⟩ := h.isAt_ring.mp at_
    obtain ⟨rest, prefix_⟩ := h.delivered_prefix
    have whole : s.accepted.map some =
        s.pool.delivered.map taskFd ++ (rest.map taskFd ++ s.acceptor.pending.map some) := by
      rw [pending, List.map_append, ← h.located.accepted, prefix_, List.map_append,
        List.append_assoc]
    have order' : [some a, some b].Sublist (s.accepted.map some) := order.map some
    have distinct' : (s.accepted.map some).Nodup := distinct.map (Option.some_injective _)
    have mem : some a ∈ s.accepted.map some := order'.subset (by simp)
    rw [whole] at order' distinct' mem
    have right := (List.mem_append.mp mem).resolve_left inside
    have behind := mem_of_before distinct' order' right
    have undelivered : some b ∉ s.pool.delivered.map taskFd := fun other =>
      (List.nodup_append.mp distinct').2.2 _ other _ behind rfl
    have known : b ∈ s.accepted := order.subset (by simp)
    rw [pending, List.mem_append] at known
    rcases known with submitted | waiting
    · exact ⟨.ring, h.isAt_ring.mpr ⟨submitted, undelivered⟩, Nat.le_refl _⟩
    · exact ⟨.accepted, List.contains_iff_mem.mpr waiting, Nat.zero_le _⟩
  | reading | answered | stored | popped | recorded => simp [Place.rank] at early

/-! ## From `event_storage_` on -/

/-- The descriptors in `event_storage_`, the first one at its front. -/
def State.line (s : State) : List Int := s.workers.eventStorage.map (·.eplev.fd)

theorem isAt_stored : s.isAt fd .stored = true ↔ fd ∈ s.line := by
  simp [State.isAt, State.line, List.any_eq_true]

/-- What a step of the worker pool does to `event_storage_`. -/
theorem storage_cases {w w' : WorkerPool.State} {b : WorkerPool.Act} (m : WorkerPool.Move w b w') :
    w'.eventStorage = w.eventStorage ∨
    (∃ j info, b = .taskEmplace j info ∧ w'.eventStorage = w.eventStorage ++ [info]) ∨
    ∃ (i : ℕ) (v : WorkerPool.Worker) (info : WorkerPool.ClientInfo),
      w.workers[i]? = some v ∧ v.pc = .pop ∧ w.eventStorage = info :: w'.eventStorage := by
  cases m
  case taskEmplace j info _ => exact .inr (.inl ⟨j, info, rfl, rfl⟩)
  case pop i v info rest worker pc front => exact .inr (.inr ⟨i, v, info, worker, pc, front⟩)
  all_goals exact .inl rfl

/-- While a worker is about to pop a client, none has one in hand. -/
theorem not_popped (guarded : WorkerPool.Guarded s.workers) {i : ℕ} {v : WorkerPool.Worker}
    (worker : s.workers.workers[i]? = some v) (pc : v.pc = .pop) (j : ℕ) :
    ¬ s.isAt fd (.popped j) = true := by
  intro at_
  rw [State.isAt, WorkerPool.State.holdings, List.getElem?_map] at at_
  obtain ⟨_, holds, hand⟩ := (Option.any_eq_true _ _).mp at_
  obtain ⟨u, other, rfl⟩ := Option.map_eq_some_iff.mp holds
  have mine := guarded.holder i v worker (by rw [pc]; rfl)
  have hand : u.pc.inHand = some fd := eq_of_beq hand
  have theirs := guarded.holder j u other (by cases hpc : u.pc <;> simp_all [WorkerPool.Pc.inHand,
    WorkerPool.Pc.locked])
  obtain rfl : i = j := by simpa [mine] using theirs
  obtain rfl : v = u := by simpa [worker] using other
  simp [pc, WorkerPool.Pc.inHand] at hand

/-- What a step of the server does to `event_storage_`. -/
inductive Queueing (s s' : State) : Prop where
  | emplace {i : ℕ} {fd : Int} (before : s.isAt fd (.answered i) = true)
      (line : s'.line = s.line ++ [fd])
  | pop {fd : Int} (front : s.line = fd :: s'.line)
      (free : ∀ x j, ¬ s.isAt x (.popped j) = true)
  | other (same : s'.line = s.line)

theorem Queueing.of_workers (guarded : WorkerPool.Guarded s.workers) {b : WorkerPool.Act}
    (step : WorkerPool.step s.workers b = some s'.workers)
    (quiet : ∀ j info, b ≠ .taskEmplace j info) : Queueing s s' := by
  rcases storage_cases (.of_step step) with
    same | ⟨j, info, emplace, -⟩ | ⟨i, v, info, worker, pc, front⟩
  · exact .other (by rw [State.line, State.line, same])
  · exact absurd emplace (quiet j info)
  · exact .pop (by rw [State.line, front]; rfl) fun x j => not_popped guarded worker pc j

theorem Move.queueing (guarded : WorkerPool.Guarded s.workers) (m : Move cpuCore s act s') :
    Queueing s s' := by
  cases m
  case startWorkers step | worker step | register step | poll step | read step =>
    exact .of_workers guarded step (by simp)
  case taskLock lock step => exact .of_workers guarded lock (by simp)
  case taskUnlock unlock step => exact .of_workers guarded unlock (by simp)
  case taskEmplace i c pool workers job emplace step =>
    rcases storage_cases (.of_step emplace) with
      same | ⟨j, info, put, line⟩ | ⟨i, v, info, worker, pc, front⟩
    · exact .other (by simp [State.line, same])
    · obtain ⟨rfl, rfl⟩ : i = j ∧ c.info = info := by simpa using put
      have at_ : s.isAt c.info.eplev.fd (.answered i) = true := by
        simp [State.isAt, job, Job.answered]
      exact .emplace at_ (by simp [State.line, line])
    · exact .pop (by rw [State.line, front]; rfl) fun x j => not_popped guarded worker pc j
  all_goals exact .other rfl

/-- Client `a` has reached `event_storage_`, and `b` cannot overtake it any more. -/
structure Behind (s : State) (a b : Int) : Prop where
  different : a ≠ b
  past : ∃ p, s.isAt a p = true ∧ 4 ≤ p.rank
  line : ∀ l r, s.line = l ++ b :: r → a ∉ r
  taken : ∀ q, s.isAt b q = true → 5 ≤ q.rank → ∃ j, s.isAt a (.recorded j) = true

/-- Where a client is after one more step. -/
theorem follow_of_run (hs : run (step cpuCore) (.listening n) as = some s)
    (ha : step cpuCore s act = some s') (at_ : s.isAt fd p = true) :
    s'.isAt fd p = true ∨ ∃ q, p.next q = true ∧ s'.isAt fd q = true :=
  ((sound_of_run hs).advances (.of_step ha)).follow at_

theorem Behind.step (hs : run (step cpuCore) (.listening n) as = some s)
    (ha : step cpuCore s act = some s') (h : Behind s a b) : Behind s' a b := by
  have hs' : run (Server.step cpuCore) (.listening n) (as ++ [act]) = some s' :=
    run_concat.mpr ⟨s, hs, ha⟩
  obtain ⟨_, workers⟩ := workers_run hs
  have queueing := (Move.of_step ha).queueing (WorkerPool.guarded_of_run workers)
  have keep {j : ℕ} (at_ : s.isAt a (.recorded j) = true) : s'.isAt a (.recorded j) = true := by
    rcases follow_of_run hs ha at_ with stays | ⟨q, leg, -⟩
    · exact stays
    · simp [Place.next] at leg
  obtain ⟨p, at_, late⟩ := h.past
  refine ⟨h.different, ?_, fun l r line => ?_, fun q at' far => ?_⟩
  · rcases follow_of_run hs ha at_ with stays | ⟨q, leg, there⟩
    · exact ⟨p, stays, late⟩
    · exact ⟨q, there, by have := Place.rank_lt leg; omega⟩
  · cases queueing with
    | other same => exact h.line l r (same ▸ line)
    | pop front _ => exact h.line (_ :: l) r (by rw [front, line]; rfl)
    | @emplace i x before longer =>
      rw [longer] at line
      rcases List.eq_nil_or_concat' r with rfl | ⟨r', y, rfl⟩
      · simp
      · have split : s.line ++ [x] = (l ++ b :: r') ++ [y] := by simpa using line
        obtain ⟨earlier, rfl⟩ : s.line = l ++ b :: r' ∧ x = y := by
          simpa using List.append_inj' split rfl
        rw [List.mem_append, List.mem_singleton, not_or]
        refine ⟨h.line l r' earlier, ?_⟩
        rintro rfl
        obtain rfl := unique_of_run hs at_ before
        simp [Place.rank] at late
  · rcases ((sound_of_run hs).advances (.of_step ha)).trace at' with same | rfl | ⟨r, leg, from_⟩
    · obtain ⟨j, recorded⟩ := h.taken q same far
      exact ⟨j, keep recorded⟩
    · simp [Place.rank] at far
    · by_cases taken : 5 ≤ r.rank
      · obtain ⟨j, recorded⟩ := h.taken r from_ taken
        exact ⟨j, keep recorded⟩
      · obtain rfl : r = .stored := by
          cases r <;> cases q <;> simp_all [Place.next, Place.rank]
        have left : b ∉ s'.line := by
          intro still
          obtain rfl := unique_of_run hs' (isAt_stored.mpr still) at'
          simp [Place.rank] at far
        have waiting := isAt_stored.mp from_
        cases queueing with
        | other same => exact absurd (same ▸ waiting) left
        | emplace _ longer => exact absurd (by rw [longer]; simp [waiting]) left
        | @pop x front free =>
          -- `b` was the front, so `a` is neither in the storage nor in hand.
          rw [front, List.mem_cons] at waiting
          obtain rfl := waiting.resolve_right left
          have absent := h.line [] s'.line front
          cases p with
          | accepted | ring | reading | answered => simp [Place.rank] at late
          | stored =>
            have inside := isAt_stored.mp at_
            rw [front, List.mem_cons] at inside
            exact absurd (inside.resolve_right absent) h.different
          | popped j => exact absurd at_ (free a j)
          | recorded j => exact ⟨j, keep at_⟩

/-- In `event_storage_` the one is behind the other. -/
theorem Behind.sublist (h : Behind s a b) (first : a ∈ s.line) (second : b ∈ s.line) :
    [a, b].Sublist s.line :=
  before_of_not_behind first second h.different h.line

theorem Behind.of_run (hs : run (Server.step cpuCore) (.listening n) as = some s)
    (later : run (Server.step cpuCore) s bs = some s') (h : Behind s a b) : Behind s' a b := by
  refine run_induction (P := fun _ s' => Behind s' a b) h ?_ bs s' later
  intro cs t act t' ht behind ha
  have whole : run (Server.step cpuCore) (.listening n) (as ++ cs) = some t := by
    rw [run_append, hs]
    exact ht
  exact behind.step whole ha

/-- No client is in `event_storage_` twice. -/
theorem Sound.line_nodup (h : Sound s) : s.line.Nodup := by
  rw [List.nodup_iff_count_le_one]
  intro fd
  have places := h.places fd
  have count : s.line.count fd = s.inStorage fd := by
    unfold State.line State.inStorage WorkerPool.State.stored
    induction s.workers.eventStorage with
    | nil => rfl
    | cons info infos ih =>
      rw [List.map_cons, List.count_cons, ih, tally_cons, Nat.add_comm]
      rfl
  split_ifs at places <;> omega

/-- A client is behind another one that has reached `event_storage_` before it. -/
theorem Behind.of_later (h : run (Server.step cpuCore) (.listening n) as = some s)
    (at_ : s.isAt a p = true) (at' : s.isAt b q = true) (late : 4 ≤ p.rank)
    (later : q.rank < 4 ∨ [a, b].Sublist s.line) : Behind s a b := by
  have elsewhere (l r : List Int) (line : s.line = l ++ b :: r) : ¬ q.rank < 4 := by
    obtain rfl := unique_of_run h (isAt_stored.mpr (by rw [line]; simp)) at'
    simp [Place.rank]
  rcases later with earlier | order
  · refine ⟨?_, ⟨p, at_, late⟩, fun l r line => absurd earlier (elsewhere l r line), ?_⟩
    · rintro rfl
      obtain rfl := unique_of_run h at_ at'
      omega
    · intro q' at'' far
      obtain rfl := unique_of_run h at' at''
      omega
  · have distinct := (sound_of_run h).line_nodup
    have different := ne_of_before distinct order
    refine ⟨different, ⟨p, at_, late⟩, fun l r line again => ?_, fun q' at'' far => ?_⟩
    · rw [line] at distinct order
      have rest : (b :: r).Nodup := distinct.of_append_right
      have last := mem_of_before (l := l ++ [b]) (m := r) (by simpa using distinct)
        (by simpa using order) again
      exact (List.nodup_cons.mp rest).1 last
    · obtain rfl := unique_of_run h (isAt_stored.mpr (order.subset (by simp))) at''
      simp [Place.rank] at far

/-- In every run no client overtakes another one up to the ring: one accepted later is no further.
And whatever follows, none overtakes one that has reached `event_storage_` before it, and it leaves
the storage only after the other is recorded. -/
theorem no_overtaking (h : run (step cpuCore) (.listening n) as = some s)
    (later : run (step cpuCore) s bs = some s') (at_ : s.isAt a p = true)
    (at' : s.isAt b q = true) :
    ([a, b].Sublist s.accepted → p.rank ≤ 1 → q.rank ≤ p.rank) ∧
      (4 ≤ p.rank → q.rank < 4 ∨ [a, b].Sublist s.line → ∀ p' q', s'.isAt a p' = true →
        s'.isAt b q' = true → q'.rank ≤ p'.rank ∧ (5 ≤ q'.rank → ∃ j, p' = .recorded j)) := by
  constructor
  · intro order early
    obtain ⟨r, there, le⟩ := (sound_of_run h).behind_front order at_ early
    obtain rfl := unique_of_run h there at'
    exact le
  · intro late order p' q' there there'
    have whole : run (step cpuCore) (.listening n) (as ++ bs) = some s' := by
      rw [run_append, h]
      exact later
    have behind := (Behind.of_later h at_ at' late order).of_run h later
    obtain ⟨r, here, past⟩ := behind.past
    obtain rfl := unique_of_run whole here there
    have recorded (far : 5 ≤ q'.rank) : ∃ j, r = .recorded j := by
      obtain ⟨j, done⟩ := behind.taken q' there' far
      exact ⟨j, unique_of_run whole there done⟩
    refine ⟨?_, recorded⟩
    by_cases far : 5 ≤ q'.rank
    · obtain ⟨j, rfl⟩ := recorded far
      exact q'.rank_le
    · omega

/-- Two clients are submitted, and the task of the first one has put it into `event_storage_`. -/
def firstStored : List Act :=
  boot ++ [.thread 0, .thread 0, .thread 0, .connect 1, .peer 0 (.send 10), .report epollIn, .event,
    .accept (.descriptor 5), .submit [], .count, .connect 2, .peer 1 (.send 10), .report epollIn,
    .event, .accept (.descriptor 6), .submit [], .count, .thread 0, .taskRead 0 10, .task 0,
    .task 0, .task 0]

/-- The second client is stored as well, and worker 0 records the first one. -/
def firstRecorded : List Act :=
  [.thread 0, .thread 0, .taskRead 0 10, .task 0, .task 0, .task 0] ++ List.replicate 5 (.worker 0)

theorem no_overtaking_firstRecorded :
    ∃ s s', run (step 1) (.listening 2) firstStored = some s ∧
      run (step 1) s firstRecorded = some s' ∧
      s.isAt 5 .stored = true ∧ s.isAt 6 .ring = true ∧
      s'.isAt 5 (.recorded 0) = true ∧ s'.isAt 6 .stored = true ∧
      Place.rank .stored ≤ (Place.recorded 0).rank ∧
      (5 ≤ Place.rank .stored → ∃ j, Place.recorded 0 = .recorded j) := by
  have before : (run (step 1) (.listening 2) firstStored).map
      (fun s => (s.isAt 5 .stored, s.isAt 6 .ring)) = some (true, true) := by decide +kernel
  have after : (run (step 1) (.listening 2) (firstStored ++ firstRecorded)).map
      (fun s => (s.isAt 5 (.recorded 0), s.isAt 6 .stored)) = some (true, true) := by
    decide +kernel
  obtain ⟨s, hs, he⟩ := Option.map_eq_some_iff.mp before
  obtain ⟨s', hs', he'⟩ := Option.map_eq_some_iff.mp after
  obtain ⟨stored, ring⟩ := Prod.mk.inj he
  obtain ⟨recorded, stored'⟩ := Prod.mk.inj he'
  rw [run_append, hs, Option.bind_some] at hs'
  have kept := (no_overtaking hs hs' stored ring).2 (by decide) (.inl (by decide)) _ _
    recorded stored'
  exact ⟨s, s', hs, hs', stored, ring, recorded, stored', kept⟩

/-! ## One pool thread -/

/-- Of two clients the later one is still with the main thread or in the ring, or it is behind. -/
def InOrder (s : State) : Prop :=
  ∀ a b, [a, b].Sublist s.accepted →
    (∃ q, s.isAt b q = true ∧ q.rank ≤ 1) ∨ Behind s a b

theorem Move.accepted_eq (m : Move cpuCore s act s') :
    s'.accepted = s.accepted ∨
      ∃ fd, s'.accepted = s.accepted ++ [fd] ∧ s'.isAt fd .accepted = true := by
  cases m
  case accept fd _ _ _ _ _ _ _ _ =>
    exact .inr ⟨fd, rfl, by simp [State.isAt, Acceptor.pending, clientInfo]⟩
  all_goals exact .inl rfl

theorem Move.length_le (m : Move cpuCore s act s') :
    s.pool.threads.length ≤ s'.pool.threads.length := by
  rcases m.pool with same | ⟨b, step, -⟩
  · rw [same]
  · exact (ThreadPool.Move.of_step step).length_le

/-- One thread has one client in its task. -/
theorem eq_of_single (single : s.pool.threads.length ≤ 1) {i j : ℕ}
    (first : s.isAt a (.reading i) = true ∨ s.isAt a (.answered i) = true)
    (second : s.isAt b (.reading j) = true) : a = b := by
  have inside (k : ℕ) (job : Job) (runs : s.pool.running k = some job) : k = 0 := by
    rw [ThreadPool.running_eq] at runs
    obtain ⟨t, thread, -⟩ := Option.bind_eq_some_iff.mp runs
    have := (List.getElem?_eq_some_iff.mp thread).1
    omega
  simp only [State.isAt, beq_iff_eq, Option.bind_eq_some_iff] at first second
  obtain ⟨job, runs, reads⟩ := second
  obtain rfl := inside j job runs
  have read : job.stage = .read := by
    by_contra other
    simp [Job.reading, other] at reads
  rcases first with ⟨job', runs', reads'⟩ | ⟨job', runs', answered⟩
  · obtain rfl := inside i job' runs'
    obtain rfl : job = job' := by simpa [runs] using runs'
    simpa [reads] using reads'.symm
  · obtain rfl := inside i job' runs'
    obtain rfl : job = job' := by simpa [runs] using runs'
    simp [Job.answered, read] at answered

theorem InOrder.step (hs : run (step cpuCore) (.listening n) as = some s)
    (ha : step cpuCore s act = some s') (single : s'.pool.threads.length ≤ 1) (h : InOrder s) :
    InOrder s' := by
  have hs' : run (Server.step cpuCore) (.listening n) (as ++ [act]) = some s' :=
    run_concat.mpr ⟨s, hs, ha⟩
  intro a b order
  have known : [a, b].Sublist s.accepted ∨ s'.isAt b .accepted = true := by
    rcases (Move.of_step ha).accepted_eq with same | ⟨fd, longer, there⟩
    · exact .inl (same ▸ order)
    · rw [longer] at order
      rcases before_append order with earlier | ⟨-, last⟩ | last
      · exact .inl earlier
      · exact .inr (List.mem_singleton.mp last ▸ there)
      · exact .inr (List.mem_singleton.mp (last.subset (by simp) : b ∈ [fd]) ▸ there)
  rcases known with earlier | new
  · rcases h a b earlier with ⟨q, at_, front⟩ | behind
    · rcases follow_of_run hs ha at_ with stays | ⟨r, leg, there⟩
      · exact .inl ⟨q, stays, front⟩
      · by_cases still : r.rank ≤ 1
        · exact .inl ⟨r, there, still⟩
        · obtain ⟨i, rfl⟩ : ∃ i, r = .reading i := by
            cases q <;> cases r <;> simp_all [Place.next, Place.rank]
          have sound := sound_of_run hs'
          have different := ne_of_before sound.counting.nodup order
          obtain ⟨p, at'⟩ := sound.exists_isAt.mpr (order.subset (by simp) : a ∈ s'.accepted)
          refine .inr (.of_later hs' at' there ?_ (.inl (by simp [Place.rank])))
          cases p with
          | accepted | ring =>
            obtain ⟨q', there', le⟩ := sound.behind_front order at' (by simp [Place.rank])
            obtain rfl := unique_of_run hs' there there'
            simp [Place.rank] at le
          | reading j => exact absurd (eq_of_single single (.inl at') there) different
          | answered j => exact absurd (eq_of_single single (.inr at') there) different
          | stored | popped | recorded => simp [Place.rank]
    · exact .inr (behind.step hs ha)
  · exact .inl ⟨.accepted, new, Nat.zero_le 1⟩

theorem crew_of_run (h : run (step cpuCore) (.listening n) as = some s) :
    ThreadPool.Crew (ThreadPool.createdThreads cpuCore cpuCore) s.pool := by
  refine run_invariant (I := fun s => ThreadPool.Crew _ s.pool) .constructed ?_ h
  intro s act s' crew ha
  rcases (Move.of_step ha).pool with same | ⟨b, step, other⟩
  · exact same ▸ crew
  · refine crew.step (.of_step step) ?_
    rintro c t q rfl
    rcases other with quiet | ⟨-, create⟩
    · cases quiet
    · obtain ⟨rfl, rfl, -⟩ : c = cpuCore ∧ t = cpuCore ∧ q = defaultQueueSize := by
        simpa using create
      exact Int.le_refl _

/-- On one core there is one pool thread. -/
theorem length_threads_le (h : run (step cpuCore) (.listening n) as = some s)
    (one : cpuCore ≤ 1) : s.pool.threads.length ≤ 1 := by
  have bound := (crew_of_run h).bound
  have few : ThreadPool.createdThreads cpuCore cpuCore = cpuCore := by
    unfold ThreadPool.createdThreads coerceIn ThreadPool.maxThreads
    split_ifs <;> omega
  omega

theorem inOrder_of_run (h : run (step cpuCore) (.listening n) as = some s)
    (single : s.pool.threads.length ≤ 1) : InOrder s := by
  refine run_induction (P := fun _ s => s.pool.threads.length ≤ 1 → InOrder s) ?_ ?_ as s h single
  · intro _ a b order
    simp [State.listening] at order
  · intro as s act s' hs ih ha single
    exact InOrder.step hs ha single (ih (Nat.le_trans (Move.of_step ha).length_le single))

/-- On one core, or where the thread pool has one thread, clients go through the whole server in the
order in which they were accepted: of two clients the later one is never further, it leaves the
ring only when the other is in `event_storage_`, it is behind the other there, and it leaves the
storage only when the other is recorded. -/
theorem one_by_one (h : run (step cpuCore) (.listening n) as = some s)
    (single : cpuCore ≤ 1 ∨ s.pool.threads.length ≤ 1) (order : [a, b].Sublist s.accepted)
    (at_ : s.isAt a p = true) (at' : s.isAt b q = true) :
    q.rank ≤ p.rank ∧ (2 ≤ q.rank → 4 ≤ p.rank) ∧ (5 ≤ q.rank → ∃ j, p = .recorded j) ∧
      (p = .stored → q = .stored → [a, b].Sublist s.line) := by
  have single := single.elim (length_threads_le h) id
  rcases inOrder_of_run h single a b order with ⟨r, there, front⟩ | behind
  · obtain rfl := unique_of_run h there at'
    refine ⟨?_, by omega, by omega, ?_⟩
    · by_cases early : p.rank ≤ 1
      · obtain ⟨q, here, le⟩ := (sound_of_run h).behind_front order at_ early
        obtain rfl := unique_of_run h here there
        exact le
      · omega
    · rintro - rfl
      exact absurd front (by decide)
  · obtain ⟨r, here, past⟩ := behind.past
    obtain rfl := unique_of_run h here at_
    have recorded (far : 5 ≤ q.rank) : ∃ j, r = .recorded j := by
      obtain ⟨j, done⟩ := behind.taken q at' far
      exact ⟨j, unique_of_run h at_ done⟩
    refine ⟨?_, fun _ => past, recorded, ?_⟩
    · by_cases far : 5 ≤ q.rank
      · obtain ⟨j, rfl⟩ := recorded far
        exact q.rank_le
      · omega
    · rintro rfl rfl
      exact behind.sublist (isAt_stored.mp at_) (isAt_stored.mp at')

/-- Both clients are stored. -/
def bothStored : List Act :=
  firstStored ++ [.thread 0, .thread 0, .taskRead 0 10, .task 0, .task 0, .task 0]

theorem one_by_one_bothStored :
    ∃ s, run (step 1) (.listening 2) bothStored = some s ∧ s.accepted = [5, 6] ∧
      s.isAt 5 .stored = true ∧ s.isAt 6 .stored = true ∧ [(5 : Int), 6].Sublist s.line ∧
      Place.rank .stored ≤ Place.rank .stored ∧
      (2 ≤ Place.rank .stored → 4 ≤ Place.rank .stored) ∧
      (5 ≤ Place.rank .stored → ∃ j, Place.stored = .recorded j) := by
  have end_ : (run (step 1) (.listening 2) bothStored).map
      (fun s => (s.accepted, s.isAt 5 .stored, s.isAt 6 .stored)) = some ([5, 6], true, true) := by
    decide +kernel
  obtain ⟨s, hs, he⟩ := Option.map_eq_some_iff.mp end_
  simp only [Prod.mk.injEq] at he
  obtain ⟨accepted, first, second⟩ := he
  have order : [(5 : Int), 6].Sublist s.accepted := by rw [accepted]
  obtain ⟨le, past, recorded, line⟩ := one_by_one hs (.inl (Int.le_refl 1)) order first second
  exact ⟨s, hs, accepted, first, second, line rfl rfl, le, past, recorded⟩

end EpollServer.Server
