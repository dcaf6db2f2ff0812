import EpollServer.Server.Faults
import EpollServer.Server.Answering

/-!
# How the server can end

A worker divides by zero, the main thread aborts, or a pool thread prints a request past the end of
its `TRD_RECV_BUF`. The last of these depends on the bytes that the clients send: it happens exactly
when neither a request nor what earlier ones have left behind it has a NUL.
-/
namespace EpollServer.Server

open Library
open Http (ReadResult Printable)

/-- The process has ended. -/
def Answering.stopped (w : Answering) : Bool := w.server.stopped || w.fault.isSome

variable {cpuCore : Int} {s : State} {n : ℕ} {w : Answering} {xs : List Heard} {i : ℕ}

theorem answer_stopped {x : Heard} (stopped : w.stopped = true) : answer cpuCore w x = none := by
  rcases Bool.or_eq_true_iff.mp stopped with server | fault
  · simp [answer, step, server]
  · simp [answer, fault]

/-- A pool thread has left its buffer exactly after a request that no NUL ends. -/
theorem fault_iff (h : run (answer cpuCore) (.listening n) xs = some w) (i : ℕ) :
    w.fault = some (.thread i, .outOfRange) ↔
      ∃ pre m received, xs = pre ++ [⟨.taskRead i m, received⟩] ∧
        ¬ Printable (readsOf i pre) received := by
  cases xs using List.reverseRecOn with
  | nil =>
    obtain rfl : Answering.listening n = w := by simpa using h
    simp [Answering.listening]
  | append_singleton pre x =>
    obtain ⟨u, hu, ha⟩ := run_concat.mp h
    obtain ⟨a, received⟩ := x
    constructor
    · intro fault
      rcases answer_printable hu ha with ⟨fine, -⟩ | ⟨j, left, reads, unprintable⟩
      · simp [fine] at fault
      · obtain rfl : j = i := by simpa [left] using fault
        rcases readsOf_cases j ⟨a, received⟩ with ⟨⟨m, rfl⟩, -⟩ | ⟨-, nothing⟩
        · exact ⟨pre, m, received, rfl, unprintable⟩
        · simp [nothing] at reads
    · rintro ⟨_, m, _, same, unprintable⟩
      obtain ⟨rfl, last⟩ := List.append_inj' same rfl
      obtain ⟨rfl, rfl⟩ := Heard.mk.inj (List.singleton_inj.mp last)
      rcases answer_printable hu ha with ⟨-, printable⟩ | ⟨j, left, reads, -⟩
      · exact absurd (printable i (by simp [readsOf])) unprintable
      · obtain rfl : i = j := by
          by_contra other
          simp [readsOf, other] at reads
        exact left

/-- In every run the server ends in three ways only: a worker divides by zero, the main thread
aborts, or a pool thread leaves its `TRD_RECV_BUF`, which it does exactly when it has read a request
that is not ended by a NUL of its own nor by one that earlier requests have left behind it. No
index of the ring is out of range, no lock or pool is used after its release, no empty function is
called, no client is taken from an empty queue, and `startup` is not entered again. -/
theorem stopped_iff (h : run (answer cpuCore) (.listening n) xs = some w) :
    (w.stopped = true ↔ w.server.acceptor = .aborted ∨
        w.server.workers.fault = some .divideByZero ∨
        ∃ i, w.fault = some (.thread i, .outOfRange)) ∧
      (w.stopped = true → ∀ x, answer cpuCore w x = none) ∧
      (∀ i, w.fault = some (.thread i, .outOfRange) ↔
        ∃ pre m received, xs = pre ++ [⟨.taskRead i m, received⟩] ∧
          ¬ Printable (readsOf i pre) received) ∧
      w.server.pool.fault = none ∧ w.server.workers.fault ≠ some .emptyQueue ∧
      (∀ info, w.server.acceptor ≠ .restarting info) ∧
      ∀ j job, w.server.pool.running j = some job → job.closure.isSome = true := by
  obtain ⟨as, hs⟩ := exists_server_run h
  have unfailing := unfailing_of_run hs
  have left : w.fault.isSome = true ↔ ∃ i, w.fault = some (.thread i, .outOfRange) := by
    rcases fault_cases_of_run h with fine | ⟨pre, u, i, -, -, rfl⟩
    · simp [fine]
    · exact iff_of_true rfl ⟨i, rfl⟩
  refine ⟨?_, fun stopped x => answer_stopped stopped, fault_iff h, unfailing.pool, ?_,
    unfailing.acceptor, unfailing.callable⟩
  · rw [Answering.stopped, Bool.or_eq_true, unfailing.stopped_iff_abort, left, or_assoc]
  · rcases unfailing.workers with fine | zero
    · simp [fine]
    · simp [zero]

/-- A request that fills the buffer and has no NUL. -/
def fullRequest : ReadResult :=
  .data (List.replicate bufsiz 65) List.length_replicate.le

/-- A client sends `BUFSIZ` bytes, and the pool thread is in its `read`. -/
def beforeFull : List Act :=
  boot ++ [.thread 0, .thread 0, .thread 0, .connect 1, .peer 0 (.send bufsiz), .report epollIn,
    .event, .accept (.descriptor 5), .submit [], .count, .thread 0]

theorem length_fullRequest : fullRequest.bytes.length = bufsiz := List.length_replicate

theorem readn_fullRequest : fullRequest.readn = bufsiz := by
  simp only [fullRequest, ReadResult.readn, List.length_replicate]

theorem not_printable_full (earlier : List ReadResult) : ¬ Printable earlier fullRequest := by
  rintro (nothing | nul | ⟨i, behind, inside, -⟩)
  · have length := length_fullRequest
    rw [nothing] at length
    cases length
  · have own := List.eq_of_mem_replicate nul
    exact absurd own (by decide)
  · rw [length_fullRequest] at behind
    omega

theorem stopped_iff_full :
    ∃ w, run (answer 1) (.listening 2)
        (beforeFull.map Heard.nul ++ [⟨.taskRead 0 bufsiz, fullRequest⟩]) = some w ∧
      w.fault = some (.thread 0, .outOfRange) ∧ w.stopped = true ∧
      (∀ x, answer 1 w x = none) ∧
      w.server.pool.fault = none ∧ w.server.workers.fault ≠ some .emptyQueue := by
  have before : (run (step 1) (.listening 2) beforeFull).isSome = true := by decide +kernel
  have after :
      (run (step 1) (.listening 2) (beforeFull ++ [.taskRead 0 bufsiz])).isSome = true := by
    decide +kernel
  obtain ⟨s, hs⟩ := Option.isSome_iff_exists.mp before
  obtain ⟨s', hs'⟩ := Option.isSome_iff_exists.mp after
  obtain ⟨t, ht, reads⟩ := run_concat.mp hs'
  obtain ⟨u, hu, fine, rfl⟩ := exists_answers hs
  obtain rfl : u.server = t := by simpa [hs] using ht
  have fits : Heard.fits ⟨.taskRead 0 bufsiz, fullRequest⟩ = true := by
    simp only [Heard.fits, decide_eq_true_eq, readn_fullRequest]
    omega
  obtain ⟨w, ha⟩ := answer_enabled fine fits reads
  have hw := run_concat.mpr ⟨u, hu, ha⟩
  obtain ⟨ends, stays, overrun, pool, queue, -, -⟩ := stopped_iff hw
  have left := (overrun 0).mpr ⟨_, bufsiz, fullRequest, rfl, not_printable_full _⟩
  have stopped := ends.mpr (.inr (.inr ⟨0, left⟩))
  exact ⟨w, hw, left, stopped, stays stopped, pool, queue⟩

end EpollServer.Server
