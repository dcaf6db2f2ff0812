import EpollServer.Server.Counting

/-!
# Connections left in the accept queue

The listening socket is edge triggered, so arrivals between two reports share the second one,
and the callback calls `accept` once for each report. While clients are admitted the accept
queue therefore holds one connection for an arrival to be reported, one for a report being
handled, and those left behind: `leftBehind` never falls, and it grows with every arrival that
shares a report and with every `accept` that fails and leaves its connection in the queue.
-/
namespace EpollServer.Server

open Library

/-- A report of an arrival is being handled. -/
def Acceptor.handling : Acceptor → Bool
  | .event events => hasEvent events epollIn
  | .accepting => true
  | .starting | .polling | .submitting _ | .restarting _ | .counting | .aborted => false

/-- An arrival does not come before the last one was reported, and `accept` takes a connection
off the queue. -/
def OneArrivalPerReport (s : State) : Act → Prop
  | .connect _ => s.fresh = false
  | .accept (.failed gone) => gone = true
  | _ => True

/-- The accept queue after the run `as` to `s`, as long as clients are admitted. -/
def Accounted (cpuCore : Int) (n : ℕ) (as : List Act) (s : State) : Prop :=
  s.connectedNum < serverMaxConnection → ∃ leftBehind,
    s.acceptQueue.length = ind s.fresh + ind s.acceptor.handling + leftBehind ∧
    (EveryStep (step cpuCore) OneArrivalPerReport (.listening n) as ↔ leftBehind = 0)

variable {cpuCore : Int} {s s' : State} {a : Act} {n : ℕ} {as : List Act}

/-- What one step adds to the connections left behind. -/
theorem Move.leftBehind (m : Move cpuCore s a s')
    (room : s'.connectedNum < serverMaxConnection) {k : ℕ}
    (queue : s.acceptQueue.length = ind s.fresh + ind s.acceptor.handling + k) :
    ∃ more, s'.acceptQueue.length = ind s'.fresh + ind s'.acceptor.handling + (k + more) ∧
      (OneArrivalPerReport s a ↔ more = 0) := by
  have same (handling : s'.acceptor.handling = s.acceptor.handling)
      (acceptQueue : s'.acceptQueue = s.acceptQueue) (fresh : s'.fresh = s.fresh)
      (one : OneArrivalPerReport s a) :
      ∃ more, s'.acceptQueue.length = ind s'.fresh + ind s'.acceptor.handling + (k + more) ∧
        (OneArrivalPerReport s a ↔ more = 0) :=
    ⟨0, by rw [handling, acceptQueue, fresh, queue]; rfl, by simp [one]⟩
  cases m
  case listen at_ _ | restart at_ _ | submit at_ _ _ | count at_ =>
    exact same (by rw [at_]; rfl) rfl rfl trivial
  case connect port =>
    -- The arrival is the one to be reported, or it shares the report of an earlier one.
    refine ⟨ind s.fresh, ?_, ?_⟩
    · simp only [List.length_append, List.length_singleton, ind_true]
      omega
    · cases hf : s.fresh <;> simp [OneArrivalPerReport, hf]
  case report events at_ new =>
    rw [at_] at queue
    refine ⟨0, ?_, by simp [OneArrivalPerReport]⟩
    cases epollin : hasEvent events epollIn with
    | true =>
      rw [new epollin] at queue
      simpa [Acceptor.handling, epollin] using queue
    | false => simpa [Acceptor.handling, epollin] using queue
  case acceptEvent at_ epollin _ => exact same (by rw [at_]; exact epollin.symm) rfl rfl trivial
  case abort events at_ other | ignore events at_ other =>
    have quiet : hasEvent events epollIn = false :=
      Bool.eq_false_iff.mpr fun epollin => absurd (other epollin) (Nat.not_le.mpr room)
    exact same (by rw [at_]; exact quiet.symm) rfl rfl trivial
  case accept at_ front _ _ _ | acceptZero at_ front _ _ =>
    refine ⟨0, ?_, by simp [OneArrivalPerReport]⟩
    simp only [at_, front, Acceptor.handling, List.length_cons, ind_true, ind_false] at queue ⊢
    omega
  case acceptFail gone at_ =>
    rw [at_] at queue
    simp only [Acceptor.handling, ind_true] at queue
    cases gone with
    | true =>
      refine ⟨0, ?_, by simp [OneArrivalPerReport]⟩
      simp only [Acceptor.handling, ind_false, if_true, List.length_tail]
      omega
    | false =>
      refine ⟨1, ?_, by simp [OneArrivalPerReport]⟩
      simp only [Acceptor.handling, ind_false, Bool.false_eq_true, if_false]
      omega
  all_goals exact same rfl rfl rfl trivial

/-- The counter never falls. -/
theorem Move.connectedNum_le (m : Move cpuCore s a s') (counting : Counting s) :
    s.connectedNum ≤ s'.connectedNum := by
  cases m
  case count at_ =>
    have room := counting.room (by rw [at_]; rfl)
    unfold serverMaxConnection at room
    simp only
    omega
  all_goals exact le_rfl

theorem accounted_of_run (h : run (step cpuCore) (.listening n) as = some s) :
    Counting s ∧ Accounted cpuCore n as s := by
  refine run_induction (P := fun as s => Counting s ∧ Accounted cpuCore n as s) ?_ ?_ as s h
  · refine ⟨.listening n, fun _ => ⟨0, rfl, by simp⟩⟩
  · rintro as s a s' hs ⟨counting, accounted⟩ ha
    have m := Move.of_step ha
    refine ⟨counting.step m, fun room => ?_⟩
    have := m.connectedNum_le counting
    obtain ⟨k, queue, every⟩ := accounted (by omega)
    obtain ⟨more, queue', one⟩ := m.leftBehind room queue
    refine ⟨k + more, queue', ?_⟩
    rw [everyStep_concat hs, every, one]
    omega

/-- When no report is to come or to be handled and fewer than `SERVER_MAX_CONNECTION` clients
were counted, the accept queue is empty if and only if along the run no arrival shared a report
with an earlier one and every `accept` took a connection off the queue. -/
theorem acceptQueue_empty_iff (h : run (step cpuCore) (.listening n) as = some s)
    (handled : s.acceptor.handling = false) (reported : s.fresh = false)
    (room : s.connectedNum < serverMaxConnection) :
    s.acceptQueue = [] ↔ EveryStep (step cpuCore) OneArrivalPerReport (.listening n) as := by
  obtain ⟨k, queue, every⟩ := (accounted_of_run h).2 room
  rw [handled, reported] at queue
  rw [every, ← List.length_eq_zero_iff, queue]
  simp

/-- Two clients connect before the first report. -/
def burst : List Act :=
  boot ++ [.connect 1, .connect 2, .report epollIn, .event, .accept (.descriptor 5), .submit [],
    .count]

theorem burst_leaves_connection :
    ∃ s, run (step 1) (.listening 2) burst = some s ∧ s.acceptor = .polling ∧ s.fresh = false ∧
      s.connectedNum = 1 ∧ s.acceptQueue = [1] := by
  have end_ : (run (step 1) (.listening 2) burst).map
      (fun s => (s.acceptor, s.fresh, s.connectedNum, s.acceptQueue)) =
      some (.polling, false, 1, [1]) := by decide +kernel
  obtain ⟨s, hs, he⟩ := Option.map_eq_some_iff.mp end_
  simp only [Prod.mk.injEq] at he
  exact ⟨s, hs, he⟩

/-- The second client connects after the first report. -/
def oneByOne : List Act :=
  boot ++ [.connect 1, .report epollIn, .connect 2, .event, .accept (.descriptor 5), .submit [],
    .count, .report epollIn, .event, .accept (.descriptor 6), .submit [], .count]

theorem acceptQueue_empty_iff_oneByOne :
    ∃ s, run (step 1) (.listening 2) oneByOne = some s ∧ s.connectedNum = 2 ∧
      EveryStep (step 1) OneArrivalPerReport (.listening 2) oneByOne := by
  have end_ : (run (step 1) (.listening 2) oneByOne).map
      (fun s => (s.acceptor, s.fresh, s.connectedNum, s.acceptQueue)) =
      some (.polling, false, 2, []) := by decide +kernel
  obtain ⟨s, hs, he⟩ := Option.map_eq_some_iff.mp end_
  simp only [Prod.mk.injEq] at he
  obtain ⟨polling, reported, num, empty⟩ := he
  have room : s.connectedNum < serverMaxConnection := by
    rw [num]
    decide
  have handled : s.acceptor.handling = false := by
    rw [polling]
    rfl
  exact ⟨s, hs, num, (acceptQueue_empty_iff hs handled reported room).mp empty⟩

end EpollServer.Server
