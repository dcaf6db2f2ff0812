import EpollServer.ThreadPool.Machine
import Mathlib.Data.Nat.PSub

/-!
# The CPU set of a pool thread

`create` clears a mask and sets the bit of one CPU before each `pthread_create`. The mask is a
member of the pool, and a thread reads it only when it comes to `pthread_setaffinity_np`, at
any time after its creation. What it reads there is the bit of the last iteration that has set
one, or nothing between the two statements of an iteration.
-/
namespace EpollServer.ThreadPool

open Library

variable {Fn Arg R : Type}

/-- The set that thread `i` passed to `pthread_setaffinity_np`. -/
def State.passed (s : State Fn Arg R) (i : ℕ) : Option (Finset ℕ) := s.threads[i]?.bind Thread.cpus

/-- Every thread that has set its affinity has set it to CPU `i % CPU_CORE`. -/
def Pinned (cpuCore : ℕ) (s : State Fn Arg R) : Prop :=
  ∀ i cpus, s.passed i = some cpus → cpus = {i % cpuCore}

/-- Thread `i` is about to read the mask. -/
def Reads (s : State Fn Arg R) (i : ℕ) : Prop :=
  s.released = false ∧ ∃ t, s.threads[i]? = some t ∧ t.pc = .counted

/-- The iteration of `create` whose bit is in the mask, if there is one. -/
def State.lastSet (s : State Fn Arg R) : Option ℕ :=
  match s.creator with
  | .idle | .setMask .. => none
  | .spawn .. => some s.threads.length
  | .zeroMask .. => s.threads.length.ppred
  | .returned code => if code = 0 then s.threads.length.ppred else some s.threads.length

/-- A thread that reads the mask finds there the bit of an iteration that chose the same CPU as
its own, and this CPU has a bit. -/
def ReadsOwn (cpuCore : ℕ) (s : State Fn Arg R) : Act Fn Arg R → Prop
  | .thread i => Reads s i →
      i % cpuCore < cpuSetsize ∧ ∃ j, s.lastSet = some j ∧ j % cpuCore = i % cpuCore
  | _ => True

/-! ## What a step does to the sets -/

/-- The thread has not come to `pthread_setaffinity_np`. -/
def Pc.beforePin : Pc R → Bool
  | .created | .started | .counted => true
  | _ => false

/-- What matters of a thread here. -/
def Thread.setting (t : Thread R) : Option (Finset ℕ) × Bool := (t.cpus, t.pc.beforePin)

variable {start : Task Fn Arg → R} {s s' : State Fn Arg R} {a : Act Fn Arg R} {cpuCore i : ℕ}

theorem unpark_setting (selected : ℕ → Bool) (threads : List (Thread R)) :
    (unpark selected threads).map Thread.setting = threads.map Thread.setting :=
  unpark_map _ (fun t parked => by simp [Thread.setting, parked, Pc.beforePin]) selected threads

/-- A thread that is about to read the mask reads it in its next step. -/
theorem Move.reads (m : Move start s (.thread i) s') (reads : Reads s i) :
    s' = s.setThread i ⟨.ready, some s.pool.mask⟩ := by
  obtain ⟨alive, t, here, counted⟩ := reads
  cases m
  case pin => rfl
  case useAfterFree => simp [alive] at *
  all_goals
    obtain rfl := Option.some.inj (here.symm.trans ‹s.threads[i]? = some _›)
    simp [counted] at *

/-- No other step changes a set; a new thread has none. -/
theorem Move.setting (m : Move start s a s') (quiet : ∀ i, a = .thread i → ¬ Reads s i) :
    ∃ n, s'.threads.map Thread.setting =
      s.threads.map Thread.setting ++ List.replicate n (none, true) := by
  have kept (settings : s'.threads.map Thread.setting = s.threads.map Thread.setting) :
      ∃ n, s'.threads.map Thread.setting =
        s.threads.map Thread.setting ++ List.replicate n (none, true) :=
    ⟨0, by simpa using settings⟩
  cases m
  case spawn => exact ⟨1, by simp [Thread.setting, Pc.beforePin]⟩
  case pin i t at_ pc alive => exact absurd ⟨alive, t, at_, pc⟩ (quiet i rfl)
  case accept | wake | shutdown => exact kept (unpark_setting _ _)
  case park at_ pc _ _ _ | leave at_ pc _ _ =>
    refine kept (map_set_same Thread.setting at_ ?_)
    rcases pc with pc | pc <;> simp [Thread.setting, pc, Pc.beforePin]
  case take at_ pc _ _ _ _ =>
    refine kept (map_set_same Thread.setting at_ ?_)
    rcases pc with pc | pc <;> simp [Thread.setting, pc, Pc.beforePin]
  case start | count | finish | exit | work =>
    refine kept (map_set_same Thread.setting ‹s.threads[_]? = some _› ?_)
    simp [Thread.setting, ‹Thread.pc _ = _›, Pc.beforePin]
  all_goals exact kept rfl

theorem passed_eq (s : State Fn Arg R) (i : ℕ) :
    s.passed i = (s.threads.map Thread.setting)[i]?.bind Prod.fst := by
  simp [State.passed, Thread.setting, Option.bind_map, Function.comp_def]

theorem passed_of_append {n : ℕ} (threads : s'.threads.map Thread.setting =
    s.threads.map Thread.setting ++ List.replicate n (none, true)) : s'.passed i = s.passed i := by
  rw [passed_eq, passed_eq, threads]
  rcases Nat.lt_or_ge i (s.threads.map Thread.setting).length with inside | outside
  · rw [List.getElem?_append_left inside]
  · rw [List.getElem?_append_right outside, List.getElem?_eq_none outside, List.getElem?_replicate]
    split_ifs <;> rfl

theorem passed_setThread {t u : Thread R} (at_ : s.threads[i]? = some t) (k : ℕ) :
    (s.setThread i u).passed k = if k = i then u.cpus else s.passed k := by
  have inside : i < s.threads.length := (List.getElem?_eq_some_iff.mp at_).1
  split_ifs with h
  · subst h
    simp [State.passed, State.setThread, inside]
  · simp [State.passed, State.setThread, List.getElem?_set_ne (Ne.symm h)]

/-! ## What the mask holds -/

/-- The iteration that `create` is in, and the number of CPUs it was given. -/
def Creator.at_ : Creator → Option (Int × Int)
  | .zeroMask i _ cpuCore | .setMask i _ cpuCore | .spawn i _ cpuCore => some (i, cpuCore)
  | .idle | .returned _ => none

structure Masking (cpuCore : ℕ) (s : State Fn Arg R) : Prop where
  unborn : s.creator = .idle → s.threads = []
  iteration : ∀ i c, s.creator.at_ = some (i, c) → i = s.threads.length ∧ c = cpuCore
  mask : s.pool.mask = s.lastSet.elim ∅ fun j => cpuSet (j % cpuCore) ∅
  unset : ∀ t ∈ s.threads, t.pc.beforePin = true → t.cpus = none

theorem Masking.constructed : Masking cpuCore (.constructed : State Fn Arg R) where
  unborn _ := rfl
  iteration := by simp [State.constructed, Creator.at_]
  mask := rfl
  unset := by simp [State.constructed]

/-- `create` is called with the number of CPUs of the machine. -/
def OnCores (cpuCore : ℕ) : Act Fn Arg R → Prop
  | .create c _ _ => c = cpuCore
  | _ => True

/-- The loop test comes after the iteration that set the last bit. -/
theorem lastSet_next {i n c : Int} (creator : s.creator = .next i n c) :
    s.lastSet = s.threads.length.ppred := by
  unfold State.lastSet
  rw [creator, Creator.next]
  split_ifs <;> rfl

theorem at_next {i n c k d : Int} (at_ : (Creator.next i n c).at_ = some (k, d)) :
    k = i ∧ d = c := by
  unfold Creator.next at at_
  split_ifs at at_
  · obtain ⟨rfl, rfl⟩ := Prod.mk.inj (Option.some.inj at_)
    exact ⟨rfl, rfl⟩
  · cases at_

theorem lastSet_congr (creator : s'.creator = s.creator)
    (length : s'.threads.length = s.threads.length) : s'.lastSet = s.lastSet := by
  unfold State.lastSet
  rw [creator, length]

theorem Masking.unset_step (h : Masking cpuCore s) (m : Move start s a s') :
    ∀ t ∈ s'.threads, t.pc.beforePin = true → t.cpus = none := by
  by_cases reads : ∃ i, a = .thread i ∧ Reads s i
  · obtain ⟨i, rfl, reads⟩ := reads
    rw [m.reads reads]
    intro t mem early
    rcases List.mem_or_eq_of_mem_set mem with old | rfl
    · exact h.unset t old early
    · cases early
  · obtain ⟨n, threads⟩ := m.setting fun i he hr => reads ⟨i, he, hr⟩
    intro t mem early
    have there : t.setting ∈ s'.threads.map Thread.setting := List.mem_map_of_mem mem
    rw [threads, List.mem_append] at there
    rcases there with old | new
    · obtain ⟨u, hu, same⟩ := List.mem_map.mp old
      obtain ⟨cpus, pc⟩ := Prod.mk.inj same
      rw [← cpus]
      exact h.unset u hu (pc.trans early)
    · exact congrArg Prod.fst (List.eq_of_mem_replicate new)

theorem Masking.step (h : Masking cpuCore s) (cores : OnCores cpuCore a) (positive : 1 ≤ cpuCore)
    (m : Move start s a s') : Masking cpuCore s' := by
  have unset := h.unset_step m
  have same (creator : s'.creator = s.creator) (mask : s'.pool.mask = s.pool.mask)
      (length : s'.threads.length = s.threads.length) : Masking cpuCore s' := by
    refine ⟨fun idle => ?_, ?_, ?_, unset⟩
    · exact List.length_eq_zero_iff.mp (length.trans (by rw [h.unborn (creator ▸ idle)]; rfl))
    · rw [creator, length]
      exact h.iteration
    · rw [mask, lastSet_congr creator length]
      exact h.mask
  cases m
  case create c t q fresh _ =>
    obtain rfl : c = cpuCore := cores
    have empty := h.unborn fresh
    have clear : s.pool.mask = ∅ := by
      rw [h.mask, State.lastSet, fresh]
      rfl
    refine ⟨fun _ => empty, fun i c hc => ?_, ?_, unset⟩
    · rw [empty]
      exact at_next hc
    · rw [lastSet_next rfl]
      simp only [empty]
      exact clear
  case zeroMask at_ =>
    refine ⟨by simp, fun i c hc => h.iteration i c ?_, rfl, unset⟩
    rw [at_]
    exact hc
  case setMask i n c cpu at_ cpu_eq =>
    obtain ⟨rfl, rfl⟩ := h.iteration i c (by rw [at_]; rfl)
    rw [cMod_natCast _ positive] at cpu_eq
    obtain rfl := Except.ok.inj cpu_eq
    have clear : s.pool.mask = ∅ := by
      rw [h.mask, State.lastSet, at_]
      rfl
    refine ⟨by simp, fun i c hc => h.iteration i c ?_, ?_, unset⟩
    · rw [at_]
      exact hc
    · simp only [clear, Int.toNat_natCast]
      rfl
  case spawn i n c at_ =>
    obtain ⟨rfl, rfl⟩ := h.iteration i c (by rw [at_]; rfl)
    have set := h.mask
    rw [State.lastSet, at_] at set
    refine ⟨fun idle => ?_, fun i c hc => ?_, ?_, unset⟩
    · simp only [Creator.next] at idle
      split_ifs at idle
    · obtain ⟨rfl, rfl⟩ := at_next hc
      simp
    · rw [lastSet_next rfl, List.length_append]
      exact set
  case spawnFail at_ =>
    have set := h.mask
    rw [State.lastSet, at_] at set
    exact ⟨by simp, by simp [Creator.at_], set, unset⟩
  case accept enqueued _ =>
    obtain ⟨_, _, rfl⟩ := Pool.enqueue_eq enqueued
    exact same rfl rfl (by simp [unpark])
  case take dequeued =>
    obtain ⟨_, _, rfl⟩ := Pool.dequeue_eq dequeued
    exact same rfl rfl (by simp [State.setThread])
  all_goals exact same rfl rfl (by simp [State.setThread, State.raise, unpark])

/-! ## What the threads read -/

/-- The bit of CPU `j` is all that is set exactly if it is the bit asked for. -/
theorem cpuSet_eq_singleton {j k : ℕ} : cpuSet j ∅ = {k} ↔ k < cpuSetsize ∧ j = k := by
  unfold cpuSet
  split_ifs with bit
  · constructor
    · intro same
      obtain rfl : j = k := by simpa using same
      exact ⟨bit, rfl⟩
    · rintro ⟨-, rfl⟩
      rfl
  · constructor
    · intro same
      exact absurd same.symm (Finset.singleton_ne_empty k)
    · rintro ⟨bit', rfl⟩
      exact absurd bit' bit

theorem Masking.mask_eq_iff (h : Masking cpuCore s) (k : ℕ) :
    s.pool.mask = {k % cpuCore} ↔
      k % cpuCore < cpuSetsize ∧ ∃ j, s.lastSet = some j ∧ j % cpuCore = k % cpuCore := by
  rw [h.mask]
  cases s.lastSet with
  | none => simp [eq_comm]
  | some j => simp [cpuSet_eq_singleton]

theorem Masking.pinned_step (h : Masking cpuCore s) (m : Move start s a s') :
    Pinned cpuCore s' ↔ Pinned cpuCore s ∧ ReadsOwn cpuCore s a := by
  by_cases reads : ∃ i, a = .thread i ∧ Reads s i
  · obtain ⟨i, rfl, reads⟩ := reads
    have ⟨_, t, at_, pc⟩ := reads
    have fresh : s.passed i = none := by
      rw [State.passed, at_]
      exact h.unset t (List.mem_of_getElem? at_) (by rw [pc]; rfl)
    rw [m.reads reads]
    constructor
    · intro pinned
      refine ⟨fun k cpus hk => pinned k cpus ?_, fun _ => (h.mask_eq_iff i).mp (pinned i _ ?_)⟩
      · rw [passed_setThread at_, if_neg (by rintro rfl; simp [fresh] at hk)]
        exact hk
      · rw [passed_setThread at_, if_pos rfl]
    · rintro ⟨pinned, own⟩ k cpus hk
      rw [passed_setThread at_] at hk
      split_ifs at hk with same
      · subst same
        obtain rfl := Option.some.inj hk
        exact (h.mask_eq_iff k).mpr (own reads)
      · exact pinned k cpus hk
  · obtain ⟨n, threads⟩ := m.setting fun i he hr => reads ⟨i, he, hr⟩
    have own : ReadsOwn cpuCore s a := by
      cases a
      case thread i => exact fun hr => absurd ⟨i, rfl, hr⟩ reads
      all_goals trivial
    simp only [Pinned, passed_of_append threads]
    exact ⟨fun pinned => ⟨pinned, own⟩, fun pinned => pinned.1⟩

/-- The threads of a run of `create` on `CPU_CORE` CPUs have bound themselves each to CPU
`i % CPU_CORE` if and only if each of them read the mask while it held the bit of an iteration
that chose the same CPU, and no thread was to have a CPU that `cpu_set_t` has no bit for. -/
theorem pinned_iff {acts : List (Act Fn Arg R)} (positive : 1 ≤ cpuCore)
    (h : run (step start) .constructed acts = some s) (cores : ∀ a ∈ acts, OnCores cpuCore a) :
    Pinned cpuCore s ↔ EveryStep (step start) (ReadsOwn cpuCore) .constructed acts :=
  final_iff_everyStep (I := Masking cpuCore) (A := OnCores cpuCore) .constructed
    (fun _ _ _ hA hI hs => hI.step hA positive (Move.of_step hs))
    (by simp [Pinned, State.passed, State.constructed])
    (fun _ _ _ _ hI hs => hI.pinned_step (Move.of_step hs)) h cores

/-- Thread 0 comes to its affinity after the second iteration has set its bit. -/
def lateReader : List (Act ℕ ℕ ℕ) :=
  [.create 2 2 1024, .creator true, .creator true, .creator true, .creator true, .creator true,
   .thread 0, .thread 0, .thread 0]

theorem lateReader_misplaced :
    ∃ s, run (step fun _ => 0) .constructed lateReader = some s ∧ s.passed 0 = some {1} ∧
      ¬ Pinned 2 s := by
  have end_ : (run (step fun _ => 0) .constructed lateReader).map (·.passed 0) =
      some (some {1}) := by decide +kernel
  obtain ⟨s, hs, passed⟩ := Option.map_eq_some_iff.mp end_
  refine ⟨s, hs, passed, fun pinned => ?_⟩
  have own := pinned 0 {1} passed
  revert own
  decide

/-- Each thread sets its affinity before the next iteration. -/
def promptReaders : List (Act ℕ ℕ ℕ) :=
  [.create 2 2 1024, .creator true, .creator true, .creator true, .thread 0, .thread 0, .thread 0,
   .creator true, .creator true, .creator true, .thread 1, .thread 1, .thread 1]

theorem pinned_iff_promptReaders :
    ∃ s, run (step fun _ => 0) .constructed promptReaders = some s ∧
      s.passed 0 = some {0} ∧ s.passed 1 = some {1} ∧
      (Pinned 2 s ↔ EveryStep (step fun _ => 0) (ReadsOwn 2) .constructed promptReaders) := by
  have end_ : (run (step fun _ => 0) .constructed promptReaders).map
      (fun s => (s.passed 0, s.passed 1)) = some (some {0}, some {1}) := by decide +kernel
  obtain ⟨s, hs, he⟩ := Option.map_eq_some_iff.mp end_
  obtain ⟨first, second⟩ := Prod.mk.inj he
  have cores : ∀ a ∈ promptReaders, OnCores 2 a := by simp [promptReaders, OnCores]
  exact ⟨s, hs, first, second, pinned_iff (by decide) hs cores⟩

end EpollServer.ThreadPool
