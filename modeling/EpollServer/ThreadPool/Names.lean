import EpollServer.ThreadPool.Recreate
import Mathlib.Logic.Function.Basic

/-!
# How many threads there are, and what they are called

`create` starts at most as many threads as it was asked for. Each thread takes its name from
`thread_count_++`, an atomic counter, so in whatever order the threads get there no two of them
have the same name, and the names in use are `thread-0`, `thread-1` and so on without a gap.
-/
namespace EpollServer.ThreadPool

open Library

variable {Fn Arg R : Type}

/-! ## The number of threads -/

/-- There are at most `k` threads, and `create` starts no more. -/
structure Crew (k : Int) (s : State Fn Arg R) : Prop where
  fresh : s.creator = .idle → s.threads = []
  iteration : ∀ i n, s.creator.iteration = some (i, n) →
    i = s.threads.length ∧ i < n ∧ n ≤ k
  bound : s.threads.length ≤ max k 0

variable {start : Task Fn Arg → R} {s s' : State Fn Arg R} {a : Act Fn Arg R} {k : Int}

theorem Crew.constructed : Crew k (.constructed : State Fn Arg R) where
  fresh _ := rfl
  iteration := by simp [State.constructed, Creator.iteration]
  bound := Int.le_max_right k 0

theorem Creator.iteration_next {i n c j m : Int}
    (h : (Creator.next i n c).iteration = some (j, m)) : j = i ∧ m = n ∧ i < n := by
  unfold next at h
  split_ifs at h with more
  · obtain ⟨rfl, rfl⟩ : i = j ∧ n = m := by simpa [iteration] using h
    exact ⟨rfl, rfl, more⟩
  · cases h

/-- A step that leaves the loop of `create` where it is, or ends it. -/
theorem Crew.keep (h : Crew k s) (fresh : s'.creator = .idle → s.creator = .idle)
    (iteration : ∀ i n, s'.creator.iteration = some (i, n) → s.creator.iteration = some (i, n))
    (length : s'.threads.length = s.threads.length) : Crew k s' where
  fresh idle := by
    have none_ := h.fresh (fresh idle)
    rw [none_] at length
    exact List.eq_nil_of_length_eq_zero length
  iteration i n at_ := length ▸ h.iteration i n (iteration i n at_)
  bound := length ▸ h.bound

theorem Crew.step (h : Crew k s) (m : Move start s a s')
    (limit : ∀ cpuCore threadCount queueSize, a = .create cpuCore threadCount queueSize →
      createdThreads cpuCore threadCount ≤ k) : Crew k s' := by
  cases m
  case create cpuCore threadCount queueSize fresh _ =>
    have none_ := h.fresh fresh
    refine ⟨fun _ => none_, fun i n at_ => ?_, h.bound⟩
    obtain ⟨rfl, rfl, more⟩ := Creator.iteration_next at_
    exact ⟨by simp [none_], more, limit _ _ _ rfl⟩
  case spawn i n cpuCore at_ =>
    obtain ⟨at', more, le⟩ := h.iteration i n (by rw [at_]; rfl)
    refine ⟨fun idle => ?_, fun j m next => ?_, ?_⟩
    · simp only [Creator.next] at idle
      split_ifs at idle
    · obtain ⟨rfl, rfl, more⟩ := Creator.iteration_next next
      exact ⟨by simp [at'], more, le⟩
    · rw [List.length_append, List.length_singleton]
      omega
  case zeroMask at_ | setMask at_ _ | spawnFail at_ =>
    exact h.keep (by simp) (by simp [at_, Creator.iteration]) rfl
  all_goals exact h.keep id (fun _ _ => id) (by simp [State.setThread, State.raise])

/-- The largest value of an `atomic_int16_t`. -/
def int16Max : Int := 32767

theorem createdThreads_le {cpuCore : Int} (cores : cpuCore ≤ int16Max) (threadCount : Int) :
    createdThreads cpuCore threadCount ≤ int16Max := by
  unfold int16Max at cores ⊢
  unfold createdThreads coerceIn maxThreads
  split_ifs <;> omega

theorem crew_of_run {as : List (Act Fn Arg R)} (h : run (step start) .constructed as = some s)
    (cores : ∀ cpuCore threadCount queueSize,
      Act.create cpuCore threadCount queueSize ∈ as → cpuCore ≤ int16Max) : Crew int16Max s := by
  refine run_induction (P := fun as s => (∀ c t q, Act.create c t q ∈ as → c ≤ int16Max) →
    Crew int16Max s) (fun _ => .constructed) ?_ as s h cores
  intro as s a s' _ ih ha cores
  refine (ih fun c t q mem => cores c t q (by simp [mem])).step (.of_step ha) ?_
  rintro cpuCore threadCount queueSize rfl
  exact createdThreads_le (cores cpuCore threadCount queueSize (by simp)) threadCount

/-- On a machine with no more cores than an `atomic_int16_t` can count, neither `thread_count_` nor
`started_num_` ever wraps around. -/
theorem counters_fit {as : List (Act Fn Arg R)} (h : run (step start) .constructed as = some s)
    (cores : ∀ cpuCore threadCount queueSize,
      Act.create cpuCore threadCount queueSize ∈ as → cpuCore ≤ int16Max) :
    (0 ≤ s.pool.threadCount ∧ s.pool.threadCount ≤ int16Max) ∧
      0 ≤ s.pool.startedNum ∧ s.pool.startedNum ≤ int16Max := by
  have bound := (crew_of_run h cores).bound
  have counted := (closing_of_run h).counted
  have started : s.pool.startedNum + leftIn s.threads = startedIn s.threads := (sound_of_run h).2
  have few : countedIn s.threads ≤ s.threads.length := tally_ind_le_length _ _
  have begun : startedIn s.threads ≤ s.threads.length := tally_ind_le_length _ _
  have gone : leftIn s.threads ≤ startedIn s.threads := by
    refine tally_mono fun t _ => ?_
    cases t.pc <;> simp [Pc.hasLeft, Pc.hasStarted]
  unfold int16Max at bound ⊢
  omega

/-! ## Names -/

/-- The name that a thread makes when `thread_count_++` returns `count`. -/
def threadName (count : Int) : String := "thread-" ++ toString count

/-- `pthread_setname_np` refuses a name of more than 15 characters; its result is dropped. -/
def setName (names : ℕ → Option String) (i : ℕ) (name : String) : ℕ → Option String :=
  if name.length ≤ 15 then Function.update names i (some name) else names

/-- A pool with the names that its threads have set. -/
structure Naming (Fn Arg R : Type) where
  pool : State Fn Arg R
  names : ℕ → Option String

def Naming.constructed : Naming Fn Arg R := ⟨.constructed, fun _ => none⟩

/-- The thread that executes `thread_count_++` and gives itself a name. -/
def counting (s : State Fn Arg R) : Act Fn Arg R → Option ℕ
  | .thread i =>
    match s.released, s.threads[i]?.map Thread.pc with
    | false, some .started => some i
    | _, _ => none
  | _ => none

def naming (start : Task Fn Arg → R) (w : Naming Fn Arg R) (a : Act Fn Arg R) :
    Option (Naming Fn Arg R) :=
  (step start w.pool a).map fun pool =>
    { pool := pool
      names := match counting w.pool a with
        | some i => setName w.names i (threadName w.pool.pool.threadCount)
        | none => w.names }

/-- Thread `i` has executed `thread_count_++`. -/
def State.isCounted (s : State Fn Arg R) (i : ℕ) : Bool := s.threads[i]?.any (·.pc.isCounted)

/-- What a step does to the counter. -/
inductive Count (s : State Fn Arg R) : Option ℕ → State Fn Arg R → Prop where
  | next {i : ℕ} {s' : State Fn Arg R} (before : s.isCounted i = false)
      (count : s'.pool.threadCount = s.pool.threadCount + 1)
      (after : s'.isCounted = Function.update s.isCounted i true) : Count s (some i) s'
  | same {s' : State Fn Arg R} (count : s'.pool.threadCount = s.pool.threadCount)
      (same : s'.isCounted = s.isCounted) : Count s none s'

theorem isCounted_eq (s : State Fn Arg R) (i : ℕ) :
    s.isCounted i = (s.threads.map (·.pc.isCounted))[i]?.any id := by
  rw [State.isCounted, List.getElem?_map, Option.any_map]
  rfl

/-- A step of one thread that does not go past the counter. -/
theorem isCounted_set {i : ℕ} {t u : Thread R} (at_ : s.threads[i]? = some t)
    (threads : s'.threads = s.threads.set i u) (same : u.pc.isCounted = t.pc.isCounted) :
    s'.isCounted = s.isCounted := by
  funext j
  rw [isCounted_eq, isCounted_eq, threads, map_set_same (·.pc.isCounted) at_ same]

theorem isCounted_unpark {selected : ℕ → Bool} (threads : s'.threads = unpark selected s.threads) :
    s'.isCounted = s.isCounted := by
  funext j
  rw [isCounted_eq, isCounted_eq, threads, unpark_map]
  intro t parked
  rw [parked]
  rfl

theorem Move.counts (closing : Closing s) (m : Move start s a s') : Count s (counting s a) s' := by
  have waiting {t : Thread R} (pc : t.pc = .ready ∨ t.pc = .woken) : t.pc.isCounted = true := by
    rcases pc with pc | pc <;> rw [pc] <;> rfl
  cases m
  case create fresh _ =>
    refine .same ?_ rfl
    rw [closing.counted, closing.unborn fresh]
    rfl
  case spawn =>
    refine .same rfl (funext fun j => ?_)
    simp only [State.isCounted, List.getElem?_append, List.getElem?_singleton]
    split_ifs with old last
    · rfl
    · rw [List.getElem?_eq_none (Nat.le_of_not_lt old)]
      rfl
    · rw [List.getElem?_eq_none (Nat.le_of_not_lt old)]
  case accept enqueued _ =>
    obtain ⟨_, _, rfl⟩ := Pool.enqueue_eq enqueued
    exact .same rfl (isCounted_unpark rfl)
  case wake | shutdown => exact .same rfl (isCounted_unpark rfl)
  case useAfterFree released _ =>
    rw [show counting s (.thread _) = none by simp [counting, released]]
    exact .same rfl rfl
  case count i t at_ pc alive =>
    rw [show counting s (.thread i) = some i by simp [counting, alive, at_, pc]]
    refine .next (by simp [State.isCounted, at_, pc, Pc.isCounted]) rfl (funext fun j => ?_)
    have inside := (List.getElem?_eq_some_iff.mp at_).1
    by_cases same : j = i
    · subst same
      simp [State.isCounted, State.setThread, inside, Pc.isCounted]
    · simp [State.isCounted, State.setThread, List.getElem?_set_ne (Ne.symm same), same]
  case start i t at_ pc _ | pin i t at_ pc _ | finish i t _ at_ pc | exit i t at_ pc =>
    rw [show counting s (.thread i) = none by simp [counting, at_, pc]]
    exact .same rfl (isCounted_set at_ rfl (by rw [pc]; rfl))
  case work at_ pc => exact .same rfl (isCounted_set at_ rfl (by rw [pc]; rfl))
  case park i t at_ pc _ _ _ | leave i t at_ pc _ _ =>
    rw [show counting s (.thread i) = none by rcases pc with pc | pc <;> simp [counting, at_, pc]]
    exact .same rfl (isCounted_set at_ rfl (waiting pc).symm)
  case take i t task pool at_ pc _ _ _ dequeued =>
    obtain ⟨_, _, rfl⟩ := Pool.dequeue_eq dequeued
    rw [show counting s (.thread i) = none by rcases pc with pc | pc <;> simp [counting, at_, pc]]
    exact .same rfl (isCounted_set at_ rfl (waiting pc).symm)
  case dequeueFault i t _ at_ pc _ _ _ _ =>
    rw [show counting s (.thread i) = none by rcases pc with pc | pc <;> simp [counting, at_, pc]]
    exact .same rfl rfl
  all_goals exact .same rfl rfl

theorem threadName_injective {j k : ℕ} (same : threadName j = threadName k) : j = k := by
  have digits : Nat.toDigits 10 j = Nat.toDigits 10 k := by
    have text : "thread-" ++ j.repr = "thread-" ++ k.repr := same
    simpa [Nat.repr_eq_ofList_toDigits, String.ext_iff] using text
  rw [← Nat.ofDigitChars_ten_toDigits (n := j), digits, Nat.ofDigitChars_ten_toDigits]

/-- The names of all threads that the counter can count are short enough. -/
theorem threadName_fits {k : ℕ} (few : k ≤ int16Max) : (threadName k).length ≤ 15 := by
  have digits : k.repr.length ≤ 8 := by
    rw [Nat.length_repr_le_iff (by decide)]
    unfold int16Max at few
    omega
  have text : (threadName k).length = 7 + k.repr.length :=
    String.length_append "thread-" k.repr
  omega

/-- The threads past the counter have the names with the numbers below it. -/
structure Named (w : Naming Fn Arg R) : Prop where
  holder : ∀ i, (w.names i).isSome = w.pool.isCounted i
  number : ∀ i name, w.names i = some name →
    ∃ k : ℕ, k < w.pool.pool.threadCount ∧ name = threadName k
  distinct : ∀ i j name, w.names i = some name → w.names j = some name → i = j
  all : ∀ k : ℕ, k < w.pool.pool.threadCount → ∃ i, w.names i = some (threadName k)

variable {w w' : Naming Fn Arg R}

/-- Thread `i` goes past the counter, which shows `c`, and takes the name with that number. -/
theorem Named.next (h : Named w) {i c : ℕ} (before : w.pool.isCounted i = false)
    (shows : w.pool.pool.threadCount = c) (count : w'.pool.pool.threadCount = c + 1)
    (after : w'.pool.isCounted = Function.update w.pool.isCounted i true)
    (names : w'.names = Function.update w.names i (some (threadName c))) : Named w' := by
  have absent : w.names i = none := by
    have := h.holder i
    rw [before] at this
    simpa using this
  have older {j : ℕ} {name : String} (old : w.names j = some name) : name ≠ threadName c := by
    obtain ⟨k, smaller, rfl⟩ := h.number j name old
    intro same
    have := threadName_injective same
    omega
  have named_iff (j : ℕ) (name : String) : w'.names j = some name ↔
      if j = i then name = threadName c else w.names j = some name := by
    rw [names]
    split_ifs with same
    · simp [same, eq_comm]
    · rw [Function.update_of_ne same]
  refine ⟨fun j => ?_, fun j name named => ?_, fun j j' name first second => ?_,
    fun k smaller => ?_⟩
  · rw [names, after]
    by_cases same : j = i
    · simp [same]
    · simp [same, h.holder j]
  · rw [named_iff] at named
    split_ifs at named with same
    · exact ⟨c, by omega, named⟩
    · obtain ⟨k, smaller, rfl⟩ := h.number j name named
      exact ⟨k, by omega, rfl⟩
  · rw [named_iff] at first second
    split_ifs at first second with one other other
    · rw [one, other]
    · exact absurd first (older second)
    · exact absurd second (older first)
    · exact h.distinct j j' name first second
  · by_cases new : k = c
    · exact ⟨i, by rw [names, new, Function.update_self]⟩
    · obtain ⟨j, named⟩ := h.all k (by omega)
      refine ⟨j, (named_iff j _).mpr ?_⟩
      rw [if_neg, named]
      rintro rfl
      simp [absent] at named

theorem Named.step (h : Named w) (closing : Closing w.pool) (crew : Crew int16Max w.pool)
    (ha : naming start w a = some w') : Named w' := by
  obtain ⟨pool, step, rfl⟩ := Option.map_eq_some_iff.mp ha
  have counts := (Move.of_step step).counts closing
  cases at_ : counting w.pool a with
  | none =>
    rw [at_] at counts
    cases counts with
    | same count same =>
      exact ⟨fun i => (h.holder i).trans (congrFun same i).symm,
        fun i name named => count ▸ h.number i name named, h.distinct,
        fun k below => h.all k (count ▸ below)⟩
  | some i =>
    rw [at_] at counts
    cases counts with
    | next before count after =>
      have shows := closing.counted
      have few : (countedIn w.pool.threads : Int) ≤ int16Max := by
        have counted := tally_ind_le_length (fun t : Thread R => t.pc.isCounted) w.pool.threads
        have bound := crew.bound
        unfold countedIn
        unfold int16Max at bound ⊢
        omega
      refine h.next before shows (shows ▸ count) after ?_
      rw [shows]
      exact if_pos (threadName_fits few)

theorem naming_run {as : List (Act Fn Arg R)}
    (h : run (naming start) .constructed as = some w) :
    run (step start) .constructed as = some w.pool := by
  have project (w : Naming Fn Arg R) (a : Act Fn Arg R) (w' : Naming Fn Arg R)
      (ha : naming start w a = some w') : step start w.pool a = some w'.pool := by
    obtain ⟨pool, step, rfl⟩ := Option.map_eq_some_iff.mp ha
    exact step
  exact run_project (f := Naming.pool) project h

/-- In every run of a pool on no more cores than an `atomic_int16_t` can count the threads past
`thread_count_++` are named, no two by the same name, and the names in use are those with the
numbers below `thread_count_`. -/
theorem names_in_use {as : List (Act Fn Arg R)}
    (h : run (naming start) .constructed as = some w)
    (cores : ∀ cpuCore threadCount queueSize,
      Act.create cpuCore threadCount queueSize ∈ as → cpuCore ≤ int16Max) :
    (∀ i, (w.names i).isSome = w.pool.isCounted i) ∧
      (∀ i j name, w.names i = some name → w.names j = some name → i = j) ∧
      ∀ name, (∃ i, w.names i = some name) ↔
        ∃ k : ℕ, k < w.pool.pool.threadCount ∧ name = threadName k := by
  have named : Named w := by
    refine run_induction (P := fun as (w : Naming Fn Arg R) =>
      (∀ c t q, Act.create c t q ∈ as → c ≤ int16Max) → Named w) ?_ ?_ as w h cores
    · refine fun _ => ⟨fun _ => rfl, ?_, ?_, fun k below => ?_⟩
      · simp [Naming.constructed]
      · simp [Naming.constructed]
      · have : (k : Int) < 0 := below
        omega
    · intro as w a w' hw ih ha cores
      have earlier (c t q : Int) (mem : Act.create c t q ∈ as) : c ≤ int16Max :=
        cores c t q (by simp [mem])
      have pool := naming_run hw
      exact (ih earlier).step (closing_of_run pool) (crew_of_run pool earlier) ha
  refine ⟨named.holder, named.distinct, fun name => ?_⟩
  constructor
  · rintro ⟨i, has⟩
    exact named.number i name has
  · rintro ⟨k, below, rfl⟩
    exact named.all k below

/-- Of two threads the second one created is the first one to count itself. -/
def secondFirst : List (Act Unit Unit Unit) :=
  [.create 2 2 2048] ++ List.replicate 6 (.creator true) ++
    [.thread 1, .thread 0, .thread 1, .thread 0]

theorem names_in_use_secondFirst :
    ∃ w, run (naming fun _ => ()) .constructed secondFirst = some w ∧
      w.names 1 = some "thread-0" ∧ w.names 0 = some "thread-1" ∧
      (∀ i, (w.names i).isSome = w.pool.isCounted i) ∧
      (∀ i j name, w.names i = some name → w.names j = some name → i = j) ∧
      ∀ name, (∃ i, w.names i = some name) ↔ ∃ k : ℕ, (k : Int) < 2 ∧ name = threadName k := by
  have end_ : (run (naming fun _ => ()) .constructed secondFirst).map
      (fun w => (w.names 1, w.names 0, w.pool.pool.threadCount)) =
      some (some "thread-0", some "thread-1", 2) := by decide +kernel
  obtain ⟨w, hw, he⟩ := Option.map_eq_some_iff.mp end_
  simp only [Prod.mk.injEq] at he
  obtain ⟨second, first, count⟩ := he
  have cores : ∀ cpuCore threadCount queueSize,
      Act.create cpuCore threadCount queueSize ∈ secondFirst → cpuCore ≤ int16Max := by
    intro cpuCore threadCount queueSize created
    obtain ⟨rfl, -, -⟩ : cpuCore = 2 ∧ threadCount = 2 ∧ queueSize = 2048 := by
      simpa [secondFirst] using created
    decide
  have named := names_in_use hw cores
  rw [count] at named
  exact ⟨w, hw, second, first, named⟩

end EpollServer.ThreadPool
