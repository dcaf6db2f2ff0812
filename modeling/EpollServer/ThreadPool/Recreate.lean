import EpollServer.ThreadPool.Queue
import EpollServer.ThreadPool.Closed

/-!
# A second call of `create`

Nothing in `create` or `startup` asks whether the pool has been created before. A second call
sets the ring back to empty, whatever it holds, and its loop writes the new handles over the old
ones in `threads_`. The machine below lets `create` be called again and joins by handle; the
assignments of `create` are one step, although running threads may come between them.

The handle that the loop overwrites first named a thread, no handle names that thread ever after,
and `shutdown` joins by handles only.
-/
namespace EpollServer.ThreadPool

open Library

variable {Fn Arg R : Type}

/-- The pool with `threads_`: the thread that each handle names, if it names one. -/
structure Recreated (Fn Arg R : Type) where
  base : State Fn Arg R
  handles : List (Option ℕ)

def Recreated.constructed : Recreated Fn Arg R := ⟨.constructed, []⟩

/-- `create`, also on a pool that was created before. There is at least one CPU. -/
def createStep (r : Recreated Fn Arg R) (cpuCore threadCount queueSize : Int) :
    Option (Recreated Fn Arg R) :=
  if 1 ≤ cpuCore ∧ !r.base.creator.underWay ∧ r.base.closer = .idle then
    some {
      base := { r.base with
        pool := r.base.pool.create queueSize
        creator := .next 0 (createdThreads cpuCore threadCount) cpuCore }
      handles := vectorResize r.handles (createdThreads cpuCore threadCount) none }
  else none

/-- `threads_` after a step of `create`'s loop: `pthread_create` writes the handle, and leaves
it undefined when it fails. -/
def spawnHandles (r : Recreated Fn Arg R) (ok : Bool) : List (Option ℕ) :=
  match r.base.creator with
  | .spawn i _ _ => r.handles.set i.toNat (if ok then some r.base.threads.length else none)
  | _ => r.handles

/-- `pthread_join(threads_.at(i))`. A handle that names no thread is an error, which ends the
loop and skips `free_resource`. -/
def joinStep (r : Recreated Fn Arg R) (i : ℕ) : Option (State Fn Arg R) :=
  match r.handles[i]? with
  | none => some (r.base.raise .outOfRange)
  | some none => some { r.base with closer := .delete }
  | some (some j) => r.base.threads[j]?.bind fun t =>
    if t.pc matches .terminated then
      some { r.base with closer := .joinTest (i + 1), joined := r.base.joined ++ [j] }
    else none

/-- The caller of `shutdown`, whose join loop goes by the handles. -/
def closerAgain (r : Recreated Fn Arg R) : Option (State Fn Arg R) :=
  match r.base.closer with
  | .joinWait i => joinStep r i
  | _ => closerStep r.base

def stepAgain (start : Task Fn Arg → R) (r : Recreated Fn Arg R) (a : Act Fn Arg R) :
    Option (Recreated Fn Arg R) :=
  if r.base.fault.isSome then none
  else match a with
  | .create cpuCore threadCount queueSize => createStep r cpuCore threadCount queueSize
  | .creator ok => (creatorStep r.base ok).map ({ base := ·, handles := spawnHandles r ok })
  | .closer => (closerAgain r).map ({ r with base := · })
  | a => (step start r.base a).map ({ r with base := · })

/-! ## What a step does to the handles -/

/-- The iteration of its loop that the caller of `create` is in, and their number. -/
def Creator.iteration : Creator → Option (Int × Int)
  | .zeroMask i n _ | .setMask i n _ | .spawn i n _ => some (i, n)
  | .idle | .returned _ => none

theorem Creator.underWay_eq (c : Creator) : c.underWay = c.iteration.isSome := by
  cases c <;> rfl

/-- The steps that matter to the handles: a call of `create`, a `pthread_create`, a join, and all
others. -/
inductive Again (r : Recreated Fn Arg R) : Act Fn Arg R → Recreated Fn Arg R → Prop where
  | create {cpuCore threadCount queueSize : Int} {r' : Recreated Fn Arg R} (cores : 1 ≤ cpuCore)
      (settled : r.base.creator.underWay = false) (open_ : r.base.closer = .idle)
      (creator : r'.base.creator = .next 0 (createdThreads cpuCore threadCount) cpuCore)
      (handles : r'.handles = vectorResize r.handles (createdThreads cpuCore threadCount) none)
      (threads : r'.base.threads = r.base.threads) (joined : r'.base.joined = r.base.joined)
      (closer : r'.base.closer = .idle) :
      Again r (.create cpuCore threadCount queueSize) r'
  | spawn {ok : Bool} {i n cpuCore : Int} {r' : Recreated Fn Arg R}
      (at_ : r.base.creator = .spawn i n cpuCore)
      (creator : r'.base.creator = if ok then .next (i + 1) n cpuCore else .returned (-1))
      (handles : r'.handles =
        r.handles.set i.toNat (if ok then some r.base.threads.length else none))
      (threads : r'.base.threads.length = r.base.threads.length + if ok then 1 else 0)
      (joined : r'.base.joined = r.base.joined) (closer : r'.base.closer = r.base.closer) :
      Again r (.creator ok) r'
  | join {i j : ℕ} {r' : Recreated Fn Arg R} (at_ : r.base.closer = .joinWait i)
      (handle : r.handles[i]? = some (some j)) (handles : r'.handles = r.handles)
      (threads : r'.base.threads = r.base.threads) (joined : r'.base.joined = r.base.joined ++ [j])
      (creator : r'.base.creator = r.base.creator) (closer : r'.base.closer ≠ .idle) :
      Again r .closer r'
  | other {a : Act Fn Arg R} {r' : Recreated Fn Arg R} (handles : r'.handles = r.handles)
      (threads : r'.base.threads.length = r.base.threads.length)
      (joined : r'.base.joined = r.base.joined)
      (iteration : r'.base.creator.iteration = r.base.creator.iteration)
      (returned : r'.base.creator = .returned 0 → r.base.creator = .returned 0)
      (opened : r'.base.closer = .idle → r.base.closer = .idle)
      (settled : r'.base.closer ≠ .idle → r.base.closer ≠ .idle ∨
        r.base.creator.underWay = false)
      (foreign : ∀ cpuCore threadCount queueSize, a ≠ .create cpuCore threadCount queueSize) :
      Again r a r'

variable {start : Task Fn Arg → R} {r r' r₁ r₂ : Recreated Fn Arg R} {a : Act Fn Arg R}

theorem Again.of_creatorStep {ok : Bool} {s : State Fn Arg R}
    (h : creatorStep r.base ok = some s) :
    Again r (.creator ok) { base := s, handles := spawnHandles r ok } := by
  unfold creatorStep at h
  unfold spawnHandles
  split at h
  · cases h
  · cases h
  · rename_i at_
    obtain rfl := Option.some.inj h
    exact .other (by simp [at_]) rfl rfl (by simp [at_, Creator.iteration]) (by simp) id .inl
      (by simp)
  · rename_i at_
    split at h <;> obtain rfl := Option.some.inj h
    · exact .other (by simp [at_]) rfl rfl rfl id id .inl (by simp)
    · exact .other (by simp [at_]) rfl rfl (by simp [at_, Creator.iteration]) (by simp) id .inl
        (by simp)
  · rename_i at_
    cases ok <;> obtain rfl := Option.some.inj h <;>
      exact .spawn at_ (by simp) (by simp [at_]) (by simp) rfl rfl

theorem Again.of_joinStep {i : ℕ} {s : State Fn Arg R} (at_ : r.base.closer = .joinWait i)
    (h : joinStep r i = some s) : Again r .closer { r with base := s } := by
  unfold joinStep at h
  split at h
  · obtain rfl := Option.some.inj h
    exact .other rfl rfl rfl rfl id (by simp [State.raise]) .inl (by simp)
  · obtain rfl := Option.some.inj h
    exact .other rfl rfl rfl rfl id (by simp) (fun _ => .inl (by simp [at_])) (by simp)
  · rename_i j handle
    obtain ⟨t, thread, h⟩ := Option.bind_eq_some_iff.mp h
    split at h
    · obtain rfl := Option.some.inj h
      exact .join at_ handle rfl rfl rfl rfl (by simp)
    · cases h

/-- A step of the machine with a single `create`, other than a call of `create`, a step of its
loop and a join. -/
theorem Again.of_move {s : State Fn Arg R} (m : Move start r.base a s)
    (foreign : ∀ c t q, a ≠ .create c t q) (started : ∀ ok, a ≠ .creator ok)
    (unjoined : ∀ i, r.base.closer = .joinWait i → a ≠ .closer) :
    Again r a { r with base := s } := by
  cases m
  case create => exact absurd rfl (foreign _ _ _)
  case zeroMask | setMask | setMaskFault | spawn | spawnFail => exact absurd rfl (started _)
  case joinFault i at_ _ | join i t at_ _ _ => exact absurd rfl (unjoined i at_)
  case accept | wake => exact .other rfl (by simp [unpark]) rfl rfl id id .inl foreign
  case shutdown created _ =>
    exact .other rfl (by simp [unpark]) rfl rfl id (by simp) (fun _ => .inr created) foreign
  case shutdownAgain created _ =>
    exact .other rfl rfl rfl rfl id (by simp) (fun _ => .inr created) foreign
  case joinNext | joinLast | destroy | delete =>
    have at_ := ‹r.base.closer = _›
    exact .other rfl rfl rfl rfl id (by simp) (fun _ => .inl (by simp [at_])) foreign
  case freeResource at_ =>
    refine .other rfl rfl rfl rfl id (fun idle => ?_) (fun _ => .inl (by simp [at_])) foreign
    simp only at idle
    split_ifs at idle
  all_goals exact .other rfl (by simp [State.setThread, State.raise]) rfl rfl id id .inl foreign

theorem Again.of_step (h : stepAgain start r a = some r') : Again r a r' := by
  obtain ⟨running, h⟩ := Option.ite_none_left_eq_some.mp h
  cases a with
  | create cpuCore threadCount queueSize =>
    unfold createStep at h
    obtain ⟨⟨cores, settled, open_⟩, h⟩ := Option.ite_none_right_eq_some.mp h
    obtain rfl := Option.some.inj h
    exact .create cores (by simpa using settled) open_ rfl rfl rfl rfl open_
  | creator ok =>
    obtain ⟨s, hs, rfl⟩ := Option.map_eq_some_iff.mp h
    exact .of_creatorStep hs
  | closer =>
    obtain ⟨s, hs, rfl⟩ := Option.map_eq_some_iff.mp h
    unfold closerAgain at hs
    split at hs
    · rename_i i at_
      exact .of_joinStep at_ hs
    · rename_i other
      have m : Move start r.base .closer s := .of_closerStep hs
      exact .of_move m (by simp) (by simp) fun i at_ => absurd at_ (other i)
  | submit | wake | thread | work | shutdown =>
    obtain ⟨s, hs, rfl⟩ := Option.map_eq_some_iff.mp h
    exact .of_move (Move.of_step hs) (by simp) (by simp) (by simp)

/-! ## Handles and the threads they name -/

theorem length_vectorResize {β : Type*} (v : List β) (n : Int) (x : β) :
    (vectorResize v n x).length = n.toNat := by
  simp only [vectorResize, List.length_append, List.length_take, List.length_replicate]
  omega

/-- Handle `i` names thread `j`. -/
def Recreated.Names (r : Recreated Fn Arg R) (i j : ℕ) : Prop := r.handles[i]? = some (some j)

/-- The handles of a resized `threads_` were there before. -/
theorem named_of_vectorResize {handles : List (Option ℕ)} {n : Int} {i j : ℕ}
    (h : (vectorResize handles n none)[i]? = some (some j)) : handles[i]? = some (some j) := by
  unfold vectorResize at h
  rw [List.getElem?_append] at h
  split_ifs at h with old
  · rw [List.getElem?_take_of_lt (by rw [List.length_take] at old; omega)] at h
    exact h
  · rw [List.getElem?_replicate] at h
    split_ifs at h
    cases h

/-- The handles after `pthread_create` wrote number `i`. -/
theorem named_set {handles : List (Option ℕ)} {i k j : ℕ} {v : Option ℕ}
    (h : (handles.set i v)[k]? = some (some j)) :
    k = i ∧ v = some j ∨ k ≠ i ∧ handles[k]? = some (some j) := by
  rw [List.getElem?_set] at h
  split_ifs at h with same inside
  · exact .inl ⟨same.symm, by simpa using h⟩
  · exact .inr ⟨Ne.symm same, h⟩

/-- With at least one CPU there is at least one thread to create. -/
theorem createdThreads_pos {cpuCore : Int} (cores : 1 ≤ cpuCore) (threadCount : Int) :
    0 < createdThreads cpuCore threadCount := by
  unfold createdThreads coerceIn maxThreads
  split_ifs <;> omega

/-- Handles name different threads; the first one is written in the first iteration of `create`
and so names a thread when `create` has returned 0; nobody joins before `shutdown`. -/
structure Handles (r : Recreated Fn Arg R) : Prop where
  fresh : ∀ i j, r.Names i j → j < r.base.threads.length
  injective : ∀ i k j, r.Names i j → r.Names k j → i = k
  spawning : ∀ i n, r.base.creator.iteration = some (i, n) →
    0 ≤ i ∧ i < n ∧ r.handles.length = n.toNat ∧ (0 < i → ∃ j, r.Names 0 j)
  created : r.base.creator = .returned 0 → ∃ j, r.Names 0 j
  unjoined : r.base.closer = .idle → r.base.joined = []
  settled : r.base.closer ≠ .idle → r.base.creator.underWay = false

theorem Handles.constructed : Handles (.constructed : Recreated Fn Arg R) where
  fresh := by simp [Recreated.Names, Recreated.constructed]
  injective := by simp [Recreated.Names, Recreated.constructed]
  spawning := by simp [Recreated.constructed, State.constructed, Creator.iteration]
  created := by simp [Recreated.constructed, State.constructed]
  unjoined _ := rfl
  settled _ := rfl

/-- The first handle names a thread after each successful `pthread_create`. -/
theorem Handles.first (h : Handles r) {i n cpuCore : Int}
    (at_ : r.base.creator = .spawn i n cpuCore)
    (handles : r'.handles = r.handles.set i.toNat (some r.base.threads.length)) :
    ∃ j, r'.Names 0 j := by
  obtain ⟨nonneg, more, length, first⟩ := h.spawning i n (by rw [at_]; rfl)
  unfold Recreated.Names
  rw [handles]
  by_cases zero : i = 0
  · subst zero
    exact ⟨_, List.getElem?_set_self (by omega)⟩
  · obtain ⟨j, hj⟩ := first (by omega)
    exact ⟨j, by rw [List.getElem?_set_ne (by omega)]; exact hj⟩

theorem Handles.create (h : Handles r) {cpuCore threadCount : Int} (cores : 1 ≤ cpuCore)
    (open_ : r.base.closer = .idle)
    (creator : r'.base.creator = .next 0 (createdThreads cpuCore threadCount) cpuCore)
    (handles : r'.handles = vectorResize r.handles (createdThreads cpuCore threadCount) none)
    (threads : r'.base.threads = r.base.threads) (joined : r'.base.joined = r.base.joined)
    (closer : r'.base.closer = .idle) : Handles r' := by
  have pos := createdThreads_pos cores threadCount
  rw [Creator.next, if_pos pos] at creator
  have old {i j : ℕ} (hj : r'.Names i j) : r.Names i j := by
    unfold Recreated.Names at hj
    rw [handles] at hj
    exact named_of_vectorResize hj
  refine ⟨fun i j hj => threads ▸ h.fresh i j (old hj),
    fun i k j hi hk => h.injective i k j (old hi) (old hk), fun i n at_ => ?_, ?_,
    fun _ => joined.trans (h.unjoined open_), fun busy => absurd closer busy⟩
  · obtain ⟨rfl, rfl⟩ : 0 = i ∧ createdThreads cpuCore threadCount = n := by
      simpa [creator, Creator.iteration] using at_
    exact ⟨le_rfl, pos, by rw [handles, length_vectorResize], fun later => by omega⟩
  · simp [creator]

theorem Handles.spawn (h : Handles r) {ok : Bool} {i n cpuCore : Int}
    (at_ : r.base.creator = .spawn i n cpuCore)
    (creator : r'.base.creator = if ok then .next (i + 1) n cpuCore else .returned (-1))
    (handles : r'.handles = r.handles.set i.toNat (if ok then some r.base.threads.length else none))
    (threads : r'.base.threads.length = r.base.threads.length + if ok then 1 else 0)
    (joined : r'.base.joined = r.base.joined) (closer : r'.base.closer = r.base.closer) :
    Handles r' := by
  have new {k j : ℕ} (hj : r'.Names k j) :
      k = i.toNat ∧ ok = true ∧ j = r.base.threads.length ∨ r.Names k j := by
    unfold Recreated.Names at hj
    rw [handles] at hj
    rcases named_set hj with ⟨same, value⟩ | ⟨-, old⟩
    · cases ok
      · cases value
      · exact .inl ⟨same, rfl, (Option.some.inj value).symm⟩
    · exact .inr old
  obtain ⟨nonneg, more, length, -⟩ := h.spawning i n (by rw [at_]; rfl)
  refine ⟨fun k j hj => ?_, fun k l j hk hl => ?_, fun k m hm => ?_, fun returned => ?_,
    fun idle => joined.trans (h.unjoined (closer.symm.trans idle)), fun busy => ?_⟩
  · rcases new hj with ⟨-, rfl, rfl⟩ | old
    · simp [threads]
    · have := h.fresh k j old
      omega
  · rcases new hk with ⟨rfl, -, rfl⟩ | oldk <;> rcases new hl with ⟨rfl, -, he⟩ | oldl
    · rfl
    · exact absurd (h.fresh l _ oldl) (by omega)
    · exact absurd (h.fresh k _ oldk) (by omega)
    · exact h.injective k l j oldk oldl
  · cases ok
    · simp [creator, Creator.iteration] at hm
    · simp only [creator, if_true, Creator.next] at hm
      split_ifs at hm with last
      · obtain ⟨rfl, rfl⟩ : i + 1 = k ∧ n = m := by simpa [Creator.iteration] using hm
        exact ⟨by omega, last, by rw [handles, List.length_set, length],
          fun _ => h.first at_ (by simpa using handles)⟩
      · simp [Creator.iteration] at hm
  · cases ok
    · simp [creator] at returned
    · exact h.first at_ (by simpa using handles)
  · have := h.settled (closer ▸ busy)
    simp [at_, Creator.underWay] at this

theorem Handles.step (h : Handles r) (again : Again r a r') : Handles r' := by
  cases again with
  | create cores _ open_ creator handles threads joined closer =>
    exact h.create cores open_ creator handles threads joined closer
  | spawn at_ creator handles threads joined closer =>
    exact h.spawn at_ creator handles threads joined closer
  | join at_ handle handles threads joined creator closer =>
    refine ⟨?_, ?_, ?_, ?_, fun idle => absurd idle closer, fun _ => ?_⟩ <;>
      simp only [Recreated.Names, handles, threads, creator]
    · exact h.fresh
    · exact h.injective
    · exact h.spawning
    · exact h.created
    · exact h.settled (by simp [at_])
  | other handles threads joined iteration returned opened settled _ =>
    refine ⟨?_, ?_, ?_, ?_, fun idle => joined.trans (h.unjoined (opened idle)), fun busy => ?_⟩ <;>
      simp only [Recreated.Names, handles, threads, iteration, Creator.underWay_eq]
    · exact h.fresh
    · exact h.injective
    · exact h.spawning
    · exact fun zero => h.created (returned zero)
    · rw [← Creator.underWay_eq]
      exact (settled busy).elim h.settled id

/-! ## With a single call of `create` -/

/-- After one call of `create` handle `i` names thread `i`. -/
structure Plain (r : Recreated Fn Arg R) : Prop where
  names : ∀ i < r.base.threads.length, r.Names i i
  spawning : ∀ i n, r.base.creator.iteration = some (i, n) →
    i = r.base.threads.length ∧ i < n ∧ r.handles.length = n.toNat

theorem Plain.again (h : Plain r) (first : r.base.creator = .idle → r.base.threads = [])
    (single : ∀ c t q, a = .create c t q → r.base.creator = .idle) (again : Again r a r') :
    Plain r' := by
  cases again with
  | @create cpuCore threadCount queueSize _ cores _ _ creator handles threads _ _ =>
    have none_ := threads.trans (first (single _ _ _ rfl))
    have pos := createdThreads_pos cores threadCount
    rw [Creator.next, if_pos pos] at creator
    refine ⟨by simp [none_], fun i n at_ => ?_⟩
    obtain ⟨rfl, rfl⟩ : 0 = i ∧ createdThreads cpuCore threadCount = n := by
      simpa [creator, Creator.iteration] using at_
    exact ⟨by simp [none_], pos, by rw [handles, length_vectorResize]⟩
  | @spawn ok i n cpuCore _ at_ creator handles threads _ _ =>
    obtain ⟨rfl, more, length⟩ := h.spawning i n (by rw [at_]; rfl)
    rw [Int.toNat_natCast] at handles
    refine ⟨fun k hk => ?_, fun k m hm => ?_⟩
    · unfold Recreated.Names
      rw [handles]
      cases ok
      · rw [List.getElem?_set_ne (by simp at threads; omega)]
        exact h.names k (by simpa [threads] using hk)
      · by_cases new : r.base.threads.length = k
        · rw [← new]
          exact List.getElem?_set_self (by omega)
        · rw [List.getElem?_set_ne new]
          exact h.names k (by simp at threads; omega)
    · cases ok
      · simp [creator, Creator.iteration] at hm
      · simp only [creator, if_true, Creator.next] at hm
        split_ifs at hm with last
        · obtain ⟨rfl, rfl⟩ : (r.base.threads.length : Int) + 1 = k ∧ n = m := by
            simpa [Creator.iteration] using hm
          exact ⟨by simp [threads], last, by rw [handles, List.length_set, length]⟩
        · simp [Creator.iteration] at hm
  | join _ _ handles threads _ creator _ =>
    constructor <;> simp only [Recreated.Names, handles, threads, creator]
    · exact h.names
    · exact h.spawning
  | other handles threads _ iteration _ _ _ _ =>
    constructor <;> simp only [Recreated.Names, handles, threads, iteration]
    · exact h.names
    · exact h.spawning

/-- A step of the machine with a single `create` is a step of this one. -/
theorem Plain.follows (h : Plain r) (sound : Sound r.base) {s : State Fn Arg R}
    (hs : step start r.base a = some s) (cores : ∀ c t q, a = .create c t q → 1 ≤ c) :
    ∃ handles, stepAgain start r a = some ⟨s, handles⟩ := by
  obtain ⟨running, next⟩ := Option.ite_none_left_eq_some.mp hs
  unfold stepAgain
  rw [if_neg running]
  cases a with
  | create cpuCore threadCount queueSize =>
    obtain ⟨⟨fresh, open_⟩, next⟩ := Option.ite_none_right_eq_some.mp next
    obtain rfl := Option.some.inj next
    exact ⟨_, if_pos ⟨cores _ _ _ rfl, by simp [fresh, Creator.underWay], open_⟩⟩
  | creator ok =>
    exact ⟨_, Option.map_eq_some_iff.mpr ⟨s, next, rfl⟩⟩
  | closer =>
    refine ⟨r.handles, Option.map_eq_some_iff.mpr ⟨s, ?_, rfl⟩⟩
    unfold closerAgain
    split
    · rename_i i at_
      have inside := sound.joins i at_
      have named : r.handles[i]? = some (some i) := h.names i inside
      simp only [closerStep, at_, List.getElem?_eq_getElem inside] at next
      simp only [joinStep, named, List.getElem?_eq_getElem inside, Option.bind_some]
      exact next
    · exact next
  | submit | wake | thread | work | shutdown =>
    exact ⟨r.handles, Option.map_eq_some_iff.mpr ⟨s, hs, rfl⟩⟩

/-- Every run of the machine with a single `create` is a run of this one. -/
theorem recreated_of_run {acts : List (Act Fn Arg R)} {s : State Fn Arg R}
    (h : run (step start) .constructed acts = some s)
    (cores : ∀ c t q, Act.create c t q ∈ acts → 1 ≤ c) :
    ∃ handles, run (stepAgain start) .constructed acts = some ⟨s, handles⟩ := by
  have extended : ∀ (as : List (Act Fn Arg R)) (s : State Fn Arg R),
      run (step start) .constructed as = some s → (∀ c t q, Act.create c t q ∈ as → 1 ≤ c) →
        ∃ r, run (stepAgain start) .constructed as = some r ∧ r.base = s ∧ Plain r := by
    refine run_induction ?_ ?_
    · refine fun _ => ⟨.constructed, rfl, rfl, ?_, ?_⟩
      · simp [Recreated.constructed, State.constructed]
      · simp [Recreated.constructed, State.constructed, Creator.iteration]
    · intro as s a s' hrun ih hs cores
      obtain ⟨r, hr, rfl, plain⟩ := ih fun c t q mem => cores c t q (by simp [mem])
      have sound := (sound_of_run hrun).1
      obtain ⟨handles, next⟩ := plain.follows sound hs fun c t q he => cores c t q (by simp [he])
      refine ⟨_, run_concat.mpr ⟨r, hr, next⟩, rfl, ?_⟩
      refine plain.again (closing_of_run hrun).unborn ?_ (.of_step next)
      rintro c t q rfl
      exact ((Option.ite_none_right_eq_some.mp (Option.ite_none_left_eq_some.mp hs).2).1).1
  obtain ⟨⟨s', handles⟩, hr, rfl, -⟩ := extended acts s h cores
  exact ⟨handles, hr⟩

/-! ## The thread that is lost -/

/-- No handle names thread `j`, or `create` is about to overwrite the only one that does. -/
structure Lost (j : ℕ) (r : Recreated Fn Arg R) : Prop where
  old : j < r.base.threads.length
  unjoined : j ∉ r.base.joined
  handle : (∀ i, ¬ r.Names i j) ∨
    (∃ n, r.base.creator.iteration = some (0, n)) ∧ ∀ i, r.Names i j → i = 0

theorem Lost.step {j : ℕ} (h : Lost j r) (handles_ : Handles r) (again : Again r a r') :
    Lost j r' := by
  obtain ⟨old, unjoined, handle⟩ := h
  cases again with
  | create cores settled open_ creator handles threads joined closer =>
    refine ⟨threads ▸ old, joined ▸ unjoined, .inl fun i hi => ?_⟩
    have gone := handle.resolve_right fun ⟨⟨n, hn⟩, _⟩ => by
      simp [Creator.underWay_eq, hn] at settled
    unfold Recreated.Names at hi
    rw [handles] at hi
    exact gone i (named_of_vectorResize hi)
  | @spawn ok i n cpuCore _ at_ creator handles threads joined closer =>
    refine ⟨by omega, joined ▸ unjoined, .inl fun k hk => ?_⟩
    unfold Recreated.Names at hk
    rw [handles] at hk
    rcases named_set hk with ⟨-, value⟩ | ⟨other, before⟩
    · cases ok
      · cases value
      · have := Option.some.inj value
        omega
    · rcases handle with gone | ⟨⟨m, hm⟩, only⟩
      · exact gone k before
      · have : i = 0 := by
          rw [at_] at hm
          simpa [Creator.iteration] using congrArg (Option.map Prod.fst) hm
        have := only k before
        omega
  | @join i k _ at_ named handles threads joined creator closer =>
    have gone := handle.resolve_right fun ⟨⟨n, hn⟩, _⟩ => by
      have := handles_.settled (by simp [at_])
      simp [Creator.underWay_eq, hn] at this
    refine ⟨threads ▸ old, ?_, .inl ?_⟩
    · rw [joined, List.mem_append, List.mem_singleton]
      rintro (before | rfl)
      · exact unjoined before
      · exact gone i named
    · simpa only [Recreated.Names, handles] using gone
  | other handles threads joined iteration _ _ _ _ =>
    exact ⟨threads ▸ old, joined ▸ unjoined,
      by simpa only [Recreated.Names, handles, iteration] using handle⟩

/-- The second call begins by losing the thread of the first handle. -/
theorem Lost.of_create {cpuCore threadCount queueSize : Int} {j : ℕ} (h : Handles r)
    (again : Again r (.create cpuCore threadCount queueSize) r') (named : r.Names 0 j) :
    Lost j r' := by
  cases again with
  | create cores _ open_ creator handles threads joined _ =>
    have pos := createdThreads_pos cores threadCount
    rw [Creator.next, if_pos pos] at creator
    refine ⟨threads ▸ h.fresh 0 j named, by simp [joined, h.unjoined open_],
      .inr ⟨⟨_, by rw [creator]; rfl⟩, fun i hi => ?_⟩⟩
    unfold Recreated.Names at hi
    rw [handles] at hi
    exact h.injective i 0 j (named_of_vectorResize hi) named
  | other _ _ _ _ _ _ _ foreign => exact absurd rfl (foreign _ _ _)

theorem handles_of_run {acts : List (Act Fn Arg R)}
    (h : run (stepAgain start) .constructed acts = some r) : Handles r :=
  run_invariant .constructed (fun _ _ _ hr hs => hr.step (.of_step hs)) h

/-- After a second call of `create` the thread of the first handle is never joined. -/
theorem lost_of_run {cpuCore threadCount queueSize : Int} {pre post : List (Act Fn Arg R)}
    (h₁ : run (stepAgain start) .constructed pre = some r₁) {j : ℕ} (named : r₁.Names 0 j)
    (h₂ : run (stepAgain start) r₁ (.create cpuCore threadCount queueSize :: post) = some r₂) :
    Lost j r₂ := by
  obtain ⟨r, hr, rest⟩ := Option.bind_eq_some_iff.mp h₂
  have again := Again.of_step hr
  have before := handles_of_run h₁
  refine (run_invariant (I := fun r => Handles r ∧ Lost j r)
    ⟨before.step again, .of_create before again named⟩ ?_ rest).2
  rintro u a v ⟨handles, lost⟩ hs
  have again := Again.of_step hs
  exact ⟨handles.step again, lost.step handles again⟩

/-! ## The tasks that are lost -/

/-- The ring still holds its tasks after the assignments of `create` only if there are none. -/
theorem Pool.Represents.create_iff {p : Pool Fn Arg} {items : List (Task Fn Arg)}
    (h : p.Represents items) (queueSize : Int) :
    (p.create queueSize).Represents items ↔ items = [] := by
  constructor
  · intro held
    have := held.workCount_eq
    exact List.eq_nil_of_length_eq_zero (by simp only [Pool.create] at this; omega)
  · rintro rfl
    have vacant (x : Task Fn Arg) (hx : x ∈ p.workQueue) : x = .empty := by
      have := h.ring.perm.mem_iff.mp hx
      rw [List.nil_append] at this
      exact List.eq_of_mem_replicate this
    obtain ⟨lo, -⟩ := coerceIn_bounds queueSize (l := 1024) (r := maxQueue) (by decide)
    obtain ⟨n, hn⟩ := Int.eq_ofNat_of_zero_le (a := coerceIn queueSize 1024 maxQueue) (by omega)
    have slots : vectorResize p.workQueue n .empty = List.replicate n .empty := by
      refine List.eq_replicate_iff.mpr ⟨by rw [length_vectorResize]; rfl, fun x hx => ?_⟩
      rcases List.mem_append.mp hx with old | new
      · exact vacant x (List.mem_of_mem_take old)
      · exact List.eq_of_mem_replicate new
    simp only [Pool.create, Pool.Represents, hn, slots]
    exact of_nat (.replicate _ _) (by simp; omega) rfl (by simp) rfl (by simp)

/-- A second call of `create` in the state `r₁`, followed by a run to `r₂`, loses nothing: the
ring still holds the tasks it held, and when `shutdown` has returned every thread that existed
before the call has been joined. -/
def LosesNothing (r₁ : Recreated Fn Arg R) (queueSize : Int) (r₂ : Recreated Fn Arg R) : Prop :=
  (∀ items, r₁.base.pool.Represents items → (r₁.base.pool.create queueSize).Represents items) ∧
    (r₂.base.closer = .deleted → ∀ j < r₁.base.threads.length, j ∈ r₂.base.joined)

/-- Once the pool has been created, another call of `create`, with any arguments and whatever
happens until `shutdown` has returned, loses a thread. -/
theorem create_again_loses {cpuCore threadCount queueSize : Int} {pre post : List (Act Fn Arg R)}
    (h₁ : run (stepAgain start) .constructed pre = some r₁)
    (created : r₁.base.creator = .returned 0)
    (h₂ : run (stepAgain start) r₁ (.create cpuCore threadCount queueSize :: post) = some r₂)
    (deleted : r₂.base.closer = .deleted) : ¬ LosesNothing r₁ queueSize r₂ := by
  have handles := handles_of_run h₁
  obtain ⟨j, named⟩ := handles.created created
  rintro ⟨-, joined⟩
  exact (lost_of_run h₁ named h₂).unjoined (joined deleted j (handles.fresh 0 j named))

/-- A pool of one thread, with a task queued. -/
def createdOnce : List (Act ℕ ℕ ℕ) :=
  [.create 1 1 1024, .creator true, .creator true, .creator true, .thread 0, .thread 0, .thread 0,
   .submit none (some 1) []]

/-- The second call creates one more thread, which leaves and is joined in place of the first. -/
def createdTwice : List (Act ℕ ℕ ℕ) :=
  [.create 1 1 1024, .creator true, .creator true, .creator true, .thread 1, .thread 1, .thread 1,
   .shutdown .gracefulShutdown, .thread 1, .thread 1, .closer, .closer, .closer, .closer, .closer,
   .closer]

theorem createdTwice_run :
    ∃ r₁ r₂, run (stepAgain fun _ => 0) .constructed createdOnce = some r₁ ∧
      r₁.base.creator = .returned 0 ∧ r₁.base.pool.workCount = 1 ∧
      r₁.base.threads.length = 1 ∧ run (stepAgain fun _ => 0) r₁ createdTwice = some r₂ ∧
      r₂.base.closer = .deleted ∧ r₂.base.joined = [1] ∧ r₂.base.delivered = [] := by
  have once : (run (stepAgain fun _ => 0) .constructed createdOnce).map
      (fun r => (r.base.creator, r.base.pool.workCount, r.base.threads.length)) =
      some (.returned 0, 1, 1) := by decide +kernel
  have twice : (run (stepAgain fun _ => 0) .constructed (createdOnce ++ createdTwice)).map
      (fun r => (r.base.closer, r.base.joined, r.base.delivered)) =
      some (.deleted, [1], []) := by decide +kernel
  obtain ⟨r₁, h₁, he₁⟩ := Option.map_eq_some_iff.mp once
  obtain ⟨r₂, h₂, he₂⟩ := Option.map_eq_some_iff.mp twice
  simp only [Prod.mk.injEq] at he₁ he₂
  rw [run_append, h₁, Option.bind_some] at h₂
  exact ⟨r₁, r₂, h₁, he₁.1, he₁.2.1, he₁.2.2, h₂, he₂⟩

theorem create_again_loses_twice :
    ∃ r₁ r₂, run (stepAgain fun _ => 0) .constructed createdOnce = some r₁ ∧
      run (stepAgain fun _ => 0) r₁ createdTwice = some r₂ ∧ ¬ LosesNothing r₁ 1024 r₂ := by
  obtain ⟨r₁, r₂, h₁, created, -, -, h₂, deleted, -⟩ := createdTwice_run
  exact ⟨r₁, r₂, h₁, h₂, create_again_loses h₁ created h₂ deleted⟩

/-- Its queued task is not delivered, and thread 0 is not joined and finds the pool deleted. -/
theorem createdTwice_loses :
    ∃ r₁ r₂, run (stepAgain fun _ => 0) .constructed createdOnce = some r₁ ∧
      r₁.base.creator = .returned 0 ∧ r₁.base.pool.workCount = 1 ∧
      run (stepAgain fun _ => 0) r₁ createdTwice = some r₂ ∧ r₂.base.delivered = [] ∧
      r₂.base.joined = [1] ∧ ¬ LosesNothing r₁ 1024 r₂ := by
  obtain ⟨r₁, r₂, h₁, created, count, length, h₂, deleted, joined, delivered⟩ := createdTwice_run
  refine ⟨r₁, r₂, h₁, created, count, h₂, delivered, joined, ?_⟩
  rintro ⟨-, all⟩
  have := all deleted 0 (by omega)
  simp [joined] at this

end EpollServer.ThreadPool
