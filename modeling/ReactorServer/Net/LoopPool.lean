import ReactorServer.Net.Startup
import ReactorServer.Lib.Refinement
import Mathlib.Algebra.BigOperators.Group.List.Basic
import Mathlib.Algebra.Order.BigOperators.Group.List

/-!
# Starting the pool of loop threads

`EventLoopThreadPool::start` starts its threads one after another from the thread of the base loop, which
is so the parent of them all; those it has started go on meanwhile.  `getNextLoop` then goes round their
loops.  A thread's own steps, and the parent's inside `startLoop`, are those of the handshake, and a
run of the pool is a run of each of its handshakes (`Sound.sane`); what `start` adds to them is the
order (`pool_started`).

None of the waits on the way is for ever: as long as no thread wakes up for no reason, every step is
one fewer to come (`step_lowers`), and there is one to take until all the threads are in their loops
(`start_completes`).
-/

namespace ReactorServer.Net.LoopPool

open ReactorServer.Cpp ReactorServer.Lib.Runs ReactorServer.Lib.Monitors
open ReactorServer.Lib.Refinement ReactorServer.Net.Startup

/-! ### The model -/

/-- The next statement of `EventLoopThreadPool::start`. -/
inductive Starter
  /-- the call, up to `started_ = true` -/
  | calling
  /-- `i < numThreads_` -/
  | testing
  /-- `std::make_shared<EventLoopThread>`, `threads_.push_back(t)` -/
  | creating
  /-- `loops_.push_back(t->startLoop())` -/
  | starting
  /-- `if (numThreads_ == 0 && cb) cb(baseLoop_)` -/
  | initializing
  /-- nothing, behind `start` -/
  | returned
  deriving DecidableEq, Repr

/-- `i` is the variable of the loop in `start`, and `cb` whether it has been given a callback; `initialized`
is whether it has called it with `baseLoop_`, and `handed` what `getNextLoop` has returned. -/
structure EventLoopThreadPool (α : Type) where
  baseLoop_ : α
  next_ : ℕ
  numThreads_ : ℤ
  started_ : Bool
  threads_ : List (EventLoopThread α)
  loops_ : List (Option α)
  starter : Starter
  i : ℕ
  cb : Bool
  initialized : Bool
  handed : List (Option α)

/-- Why a statement fails. -/
inductive Failure
  /-- `assert(!started_)` -/
  | started
  /-- `assert(started_)` -/
  | notStarted
  | fault (f : Fault)

inductive Act
  /-- the next statement of `start` -/
  | base
  /-- the base loop calls `getNextLoop` -/
  | next
  /-- a step of a thread, but for its parent's -/
  | thread (j : ℕ) (a : Startup.Act)

variable {α : Type}

namespace EventLoopThreadPool

def new (baseLoop : α) (numThreads : ℤ) (cb : Bool) : EventLoopThreadPool α where
  baseLoop_ := baseLoop
  next_ := 0
  numThreads_ := numThreads
  started_ := false
  threads_ := []
  loops_ := []
  starter := .calling
  i := 0
  cb := cb
  initialized := false
  handed := []

def baseEnabled (s : EventLoopThreadPool α) : Prop :=
  match s.starter with
  | .starting => ∀ t, s.threads_[s.i]? = some t → t.parent ≠ .returned → parentEnabled t
  | .returned => False
  | _ => True

def baseStep (s : EventLoopThreadPool α) : Except Failure (EventLoopThreadPool α) :=
  match s.starter with
  | .calling =>
    if s.started_ = true then .error .started
    else .ok { s with started_ := true, starter := .testing }
  | .testing =>
    if (s.i : ℤ) < s.numThreads_ then .ok { s with starter := .creating }
    else .ok { s with starter := .initializing }
  | .creating => .ok { s with threads_ := s.threads_ ++ [Startup.start], starter := .starting }
  | .starting =>
    match s.threads_[s.i]? with
    | none => .error (.fault .outOfBounds)
    | some t =>
      if t.parent = .returned then
        .ok { s with loops_ := s.loops_ ++ [t.result.join], starter := .testing, i := s.i + 1 }
      else do
        let t ← (parentStep t).mapError .fault
        .ok { s with threads_ := s.threads_.set s.i t }
  | .initializing =>
    .ok { s with starter := .returned, initialized := decide (s.numThreads_ = 0) && s.cb }
  | .returned => .ok s

/-- The loop, and the new `next_`. -/
def getNextLoop (s : EventLoopThreadPool α) : Except Failure (Option α × ℕ) :=
  if s.started_ = false then .error .notStarted
  else if s.loops_ = [] then .ok (some s.baseLoop_, s.next_)
  else
    match s.loops_[s.next_]? with
    | none => .error (.fault .outOfBounds)
    | some loop => .ok (loop, (s.next_ + 1) % s.loops_.length)

def threadStep (tid : ℕ → ℕ+) (addr : ℕ → α) (j : ℕ) (a : Startup.Act) (s : EventLoopThreadPool α) :
    Except Failure (EventLoopThreadPool α) :=
  match s.threads_[j]? with
  | none => .error (.fault .outOfBounds)
  | some t => do
    let t ← ((machine (tid j) (addr j)).step t a).mapError .fault
    .ok { s with threads_ := s.threads_.set j t }

end EventLoopThreadPool

open EventLoopThreadPool

/-- The base loop and the threads; `tid j` is what `gettid` returns in the thread `j`, and `addr j` the
address of its `EventLoop`. -/
def poolMachine (tid : ℕ → ℕ+) (addr : ℕ → α) :
    Machine (EventLoopThreadPool α) Act Failure where
  enabled s
    | .base => s.baseEnabled
    | .next => s.starter = .calling ∨ s.starter = .returned
    | .thread j a => a ≠ .parent ∧ ∃ t, s.threads_[j]? = some t ∧
        (machine (tid j) (addr j)).enabled t a
  step s
    | .base => s.baseStep
    | .next => do
      let (loop, next) ← s.getNextLoop
      .ok { s with next_ := next, handed := s.handed ++ [loop] }
    | .thread j a => s.threadStep tid addr j a

/-- `getNextLoop` is called behind `start`, and nobody calls `quit` of a loop before its `startLoop` has
returned. -/
def Later (s : EventLoopThreadPool α) : Act → Prop
  | .base => True
  | .next => s.starter = .returned
  | .thread j a => ∀ t, s.threads_[j]? = some t → NoEarlyQuit t a

/-- No thread wakes up for no reason, and nobody calls `quit` or `getNextLoop`. -/
def Calm : Act → Prop
  | .base => True
  | .next => False
  | .thread _ a => a = .child ∨ ∃ w, a = .notify w

/-! ### The threads are started in turn -/

variable {tid : ℕ → ℕ+} {addr : ℕ → α} {b : α} {n : ℤ} {cb : Bool} {s t : EventLoopThreadPool α}
  {a : Act} {as : List Act}

/-- What the `c`-th call of `getNextLoop` returns. -/
def turn (b : α) (addr : ℕ → α) (k c : ℕ) : Option α := some (if k = 0 then b else addr (c % k))

/-- **What holds in every run.** -/
structure Sound (tid : ℕ → ℕ+) (addr : ℕ → α) (b : α) (n : ℤ) (cb : Bool)
    (s : EventLoopThreadPool α) : Prop where
  fixed : s.baseLoop_ = b ∧ s.numThreads_ = n ∧ s.cb = cb
  started_ : s.started_ = true ↔ s.starter ≠ .calling
  sane : ∀ j t, s.threads_[j]? = some t → Sane (tid j) (addr j) t
  returned : ∀ j t, s.threads_[j]? = some t → j < s.i → t.parent = .returned
  loops_ : s.loops_ = (List.range s.i).map fun j => some (addr j)
  length : s.threads_.length = if s.starter = .starting then s.i + 1 else s.i
  bound : s.i ≤ n.toNat
  more : s.starter = .creating ∨ s.starter = .starting → s.i < n.toNat
  none : s.starter = .calling → s.i = 0
  all : s.starter = .initializing ∨ s.starter = .returned → s.i = n.toNat
  initialized : s.starter = .returned → (s.initialized = true ↔ n = 0 ∧ cb = true)
  early : s.starter ≠ .returned → s.handed = []
  next_ : s.next_ = if s.i = 0 then 0 else s.handed.length % s.i
  handed : s.handed = (List.range s.handed.length).map (turn b addr s.i)

theorem Sound.new : Sound tid addr b n cb (.new b n cb) := by
  constructor <;> simp [EventLoopThreadPool.new]

theorem parent_of_step {tid : ℕ+} {addr : α} {x y : EventLoopThread α} {a : Startup.Act}
    (ha : a ≠ .parent) (he : (machine tid addr).enabled x a) (hs : (machine tid addr).step x a = .ok y) :
    y.parent = x.parent := by
  cases a with
  | parent => exact absurd rfl ha
  | child => exact (childStep_spec hs he).parent
  | _ =>
    obtain rfl := Except.ok.inj hs
    rfl

theorem of_getElem?_set {l : List α} {j k : ℕ} {x y : α} (h : (l.set j y)[k]? = some x) :
    k = j ∧ x = y ∨ l[k]? = some x := by
  rw [List.getElem?_set] at h
  split_ifs at h with hjk hlt
  · exact Or.inl ⟨hjk.symm, (Option.some.inj h).symm⟩
  · exact Or.inr h

theorem Sound.set (h : Sound tid addr b n cb s) {j : ℕ} {y : EventLoopThread α}
    (hy : Sane (tid j) (addr j) y) (hret : j < s.i → y.parent = .returned) :
    Sound tid addr b n cb { s with threads_ := s.threads_.set j y } := by
  refine { h with sane := ?_, returned := ?_, length := ?_ }
  · intro k x hk
    rcases of_getElem?_set hk with ⟨rfl, rfl⟩ | hk
    · exact hy
    · exact h.sane k x hk
  · intro k x hk hki
    rcases of_getElem?_set hk with ⟨rfl, rfl⟩ | hk
    · exact hret hki
    · exact h.returned k x hk hki
  · rw [List.length_set]
    exact h.length

theorem Sound.threadStep (h : Sound tid addr b n cb s) {j : ℕ} {c : Startup.Act}
    (he : (poolMachine tid addr).enabled s (.thread j c)) (hl : Later s (.thread j c))
    (hs : s.threadStep tid addr j c = .ok t) : Sound tid addr b n cb t := by
  obtain ⟨hc, x, hx, hex⟩ := he
  simp only [EventLoopThreadPool.threadStep, hx] at hs
  obtain ⟨y, hy, hs⟩ := bind_eq_ok.mp hs
  obtain rfl := Except.ok.inj hs
  rw [mapError_eq_ok] at hy
  refine h.set ((h.sane j x hx).step hex (hl x hx) hy) fun hj => ?_
  rw [parent_of_step hc hex hy]
  exact h.returned j x hx hj

/-- The next thread is the one that is being started. -/
theorem Sound.current (h : Sound tid addr b n cb s) (hstarting : s.starter = .starting) :
    ∃ x, s.threads_[s.i]? = some x := by
  have hlength := h.length
  rw [if_pos hstarting] at hlength
  exact ⟨_, List.getElem?_eq_getElem (by omega)⟩

/-- The base thread goes on to a statement that reads what is there. -/
theorem Sound.goto (h : Sound tid addr b n cb s) {u : Starter} (hfrom : s.starter ≠ .starting)
    (hu : u ≠ .starting) (hcalling : u ≠ .calling) (hreturned : u ≠ .returned)
    (hearly : s.starter ≠ .returned) (hmore : u = .creating → s.i < n.toNat)
    (hall : u = .initializing → s.i = n.toNat) :
    Sound tid addr b n cb { s with starter := u, started_ := true } where
  fixed := h.fixed
  started_ := iff_of_true rfl hcalling
  sane := h.sane
  returned := h.returned
  loops_ := h.loops_
  length := by
    have hlength := h.length
    rw [if_neg hfrom] at hlength
    exact hlength.trans (if_neg hu).symm
  bound := h.bound
  more := fun hm => hm.elim hmore fun hm => absurd hm hu
  none := fun hm => absurd hm hcalling
  all := fun hm => hm.elim hall fun hm => absurd hm hreturned
  initialized := fun hm => absurd hm hreturned
  early := fun _ => h.early hearly
  next_ := h.next_
  handed := h.handed

theorem Sound.within (h : Sound tid addr b n cb s) (hcalling : s.starter ≠ .calling)
    (hreturned : s.starter ≠ .returned) : s.started_ = true ∧ s.handed = [] :=
  ⟨h.started_.mpr hcalling, h.early hreturned⟩

theorem Sound.call (h : Sound tid addr b n cb s) (hst : s.starter = .calling) :
    Sound tid addr b n cb { s with started_ := true, starter := .testing } :=
  h.goto (by rw [hst]; nofun) nofun nofun nofun (by rw [hst]; nofun) nofun nofun

theorem Sound.more_threads (h : Sound tid addr b n cb s) (hst : s.starter = .testing)
    (hlt : (s.i : ℤ) < s.numThreads_) : Sound tid addr b n cb { s with starter := .creating } := by
  have hnum := h.fixed.2.1
  have hstarted := h.started_.mpr (by rw [hst]; nofun)
  have hnext := h.goto (u := .creating) (by rw [hst]; nofun) nofun nofun nofun (by rw [hst]; nofun)
    (fun _ => by omega) nofun
  rwa [← hstarted] at hnext

theorem Sound.all_threads (h : Sound tid addr b n cb s) (hst : s.starter = .testing)
    (hlt : ¬(s.i : ℤ) < s.numThreads_) :
    Sound tid addr b n cb { s with starter := .initializing } := by
  have hnum := h.fixed.2.1
  have hbound := h.bound
  have hstarted := h.started_.mpr (by rw [hst]; nofun)
  have hnext := h.goto (u := .initializing) (by rw [hst]; nofun) nofun nofun nofun
    (by rw [hst]; nofun) nofun fun _ => by omega
  rwa [← hstarted] at hnext

theorem Sound.create (h : Sound tid addr b n cb s) (hst : s.starter = .creating) :
    Sound tid addr b n cb
      { s with threads_ := s.threads_ ++ [Startup.start], starter := .starting } := by
  obtain ⟨hstarted, hearly⟩ := h.within (by rw [hst]; nofun) (by rw [hst]; nofun)
  have hlength := h.length
  rw [if_neg (by rw [hst]; nofun)] at hlength
  have hmore := h.more (Or.inl hst)
  have hnew : ∀ {j x}, (s.threads_ ++ [Startup.start])[j]? = some x →
      s.threads_[j]? = some x ∨ j = s.i ∧ x = Startup.start := by
    intro j x hj
    rw [List.getElem?_append] at hj
    split_ifs at hj with hlt
    · exact Or.inl hj
    · rw [List.getElem?_singleton] at hj
      split_ifs at hj with hzero
      exact Or.inr ⟨by omega, (Option.some.inj hj).symm⟩
  refine { h with
    started_ := iff_of_true hstarted nofun
    sane := fun j x hj => ?_, returned := fun j x hj hji => ?_, length := ?_, more := fun _ => hmore
    none := nofun, all := by nofun, initialized := nofun, early := fun _ => hearly }
  · rcases hnew hj with hj | ⟨-, rfl⟩
    · exact h.sane j x hj
    · exact .start
  · rcases hnew hj with hj | ⟨rfl, -⟩
    · exact h.returned j x hj hji
    · exact absurd hji (Nat.lt_irrefl _)
  · simp [hlength]

/-- `startLoop` of the thread has returned. -/
theorem Sound.push (h : Sound tid addr b n cb s) (hst : s.starter = .starting)
    {x : EventLoopThread α} (hx : s.threads_[s.i]? = some x) (hret : x.parent = .returned) :
    Sound tid addr b n cb { s with
      loops_ := s.loops_ ++ [x.result.join], starter := .testing, i := s.i + 1 } := by
  have hmore := h.more (Or.inr hst)
  obtain ⟨hstarted, hearly⟩ := h.within (by rw [hst]; nofun) (by rw [hst]; nofun)
  have hlength := h.length
  rw [if_pos hst] at hlength
  have hresult := (h.sane _ x hx).handshake.result hret
  refine { h with
    started_ := iff_of_true hstarted nofun
    returned := fun j y hj hji => ?_, loops_ := ?_, length := hlength, bound := hmore, more := by nofun
    none := nofun, all := by nofun, initialized := nofun, early := fun _ => hearly, next_ := ?_
    handed := ?_ }
  · rcases Nat.lt_succ_iff_lt_or_eq.mp hji with hji | rfl
    · exact h.returned j y hj hji
    · rw [hx] at hj
      exact Option.some.inj hj ▸ hret
  · rw [h.loops_, hresult, List.range_succ, List.map_append]
    rfl
  · have hnext := h.next_
    rw [hearly] at hnext ⊢
    simpa using hnext
  · rw [hearly]
    rfl

theorem Sound.initialize (h : Sound tid addr b n cb s) (hst : s.starter = .initializing) :
    Sound tid addr b n cb
      { s with starter := .returned, initialized := decide (s.numThreads_ = 0) && s.cb } := by
  obtain ⟨hstarted, hearly⟩ := h.within (by rw [hst]; nofun) (by rw [hst]; nofun)
  have hlength := h.length
  rw [if_neg (by rw [hst]; nofun)] at hlength
  have hall := h.all (Or.inl hst)
  refine { h with
    started_ := iff_of_true hstarted nofun
    length := hlength, more := by nofun, none := nofun, all := fun _ => hall
    initialized := fun _ => ?_, early := fun hm => absurd rfl hm }
  rw [Bool.and_eq_true, decide_eq_true_iff, h.fixed.2.1, h.fixed.2.2]

theorem Sound.baseStep (h : Sound tid addr b n cb s) (he : s.baseEnabled)
    (hs : s.baseStep = .ok t) : Sound tid addr b n cb t := by
  cases hst : s.starter <;> simp only [EventLoopThreadPool.baseStep, hst] at hs
  case calling =>
    split at hs
    · cases hs
    · obtain rfl := Except.ok.inj hs
      exact h.call hst
  case testing =>
    split at hs
    · rename_i hlt
      obtain rfl := Except.ok.inj hs
      exact h.more_threads hst hlt
    · rename_i hlt
      obtain rfl := Except.ok.inj hs
      exact h.all_threads hst hlt
  case creating =>
    obtain rfl := Except.ok.inj hs
    exact h.create hst
  case starting =>
    obtain ⟨x, hx⟩ := h.current hst
    simp only [hx] at hs
    split at hs
    · rename_i hret
      obtain rfl := Except.ok.inj hs
      exact h.push hst hx hret
    · rename_i hret
      obtain ⟨y, hy, hs⟩ := bind_eq_ok.mp hs
      obtain rfl := Except.ok.inj hs
      rw [mapError_eq_ok] at hy
      simp only [baseEnabled, hst] at he
      have hset := h.set ((h.sane _ x hx).parent (he x hx hret) hy) fun hi =>
        absurd hi (Nat.lt_irrefl _)
      simpa only [hst] using hset
  case initializing =>
    obtain rfl := Except.ok.inj hs
    exact h.initialize hst
  case returned =>
    obtain rfl := Except.ok.inj hs
    exact h

theorem Sound.getNextLoop (h : Sound tid addr b n cb s) (hst : s.starter = .returned) :
    s.getNextLoop = .ok (turn b addr s.i s.handed.length,
      if s.i = 0 then 0 else (s.handed.length + 1) % s.i) := by
  have hstarted : s.started_ = true := h.started_.mpr (by rw [hst]; nofun)
  have hlength : s.loops_.length = s.i := by rw [h.loops_]; simp
  unfold EventLoopThreadPool.getNextLoop turn
  rw [if_neg (by rw [hstarted]; decide), h.next_, h.fixed.1]
  by_cases hi : s.i = 0
  · rw [if_pos (List.length_eq_zero_iff.mp (hlength.trans hi)), if_pos hi, if_pos hi, if_pos hi]
  · have hlt : s.handed.length % s.i < s.i := Nat.mod_lt _ (Nat.pos_of_ne_zero hi)
    rw [if_neg (fun h0 => hi (hlength ▸ List.length_eq_zero_iff.mpr h0)), if_neg hi, if_neg hi,
      if_neg hi, hlength, Nat.mod_add_mod, h.loops_, List.getElem?_map, List.getElem?_range hlt]
    rfl

theorem Sound.next (h : Sound tid addr b n cb s) (hst : s.starter = .returned)
    (hs : (poolMachine tid addr).step s .next = .ok t) : Sound tid addr b n cb t := by
  obtain ⟨⟨loop, next⟩, hget, hs⟩ := bind_eq_ok.mp hs
  obtain rfl := Except.ok.inj hs
  rw [h.getNextLoop hst] at hget
  obtain ⟨rfl, rfl⟩ := Prod.mk.inj (Except.ok.inj hget)
  refine { h with early := fun hm => absurd hst hm, next_ := ?_, handed := ?_ }
  · simp
  · rw [List.length_append, List.length_singleton, List.range_succ, List.map_append]
    exact congrArg (· ++ _) h.handed

/-- **One step.** -/
theorem Sound.step (h : Sound tid addr b n cb s) (he : (poolMachine tid addr).enabled s a)
    (hl : Later s a) (hs : (poolMachine tid addr).step s a = .ok t) : Sound tid addr b n cb t := by
  cases a with
  | base => exact h.baseStep he hs
  | next => exact h.next hl hs
  | thread j c => exact h.threadStep he hl hs

theorem Sound.returns (h : Sound tid addr b n cb s) (he : (poolMachine tid addr).enabled s a)
    (hl : Later s a) : ∃ t, (poolMachine tid addr).step s a = .ok t := by
  cases a with
  | base =>
    show ∃ t, s.baseStep = .ok t
    cases hst : s.starter <;> simp only [EventLoopThreadPool.baseStep, hst]
    case calling =>
      have hstarted : ¬s.started_ = true := fun hs => h.started_.mp hs hst
      exact ⟨_, if_neg hstarted⟩
    case testing => split <;> exact ⟨_, rfl⟩
    case starting =>
      obtain ⟨x, hx⟩ := h.current hst
      simp only [hx]
      split
      · exact ⟨_, rfl⟩
      · rename_i hret
        simp only [poolMachine, baseEnabled, hst] at he
        obtain ⟨y, hy⟩ := (h.sane _ x hx).returns (a := .parent) (he x hx hret)
        exact ⟨_, bind_eq_ok.mpr ⟨y, mapError_eq_ok.mpr hy, rfl⟩⟩
    all_goals exact ⟨_, rfl⟩
  | next => exact ⟨_, bind_eq_ok.mpr ⟨_, h.getNextLoop hl, rfl⟩⟩
  | thread j c =>
    obtain ⟨-, x, hx, hex⟩ := he
    obtain ⟨y, hy⟩ := (h.sane j x hx).returns hex
    show ∃ t, s.threadStep tid addr j c = .ok t
    simp only [EventLoopThreadPool.threadStep, hx]
    exact ⟨_, bind_eq_ok.mpr ⟨y, mapError_eq_ok.mpr hy, rfl⟩⟩

theorem sound_run (h : Run (restrict (poolMachine tid addr) Later) (.new b n cb) as s) :
    Sound tid addr b n cb s := by
  refine h.invariant (I := Sound tid addr b n cb) ?_ .new
  intro s a t hs he hstep
  exact hs.step he.1 he.2 hstep

/-- **What the pool is for.** -/
structure InTurn (tid : ℕ → ℕ+) (addr : ℕ → α) (b : α) (n : ℤ) (cb : Bool)
    (s : EventLoopThreadPool α) : Prop where
  handshake : ∀ j x, s.threads_[j]? = some x → Handshake (tid j) (addr j) x
  /-- a thread is created when `startLoop` of the one before has returned -/
  inTurn : ∀ (j k : ℕ) (x y : EventLoopThread α), j < k → s.threads_[j]? = some x → s.threads_[k]? = some y →
    x.parent = .returned
  /-- the loops are those of the threads, in order, and ready -/
  loops_ : ∀ j l, s.loops_[j]? = some l → l = some (addr j) ∧
    ∃ x, s.threads_[j]? = some x ∧ x.initialized = true
  all : s.starter = .returned → s.loops_.length = n.toNat ∧
    (s.initialized = true ↔ n = 0 ∧ cb = true)
  handed : ∀ c l, s.handed[c]? = some l → l = turn b addr n.toNat c

theorem Sound.inTurn (h : Sound tid addr b n cb s) : InTurn tid addr b n cb s where
  handshake := fun j x hx => (h.sane j x hx).handshake
  inTurn := by
    intro j k x y hjk hx hy
    have hk := (List.getElem?_eq_some_iff.mp hy).1
    rw [h.length] at hk
    exact h.returned j x hx (by split_ifs at hk <;> omega)
  loops_ := by
    intro j l hl
    rw [h.loops_, List.getElem?_map] at hl
    obtain ⟨k, hk, rfl⟩ := Option.map_eq_some_iff.mp hl
    obtain ⟨hj, rfl⟩ := List.getElem?_eq_some_iff.mp hk
    rw [List.length_range] at hj
    have hlt : j < s.threads_.length := by
      rw [h.length]
      split_ifs <;> omega
    have hx := List.getElem?_eq_getElem hlt
    have hsane := h.sane j _ hx
    have hret := h.returned j _ hx hj
    have hpublished := hsane.together.published (by rw [hret]; decide)
    refine ⟨by rw [List.getElem_range], _, hx, hsane.written.initialized.mpr (by omega)⟩
  all := by
    intro hst
    refine ⟨?_, h.initialized hst⟩
    rw [h.loops_, List.length_map, List.length_range]
    exact h.all (Or.inr hst)
  handed := by
    intro c l hl
    by_cases hst : s.starter = .returned
    · rw [h.handed, List.getElem?_map] at hl
      obtain ⟨k, hk, rfl⟩ := Option.map_eq_some_iff.mp hl
      obtain ⟨hc, rfl⟩ := List.getElem?_eq_some_iff.mp hk
      rw [List.getElem_range, h.all (Or.inr hst)]
    · rw [h.early hst] at hl
      cases hl

/-- **The pool is started in turn.**  In every interleaving of the base loop with the threads, whatever
threads wake up for no reason and whoever quits a loop behind its `startLoop`, no step fails. -/
theorem pool_started (h : Run (restrict (poolMachine tid addr) Later) (.new b n cb) as s) :
    InTurn tid addr b n cb s ∧
      ∀ a, (restrict (poolMachine tid addr) Later).enabled s a →
        ∃ t, (poolMachine tid addr).step s a = .ok t :=
  ⟨(sound_run h).inTurn, fun _ he => (sound_run h).returns he.1 he.2⟩

/-! ### What is still to come -/

/-- What a wait adds: a parent that has been notified tests once more. -/
def waitWeight (x : EventLoopThread α) : ℕ :=
  match x.parent with
  | .latchTesting | .testing => 1
  | .latchWaiting => if x.latch.blocked .parent = none then 2 else 0
  | .waiting => if x.mutex.blocked .parent = none then 2 else 0
  | _ => 0

/-- The statements still to come in one thread and in its `startLoop`; the child notifies each time it
goes on at most. -/
def threadWeight (x : EventLoopThread α) : ℕ :=
  5 * (10 - x.parent.rank) + waitWeight x + 3 * (18 - x.child.rank)

def starterWeight : Starter → ℕ
  | .calling => 114
  | .testing => 113
  | .creating => 112
  | .starting => 4
  | .initializing => 2
  | .returned => 0

/-- And those in the pool. -/
def poolWeight (n : ℤ) (s : EventLoopThreadPool α) : ℕ :=
  200 * (n.toNat - s.i) + starterWeight s.starter + (s.threads_.map threadWeight).sum

theorem waitWeight_le (x : EventLoopThread α) : waitWeight x ≤ 2 := by
  unfold waitWeight
  split
  all_goals first | omega | split_ifs <;> omega

theorem Child.rank_le (c : Child) : c.rank ≤ 18 := by
  cases c <;> decide

variable {i : ℕ+} {l : α} {x y : EventLoopThread α}

theorem childStep_lowers (hs : ChildStep x y) : threadWeight y < threadWeight x := by
  have hx := waitWeight_le y
  have hy := Child.rank_le y.child
  have hrank := hs.rank
  unfold threadWeight
  rw [hs.parent]
  omega

theorem parentStep_lowers (h : Sane i l x) (he : parentEnabled x) (hs : parentStep x = .ok y) :
    threadWeight y < threadWeight x := by
  have habsent := h.absent
  cases hp : x.parent <;> simp only [parentStep, parentEnabled, hp] at hs he
  case creating =>
    obtain rfl := Except.ok.inj hs
    simp [threadWeight, waitWeight, hp, habsent hp, Parent.rank, Child.rank]
  case calling | asserting =>
    obtain ⟨-, -, hs⟩ := bind_eq_ok.mp hs
    obtain rfl := Except.ok.inj hs
    simp [threadWeight, waitWeight, hp, Parent.rank]
  case latchTesting | testing =>
    split at hs
    all_goals
      obtain rfl := Except.ok.inj hs
      simp [threadWeight, waitWeight, hp, Parent.rank]
  case latchWaiting | waiting =>
    obtain rfl := Except.ok.inj hs
    simp [threadWeight, waitWeight, hp, Parent.rank, he.1]
  all_goals
    obtain rfl := Except.ok.inj hs
    simp [threadWeight, waitWeight, hp, Parent.rank]

theorem notify_childStep {w : Option Party} (hc : x.child = .notifying) :
    ChildStep x { x with child := .unlocking, mutex := x.mutex.notify w } := by
  constructor <;> simp [hc, Child.rank]

theorem sum_set_lt {β : Type} {f : β → ℕ} {u v : β} {us : List β} {j : ℕ} (hj : us[j]? = some u)
    (hlt : f v < f u) : ((us.set j v).map f).sum < (us.map f).sum := by
  induction us generalizing j with
  | nil => cases hj
  | cons w us ih =>
    cases j with
    | zero =>
      obtain rfl := Option.some.inj hj
      simpa using hlt
    | succ j => simpa using ih hj

theorem baseStep_lowers (h : Sound tid addr b n cb s) (he : s.baseEnabled)
    (hs : s.baseStep = .ok t) : poolWeight n t < poolWeight n s := by
  have hmore := h.more
  cases hst : s.starter <;> simp only [EventLoopThreadPool.baseStep, hst] at hs
  case calling =>
    split at hs
    · cases hs
    · obtain rfl := Except.ok.inj hs
      simp [poolWeight, starterWeight, hst]
  case testing =>
    split at hs
    all_goals
      obtain rfl := Except.ok.inj hs
      simp [poolWeight, starterWeight, hst]
  case creating =>
    obtain rfl := Except.ok.inj hs
    have hfresh : threadWeight (Startup.start : EventLoopThread α) = 104 := rfl
    simp only [poolWeight, starterWeight, hst, List.map_append, List.sum_append, List.map_cons,
      List.map_nil, List.sum_cons, List.sum_nil, hfresh]
    omega
  case starting =>
    obtain ⟨x, hx⟩ := h.current hst
    have hlt := hmore (Or.inr hst)
    simp only [hx] at hs
    split at hs
    · obtain rfl := Except.ok.inj hs
      simp only [poolWeight, starterWeight, hst]
      omega
    · rename_i hret
      obtain ⟨y, hy, hs⟩ := bind_eq_ok.mp hs
      obtain rfl := Except.ok.inj hs
      rw [mapError_eq_ok] at hy
      simp only [baseEnabled, hst] at he
      have hsum := sum_set_lt hx (parentStep_lowers (h.sane _ x hx) (he x hx hret) hy)
      simp only [poolWeight, hst]
      omega
  case initializing =>
    obtain rfl := Except.ok.inj hs
    simp [poolWeight, starterWeight, hst]
  case returned =>
    simp only [baseEnabled, hst] at he

/-- **Each step is one fewer to come.** -/
theorem step_lowers (h : Sound tid addr b n cb s) (he : (poolMachine tid addr).enabled s a)
    (hc : Calm a) (hs : (poolMachine tid addr).step s a = .ok t) : poolWeight n t < poolWeight n s := by
  cases a with
  | next => exact hc.elim
  | thread j c =>
    obtain ⟨hparent, x, hx, hex⟩ := he
    have hs' : s.threadStep tid addr j c = .ok t := hs
    simp only [EventLoopThreadPool.threadStep, hx] at hs'
    obtain ⟨y, hy, hs'⟩ := bind_eq_ok.mp hs'
    obtain rfl := Except.ok.inj hs'
    rw [mapError_eq_ok] at hy
    have hstep : ChildStep x y := by
      rcases hc with rfl | ⟨w, rfl⟩
      · exact childStep_spec hy hex
      · obtain rfl := Except.ok.inj hy
        exact notify_childStep hex.1
    have hsum := sum_set_lt hx (childStep_lowers hstep)
    simp only [poolWeight]
    omega
  | base => exact baseStep_lowers h he hs

/-! ### There is a step to take -/

/-- The parent or the child can go on. -/
def Movable (x : EventLoopThread α) : Prop :=
  parentEnabled x ∨ childEnabled x ∨ ∃ w, x.child = .notifying ∧ x.mutex.Notifies () w

theorem notifying_movable (h : Sane i l x) (hc : x.child = .notifying) : Movable x := by
  refine Or.inr (Or.inr ?_)
  cases hb : x.mutex.blocked .parent with
  | some u => exact ⟨some .parent, hc, hb⟩
  | none =>
    refine ⟨none, hc, fun p hp => ?_⟩
    cases p with
    | parent =>
      rw [hb] at hp
      cases hp
    | child =>
      have hplace := h.loop.waiting .child hp
      simp [loopGate, hc, Child.loopPlace] at hplace

/-- Who is inside the latch goes on. -/
theorem latch_movable (h : Sane i l x) {p : Party} (ho : x.latch.owner = some p) : Movable x := by
  have hinside := (h.latch.owner p).mpr ho
  cases p with
  | parent =>
    refine Or.inl ?_
    cases hp : x.parent <;> simp [latchGate, hp, Parent.latchPlace, Place.inside] at hinside
    all_goals simp [parentEnabled, hp]
  | child =>
    refine Or.inr (Or.inl ?_)
    cases hc : x.child <;> simp [latchGate, hc, Child.latchPlace, Place.inside] at hinside
    all_goals simp [childEnabled, hc]

/-- And who is inside the mutex of `loop_`. -/
theorem mutex_movable (h : Sane i l x) {p : Party} (ho : x.mutex.owner = some p) : Movable x := by
  have hinside := (h.loop.owner p).mpr ho
  cases p with
  | parent =>
    refine Or.inl ?_
    cases hp : x.parent <;> simp [loopGate, hp, Parent.loopPlace, Place.inside] at hinside
    all_goals simp [parentEnabled, hp]
  | child =>
    cases hc : x.child <;> simp [loopGate, hc, Child.loopPlace, Place.inside] at hinside
    case notifying => exact notifying_movable h hc
    all_goals exact Or.inr (Or.inl (by simp [childEnabled, hc]))

/-- The child is in `loop`, or has ended. -/
def Settled (x : EventLoopThread α) : Prop := x.child = .looping ∨ x.child = .ended

/-- A child that is not in its loop yet goes on, or whoever is inside the mutex it needs. -/
theorem child_movable (h : Sane i l x) (hc : ¬Settled x) (habsent : x.child ≠ .absent) :
    Movable x := by
  cases hchild : x.child
  case absent => exact absurd hchild habsent
  case looping => exact absurd (Or.inl hchild) hc
  case ended => exact absurd (Or.inr hchild) hc
  case notifying => exact notifying_movable h hchild
  case latchLocking =>
    cases ho : x.latch.owner with
    | none => exact Or.inr (Or.inl (by simp [childEnabled, hchild, ho]))
    | some p => exact latch_movable h ho
  case locking =>
    cases ho : x.mutex.owner with
    | none => exact Or.inr (Or.inl (by simp [childEnabled, hchild, ho]))
    | some p => exact mutex_movable h ho
  all_goals exact Or.inr (Or.inl (by simp [childEnabled, hchild]))

/-- A parent whose child is in its loop goes on: what it has waited for has come, and it has been
notified of it. -/
theorem parent_movable (h : Sane i l x) (hc : x.child = .looping) (hret : x.parent ≠ .returned) :
    Movable x := by
  have hrank : x.child.rank = 15 := by
    rw [hc]
    rfl
  cases hp : x.parent
  case returned => exact absurd hp hret
  case latchLocking =>
    cases ho : x.latch.owner with
    | none => exact Or.inl (by simp [parentEnabled, hp, ho])
    | some p => exact latch_movable h ho
  case locking =>
    cases ho : x.mutex.owner with
    | none => exact Or.inl (by simp [parentEnabled, hp, ho])
    | some p => exact mutex_movable h ho
  case latchWaiting =>
    cases ho : x.latch.owner with
    | some p => exact latch_movable h ho
    | none =>
      cases hb : x.latch.blocked .parent with
      | none => exact Or.inl (by simp [parentEnabled, hp, ho, hb])
      | some u =>
        have hcount : x.count_ ≤ 0 := by
          rw [h.written.count_, if_neg (by omega)]
        obtain ⟨p, howner, -⟩ := h.latch.not_lost (by simpa [latchGate] using hcount) hb
        exact latch_movable h howner
  case waiting =>
    cases ho : x.mutex.owner with
    | some p => exact mutex_movable h ho
    | none =>
      cases hb : x.mutex.blocked .parent with
      | none => exact Or.inl (by simp [parentEnabled, hp, ho, hb])
      | some u =>
        have hloop : x.loop_.isSome = true := by
          rw [h.written.loop_, if_pos (by omega)]
          rfl
        obtain ⟨p, howner, -⟩ := h.loop.not_lost (by simpa [loopGate] using hloop) hb
        exact mutex_movable h howner
  all_goals exact Or.inl (by simp [parentEnabled, hp])

/-- **A handshake gets on** until the parent has returned and the child is in its loop. -/
theorem movable (h : Sane i l x) (hx : x.parent ≠ .returned ∨ ¬Settled x) : Movable x := by
  by_cases hset : Settled x
  · have hret := hx.resolve_right (fun hn => hn hset)
    rcases hset with hc | hc
    · exact parent_movable h hc hret
    · exact absurd (eq_returned (h.together.quit_ (Or.inr (by rw [hc]; decide)))) hret
  · by_cases habsent : x.child = .absent
    · have hrank := h.together.absent.mp (by rw [habsent]; rfl)
      refine Or.inl ?_
      cases hp : x.parent <;> simp [hp, Parent.rank] at hrank
      all_goals simp [parentEnabled, hp]
    · exact child_movable h hset habsent

/-- **Where it ends**: `start` has returned the loops of all the threads, and these are in their loops, or
have been told to quit there. -/
structure Started (addr : ℕ → α) (n : ℤ) (s : EventLoopThreadPool α) : Prop where
  returned : s.starter = .returned
  loops_ : s.loops_ = (List.range n.toNat).map fun j => some (addr j)
  settled : ∀ x ∈ s.threads_, Settled x

/-- The machine without wake-ups for no reason. -/
def calmMachine (tid : ℕ → ℕ+) (addr : ℕ → α) : Machine (EventLoopThreadPool α) Act Failure :=
  restrict (poolMachine tid addr) fun _ a => Calm a

theorem later_of_calm (hc : Calm a) : Later s a := by
  cases a with
  | base => trivial
  | next => exact hc.elim
  | thread j c =>
    intro x _ hq
    rcases hc with rfl | ⟨w, rfl⟩ <;> cases hq

/-- The step of a thread, or of the base loop inside its `startLoop`. -/
theorem exists_of_movable {j : ℕ} (hx : s.threads_[j]? = some x) (hm : Movable x)
    (hparent : parentEnabled x → (poolMachine tid addr).enabled s .base) :
    ∃ a, (calmMachine tid addr).enabled s a := by
  rcases hm with hp | hc | ⟨w, hc, hw⟩
  · exact ⟨.base, hparent hp, trivial⟩
  · exact ⟨.thread j .child, ⟨nofun, x, hx, hc⟩, Or.inl rfl⟩
  · exact ⟨.thread j (.notify w), ⟨nofun, x, hx, hc, hw⟩, Or.inr ⟨w, rfl⟩⟩

theorem started_or_moves (h : Sound tid addr b n cb s) :
    Started addr n s ∨ Moves (calmMachine tid addr) s := by
  have hreturns : ∀ a, (calmMachine tid addr).enabled s a →
      ∃ t, (calmMachine tid addr).step s a = .ok t := fun a he => h.returns he.1 (later_of_calm he.2)
  suffices hmove : Started addr n s ∨ ∃ a, (calmMachine tid addr).enabled s a from
    hmove.imp id fun hm => ⟨hm, hreturns⟩
  cases hst : s.starter
  case starting =>
    obtain ⟨x, hx⟩ := h.current hst
    refine Or.inr ?_
    by_cases hret : x.parent = .returned
    · refine ⟨.base, ?_, trivial⟩
      simp only [poolMachine, baseEnabled, hst]
      intro y hy hn
      rw [hx] at hy
      exact absurd (Option.some.inj hy ▸ hret) hn
    · refine exists_of_movable hx (movable (h.sane _ x hx) (Or.inl hret)) fun hp => ?_
      simp only [poolMachine, baseEnabled, hst]
      intro y hy _
      rw [hx] at hy
      exact Option.some.inj hy ▸ hp
  case returned =>
    have hlength := h.length
    rw [if_neg (by rw [hst]; nofun)] at hlength
    by_cases hall : ∀ x ∈ s.threads_, Settled x
    · exact Or.inl ⟨hst, h.all (Or.inr hst) ▸ h.loops_, hall⟩
    · push Not at hall
      obtain ⟨x, hmem, hx⟩ := hall
      obtain ⟨j, hj, rfl⟩ := List.getElem_of_mem hmem
      have hget := List.getElem?_eq_getElem hj
      have hret := h.returned j _ hget (by omega)
      refine Or.inr (exists_of_movable hget (movable (h.sane j _ hget) (Or.inr hx)) fun hp => ?_)
      rw [parentEnabled, hret] at hp
      exact hp.elim
  all_goals exact Or.inr ⟨.base, by simp [poolMachine, baseEnabled, hst], trivial⟩

theorem completes_of_sound (h : Sound tid addr b n cb s) :
    Completes (calmMachine tid addr) (Started addr n) s := by
  refine completes_of_measure (poolWeight n) ?_ (fun _ => started_or_moves) h
  intro s a t hs he hstep
  exact ⟨hs.step he.1 (later_of_calm he.2) hstep, step_lowers hs he.1 he.2 hstep⟩

/-- **The pool comes up.**  From every state that can be reached, whatever threads have been woken for no
reason by then, `start` returns and the threads get into their loops, whatever the order of the steps. -/
theorem start_completes (h : Run (restrict (poolMachine tid addr) Later) (.new b n cb) as s) :
    Completes (calmMachine tid addr) (Started addr n) s :=
  completes_of_sound (sound_run h)

/-- The ids of the threads, and the addresses of their loops beside the base loop `0`. -/
def ids (j : ℕ) : ℕ+ := ⟨j + 1, Nat.succ_pos j⟩
def places (j : ℕ) : ℕ := 10 * (j + 1)

theorem pool_started_three : ∃ as s, Run (restrict (poolMachine ids places) Later) (.new 0 3 true) as s ∧
    s.loops_ = [some 10, some 20, some 30] ∧ InTurn ids places 0 3 true s := by
  have hsound : Sound ids places 0 3 true (.new 0 3 true) := .new
  obtain ⟨as, s, hrun, hstarted⟩ := (completes_of_sound hsound).exists_run
  have hlater : Run (restrict (poolMachine ids places) Later) (.new 0 3 true) as s :=
    hrun.weaken fun _ _ => later_of_calm
  exact ⟨as, s, hlater, hstarted.loops_, (pool_started hlater).1⟩

theorem start_completes_three :
    Completes (calmMachine ids places) (Started places 3) (.new 0 3 true) :=
  start_completes (b := 0) (n := 3) (.nil _)

end ReactorServer.Net.LoopPool
