import ReactorServer.Cpp
import ReactorServer.Lib.Monitors
import Mathlib.Data.PNat.Basic

/-!
# Starting a loop thread

`startLoop` starts the thread and waits twice: in `Thread::start` for the latch that the child counts
down when it has written its id, and then for `loop_`, which the child publishes when it has
constructed its `EventLoop` and called `threadCB_`.  A step is one statement of one of the two, with
the mutex of the latch and that of the `EventLoopThread` each a monitor.  `pthread_create` succeeds.

Each of the two waits passes through a gate (`latchGate`, `loopGate`), which is sound whatever the two
do; what the parent finds behind it follows from where the child is then.
-/

namespace ReactorServer.Net.Startup

open ReactorServer.Cpp ReactorServer.Lib.Runs ReactorServer.Lib.Monitors

/-! ### The model -/

/-- The next statement of the parent. -/
inductive Parent
  /-- the call of `startLoop`, up to `started_ = true` -/
  | calling
  /-- `pthread_create` -/
  | creating
  /-- `MutexLockGuard lock(mutex_)` of `latch_.wait()` -/
  | latchLocking
  /-- `while (count_ > 0)` -/
  | latchTesting
  /-- the return of `cond_.wait()` -/
  | latchWaiting
  /-- the end of `latch_.wait()` -/
  | latchUnlocking
  /-- `assert(tid_ > 0)`, the end of `Thread::start` -/
  | asserting
  /-- `MutexLockGuard lock(mutex_)` -/
  | locking
  /-- `while (loop_ == nullptr)` -/
  | testing
  /-- the return of `cond_.wait()` -/
  | waiting
  /-- the end of the guarded block -/
  | unlocking
  /-- `return loop_` -/
  | returning
  /-- nothing, behind `startLoop` -/
  | returned
  deriving DecidableEq, Repr

/-- The next statement of the child. -/
inductive Child
  /-- nothing: there is no thread yet -/
  | absent
  /-- `*tid_ = gettid` -/
  | writing
  /-- `tid_ = NULL` -/
  | clearingTid
  /-- `MutexLockGuard lock(mutex_)` of `latch_->countDown()` -/
  | latchLocking
  /-- `--count_` -/
  | counting
  /-- `if (count_ == 0) cond_.notifyAll()` -/
  | latchNotifying
  /-- the end of `countDown` -/
  | latchUnlocking
  /-- `latch_ = NULL` -/
  | clearingLatch
  /-- `EventLoop loop` -/
  | constructing
  /-- `threadCB_(&loop)` -/
  | initializing
  /-- `MutexLockGuard lock(mutex_)` -/
  | locking
  /-- `loop_ = &loop` -/
  | publishing
  /-- `cond_.notify()` -/
  | notifying
  /-- the end of the guarded block -/
  | unlocking
  /-- `loop_->loop()`, up to `quit_ = false` -/
  | entering
  /-- the return of `loop`, when `quit_` is set -/
  | looping
  /-- `loop_ = nullptr` -/
  | forgetting
  /-- `~EventLoop` -/
  | destroying
  /-- nothing: the thread has ended -/
  | ended
  deriving DecidableEq, Repr

inductive Party
  | parent
  | child
  deriving DecidableEq, Repr

/-- The pointers of the `ThreadData`, by whether they are set. -/
structure ThreadData where
  tid_ : Bool
  latch_ : Bool
  deriving DecidableEq, Repr

/-- The `EventLoopThread` with its `Thread` and the child's `EventLoop`.  `constructed` is whether
there is an `EventLoop`, `initialized` whether `threadCB_` has returned, and `result` what `startLoop`
has returned; `α` are the addresses. -/
structure EventLoopThread (α : Type) where
  parent : Parent
  child : Child
  started_ : Bool
  tid_ : ℤ
  data : ThreadData
  latch : Monitor Party Unit
  count_ : ℤ
  mutex : Monitor Party Unit
  loop_ : Option α
  constructed : Bool
  initialized : Bool
  quit_ : Bool
  result : Option (Option α)

inductive Act
  /-- the parent's next statement -/
  | parent
  /-- the child's next statement, but for `cond_.notify()` -/
  | child
  /-- the child's `cond_.notify()`, which wakes `w` -/
  | notify (w : Option Party)
  /-- a party blocked in `latch_.wait()` wakes up for no reason -/
  | wakeLatch (p : Party)
  /-- a party blocked on `cond_` wakes up for no reason -/
  | wakeCond (p : Party)
  /-- anybody calls `quit` of the `EventLoop` -/
  | quit
  deriving DecidableEq, Repr

variable {α : Type}

/-- The parent's next statement can be executed. -/
def parentEnabled (s : EventLoopThread α) : Prop :=
  match s.parent with
  | .latchLocking => s.latch.owner = none
  | .latchWaiting => s.latch.blocked .parent = none ∧ s.latch.owner = none
  | .locking => s.mutex.owner = none
  | .waiting => s.mutex.blocked .parent = none ∧ s.mutex.owner = none
  | .returned => False
  | _ => True

/-- The child's next statement can be executed. -/
def childEnabled (s : EventLoopThread α) : Prop :=
  match s.child with
  | .absent | .notifying | .ended => False
  | .latchLocking => s.latch.owner = none
  | .locking => s.mutex.owner = none
  | .looping => s.quit_ = true
  | _ => True

def parentStep (s : EventLoopThread α) : Except Fault (EventLoopThread α) :=
  match s.parent with
  | .calling => do
    assert .startLoop (s.started_ = false)
    pure { s with parent := .creating, started_ := true }
  | .creating => pure { s with parent := .latchLocking, child := .writing, data := ⟨true, true⟩ }
  | .latchLocking => pure { s with parent := .latchTesting, latch := s.latch.lock .parent }
  | .latchTesting =>
    if 0 < s.count_ then
      pure { s with parent := .latchWaiting, latch := s.latch.wait .parent () }
    else pure { s with parent := .latchUnlocking }
  | .latchWaiting => pure { s with parent := .latchTesting, latch := s.latch.lock .parent }
  | .latchUnlocking => pure { s with parent := .asserting, latch := s.latch.unlock }
  | .asserting => do
    assert .threadStart (0 < s.tid_)
    pure { s with parent := .locking }
  | .locking => pure { s with parent := .testing, mutex := s.mutex.lock .parent }
  | .testing =>
    if s.loop_.isSome = true then pure { s with parent := .unlocking }
    else pure { s with parent := .waiting, mutex := s.mutex.wait .parent () }
  | .waiting => pure { s with parent := .testing, mutex := s.mutex.lock .parent }
  | .unlocking => pure { s with parent := .returning, mutex := s.mutex.unlock }
  | .returning => pure { s with parent := .returned, result := some s.loop_ }
  | .returned => pure s

/-- `tid` is what `gettid` returns, `addr` the address of the child's `EventLoop`. -/
def childStep (tid : ℕ+) (addr : α) (s : EventLoopThread α) : Except Fault (EventLoopThread α) :=
  match s.child with
  | .absent | .notifying | .ended => pure s
  | .writing =>
    if s.data.tid_ = true then pure { s with child := .clearingTid, tid_ := tid }
    else throw .outOfBounds
  | .clearingTid => pure { s with child := .latchLocking, data := { s.data with tid_ := false } }
  | .latchLocking =>
    if s.data.latch_ = true then
      pure { s with child := .counting, latch := s.latch.lock .child }
    else throw .outOfBounds
  | .counting => pure { s with child := .latchNotifying, count_ := s.count_ - 1 }
  | .latchNotifying =>
    if s.count_ = 0 then
      pure { s with child := .latchUnlocking, latch := s.latch.notifyAll () }
    else pure { s with child := .latchUnlocking }
  | .latchUnlocking => pure { s with child := .clearingLatch, latch := s.latch.unlock }
  | .clearingLatch => pure { s with child := .constructing, data := { s.data with latch_ := false } }
  | .constructing => pure { s with child := .initializing, constructed := true }
  | .initializing => pure { s with child := .locking, initialized := true }
  | .locking => pure { s with child := .publishing, mutex := s.mutex.lock .child }
  | .publishing => pure { s with child := .notifying, loop_ := some addr }
  | .unlocking => pure { s with child := .entering, mutex := s.mutex.unlock }
  | .entering => pure { s with child := .looping, quit_ := false }
  | .looping => pure { s with child := .forgetting }
  | .forgetting => pure { s with child := .destroying, loop_ := none }
  | .destroying => pure { s with child := .ended, constructed := false }

/-- The two threads, and whoever calls `quit`. -/
def machine (tid : ℕ+) (addr : α) : Machine (EventLoopThread α) Act Fault where
  enabled s
    | .parent => parentEnabled s
    | .child => childEnabled s
    | .notify w => s.child = .notifying ∧ s.mutex.Notifies () w
    | .wakeLatch p => s.latch.blocked p = some ()
    | .wakeCond p => s.mutex.blocked p = some ()
    | .quit => s.constructed = true
  step s
    | .parent => parentStep s
    | .child => childStep tid addr s
    | .notify w => .ok { s with child := .unlocking, mutex := s.mutex.notify w }
    | .wakeLatch p => .ok { s with latch := s.latch.wake p }
    | .wakeCond p => .ok { s with mutex := s.mutex.wake p }
    | .quit => .ok { s with quit_ := true }

/-- A new `EventLoopThread`, with a new latch of one. -/
def start : EventLoopThread α where
  parent := .calling
  child := .absent
  started_ := false
  tid_ := 0
  data := ⟨false, false⟩
  latch := .fresh
  count_ := 1
  mutex := .fresh
  loop_ := none
  constructed := false
  initialized := false
  quit_ := false
  result := none

/-- Nobody calls `quit` before `startLoop` has returned. -/
def NoEarlyQuit (s : EventLoopThread α) (a : Act) : Prop := a = .quit → s.parent = .returned

/-- The place of a statement among the child's. -/
def Child.rank : Child → ℕ
  | .absent => 0
  | .writing => 1
  | .clearingTid => 2
  | .latchLocking => 3
  | .counting => 4
  | .latchNotifying => 5
  | .latchUnlocking => 6
  | .clearingLatch => 7
  | .constructing => 8
  | .initializing => 9
  | .locking => 10
  | .publishing => 11
  | .notifying => 12
  | .unlocking => 13
  | .entering => 14
  | .looping => 15
  | .forgetting => 16
  | .destroying => 17
  | .ended => 18

/-- The place of a statement among the parent's, where a wait counts as the test it returns to. -/
def Parent.rank : Parent → ℕ
  | .calling => 0
  | .creating => 1
  | .latchLocking => 2
  | .latchTesting | .latchWaiting => 3
  | .latchUnlocking => 4
  | .asserting => 5
  | .locking => 6
  | .testing | .waiting => 7
  | .unlocking => 8
  | .returning => 9
  | .returned => 10

/-! ### The two gates -/

/-- Where the parent stands with the latch. -/
def Parent.latchPlace : Parent → Place
  | .latchTesting => .testing
  | .latchWaiting => .waiting
  | .latchUnlocking => .leaving
  | _ => .away

def Child.latchPlace : Child → Place
  | .counting => .opening
  | .latchNotifying => .announcing
  | .latchUnlocking => .leaving
  | _ => .away

/-- Where the parent stands with `loop_`. -/
def Parent.loopPlace : Parent → Place
  | .testing => .testing
  | .waiting => .waiting
  | .unlocking => .leaving
  | _ => .away

def Child.loopPlace : Child → Place
  | .publishing => .opening
  | .notifying => .announcing
  | .unlocking => .leaving
  | _ => .away

/-- The latch is a gate that `count_` opens. -/
def latchGate (s : EventLoopThread α) : Gate Party where
  monitor := s.latch
  isOpen := s.count_ ≤ 0
  place
    | .parent => s.parent.latchPlace
    | .child => s.child.latchPlace

/-- `mutex_` and `cond_` are one that `loop_` opens. -/
def loopGate (s : EventLoopThread α) : Gate Party where
  monitor := s.mutex
  isOpen := s.loop_.isSome
  place
    | .parent => s.parent.loopPlace
    | .child => s.child.loopPlace

theorem gate_ext {g g' : Gate Party} (hm : g.monitor = g'.monitor) (ho : g.isOpen = g'.isOpen)
    (hp : g.place .parent = g'.place .parent) (hc : g.place .child = g'.place .child) : g = g' := by
  have hplace : g.place = g'.place := by
    funext p
    cases p
    · exact hp
    · exact hc
  cases g
  cases g'
  cases hm
  cases ho
  cases hplace
  rfl

variable {tid : ℕ+} {addr : α} {s t : EventLoopThread α} {a : Act} {as : List Act}

theorem steps_of_eq {g k h : Gate Party} {b : Gate.Act Party} (he : gateMachine.enabled g b)
    (hs : gateMachine.step g b = .ok h) (hm : h.monitor = k.monitor) (ho : h.isOpen = k.isOpen)
    (hp : h.place .parent = k.place .parent) (hc : h.place .child = k.place .child) :
    g.Steps k := by
  rw [gate_ext hm ho hp hc] at hs
  exact Or.inr ⟨b, he, hs⟩

/-- **The parent's statements are steps at the latch**, or none. -/
theorem parent_latch (hs : parentStep s = .ok t) (he : parentEnabled s)
    (habsent : s.parent = .creating → s.child = .absent) : (latchGate s).Steps (latchGate t) := by
  have hplace : (latchGate s).place .parent = s.parent.latchPlace := rfl
  cases hp : s.parent <;> simp only [parentStep, parentEnabled, hp] at hs he <;>
    simp only [hp, Parent.latchPlace] at hplace
  case latchLocking =>
    obtain rfl := Except.ok.inj hs
    exact steps_of_eq (b := .enter .parent) ⟨hplace, he⟩ rfl rfl rfl rfl rfl
  case latchTesting =>
    split at hs
    · rename_i hcount
      obtain rfl := Except.ok.inj hs
      refine steps_of_eq (b := .test .parent) hplace (if_neg ?_) rfl rfl rfl rfl
      simpa [latchGate] using hcount
    · rename_i hcount
      obtain rfl := Except.ok.inj hs
      refine steps_of_eq (b := .test .parent) hplace (if_pos ?_) rfl rfl rfl rfl
      simpa [latchGate] using hcount
  case latchWaiting =>
    obtain rfl := Except.ok.inj hs
    exact steps_of_eq (b := .resume .parent) ⟨hplace, he⟩ rfl rfl rfl rfl rfl
  case latchUnlocking =>
    obtain rfl := Except.ok.inj hs
    exact steps_of_eq (b := .leave .parent) hplace rfl rfl rfl rfl rfl
  case calling | asserting =>
    obtain ⟨-, -, h⟩ := bind_eq_ok.mp hs
    obtain rfl := Except.ok.inj h
    exact Or.inl (gate_ext rfl rfl hplace.symm rfl)
  case testing =>
    split at hs
    all_goals
      obtain rfl := Except.ok.inj hs
      exact Or.inl (gate_ext rfl rfl hplace.symm rfl)
  case creating =>
    obtain rfl := Except.ok.inj hs
    refine Or.inl (gate_ext rfl rfl hplace.symm ?_)
    simp [latchGate, habsent hp, Child.latchPlace]
  all_goals
    obtain rfl := Except.ok.inj hs
    exact Or.inl (gate_ext rfl rfl hplace.symm rfl)

/-- **So are the child's.** -/
theorem child_latch (hs : childStep tid addr s = .ok t) (he : childEnabled s)
    (hcount : s.count_ = if s.child.rank ≤ 4 then 1 else 0) :
    (latchGate s).Steps (latchGate t) := by
  have hplace : (latchGate s).place .child = s.child.latchPlace := rfl
  cases hc : s.child <;> simp only [childStep, childEnabled, hc] at hs he <;>
    simp only [hc, Child.latchPlace] at hplace
  case writing =>
    split at hs
    · obtain rfl := Except.ok.inj hs
      exact Or.inl (gate_ext rfl rfl rfl hplace.symm)
    · cases hs
  case latchLocking =>
    split at hs
    · obtain rfl := Except.ok.inj hs
      exact steps_of_eq (b := .come .child) ⟨hplace, he⟩ rfl rfl rfl rfl rfl
    · cases hs
  case counting =>
    obtain rfl := Except.ok.inj hs
    refine steps_of_eq (b := .unbar .child) hplace rfl rfl ?_ rfl rfl
    simp [latchGate, hcount, hc, Child.rank]
  case latchNotifying =>
    rw [if_pos (by simp [hcount, hc, Child.rank])] at hs
    obtain rfl := Except.ok.inj hs
    exact steps_of_eq (b := .announce .child) hplace rfl rfl rfl rfl rfl
  case latchUnlocking =>
    obtain rfl := Except.ok.inj hs
    exact steps_of_eq (b := .leave .child) hplace rfl rfl rfl rfl rfl
  all_goals
    obtain rfl := Except.ok.inj hs
    exact Or.inl (gate_ext rfl rfl rfl hplace.symm)

/-- **The parent's statements are steps at the gate of `loop_`**, or none. -/
theorem parent_loop (hs : parentStep s = .ok t) (he : parentEnabled s)
    (habsent : s.parent = .creating → s.child = .absent) : (loopGate s).Steps (loopGate t) := by
  have hplace : (loopGate s).place .parent = s.parent.loopPlace := rfl
  cases hp : s.parent <;> simp only [parentStep, parentEnabled, hp] at hs he <;>
    simp only [hp, Parent.loopPlace] at hplace
  case locking =>
    obtain rfl := Except.ok.inj hs
    exact steps_of_eq (b := .enter .parent) ⟨hplace, he⟩ rfl rfl rfl rfl rfl
  case testing =>
    split at hs
    · rename_i hloop
      obtain rfl := Except.ok.inj hs
      exact steps_of_eq (b := .test .parent) hplace (if_pos hloop) rfl rfl rfl rfl
    · rename_i hloop
      obtain rfl := Except.ok.inj hs
      exact steps_of_eq (b := .test .parent) hplace (if_neg hloop) rfl rfl rfl rfl
  case waiting =>
    obtain rfl := Except.ok.inj hs
    exact steps_of_eq (b := .resume .parent) ⟨hplace, he⟩ rfl rfl rfl rfl rfl
  case unlocking =>
    obtain rfl := Except.ok.inj hs
    exact steps_of_eq (b := .leave .parent) hplace rfl rfl rfl rfl rfl
  case calling | asserting =>
    obtain ⟨-, -, h⟩ := bind_eq_ok.mp hs
    obtain rfl := Except.ok.inj h
    exact Or.inl (gate_ext rfl rfl hplace.symm rfl)
  case latchTesting =>
    split at hs
    all_goals
      obtain rfl := Except.ok.inj hs
      exact Or.inl (gate_ext rfl rfl hplace.symm rfl)
  case creating =>
    obtain rfl := Except.ok.inj hs
    refine Or.inl (gate_ext rfl rfl hplace.symm ?_)
    simp [loopGate, habsent hp, Child.loopPlace]
  all_goals
    obtain rfl := Except.ok.inj hs
    exact Or.inl (gate_ext rfl rfl hplace.symm rfl)

/-- **So are the child's**, but for `loop_ = nullptr`. -/
theorem child_loop (hs : childStep tid addr s = .ok t) (he : childEnabled s)
    (hforget : s.child ≠ .forgetting) : (loopGate s).Steps (loopGate t) := by
  have hplace : (loopGate s).place .child = s.child.loopPlace := rfl
  cases hc : s.child <;> simp only [childStep, childEnabled, hc] at hs he <;>
    simp only [hc, Child.loopPlace] at hplace
  case forgetting => exact absurd hc hforget
  case writing | latchLocking | latchNotifying =>
    split at hs
    all_goals
      first
      | cases hs; exact Or.inl (gate_ext rfl rfl rfl hplace.symm)
      | cases hs
  case locking =>
    obtain rfl := Except.ok.inj hs
    exact steps_of_eq (b := .come .child) ⟨hplace, he⟩ rfl rfl rfl rfl rfl
  case publishing =>
    obtain rfl := Except.ok.inj hs
    exact steps_of_eq (b := .unbar .child) hplace rfl rfl rfl rfl rfl
  case unlocking =>
    obtain rfl := Except.ok.inj hs
    exact steps_of_eq (b := .leave .child) hplace rfl rfl rfl rfl rfl
  all_goals
    obtain rfl := Except.ok.inj hs
    exact Or.inl (gate_ext rfl rfl rfl hplace.symm)

/-! ### Where the two are -/

/-- The data that the child writes, by the statement it has come to. -/
structure Written (tid : ℕ+) (addr : α) (s : EventLoopThread α) : Prop where
  tid_ : s.tid_ = if s.child.rank ≤ 1 then 0 else (tid : ℤ)
  dataTid : s.child.rank = 1 → s.data.tid_ = true
  dataLatch : 1 ≤ s.child.rank → s.child.rank ≤ 7 → s.data.latch_ = true
  count_ : s.count_ = if s.child.rank ≤ 4 then 1 else 0
  loop_ : s.loop_ = if 12 ≤ s.child.rank ∧ s.child.rank ≤ 16 then some addr else none
  constructed : s.constructed = true ↔ 9 ≤ s.child.rank ∧ s.child.rank ≤ 17
  initialized : s.initialized = true ↔ 10 ≤ s.child.rank

/-- **What the child's statements do**: one after the other they write that data. -/
structure ChildStep (s t : EventLoopThread α) : Prop where
  rank : t.child.rank = s.child.rank + 1
  parent : t.parent = s.parent
  started_ : t.started_ = s.started_
  result : t.result = s.result
  quit_ : t.quit_ = true → s.quit_ = true
  present : s.child.rank ≠ 0
  looping : s.child.rank = 15 → s.quit_ = true

theorem childStep_spec (hs : childStep tid addr s = .ok t) (he : childEnabled s) :
    ChildStep s t := by
  cases hc : s.child <;> simp only [childStep, childEnabled, hc] at hs he
  case writing | latchLocking | latchNotifying =>
    split at hs
    all_goals
      cases hs
      try constructor <;> simp [hc, Child.rank]
  all_goals
    obtain rfl := Except.ok.inj hs
    constructor <;> simp [hc, Child.rank]
    try exact he

theorem written_step (h : Written tid addr s) (hs : childStep tid addr s = .ok t)
    (he : childEnabled s) : Written tid addr t := by
  obtain ⟨h1, h2, h3, h4, h5, h6, h7⟩ := h
  cases hc : s.child <;> simp only [childStep, childEnabled, hc] at hs he <;>
    simp only [hc, Child.rank] at h1 h2 h3 h4 h5 h6 h7
  case writing | latchLocking | latchNotifying =>
    split at hs
    all_goals
      cases hs
      try constructor <;> simp [Child.rank, *]
  all_goals
    obtain rfl := Except.ok.inj hs
    constructor <;> simp [Child.rank, *]

/-- **What the parent's statements do**: they start the child and leave its data alone otherwise; the
parent goes on behind a wait only where it has seen what it waits for. -/
structure ParentStep (s t : EventLoopThread α) : Prop where
  child : s.parent.rank ≠ 1 ∧ t.child = s.child ∧ t.data = s.data ∨
    s.parent.rank = 1 ∧ t.child = .writing ∧ t.data = ⟨true, true⟩
  tid_ : t.tid_ = s.tid_
  count_ : t.count_ = s.count_
  loop_ : t.loop_ = s.loop_
  constructed : t.constructed = s.constructed
  initialized : t.initialized = s.initialized
  quit_ : t.quit_ = s.quit_
  rank : t.parent.rank = s.parent.rank + 1 ∨ t.parent.rank = s.parent.rank ∧ 3 ≤ s.parent.rank
  counted : t.parent.rank = 4 → s.count_ ≤ 0
  published : t.parent.rank = 8 → s.loop_.isSome = true
  result : t.parent.rank = 10 → t.result = some s.loop_
  returned : s.parent.rank ≠ 10

theorem parentStep_spec (hs : parentStep s = .ok t) (he : parentEnabled s) : ParentStep s t := by
  cases hp : s.parent <;> simp only [parentStep, parentEnabled, hp] at hs he
  case calling | asserting =>
    obtain ⟨-, -, h⟩ := bind_eq_ok.mp hs
    obtain rfl := Except.ok.inj h
    constructor <;> simp [hp, Parent.rank]
  case latchTesting | testing =>
    split at hs
    all_goals
      rename_i h
      obtain rfl := Except.ok.inj hs
      constructor <;> simp [hp, Parent.rank] <;> simpa using h
  all_goals
    obtain rfl := Except.ok.inj hs
    constructor <;> simp [hp, Parent.rank]

/-- Where the two are to each other. -/
structure Together (addr : α) (s : EventLoopThread α) : Prop where
  absent : s.child.rank = 0 ↔ s.parent.rank ≤ 1
  started_ : s.parent.rank = 0 → s.started_ = false
  counted : 4 ≤ s.parent.rank → 5 ≤ s.child.rank
  published : 8 ≤ s.parent.rank → 12 ≤ s.child.rank
  quit_ : s.quit_ = true ∨ 16 ≤ s.child.rank → s.parent.rank = 10
  result : s.parent.rank = 10 → s.result = some (some addr)

/-- The parent's statements keep the child's data. -/
theorem written_parent (h : Written tid addr s) (habsent : s.parent.rank ≤ 1 → s.child.rank = 0)
    (hs : ParentStep s t) : Written tid addr t := by
  obtain ⟨h1, h2, h3, h4, h5, h6, h7⟩ := h
  rcases hs.child with ⟨-, hchild, hdata⟩ | ⟨hp, hchild, hdata⟩
  · constructor <;> simp only [hchild, hdata, hs.tid_, hs.count_, hs.loop_, hs.constructed,
      hs.initialized] <;> assumption
  · have hzero := habsent (by omega)
    rw [hzero] at h1 h4 h5 h6 h7
    constructor <;> simp [hchild, hdata, hs.tid_, hs.count_, hs.loop_, hs.constructed,
      hs.initialized, h1, h4, h5, h6, h7, Child.rank]

theorem together_parent (h : Together addr s) (hw : Written tid addr s) (hs : ParentStep s t) :
    Together addr t := by
  obtain ⟨habsent, -, hcounted, hpublished, hquit, -⟩ := h
  have hrank := hs.rank
  have hreturned := hs.returned
  rcases hs.child with ⟨hp, hchild, -⟩ | ⟨hp, hchild, -⟩
  · rw [← hchild] at habsent hcounted hpublished hquit
    have hcount : s.count_ ≤ 0 → 5 ≤ t.child.rank := by
      rw [hw.count_, hchild]
      split <;> omega
    have hloop : s.loop_.isSome = true → 12 ≤ t.child.rank := by
      rw [hw.loop_, hchild]
      split
      · omega
      · nofun
    refine ⟨by omega, by omega, fun ht => ?_, fun ht => ?_, fun ht => ?_, fun ht => ?_⟩
    · by_cases h4 : t.parent.rank = 4
      · exact hcount (hs.counted h4)
      · exact hcounted (by omega)
    · by_cases h8 : t.parent.rank = 8
      · exact hloop (hs.published h8)
      · exact hpublished (by omega)
    · rw [hs.quit_] at ht
      exact absurd (hquit ht) hreturned
    · have h12 := hpublished (by omega)
      have h16 : ¬16 ≤ t.child.rank := fun h => hreturned (hquit (Or.inr h))
      rw [hs.result ht, hw.loop_, ← hchild, if_pos (by omega)]
  · have hone : t.child.rank = 1 := by
      rw [hchild]
      rfl
    refine ⟨by omega, by omega, by omega, by omega, fun ht => ?_, by omega⟩
    rw [hs.quit_, hone] at ht
    exact absurd (hquit (ht.imp id (by omega))) hreturned

theorem together_child (h : Together addr s) (hs : ChildStep s t) : Together addr t := by
  obtain ⟨habsent, hstarted, hcounted, hpublished, hquit, hresult⟩ := h
  have hrank := hs.rank
  have hpresent := hs.present
  rw [← hs.parent] at habsent hstarted hcounted hpublished hquit hresult
  refine ⟨by omega, ?_, by omega, by omega, fun ht => ?_, fun ht => ?_⟩
  · rwa [hs.started_]
  · rcases ht with ht | ht
    · exact hquit (Or.inl (hs.quit_ ht))
    · by_cases h15 : s.child.rank = 15
      · exact hquit (Or.inl (hs.looping h15))
      · exact hquit (Or.inr (by omega))
  · rw [hs.result]
    exact hresult ht

/-- What holds in every run in which nobody quits early. -/
structure Sane (tid : ℕ+) (addr : α) (s : EventLoopThread α) : Prop where
  latch : Sound (latchGate s)
  loop : Sound (loopGate s)
  written : Written tid addr s
  together : Together addr s

theorem Sane.start : Sane tid addr (start : EventLoopThread α) where
  latch := by
    have : latchGate (Startup.start : EventLoopThread α) = shut := gate_ext rfl rfl rfl rfl
    rw [this]
    exact Sound.shut
  loop := by
    have : loopGate (Startup.start : EventLoopThread α) = shut := gate_ext rfl rfl rfl rfl
    rw [this]
    exact Sound.shut
  written := by constructor <;> simp [Startup.start, Child.rank]
  together := by constructor <;> simp [Startup.start, Child.rank, Parent.rank]

theorem eq_absent {c : Child} (h : c.rank = 0) : c = .absent := by
  cases c <;> first | rfl | cases h

theorem eq_returned {p : Parent} (h : p.rank = 10) : p = .returned := by
  cases p <;> first | rfl | cases h

theorem Sane.absent (h : Sane tid addr s) (hp : s.parent = .creating) : s.child = .absent :=
  eq_absent (h.together.absent.mpr (by rw [hp]; decide))

theorem Sane.parent (h : Sane tid addr s) (he : parentEnabled s) (hs : parentStep s = .ok t) :
    Sane tid addr t := by
  have hspec := parentStep_spec hs he
  exact ⟨h.latch.steps (parent_latch hs he h.absent), h.loop.steps (parent_loop hs he h.absent),
    written_parent h.written h.together.absent.mpr hspec, together_parent h.together h.written hspec⟩

theorem Sane.child (h : Sane tid addr s) (he : childEnabled s)
    (hs : childStep tid addr s = .ok t) : Sane tid addr t := by
  refine ⟨h.latch.steps (child_latch hs he h.written.count_), ?_, written_step h.written hs he,
    together_child h.together (childStep_spec hs he)⟩
  by_cases hforget : s.child = .forgetting
  · -- the parent has returned, and `loop_` may be null again
    have hparent := eq_returned (h.together.quit_ (Or.inr (by rw [hforget]; decide)))
    have haway := h.loop.shutAgain fun p => by
      cases p <;> simp [loopGate, hforget, hparent, Child.loopPlace, Parent.loopPlace]
    simp only [childStep, hforget] at hs
    obtain rfl := Except.ok.inj hs
    have heq : loopGate { s with child := .destroying, loop_ := none } =
        { loopGate s with isOpen := false } :=
      gate_ext rfl rfl rfl (by simp [loopGate, hforget, Child.loopPlace])
    rwa [heq]
  · exact h.loop.steps (child_loop hs he hforget)

theorem Sane.notify {w : Option Party} (h : Sane tid addr s) (hc : s.child = .notifying)
    (hw : s.mutex.Notifies () w) :
    Sane tid addr { s with child := .unlocking, mutex := s.mutex.notify w } := by
  -- nobody but the parent can be blocked
  have honly : ∀ p, s.mutex.blocked p = some () → p = .parent := by
    intro p hp
    cases p with
    | parent => rfl
    | child =>
      have := h.loop.waiting .child hp
      simp [loopGate, hc, Child.loopPlace] at this
  have hplace : (loopGate s).place .child = .announcing := by
    simp [loopGate, hc, Child.loopPlace]
  have hsteps := steps_of_eq (k := loopGate { s with
    child := .unlocking, mutex := s.mutex.notifyAll () }) (b := .announce .child) hplace rfl rfl rfl rfl rfl
  have hlatch : latchGate { s with child := .unlocking, mutex := s.mutex.notify w } =
      latchGate s := gate_ext rfl rfl rfl (by simp [latchGate, hc, Child.latchPlace])
  have hchild : ChildStep s { s with child := .unlocking, mutex := s.mutex.notify w } := by
    constructor <;> simp [hc, Child.rank]
  refine ⟨?_, ?_, ?_, together_child h.together hchild⟩
  · rw [hlatch]
    exact h.latch
  · rw [Monitor.notify_eq_notifyAll honly hw]
    exact h.loop.steps hsteps
  · obtain ⟨h1, h2, h3, h4, h5, h6, h7⟩ := h.written
    simp only [hc, Child.rank] at h1 h2 h3 h4 h5 h6 h7
    constructor <;> simp [Child.rank, *]

/-- **One step.** -/
theorem Sane.step (h : Sane tid addr s) (he : (machine tid addr).enabled s a)
    (ha : NoEarlyQuit s a) (hs : (machine tid addr).step s a = .ok t) : Sane tid addr t := by
  cases a with
  | parent => exact h.parent he hs
  | child => exact h.child he hs
  | notify w =>
    obtain rfl := Except.ok.inj hs
    exact h.notify he.1 he.2
  | wakeLatch p =>
    obtain rfl := Except.ok.inj hs
    have hsteps := steps_of_eq (k := latchGate { s with latch := s.latch.wake p })
      (b := .wake p) (g := latchGate s) he rfl rfl rfl rfl rfl
    exact ⟨h.latch.steps hsteps, h.loop, by cases h.written; constructor <;> assumption,
      by cases h.together; constructor <;> assumption⟩
  | wakeCond p =>
    obtain rfl := Except.ok.inj hs
    have hsteps := steps_of_eq (k := loopGate { s with mutex := s.mutex.wake p })
      (b := .wake p) (g := loopGate s) he rfl rfl rfl rfl rfl
    exact ⟨h.latch, h.loop.steps hsteps, by cases h.written; constructor <;> assumption,
      by cases h.together; constructor <;> assumption⟩
  | quit =>
    obtain rfl := Except.ok.inj hs
    have hparent : s.parent.rank = 10 := by
      rw [ha rfl]
      rfl
    obtain ⟨habsent, hstarted, hcounted, hpublished, -, hresult⟩ := h.together
    exact ⟨h.latch, h.loop, by cases h.written; constructor <;> assumption,
      ⟨habsent, hstarted, hcounted, hpublished, fun _ => hparent, hresult⟩⟩

/-! ### The handshake -/

/-- The child is behind `latch_->countDown()`. -/
def Child.hasCounted (c : Child) : Prop := 7 ≤ c.rank

instance : DecidablePred Child.hasCounted := fun c => inferInstanceAs (Decidable (7 ≤ c.rank))

/-- The child's next statement reads or writes `tid_` or `latch_` of the `Thread`. -/
def Child.accesses : Child → Bool
  | .writing | .latchLocking | .counting | .latchNotifying | .latchUnlocking => true
  | _ => false

/-- `Thread::start` has returned. -/
def Parent.hasStarted (p : Parent) : Prop := 6 ≤ p.rank

/-- **What the handshake is for.** -/
structure Handshake (tid : ℕ+) (addr : α) (s : EventLoopThread α) : Prop where
  /-- `Thread::start` returns when `tid_` has been written -/
  tid_ : s.parent.hasStarted → s.tid_ = tid
  /-- `startLoop` is about to return the `EventLoop`, constructed and initialized -/
  returning : s.parent = .returning → s.loop_ = some addr ∧ s.constructed = true ∧
    s.initialized = true
  result : s.parent = .returned → s.result = some (some addr)
  /-- the parent is blocked on the latch only until the child has notified it, inside the mutex -/
  latch : s.latch.blocked .parent = some () → s.count_ ≤ 0 → s.latch.owner = some .child ∧
    s.child = .latchNotifying
  /-- and so on `cond_` -/
  cond : s.mutex.blocked .parent = some () → s.loop_ ≠ none → s.mutex.owner = some .child ∧
    s.child = .notifying

theorem Sane.handshake (h : Sane tid addr s) : Handshake tid addr s := by
  obtain ⟨hlatch, hloop, hwritten, htogether⟩ := h
  constructor
  · intro hstarted
    have := htogether.counted (Nat.le_trans (by omega) hstarted)
    rw [hwritten.tid_, if_neg (by omega)]
  · intro hp
    have hrank : s.parent.rank = 9 := by
      rw [hp]
      rfl
    have h12 := htogether.published (by omega)
    have h16 : ¬16 ≤ s.child.rank := by
      intro h16
      have := htogether.quit_ (Or.inr h16)
      omega
    refine ⟨?_, hwritten.constructed.mpr (by omega), hwritten.initialized.mpr (by omega)⟩
    rw [hwritten.loop_, if_pos (by omega)]
  · intro hp
    exact htogether.result (by rw [hp]; rfl)
  · intro hblocked hcount
    obtain ⟨p, howner, hplace⟩ := hlatch.not_lost (by simpa [latchGate] using hcount) hblocked
    cases p with
    | parent => cases hp : s.parent <;> simp [latchGate, hp, Parent.latchPlace] at hplace
    | child =>
      refine ⟨howner, ?_⟩
      cases hc : s.child <;> simp [latchGate, hc, Child.latchPlace] at hplace
      rfl
  · intro hblocked hpublished
    obtain ⟨p, howner, hplace⟩ := hloop.not_lost (by
      simpa [loopGate] using Option.ne_none_iff_isSome.mp hpublished) hblocked
    cases p with
    | parent => cases hp : s.parent <;> simp [loopGate, hp, Parent.loopPlace] at hplace
    | child =>
      refine ⟨howner, ?_⟩
      cases hc : s.child <;> simp [loopGate, hc, Child.loopPlace] at hplace
      rfl

/-- No assertion fails on the way, and no pointer that has been cleared is used. -/
theorem Sane.returns (h : Sane tid addr s) (he : (machine tid addr).enabled s a) :
    ∃ t, (machine tid addr).step s a = .ok t := by
  cases a with
  | parent =>
    show ∃ t, parentStep s = .ok t
    cases hp : s.parent <;> simp only [parentStep, hp]
    case calling =>
      have hstarted := h.together.started_ (by rw [hp]; rfl)
      exact ⟨_, by rw [assert, if_pos hstarted]; rfl⟩
    case asserting =>
      have hcounted := h.together.counted (by rw [hp]; decide)
      have htid := h.written.tid_
      rw [if_neg (by omega)] at htid
      have hpos : 0 < s.tid_ := by
        rw [htid]
        exact Int.natCast_pos.mpr tid.pos
      exact ⟨_, by rw [assert, if_pos hpos]; rfl⟩
    case latchTesting | testing => split <;> exact ⟨_, rfl⟩
    all_goals exact ⟨_, rfl⟩
  | child =>
    show ∃ t, childStep tid addr s = .ok t
    cases hc : s.child <;> simp only [childStep, hc]
    case writing =>
      rw [if_pos (h.written.dataTid (by rw [hc]; rfl))]
      exact ⟨_, rfl⟩
    case latchLocking =>
      rw [if_pos (h.written.dataLatch (by rw [hc]; decide) (by rw [hc]; decide))]
      exact ⟨_, rfl⟩
    case latchNotifying => split <;> exact ⟨_, rfl⟩
    all_goals exact ⟨_, rfl⟩
  | _ => exact ⟨_, rfl⟩

theorem not_accesses {c : Child} (h : c.hasCounted) : c.accesses = false := by
  cases c <;> first | rfl | exact absurd h (by decide)

/-- The child does not go back. -/
theorem Sane.counted (h : Sane tid addr s) (hcounted : s.child.hasCounted)
    (he : (machine tid addr).enabled s a) (hs : (machine tid addr).step s a = .ok t) :
    t.child.hasCounted := by
  unfold Child.hasCounted at hcounted ⊢
  cases a with
  | parent =>
    rcases (parentStep_spec hs he).child with ⟨-, hchild, -⟩ | ⟨hp, -⟩
    · rwa [hchild]
    · have := h.together.absent.mpr (by omega)
      omega
  | child =>
    rw [(childStep_spec hs he).rank]
    omega
  | notify w =>
    obtain rfl := Except.ok.inj hs
    show 7 ≤ Child.unlocking.rank
    decide
  | _ =>
    obtain rfl := Except.ok.inj hs
    exact hcounted

/-- **The handshake**: in every run without an early quit the parent gets what it waits for, no step
fails, and behind its `countDown` the child leaves `tid_` and `latch_` alone. -/
theorem startup_handshake (h : Run (restrict (machine tid addr) NoEarlyQuit) start as s) :
    Handshake tid addr s ∧
    (∀ a, (machine tid addr).enabled s a → ∃ t, (machine tid addr).step s a = .ok t) ∧
    ∀ bs t, s.child.hasCounted → Run (restrict (machine tid addr) NoEarlyQuit) s bs t →
      t.child.accesses = false := by
  have hstep : ∀ s a t, Sane tid addr s → (restrict (machine tid addr) NoEarlyQuit).enabled s a →
      (restrict (machine tid addr) NoEarlyQuit).step s a = .ok t → Sane tid addr t :=
    fun s a t hs he hstep => hs.step he.1 he.2 hstep
  have hsane := h.invariant hstep Sane.start
  refine ⟨hsane.handshake, fun a he => hsane.returns he, fun bs t hcounted hrun => ?_⟩
  have key := hrun.invariant (I := fun s => Sane tid addr s ∧ s.child.hasCounted)
    (fun s a t hs he hs' => ⟨hstep s a t hs.1 he hs', hs.1.counted hs.2 he.1 hs'⟩) ⟨hsane, hcounted⟩
  exact not_accesses key.2

/-- The parent waits twice, and is notified twice. -/
def meeting : List Act :=
  [.parent, .parent, .parent, .parent, .child, .child, .child, .child, .child, .child, .parent, .parent,
    .parent, .parent, .parent, .parent, .child, .child, .child, .child, .child, .notify (some .parent),
    .child, .parent, .parent, .parent, .parent]

theorem startup_handshake_meeting : ∃ s, Run (restrict (machine 7 ()) NoEarlyQuit) start meeting s ∧
    s.result = some (some ()) ∧ Handshake 7 () s := by
  have hrun : ∃ s, Run (restrict (machine 7 ()) NoEarlyQuit) start meeting s ∧
      s.result = some (some ()) := by
    have he : ∀ {s : EventLoopThread Unit} {a}, (machine 7 ()).enabled s a → a ≠ .quit →
        (restrict (machine 7 ()) NoEarlyQuit).enabled s a := fun h ha => ⟨h, fun h' => absurd h' ha⟩
    refine ⟨_, .cons (he trivial nofun) rfl (.cons (he trivial nofun) rfl
      (.cons (he rfl nofun) rfl (.cons (he trivial nofun) rfl (.cons (he trivial nofun) rfl
      (.cons (he trivial nofun) rfl (.cons (he rfl nofun) rfl (.cons (he trivial nofun) rfl
      (.cons (he trivial nofun) rfl (.cons (he trivial nofun) rfl
      (.cons (he ⟨rfl, rfl⟩ nofun) rfl (.cons (he trivial nofun) rfl
      (.cons (he trivial nofun) rfl (.cons (he trivial nofun) rfl (.cons (he rfl nofun) rfl
      (.cons (he trivial nofun) rfl (.cons (he trivial nofun) rfl (.cons (he trivial nofun) rfl
      (.cons (he trivial nofun) rfl (.cons (he rfl nofun) rfl (.cons (he trivial nofun) rfl
      (.cons (he ⟨rfl, rfl⟩ nofun) rfl (.cons (he trivial nofun) rfl
      (.cons (he ⟨rfl, rfl⟩ nofun) rfl (.cons (he trivial nofun) rfl
      (.cons (he trivial nofun) rfl (.cons (he trivial nofun) rfl (.nil _))))))))))))))))))))))))))), rfl⟩
  obtain ⟨s, hrun, hresult⟩ := hrun
  exact ⟨s, hrun, hresult, (startup_handshake hrun).1⟩

end ReactorServer.Net.Startup
