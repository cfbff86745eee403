import ReactorServer.Cpp
import ReactorServer.Lib.Runs
import Mathlib.Data.List.Basic

/-!
# The event loop and its functors

`EventLoop` with the threads that call into it.  A step is what one thread does without another
being able to see it half done: `queueInLoop` is two steps, the `push` under the lock and the
`signal` that tests whether to wake the loop; the cycle of the loop thread is cut at the return of
`epoll_wait` (`poll`), at the swap of `doPendingFunctors` (`swap`), at each call of a functor
(`exec`) and at the test of `quit_` (`finish`).

`Functors` is the queue and the batch alone, for the modules that need no more of a loop.
-/

namespace ReactorServer.Net.Loop

open ReactorServer.Cpp ReactorServer.Lib.Runs

/-! ### The two vectors of functors -/

/-- `pendingFunctor_`, and the functors of the batch that are still to be called. -/
structure Functors (F : Type*) where
  pendingFunctor : List F
  functors : List F

namespace Functors

variable {F : Type*}

def new : Functors F := ⟨[], []⟩

/-- `pendingFunctor_.push_back(func)`. -/
def push (f : F) (q : Functors F) : Functors F :=
  { q with pendingFunctor := q.pendingFunctor ++ [f] }

/-- `pendingFunctor_.swap(functors)`; `functors` is a new vector. -/
def swap (q : Functors F) : Functors F := ⟨[], q.pendingFunctor⟩

/-- The batch goes on behind its first functor. -/
def advance (q : Functors F) : Functors F := { q with functors := q.functors.tail }

/-- What is still to be called, in order. -/
def toList (q : Functors F) : List F := q.functors ++ q.pendingFunctor

@[simp] theorem toList_push (f : F) (q : Functors F) : (q.push f).toList = q.toList ++ [f] := by
  simp [toList, push]

theorem toList_swap {q : Functors F} (h : q.functors = []) : q.swap.toList = q.toList := by
  simp [toList, swap, h]

theorem toList_advance {q : Functors F} {f : F} {fs : List F} (h : q.functors = f :: fs) :
    q.toList = f :: q.advance.toList := by
  simp [toList, advance, h]

end Functors

/-! ### The wake-up descriptor -/

/-- An `eventfd` in an edge-triggered interest list: its counter, and whether a readiness event has
yet to be delivered. -/
structure Eventfd where
  count : ℕ
  ready : Bool
  deriving DecidableEq, Repr

namespace Eventfd

/-- `write` of `n` bytes that hold `value`: `EINVAL` below eight bytes, `EAGAIN` at the limit. -/
def write (n value : ℕ) (e : Eventfd) : Eventfd :=
  if n < 8 then e else if 2 ^ 64 - 1 ≤ e.count + value then e else ⟨e.count + value, true⟩

/-- `read` into `n` bytes. -/
def read (n : ℕ) (e : Eventfd) : Eventfd := if n < 8 then e else { e with count := 0 }

end Eventfd

/-- `sizeof(int)`. -/
def sizeofInt : ℕ := 4

/-! ### The loop -/

/-- Where the loop thread is. -/
inductive Phase
  /-- not in `loop` -/
  | outside
  /-- in `epoll_wait`, or with nothing left to do but call it -/
  | polling
  /-- between the return of `epoll_wait` and the swap -/
  | handling
  /-- in the batch -/
  | running
  deriving DecidableEq, Repr

/-- The loop, with the threads that are between the two steps of `queueInLoop` (`mid`) and two
records of the past: the functors called so far, and how many of the pending ones were there when
`loop` began. -/
structure EventLoop (F ι : Type*) extends Functors F where
  quit : Bool
  phase : Phase
  wakeupFd : Eventfd
  woken : Bool
  mid : List ι
  executed : List F
  old : ℕ

/-- What a thread can do. -/
inductive Act (F ι : Type*)
  /-- the locked part of `queueInLoop` -/
  | push (t : ι) (f : F)
  /-- the part behind it -/
  | signal (t : ι)
  /-- `runInLoop`; what is queued is signalled like a `push` -/
  | run (t : ι) (f : F)
  | quit (t : ι)
  | loop
  | poll
  | handleRead
  | swap
  | exec
  | finish
  deriving DecidableEq, Repr

namespace EventLoop

variable {F ι : Type*} [DecidableEq ι] {thread : ι}

def new : EventLoop F ι where
  toFunctors := .new
  quit := false
  phase := .outside
  wakeupFd := ⟨0, false⟩
  woken := false
  mid := []
  executed := []
  old := 0

/-- `callingPendingFunctor_`; only the loop thread looks at it. -/
def callingPendingFunctor (s : EventLoop F ι) : Bool := s.phase = .running

def wakeup (s : EventLoop F ι) : EventLoop F ι :=
  { s with wakeupFd := s.wakeupFd.write sizeofInt 1 }

/-- `queueInLoop`, up to the end of the lock. -/
def queue (t : ι) (f : F) (s : EventLoop F ι) : EventLoop F ι :=
  { s with toFunctors := s.toFunctors.push f, mid := t :: s.mid }

/-- `queueInLoop`, behind the lock. -/
def signal (thread t : ι) (s : EventLoop F ι) : EventLoop F ι :=
  let s := { s with mid := s.mid.erase t }
  if t ≠ thread ∨ s.callingPendingFunctor then s.wakeup else s

/-- `runInLoop`: in the loop thread the functor is called at once and does not enter the queue. -/
def runInLoop (thread t : ι) (f : F) (s : EventLoop F ι) : EventLoop F ι :=
  if t = thread then s else s.queue t f

def setQuit (thread t : ι) (s : EventLoop F ι) : EventLoop F ι :=
  let s := { s with quit := true }
  if t ≠ thread then s.wakeup else s

/-- `epoll_wait` returns, for the wake-up descriptor or for something else; an event is delivered
once. -/
def poll (s : EventLoop F ι) : EventLoop F ι :=
  { s with
    phase := .handling, woken := s.wakeupFd.ready, wakeupFd := { s.wakeupFd with ready := false } }

def handleRead (s : EventLoop F ι) : EventLoop F ι :=
  { s with woken := false, wakeupFd := s.wakeupFd.read sizeofInt }

/-- A thread calls into the loop one call at a time, and the loop thread only from a handler, from
a functor or from outside `loop`. -/
def mayCall (thread t : ι) (s : EventLoop F ι) : Prop :=
  t ∉ s.mid ∧ (t = thread → s.phase ≠ .polling)

/-- Where a step can be taken.  The loop thread's own cycle waits for its `queueInLoop` to
return. -/
def enabled (thread : ι) (s : EventLoop F ι) : Act F ι → Prop
  | .push t _ => s.mayCall thread t
  | .signal t => t ∈ s.mid
  | .run t _ => s.mayCall thread t
  | .quit t => s.mayCall thread t
  | .loop => s.phase = .outside ∧ thread ∉ s.mid
  | .poll => s.phase = .polling
  | .handleRead => s.phase = .handling ∧ thread ∉ s.mid ∧ s.woken = true
  | .swap => s.phase = .handling ∧ thread ∉ s.mid ∧ s.woken = false
  | .exec => s.phase = .running ∧ thread ∉ s.mid ∧ s.functors ≠ []
  | .finish => s.phase = .running ∧ thread ∉ s.mid ∧ s.functors = []

instance (thread t : ι) (s : EventLoop F ι) : Decidable (s.mayCall thread t) :=
  inferInstanceAs (Decidable (_ ∧ _))

instance (thread : ι) (s : EventLoop F ι) : ∀ a, Decidable (enabled thread s a)
  | .push t _ => inferInstanceAs (Decidable (s.mayCall thread t))
  | .signal t => inferInstanceAs (Decidable (t ∈ s.mid))
  | .run t _ => inferInstanceAs (Decidable (s.mayCall thread t))
  | .quit t => inferInstanceAs (Decidable (s.mayCall thread t))
  | .loop => inferInstanceAs (Decidable (_ ∧ _))
  | .poll => inferInstanceAs (Decidable (s.phase = _))
  | .handleRead => inferInstanceAs (Decidable (_ ∧ _ ∧ _))
  | .swap => inferInstanceAs (Decidable (_ ∧ _ ∧ _))
  | .exec => inferInstanceAs (Decidable (_ ∧ _ ∧ _))
  | .finish => inferInstanceAs (Decidable (_ ∧ _ ∧ _))

def step (thread : ι) (s : EventLoop F ι) : Act F ι → EventLoop F ι
  | .push t f => s.queue t f
  | .signal t => s.signal thread t
  | .run t f => s.runInLoop thread t f
  | .quit t => s.setQuit thread t
  | .loop => { s with phase := .polling, quit := false, old := s.pendingFunctor.length }
  | .poll => s.poll
  | .handleRead => s.handleRead
  | .swap => { s with toFunctors := s.toFunctors.swap, phase := .running, old := 0 }
  | .exec => { s with
      toFunctors := s.toFunctors.advance, executed := s.executed ++ s.functors.head?.toList }
  | .finish => { s with phase := if s.quit then .outside else .polling }

end EventLoop

variable {F ι : Type*} [DecidableEq ι] {thread : ι} {s t u : EventLoop F ι}
  {as bs cs : List (Act F ι)}

/-- One loop with its thread `thread` and any other threads. -/
def loopMachine (F : Type*) {ι : Type*} [DecidableEq ι] (thread : ι) :
    Machine (EventLoop F ι) (Act F ι) Fault where
  enabled := EventLoop.enabled thread
  step s a := .ok (s.step thread a)

instance (thread : ι) (s : EventLoop F ι) (a : Act F ι) :
    Decidable ((loopMachine F thread).enabled s a) :=
  inferInstanceAs (Decidable (EventLoop.enabled thread s a))

/-- The functor a step queues. -/
def pushed (thread : ι) : Act F ι → Option F
  | .push _ f => some f
  | .run t f => if t = thread then none else some f
  | _ => none

/-- The functors queued by a run, in the order in which they took the lock. -/
def queued (thread : ι) (as : List (Act F ι)) : List F := as.filterMap (pushed thread)

/-! ### What a step does to the queue -/

namespace EventLoop

/-- Everything but `mid` and the descriptor is the same. -/
structure Same (s t : EventLoop F ι) : Prop where
  toFunctors : t.toFunctors = s.toFunctors
  executed : t.executed = s.executed
  phase : t.phase = s.phase
  old : t.old = s.old
  ready : t.wakeupFd.ready = s.wakeupFd.ready

theorem same_signal (thread x : ι) (s : EventLoop F ι) : Same s (s.signal thread x) := by
  unfold signal
  dsimp only
  split_ifs <;> exact ⟨rfl, rfl, rfl, rfl, rfl⟩

theorem same_setQuit (thread x : ι) (s : EventLoop F ι) : Same s (s.setQuit thread x) := by
  unfold setQuit
  dsimp only
  split_ifs <;> exact ⟨rfl, rfl, rfl, rfl, rfl⟩

end EventLoop

/-- **What a step does to the queue**: it queues a functor, or leaves queue and batch alone, or
makes the queue the next batch, or calls the next functor of the batch. -/
theorem step_queue (s : EventLoop F ι) (a : Act F ι) (he : EventLoop.enabled thread s a) :
    (∃ f, pushed thread a = some f ∧ (s.step thread a).toFunctors = s.toFunctors.push f ∧
      (s.step thread a).executed = s.executed ∧ (s.step thread a).phase = s.phase) ∨
    (pushed thread a = none ∧ a ≠ .swap ∧ a ≠ .exec ∧
      (s.step thread a).toFunctors = s.toFunctors ∧ (s.step thread a).executed = s.executed ∧
      ((s.step thread a).phase = s.phase ∨ s.phase ≠ .running ∨ s.functors = []) ∧
      ((s.step thread a).phase = .running → s.phase = .running)) ∨
    (a = .swap ∧ s.phase = .handling ∧ (s.step thread a).toFunctors = s.toFunctors.swap ∧
      (s.step thread a).executed = s.executed ∧ (s.step thread a).phase = .running) ∨
    (a = .exec ∧ ∃ f fs, s.phase = .running ∧ s.functors = f :: fs ∧
      (s.step thread a).toFunctors = s.toFunctors.advance ∧
      (s.step thread a).executed = s.executed ++ [f] ∧ (s.step thread a).phase = .running) := by
  cases a with
  | push x f => exact Or.inl ⟨f, rfl, rfl, rfl, rfl⟩
  | signal x =>
    have h := EventLoop.same_signal thread x s
    exact Or.inr (Or.inl ⟨rfl, nofun, nofun, h.toFunctors, h.executed, Or.inl h.phase,
      fun hr => h.phase ▸ hr⟩)
  | run x f =>
    by_cases hx : x = thread
    · have h0 : s.step thread (.run x f) = s := if_pos hx
      rw [h0]
      exact Or.inr (Or.inl ⟨if_pos hx, nofun, nofun, rfl, rfl, Or.inl rfl, id⟩)
    · have h0 : s.step thread (.run x f) = s.queue x f := if_neg hx
      rw [h0]
      exact Or.inl ⟨f, if_neg hx, rfl, rfl, rfl⟩
  | quit x =>
    have h := EventLoop.same_setQuit thread x s
    exact Or.inr (Or.inl ⟨rfl, nofun, nofun, h.toFunctors, h.executed, Or.inl h.phase,
      fun hr => h.phase ▸ hr⟩)
  | loop =>
    have h1 : s.phase ≠ .running := by rw [he.1]; nofun
    exact Or.inr (Or.inl ⟨rfl, nofun, nofun, rfl, rfl, Or.inr (Or.inl h1), nofun⟩)
  | poll =>
    have h1 : s.phase ≠ .running := by rw [show s.phase = .polling from he]; nofun
    exact Or.inr (Or.inl ⟨rfl, nofun, nofun, rfl, rfl, Or.inr (Or.inl h1), nofun⟩)
  | handleRead => exact Or.inr (Or.inl ⟨rfl, nofun, nofun, rfl, rfl, Or.inl rfl, id⟩)
  | swap => exact Or.inr (Or.inr (Or.inl ⟨rfl, he.1, rfl, rfl, rfl⟩))
  | exec =>
    obtain ⟨f, fs, hf⟩ := List.exists_cons_of_ne_nil he.2.2
    refine Or.inr (Or.inr (Or.inr ⟨rfl, f, fs, he.1, hf, rfl, ?_, he.1⟩))
    show s.executed ++ s.functors.head?.toList = _
    rw [hf]; rfl
  | finish =>
    refine Or.inr (Or.inl ⟨rfl, nofun, nofun, rfl, rfl, Or.inr (Or.inr he.2.2), fun hr => ?_⟩)
    simp only [EventLoop.step] at hr
    split_ifs at hr

/-! ### Every functor is called once, in order -/

/-- The batch is empty outside of it. -/
def Idle (s : EventLoop F ι) : Prop := s.phase ≠ .running → s.functors = []

/-- All functors ever queued, as the loop knows them. -/
def EventLoop.history (s : EventLoop F ι) : List F := s.executed ++ s.toFunctors.toList

theorem idle_step {a : Act F ι} (he : EventLoop.enabled thread s a) (hs : Idle s) :
    Idle (s.step thread a) := by
  intro hp
  rcases step_queue s a he with ⟨f, -, h1, -, h2⟩ | ⟨-, -, -, h1, -, h2, -⟩ | ⟨-, -, -, -, h2⟩ |
    ⟨-, f, fs, -, -, -, -, h2⟩
  · rw [h1]; exact hs (h2 ▸ hp)
  · rw [h1]
    rcases h2 with h2 | h2 | h2
    · exact hs (h2 ▸ hp)
    · exact hs h2
    · exact h2
  · exact absurd h2 hp
  · exact absurd h2 hp

theorem history_step {a : Act F ι} (he : EventLoop.enabled thread s a) (hs : Idle s) :
    (s.step thread a).history = s.history ++ (pushed thread a).toList := by
  unfold EventLoop.history
  rcases step_queue s a he with ⟨f, h0, h1, h2, -⟩ | ⟨h0, -, -, h1, h2, -⟩ | ⟨rfl, h0, h1, h2, -⟩ |
    ⟨rfl, f, fs, -, h0, h1, h2, -⟩
  · rw [h0, h1, h2, Functors.toList_push, List.append_assoc]; rfl
  · rw [h0, h1, h2]; simp
  · have hb : s.functors = [] := hs (by rw [h0]; nofun)
    rw [h1, h2, Functors.toList_swap hb]; simp [pushed]
  · rw [h1, h2, Functors.toList_advance h0]; simp [pushed]

theorem history_run (h : Run (loopMachine F thread) EventLoop.new as s) :
    Idle s ∧ s.history = queued thread as := by
  refine h.history (I := fun as s => Idle s ∧ s.history = queued thread as)
    ⟨fun _ => rfl, rfl⟩ ?_
  rintro as t a u ⟨h1, h2⟩ he hs
  obtain rfl : t.step thread a = u := Except.ok.inj hs
  refine ⟨idle_step he h1, ?_⟩
  rw [history_step he h1, h2, queued, queued, List.filterMap_append]
  cases h0 : pushed thread a <;> simp [h0]

/-- The step calls a functor of the batch. -/
def isExec : Act F ι → Bool
  | .exec => true
  | _ => false

/-- What a round has left to do, and what it has done. -/
structure Round (s : EventLoop F ι) (cs : List (Act F ι)) (t : EventLoop F ι) : Prop where
  called : t.executed ++ t.functors = s.executed ++ s.functors
  count : cs.countP isExec + t.functors.length = s.functors.length

theorem round_step {a : Act F ι} (he : EventLoop.enabled thread t a) (ha : a ≠ .swap)
    (h : Round s cs t) : Round s (cs ++ [a]) (t.step thread a) := by
  have hnil : (cs ++ [a]).countP isExec = cs.countP isExec + if isExec a then 1 else 0 := by
    simp [List.countP_append, List.countP_cons]
  rcases step_queue t a he with ⟨f, h0, h1, h2, -⟩ | ⟨-, -, h0, h1, h2, -⟩ | ⟨h0, -⟩ |
    ⟨rfl, f, fs, -, h0, h1, h2, -⟩
  · have h3 : isExec a = false := by cases a <;> first | rfl | cases h0
    exact ⟨by rw [h1, h2]; exact h.called, by rw [hnil, h3, h1]; exact h.count⟩
  · have h3 : isExec a = false := by cases a <;> first | rfl | exact absurd rfl h0
    exact ⟨by rw [h1, h2]; exact h.called, by rw [hnil, h3, h1]; exact h.count⟩
  · exact absurd h0 ha
  · have hc := h.called
    have hn := h.count
    rw [h0] at hc hn
    refine ⟨?_, ?_⟩
    · rw [h1, h2, ← hc]; simp [Functors.advance, h0]
    · rw [hnil, h1, ← hn]; simp [Functors.advance, h0, isExec]; omega

theorem round_run (h : Run (loopMachine F thread) s cs t) (hcs : .swap ∉ cs) : Round s cs t := by
  refine h.history (I := fun cs t => .swap ∉ cs → Round s cs t)
    (fun _ => ⟨rfl, by simp⟩) ?_ hcs
  intro cs t a u ih he hs hmem
  obtain rfl : t.step thread a = u := Except.ok.inj hs
  simp only [List.mem_append, List.mem_singleton, not_or] at hmem
  exact round_step he (Ne.symm hmem.2) (ih hmem.1)

omit [DecidableEq ι] in
/-- In a batch the loop thread can go on: there is a functor to call, or the batch is done. -/
theorem round_progress (hp : s.phase = .running) (hm : thread ∉ s.mid) :
    EventLoop.enabled thread s (.exec : Act F ι) ∨ EventLoop.enabled thread s (.finish : Act F ι) :=
  if h : s.functors = [] then Or.inr ⟨hp, hm, h⟩ else Or.inl ⟨hp, hm, h⟩

/-- **Every functor is called once, in order.**  Whatever the threads and the functors queue, the
functors called, the rest of the batch and the queue are together the functors queued, in queueing
order.  A round calls the functors that were pending at its swap and no others: as many calls as
there were functors, so that it ends, and when it has ended all of them. -/
theorem functors_in_order (h : Run (loopMachine F thread) EventLoop.new as s) :
    s.executed ++ s.functors ++ s.pendingFunctor = queued thread as ∧
    ∀ bs cs, as = bs ++ .swap :: cs → .swap ∉ cs → ∃ t,
      Run (loopMachine F thread) EventLoop.new bs t ∧
      t.executed ++ t.pendingFunctor = queued thread bs ∧
      s.executed ++ s.functors = t.executed ++ t.pendingFunctor ∧
      cs.countP isExec + s.functors.length = t.pendingFunctor.length ∧
      (s.phase ≠ .running → s.functors = []) ∧
      (s.phase = .running → thread ∉ s.mid → EventLoop.enabled thread s (.exec : Act F ι) ∨
        EventLoop.enabled thread s (.finish : Act F ι)) := by
  refine ⟨?_, ?_⟩
  · have := (history_run h).2
    rwa [EventLoop.history, Functors.toList, ← List.append_assoc] at this
  · rintro bs cs rfl hcs
    obtain ⟨t, h1, h2⟩ := run_append.mp h
    cases h2 with
    | cons he hs h2 =>
      obtain rfl : t.step thread .swap = _ := Except.ok.inj hs
      have hidle : t.functors = [] := (history_run h1).1 (by rw [he.1]; nofun)
      have hq := (history_run h1).2
      rw [EventLoop.history, Functors.toList, hidle, List.nil_append] at hq
      obtain ⟨hcalled, hcount⟩ := round_run h2 hcs
      exact ⟨t, h1, hq, hcalled, hcount, (history_run h).1, round_progress⟩

/-- A functor that queues itself again while it runs. -/
theorem functors_in_order_requeue : ∃ s : EventLoop ℕ ℕ,
    Run (loopMachine ℕ 0) .new [.push 1 7, .loop, .signal 1, .poll, .swap, .exec, .push 0 7,
      .signal 0, .finish] s ∧
    s.executed ++ s.functors ++ s.pendingFunctor = [7, 7] := by
  obtain ⟨s, h⟩ : ∃ s : EventLoop ℕ ℕ, Run (loopMachine ℕ 0) .new [.push 1 7, .loop, .signal 1,
    .poll, .swap, .exec, .push 0 7, .signal 0, .finish] s := ⟨_, run_iff_exec.mpr rfl⟩
  exact ⟨s, h, (functors_in_order h).1⟩

/-! ### The wake-up

`wakeup` hands four bytes to a descriptor that takes eight, so no call of it has an effect, and a
functor is found in time only if the loop is on its way to the swap anyway. -/

/-- Where functors have been queued since `loop` began and the loop thread is about to block, a
readiness event is on its way. -/
def Woken (s : EventLoop F ι) : Prop :=
  s.phase = .polling → s.old < s.pendingFunctor.length → s.wakeupFd.ready = true

/-- The step queues no functor, or does so outside `loop`, or between the return of `epoll_wait` and
the swap. -/
def Quiet (thread : ι) (s : EventLoop F ι) (a : Act F ι) : Prop :=
  pushed thread a = none ∨ s.phase = .outside ∨ s.phase = .handling

instance (thread : ι) (s : EventLoop F ι) (a : Act F ι) : Decidable (Quiet thread s a) :=
  decidable_of_iff ((pushed thread a).isNone = true ∨ s.phase = .outside ∨ s.phase = .handling)
    (by rw [Option.isNone_iff_eq_none]; rfl)

/-- What holds of `old` and of the descriptor in every run. -/
structure Deaf (s : EventLoop F ι) : Prop where
  ready : s.wakeupFd.ready = false
  polling : s.phase = .polling → s.old ≤ s.pendingFunctor.length
  running : s.phase = .running → s.old = 0

theorem deaf_step {a : Act F ι} (he : EventLoop.enabled thread s a) (hs : Deaf s) :
    Deaf (s.step thread a) := by
  have hqueue : ∀ x f, Deaf (s.queue x f) := fun x f => by
    refine ⟨hs.ready, fun hp => ?_, hs.running⟩
    have := hs.polling hp
    simp only [EventLoop.queue, Functors.push, List.length_append, List.length_singleton]
    omega
  have hsame : ∀ t, EventLoop.Same s t → Deaf t := fun t h =>
    ⟨h.ready.trans hs.ready, by rw [h.phase, h.old, h.toFunctors]; exact hs.polling,
      by rw [h.phase, h.old]; exact hs.running⟩
  cases a with
  | push x f => exact hqueue x f
  | signal x => exact hsame _ (EventLoop.same_signal _ x s)
  | run x f =>
    show Deaf (s.runInLoop thread x f)
    unfold EventLoop.runInLoop
    split_ifs
    · exact hs
    · exact hqueue x f
  | quit x => exact hsame _ (EventLoop.same_setQuit _ x s)
  | loop => exact ⟨hs.ready, fun _ => Nat.le_refl _, nofun⟩
  | poll => exact ⟨rfl, nofun, nofun⟩
  | handleRead => exact ⟨hs.ready, hs.polling, hs.running⟩
  | swap => exact ⟨hs.ready, nofun, fun _ => rfl⟩
  | exec => exact ⟨hs.ready, hs.polling, hs.running⟩
  | finish =>
    refine ⟨hs.ready, fun _ => ?_, ?_⟩
    · have h0 : (s.step thread .finish).old = 0 := hs.running he.1
      rw [h0]; exact Nat.zero_le _
    · intro hp
      simp only [EventLoop.step] at hp
      split_ifs at hp

theorem deaf_run (h : Run (loopMachine F thread) s as t) (hs : Deaf s) : Deaf t :=
  h.invariant (fun _ _ _ h he hstep => by
    obtain rfl := Except.ok.inj hstep
    exact deaf_step he h) hs

omit [DecidableEq ι] in
theorem deaf_new : Deaf (EventLoop.new : EventLoop F ι) := ⟨rfl, nofun, nofun⟩

/-- In a quiet run nothing is pending where the loop is about to block, but for what was there when
`loop` began. -/
structure Settled (s : EventLoop F ι) : Prop where
  polling : s.phase = .polling → s.pendingFunctor.length = s.old
  running : s.phase = .running → s.pendingFunctor.length = s.old

theorem settled_step {a : Act F ι} (he : EventLoop.enabled thread s a) (ha : Quiet thread s a)
    (hs : Settled s) : Settled (s.step thread a) := by
  have hsame : ∀ t, EventLoop.Same s t → Settled t := fun t h =>
    ⟨by rw [h.phase, h.old, h.toFunctors]; exact hs.polling,
      by rw [h.phase, h.old, h.toFunctors]; exact hs.running⟩
  have hqueue : (s.phase = .outside ∨ s.phase = .handling) → ∀ x f, Settled (s.queue x f) := by
    intro hp x f
    have h1 : (s.queue x f).phase = s.phase := rfl
    constructor <;> rw [h1] <;> intro h2 <;> rw [h2] at hp <;> simp at hp
  cases a with
  | push x f =>
    rcases ha with h | h
    · cases h
    · exact hqueue h x f
  | signal x => exact hsame _ (EventLoop.same_signal _ x s)
  | run x f =>
    by_cases hx : x = thread
    · have h0 : s.step thread (.run x f) = s := if_pos hx
      rw [h0]; exact hs
    · have h0 : s.step thread (.run x f) = s.queue x f := if_neg hx
      rw [h0]
      rcases ha with h | h
      · simp [pushed, hx] at h
      · exact hqueue h x f
  | quit x => exact hsame _ (EventLoop.same_setQuit _ x s)
  | loop => exact ⟨fun _ => rfl, nofun⟩
  | poll => exact ⟨nofun, nofun⟩
  | handleRead => exact ⟨hs.polling, hs.running⟩
  | swap => exact ⟨nofun, fun _ => rfl⟩
  | exec => exact ⟨hs.polling, hs.running⟩
  | finish =>
    refine ⟨fun _ => hs.running he.1, fun hp => ?_⟩
    simp only [EventLoop.step] at hp
    split_ifs at hp

/-! To lose a wake-up, let every thread finish its call and the loop its batch. -/

theorem flush (thread : ι) (s : EventLoop F ι) : ∃ bs t, Run (loopMachine F thread) s bs t ∧
    t.mid = [] ∧ EventLoop.Same s t ∧ t.quit = s.quit := by
  generalize hn : s.mid.length = n
  induction n generalizing s with
  | zero => exact ⟨[], s, .nil s, List.eq_nil_of_length_eq_zero hn, ⟨rfl, rfl, rfl, rfl, rfl⟩, rfl⟩
  | succ n ih =>
    obtain ⟨x, xs, hx⟩ := List.exists_cons_of_length_eq_add_one hn
    have hmem : x ∈ s.mid := by rw [hx]; exact List.mem_cons_self
    have h1 := EventLoop.same_signal thread x s
    have hmid : (s.signal thread x).mid = s.mid.erase x := by
      unfold EventLoop.signal; dsimp only; split_ifs <;> rfl
    have hquit : (s.signal thread x).quit = s.quit := by
      unfold EventLoop.signal; dsimp only; split_ifs <;> rfl
    obtain ⟨bs, t, h2, h3, h4, h5⟩ := ih (s.signal thread x) (by
      rw [hmid, List.length_erase_of_mem hmem, hn]; rfl)
    exact ⟨.signal x :: bs, t, .cons hmem rfl h2, h3,
      ⟨h4.toFunctors.trans h1.toFunctors, h4.executed.trans h1.executed, h4.phase.trans h1.phase,
        h4.old.trans h1.old, h4.ready.trans h1.ready⟩, h5.trans hquit⟩

theorem drain (thread : ι) (fs : List F) : ∀ s : EventLoop F ι, s.functors = fs → s.phase = .running →
    s.mid = [] → s.quit = false → ∃ bs t, Run (loopMachine F thread) s bs t ∧ t.mid = [] ∧
      t.phase = .polling ∧ t.pendingFunctor = s.pendingFunctor ∧ t.old = s.old := by
  induction fs with
  | nil =>
    intro s hf hp hm hq
    refine ⟨[.finish], s.step thread .finish, .cons ⟨hp, by simp [hm], hf⟩ rfl (.nil _), hm, ?_,
      rfl, rfl⟩
    simp [EventLoop.step, hq]
  | cons f fs ih =>
    intro s hf hp hm hq
    obtain ⟨bs, t, h1, h2⟩ := ih (s.step thread .exec)
      (by simp [EventLoop.step, Functors.advance, hf]) hp hm hq
    exact ⟨.exec :: bs, t, .cons ⟨hp, by simp [hm], by simp [hf]⟩ rfl h1, h2⟩

/-- **When a wake-up is lost.**  In a run in which functors are queued only outside `loop` or
between the return of `epoll_wait` and the swap, none is.  Any other functor queued while the loop
goes on can be: the run has a continuation in which every call has returned, the loop thread is
about to block, the functor is pending and no readiness event will come. -/
theorem woken_run :
    (∀ (as : List (Act F ι)) s, Run (restrict (loopMachine F thread) (Quiet thread)) .new as s →
      Woken s) ∧
    (∀ (as : List (Act F ι)) s a, Run (loopMachine F thread) .new as s →
      EventLoop.enabled thread s a → s.quit = false → ¬ Quiet thread s a →
      ∃ bs t, Run (loopMachine F thread) s (a :: bs) t ∧ t.mid = [] ∧ ¬ Woken t) := by
  refine ⟨fun as s h hp hold => ?_, fun as s a h he hq ha => ?_⟩
  · have hset : Settled s := by
      refine h.invariant (I := Settled) ?_ ⟨nofun, nofun⟩
      rintro s a t hs ⟨he, ha⟩ hstep
      exact Except.ok.inj hstep ▸ settled_step he ha hs
    have := hset.polling hp
    omega
  · simp only [Quiet, not_or] at ha
    obtain ⟨ha, hp1, hp2⟩ := ha
    obtain ⟨f, hf⟩ := Option.ne_none_iff_exists'.mp ha
    -- the step only adds a functor to the queue
    have hstep : ∃ x, s.step thread a = s.queue x f := by
      cases a with
      | push x g => exact ⟨x, by simp only [pushed, Option.some.injEq] at hf; rw [← hf]; rfl⟩
      | run x g =>
        simp only [pushed] at hf
        split_ifs at hf with hx
        exact ⟨x, by rw [← Option.some.inj hf]; exact if_neg hx⟩
      | _ => cases hf
    obtain ⟨x, hx⟩ := hstep
    have hdeaf : Deaf s := deaf_run h deaf_new
    obtain ⟨bs, t, h1, h2, h3, h4⟩ := flush thread (s.step thread a)
    have hlen : t.pendingFunctor.length = s.pendingFunctor.length + 1 := by
      rw [h3.toFunctors, hx]; simp [EventLoop.queue, Functors.push]
    have hold : t.old = s.old := h3.old.trans (by rw [hx]; rfl)
    have hphase : t.phase = s.phase := h3.phase.trans (by rw [hx]; rfl)
    have hquit : t.quit = false := h4.trans (by rw [hx]; exact hq)
    have hrun : Run (loopMachine F thread) s (a :: bs) t := .cons he rfl h1
    by_cases hp : s.phase = .polling
    · refine ⟨bs, t, hrun, h2, fun hw => ?_⟩
      have h5 := hw (hphase.trans hp) (by have := hdeaf.polling hp; omega)
      rw [(deaf_run hrun hdeaf).ready] at h5
      cases h5
    · have hrunning : s.phase = .running := by cases hp3 : s.phase <;> simp_all
      obtain ⟨cs, v, h5, h6, h7, h8, h9⟩ :=
        drain thread _ t rfl (hphase.trans hrunning) h2 hquit
      have hrun' := hrun.append h5
      refine ⟨bs ++ cs, v, hrun', h6, fun hw => ?_⟩
      have h10 := hw h7 (by rw [h8, h9, hlen, hold, hdeaf.running hrunning]; omega)
      rw [(deaf_run hrun' hdeaf).ready] at h10
      cases h10

/-- A functor queued by a handler is called in the round that follows. -/
theorem woken_run_handler : ∃ s : EventLoop ℕ ℕ,
    Run (restrict (loopMachine ℕ 0) (Quiet 0)) .new
      [.loop, .poll, .push 1 7, .signal 1, .swap, .exec, .finish] s ∧ Woken s := by
  obtain ⟨s, h⟩ : ∃ s : EventLoop ℕ ℕ, Run (restrict (loopMachine ℕ 0) (Quiet 0)) .new
    [.loop, .poll, .push 1 7, .signal 1, .swap, .exec, .finish] s := ⟨_, run_iff_exec.mpr rfl⟩
  exact ⟨s, h, woken_run.1 _ s h⟩

/-- **A wake-up is lost**: another thread queues a functor while the loop is in `epoll_wait`. -/
theorem wakeup_lost : ∃ s : EventLoop ℕ ℕ,
    Run (loopMachine ℕ 0) .new [.loop, .push 1 7, .signal 1] s ∧ s.mid = [] ∧ ¬ Woken s := by
  refine ⟨_, run_iff_exec.mpr rfl, rfl, fun h => ?_⟩
  exact absurd (h rfl (by decide)) (by decide)

end ReactorServer.Net.Loop
