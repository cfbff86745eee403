import ReactorServer.Net.Loop

/-!
# A loop in a thread of its own

An `EventLoopThread`: the owner calls `startLoop` and later destroys it, the child runs `threadFunc`
and in it `EventLoop::loop`.  A step is one statement of one of them, `Thread::start` cut at
`pthread_create` and at its latch.  The functions that the loop calls back, and `threadCB_`, may call
`quit` themselves.

`loop` begins with `quit_ = false`, and the owner is let go before that: a `quit` that comes too
early is undone, and nobody repeats it (`quit_lost`).
-/

namespace ReactorServer.Net.LoopThread

open ReactorServer.Cpp ReactorServer.Lib.Runs ReactorServer.Net.Loop

/-! ### The model -/

/-- The next statement of the owner. -/
inductive Owner
  /-- the call of `startLoop` -/
  | calling
  /-- `pthread_create` -/
  | creating
  /-- `latch_.wait()` -/
  | latching
  /-- `MutexLockGuard lock(mutex_)` -/
  | locking
  /-- `while (loop_ == nullptr)` -/
  | checking
  /-- the return of `cond_.wait()` -/
  | waiting
  /-- the end of the guarded block -/
  | unlocking
  /-- the destructor, whenever the owner likes -/
  | started
  /-- `if (loop_ != nullptr)` -/
  | exiting
  /-- `quit_ = true` of `loop_->quit()` -/
  | quitting
  /-- `wakeup()`, the rest of `quit` -/
  | waking
  /-- `thread_.join()` -/
  | joining
  /-- nothing, behind `join` -/
  | joined
  /-- nothing, where `loop_` was null -/
  | skipped
  deriving DecidableEq, Repr

/-- The next statement of the child. -/
inductive Child
  /-- nothing: there is no thread yet -/
  | absent
  /-- `latch_->countDown()` -/
  | starting
  /-- `EventLoop loop` -/
  | constructing
  /-- `threadCB_(&loop)` -/
  | initializing
  /-- `MutexLockGuard lock(mutex_)` -/
  | locking
  /-- `loop_ = &loop` -/
  | publishing
  /-- `cond_.notify()` -/
  | notifying
  /-- the end of the guarded block -/
  | unlocking
  /-- `loop_->loop()`, up to `looping_ = true` -/
  | entering
  /-- `quit_ = false` -/
  | clearing
  /-- `while (!quit_)` -/
  | testing
  /-- the return of `epoll_wait` -/
  | polling
  /-- the handlers -/
  | handling
  /-- `doPendingFunctors()` -/
  | running
  /-- `looping_ = false` -/
  | leaving
  /-- `quit_ = true`, the last statement of `loop` -/
  | marking
  /-- `loop_ = nullptr` -/
  | forgetting
  /-- `~EventLoop` -/
  | destroying
  /-- nothing: the thread has ended -/
  | ended
  deriving DecidableEq, Repr

inductive Party
  | owner
  | child
  deriving DecidableEq, Repr

/-- The `EventLoopThread` with its `Thread` and the child's `EventLoop`.  `published` is
`loop_ != nullptr`, `alive` whether there is an `EventLoop`, `woken` whether `epoll_wait` has
reported the wake-up descriptor. -/
structure EventLoopThread where
  owner : Owner
  child : Child
  mutex : Option Party
  published : Bool
  exiting : Bool
  started : Bool
  joined : Bool
  latch : ℕ
  alive : Bool
  quit : Bool
  looping : Bool
  wakeupFd : Eventfd
  woken : Bool
  deriving DecidableEq, Repr

inductive Act
  /-- the owner's next statement -/
  | owner
  /-- `pthread_create` fails -/
  | createFails
  /-- the child's next statement -/
  | child
  /-- a function called back by the child calls `quit` -/
  | callback
  deriving DecidableEq, Repr

/-- The constructor of `EventLoopThread`. -/
def EventLoopThread.new : EventLoopThread where
  owner := .calling
  child := .absent
  mutex := none
  published := false
  exiting := false
  started := false
  joined := false
  latch := 1
  alive := false
  quit := false
  looping := false
  wakeupFd := ⟨0, false⟩
  woken := false

/-- `loop_->`: there has to be an object. -/
def deref (s : EventLoopThread) : Except Fault Unit :=
  if s.published = true ∧ s.alive = true then .ok () else .error .outOfBounds

/-- What the owner does next. -/
def ownerStep (s : EventLoopThread) : Except Fault EventLoopThread :=
  match s.owner with
  | .calling => do
    assert .startLoop (s.started = false)
    pure { s with owner := .creating }
  | .creating => do
    assert .threadStart (s.started = false)
    pure { s with started := true, child := .starting, owner := .latching }
  | .latching => .ok { s with owner := .locking }
  | .locking => .ok { s with mutex := some .owner, owner := .checking }
  | .checking =>
    if s.published then .ok { s with owner := .unlocking }
    else .ok { s with mutex := none, owner := .waiting }
  | .waiting => .ok { s with mutex := some .owner, owner := .checking }
  | .unlocking => .ok { s with mutex := none, owner := .started }
  | .started => .ok { s with exiting := true, owner := .exiting }
  | .exiting =>
    if s.published then .ok { s with owner := .quitting } else .ok { s with owner := .skipped }
  | .quitting => do
    deref s
    pure { s with quit := true, owner := .waking }
  | .waking =>
    -- `this` of `quit`, which may be gone by now
    if s.alive then .ok { s with wakeupFd := s.wakeupFd.write sizeofInt 1, owner := .joining }
    else .error .outOfBounds
  | .joining => do
    assert .threadJoin (s.started = true ∧ s.joined = false)
    pure { s with joined := true, owner := .joined }
  | .joined | .skipped => .ok s

/-- What the child does next. -/
def childStep (s : EventLoopThread) : Except Fault EventLoopThread :=
  match s.child with
  | .absent => .ok s
  | .starting => .ok { s with latch := s.latch - 1, child := .constructing }
  | .constructing => .ok { s with
      alive := true, quit := false, looping := false, wakeupFd := ⟨0, false⟩, child := .initializing }
  | .initializing => .ok { s with child := .locking }
  | .locking => .ok { s with mutex := some .child, child := .publishing }
  | .publishing => .ok { s with published := true, child := .notifying }
  | .notifying => .ok { s with child := .unlocking }
  | .unlocking => .ok { s with mutex := none, child := .entering }
  | .entering => do
    assert .loop (s.looping = false)
    pure { s with looping := true, child := .clearing }
  | .clearing => .ok { s with quit := false, child := .testing }
  | .testing => .ok { s with child := if s.quit then .leaving else .polling }
  | .polling => .ok { s with
      woken := s.wakeupFd.ready, wakeupFd := { s.wakeupFd with ready := false }, child := .handling }
  | .handling => .ok { s with
      woken := false, child := .running
      wakeupFd := if s.woken then s.wakeupFd.read sizeofInt else s.wakeupFd }
  | .running => .ok { s with child := .testing }
  | .leaving => .ok { s with looping := false, child := .marking }
  | .marking => .ok { s with quit := true, child := .forgetting }
  | .forgetting => .ok { s with published := false, child := .destroying }
  | .destroying => .ok { s with alive := false, child := .ended }
  | .ended => .ok s

/-- The owner waits for the mutex, for the latch and for the end of the child; a wait for the
condition may end at any time, notified or not. -/
def ownerReady (s : EventLoopThread) : Bool :=
  match s.owner with
  | .latching => s.latch = 0
  | .locking | .waiting => s.mutex = none
  | .joining => s.child = .ended
  | .joined | .skipped => false
  | _ => true

def childReady (s : EventLoopThread) : Bool :=
  match s.child with
  | .locking => s.mutex = none
  | .absent | .ended => false
  | _ => true

def enabled (s : EventLoopThread) : Act → Prop
  | .owner => ownerReady s = true
  | .createFails => s.owner = .creating
  | .child => childReady s = true
  | .callback => s.child = .initializing ∨ s.child = .handling ∨ s.child = .running

instance (s : EventLoopThread) : ∀ a, Decidable (enabled s a)
  | .owner => inferInstanceAs (Decidable (_ = true))
  | .createFails => inferInstanceAs (Decidable (_ = Owner.creating))
  | .child => inferInstanceAs (Decidable (_ = true))
  | .callback => inferInstanceAs (Decidable (_ ∨ _ ∨ _))

def step (s : EventLoopThread) : Act → Except Fault EventLoopThread
  | .owner => ownerStep s
  | .createFails => do
    assert .threadStart (s.started = false)
    pure { s with started := false, owner := .locking }
  | .child => childStep s
  | .callback => .ok { s with quit := true }

def threadMachine : Machine EventLoopThread Act Fault := ⟨enabled, step⟩

instance (s : EventLoopThread) (a : Act) : Decidable (threadMachine.enabled s a) :=
  inferInstanceAs (Decidable (enabled s a))

variable {s t u : EventLoopThread} {a : Act} {as : List Act}

/-! ### When a quit is lost -/

namespace Child

/-- The child is behind the `quit_ = false` of `loop`. -/
def isCleared : Child → Bool
  | .testing | .polling | .handling | .running | .leaving | .marking | .forgetting | .destroying
  | .ended => true
  | _ => false

/-- The child has left `loop` for good. -/
def hasLeft : Child → Bool
  | .forgetting | .destroying | .ended => true
  | _ => false

/-- `loop_` points to the child's loop. -/
def isPublished : Child → Bool
  | .notifying | .unlocking | .entering | .clearing | .testing | .polling | .handling | .running
  | .leaving | .marking | .forgetting => true
  | _ => false

/-- The child has made its loop and not destroyed it yet. -/
def isAlive : Child → Bool
  | .absent | .starting | .constructing | .ended => false
  | _ => true

/-- `looping_` is set. -/
def isLooping : Child → Bool
  | .clearing | .testing | .polling | .handling | .running | .leaving => true
  | _ => false

/-- The child has stored its loop in `loop_`, if only for a time. -/
def hasPublished (c : Child) : Bool :=
  c.isPublished || c.hasLeft

theorem isAlive_of_isPublished {c : Child} (h : c.isPublished = true) : c.isAlive = true := by
  revert h
  cases c <;> simp [isPublished, isAlive]

theorem isPublished_of_hasPublished {c : Child} (h : c.hasPublished = true)
    (hc : c.isCleared = false) : c.isPublished = true := by
  revert h hc
  cases c <;> simp [hasPublished, isPublished, hasLeft, isCleared]

end Child

namespace Owner

/-- The owner has seen `loop_ != nullptr` in `startLoop`. -/
def hasLoop : Owner → Bool
  | .unlocking | .started | .exiting | .quitting | .waking | .joining | .joined | .skipped => true
  | _ => false

/-- The owner is behind the `quit_ = true` of `quit`. -/
def hasQuit : Owner → Bool
  | .waking | .joining | .joined => true
  | _ => false

end Owner

/-- `quit` has returned to the owner, the child is on its way into `loop` or in it, and `quit_` is
not set. -/
def Lost (s : EventLoopThread) : Prop :=
  (s.owner = .joining ∨ s.owner = .joined) ∧ s.child.hasLeft = false ∧ s.quit = false

/-- The owner's `quit_ = true` comes behind the child's `quit_ = false`. -/
def Late (s : EventLoopThread) (a : Act) : Prop :=
  a = .owner → s.owner = .quitting → s.child.isCleared = true

instance (s : EventLoopThread) (a : Act) : Decidable (Late s a) :=
  inferInstanceAs (Decidable (_ → _ → _))

/-- What holds in a run in which the owner quits late. -/
def Quits (s : EventLoopThread) : Prop :=
  s.owner.hasQuit = true → s.child.isCleared = true ∧ s.quit = true

/-- The child's statements leave the owner alone, and behind `quit_ = false` they keep a quit. -/
theorem childStep_cleared (hs : childStep s = .ok t) : t.owner = s.owner ∧
    (s.child.isCleared = true → t.child.isCleared = true ∧ (s.quit = true → t.quit = true)) := by
  cases hc : s.child <;> simp only [childStep, hc] at hs
  case entering =>
    obtain ⟨-, -, h⟩ := bind_eq_ok.mp hs
    obtain rfl := Except.ok.inj h
    exact ⟨rfl, fun h => absurd h (by decide)⟩
  case testing =>
    obtain rfl := Except.ok.inj hs
    refine ⟨rfl, fun _ => ⟨?_, id⟩⟩
    show (if s.quit = true then Child.leaving else Child.polling).isCleared = true
    split <;> rfl
  case marking =>
    obtain rfl := Except.ok.inj hs
    exact ⟨rfl, fun _ => ⟨rfl, fun _ => rfl⟩⟩
  case ended =>
    obtain rfl := Except.ok.inj hs
    exact ⟨rfl, fun _ => ⟨by rw [hc]; rfl, id⟩⟩
  all_goals
    obtain rfl := Except.ok.inj hs
    refine ⟨rfl, fun h => ?_⟩
    first | exact absurd h (by decide) | exact ⟨rfl, id⟩

/-- **What the owner's statements do**: they start the child and set `quit_`, and leave it alone
otherwise; the owner goes on with a loop only where it has seen one. -/
structure OwnerStep (s t : EventLoopThread) : Prop where
  published : t.published = s.published
  alive : t.alive = s.alive
  looping : t.looping = s.looping
  child : t.child = s.child ∨ s.owner = .creating ∧ t.owner = .latching ∧ t.child = .starting
  calling : t.owner = .calling ∨ t.owner = .creating → s.owner = .calling ∨ s.owner = .creating
  hasLoop : t.owner.hasLoop = true → s.owner.hasLoop = true ∨ s.published = true
  quit : (t.owner.hasQuit = true → s.owner.hasQuit = true ∧ t.quit = s.quit) ∨
    (s.owner = .quitting ∧ t.quit = true)

theorem ownerStep_spec (hs : ownerStep s = .ok t) : OwnerStep s t := by
  cases ho : s.owner <;> simp only [ownerStep, ho] at hs
  case calling | creating | quitting | joining =>
    obtain ⟨-, -, h⟩ := bind_eq_ok.mp hs
    obtain rfl := Except.ok.inj h
    constructor <;> simp [ho, Owner.hasLoop, Owner.hasQuit]
  case checking | exiting =>
    split at hs
    all_goals
      rename_i hp
      obtain rfl := Except.ok.inj hs
      constructor <;> simp [ho, hp, Owner.hasLoop, Owner.hasQuit]
  case waking =>
    split at hs
    · obtain rfl := Except.ok.inj hs
      constructor <;> simp [ho, Owner.hasLoop, Owner.hasQuit]
    · cases hs
  all_goals
    obtain rfl := Except.ok.inj hs
    constructor <;> simp [ho, Owner.hasLoop, Owner.hasQuit]

/-- **One step keeps a quit that came late.** -/
theorem quits_step (hs : Quits s) (ha : Late s a) (hstep : step s a = .ok t) : Quits t := by
  intro hq
  cases a with
  | owner =>
    have h := ownerStep_spec hstep
    have hc : t.child = s.child := by
      refine h.child.resolve_right fun h0 => ?_
      rw [h0.2.1] at hq
      cases hq
    rw [hc]
    rcases h.quit with h0 | ⟨ho, ht⟩
    · rw [(h0 hq).2]
      exact hs (h0 hq).1
    · exact ⟨ha rfl ho, ht⟩
  | createFails =>
    obtain ⟨-, -, h⟩ := bind_eq_ok.mp hstep
    obtain rfl := Except.ok.inj h
    cases hq
  | child =>
    obtain ⟨ho, hc⟩ := childStep_cleared hstep
    rw [ho] at hq
    obtain ⟨h1, h2⟩ := hs hq
    obtain ⟨h3, h4⟩ := hc h1
    exact ⟨h3, h4 h2⟩
  | callback =>
    obtain rfl := Except.ok.inj hstep
    exact ⟨(hs hq).1, rfl⟩

/-! ### What the owner may rely on -/

/-- What holds in every run: where the child is when the owner has a loop, and which of the flags
the child has stored. -/
structure Together (s : EventLoopThread) : Prop where
  published : s.published = s.child.isPublished
  alive : s.alive = s.child.isAlive
  looping : s.looping = s.child.isLooping
  hasLoop : s.owner.hasLoop = true → s.child.hasPublished = true
  calling : s.owner = .calling ∨ s.owner = .creating → s.child = .absent

theorem together_new : Together .new :=
  ⟨rfl, rfl, rfl, fun h => absurd h Bool.false_ne_true, fun _ => rfl⟩

theorem together_owner (hs : Together s) (h : OwnerStep s t) : Together t := by
  rcases h.child with hc | ⟨ho, ht, hc⟩
  · refine ⟨?_, ?_, ?_, fun h0 => ?_, fun h0 => ?_⟩
    · rw [h.published, hc, hs.published]
    · rw [h.alive, hc, hs.alive]
    · rw [h.looping, hc, hs.looping]
    · rw [hc]
      rcases h.hasLoop h0 with h1 | h1
      · exact hs.hasLoop h1
      · rw [hs.published] at h1
        rw [Child.hasPublished, h1]
        rfl
    · rw [hc]
      exact hs.calling (h.calling h0)
  · have habs := hs.calling (Or.inr ho)
    refine ⟨?_, ?_, ?_, fun h0 => ?_, fun h0 => ?_⟩
    · rw [h.published, hc, hs.published, habs]; rfl
    · rw [h.alive, hc, hs.alive, habs]; rfl
    · rw [h.looping, hc, hs.looping, habs]; rfl
    · rw [ht] at h0; cases h0
    · rw [ht] at h0; simp at h0

theorem together_child (hs : Together s) (hr : childReady s = true) (hstep : childStep s = .ok t) :
    Together t := by
  have ho := (childStep_cleared hstep).1
  obtain ⟨h1, h2, h3, h4, h5⟩ := hs
  have hcall : s.owner = .calling ∨ s.owner = .creating → t.child = .absent := fun h => by
    simp [childReady, h5 h] at hr
  cases hc : s.child <;> rw [hc] at h1 h2 h3 h4 <;> simp only [childStep, hc] at hstep
  case absent | ended => simp [childReady, hc] at hr
  case entering =>
    obtain ⟨-, -, h⟩ := bind_eq_ok.mp hstep
    obtain rfl := Except.ok.inj h
    exact ⟨h1, h2, rfl, h4, hcall⟩
  case testing =>
    obtain rfl := Except.ok.inj hstep
    by_cases hq : s.quit = true
    · rw [if_pos hq] at hcall ⊢
      exact ⟨h1, h2, h3, h4, hcall⟩
    · rw [if_neg hq] at hcall ⊢
      exact ⟨h1, h2, h3, h4, hcall⟩
  case constructing =>
    obtain rfl := Except.ok.inj hstep
    exact ⟨h1, rfl, rfl, h4, hcall⟩
  case publishing =>
    obtain rfl := Except.ok.inj hstep
    exact ⟨rfl, h2, h3, fun _ => rfl, hcall⟩
  case leaving =>
    obtain rfl := Except.ok.inj hstep
    exact ⟨h1, h2, rfl, h4, hcall⟩
  case forgetting =>
    obtain rfl := Except.ok.inj hstep
    exact ⟨rfl, h2, h3, h4, hcall⟩
  case destroying =>
    obtain rfl := Except.ok.inj hstep
    exact ⟨h1, rfl, h3, h4, hcall⟩
  all_goals
    obtain rfl := Except.ok.inj hstep
    exact ⟨h1, h2, h3, h4, hcall⟩

theorem together_run (h : Run threadMachine .new as s) : Together s := by
  refine h.invariant (I := Together) (fun s a t hs he hstep => ?_) together_new
  cases a with
  | owner => exact together_owner hs (ownerStep_spec hstep)
  | createFails =>
    have ho : s.owner = .creating := he
    obtain ⟨-, -, h⟩ := bind_eq_ok.mp hstep
    obtain rfl := Except.ok.inj h
    exact ⟨hs.published, hs.alive, hs.looping, fun h => absurd h Bool.false_ne_true,
      fun h => by simp at h⟩
  | child => exact together_child hs he hstep
  | callback =>
    obtain rfl := Except.ok.inj hstep
    exact ⟨hs.published, hs.alive, hs.looping, hs.hasLoop, hs.calling⟩

/-- From the publication to `quit_ = false` the child runs on its own, whatever `quit_` is. -/
theorem clear_run (hs : Together s) (hp : s.published = true) (hc : s.child.isCleared = false) :
    ∃ n t, Run threadMachine s (List.replicate n .child) t ∧ t.owner = s.owner ∧
      t.child = .testing ∧ t.quit = false := by
  have h1 := hs.published
  have h3 := hs.looping
  obtain ⟨owner, child, mutex, published, exiting, started, joined, latch, alive, quit, looping,
    wakeupFd, woken⟩ := s
  dsimp only at h1 h3 hp hc
  subst hp h3
  cases child
  case clearing => exact ⟨1, _, run_iff_exec.mpr rfl, rfl, rfl, rfl⟩
  case entering => exact ⟨2, _, run_iff_exec.mpr rfl, rfl, rfl, rfl⟩
  case unlocking => exact ⟨3, _, run_iff_exec.mpr rfl, rfl, rfl, rfl⟩
  case notifying => exact ⟨4, _, run_iff_exec.mpr rfl, rfl, rfl, rfl⟩
  all_goals first | exact absurd h1 (by decide) | exact absurd hc (by decide)

/-- **When a quit is lost.**  In a run in which the owner's `quit_ = true` comes behind the child's
`quit_ = false`, no quit is.  Any other can be: the run has a continuation in which `quit` has
returned to the owner, the child is in `loop` and `quit_` is not set. -/
theorem quit_kept (h : Run threadMachine .new as s) :
    (Run (restrict threadMachine Late) .new as s → ¬Lost s) ∧
    ∀ a, threadMachine.enabled s a → ¬Late s a →
      ∃ bs u, Run threadMachine s (a :: bs) u ∧ Lost u := by
  refine ⟨fun hlate hlost => ?_, fun a he ha => ?_⟩
  · have hq : Quits s := by
      refine hlate.invariant (I := Quits) ?_ fun h => absurd h Bool.false_ne_true
      rintro s a t hs ⟨-, ha⟩ hstep
      exact quits_step hs ha hstep
    obtain ⟨ho, -, hquit⟩ := hlost
    have hset : s.owner.hasQuit = true := by
      rcases ho with ho | ho <;> rw [ho] <;> rfl
    rw [(hq hset).2] at hquit
    cases hquit
  · simp only [Late, Classical.not_imp, Bool.not_eq_true] at ha
    obtain ⟨rfl, ho, hc⟩ := ha
    have hs := together_run h
    have hpub : s.child.isPublished = true :=
      Child.isPublished_of_hasPublished (hs.hasLoop (by rw [ho]; rfl)) hc
    have hp : s.published = true := hs.published.trans hpub
    have hl : s.alive = true := hs.alive.trans (Child.isAlive_of_isPublished hpub)
    -- so the store of `quit` finds the loop, and so does the `wakeup` behind it
    have hstep : ownerStep s = .ok { s with quit := true, owner := .waking } := by
      simp only [ownerStep, ho, deref, if_pos (And.intro hp hl)]
      rfl
    have hrun := Run.cons (M := threadMachine) he hstep (.nil _)
    have hwake : Run threadMachine s [.owner, .owner] { s with
        quit := true, wakeupFd := s.wakeupFd.write sizeofInt 1, owner := .joining } :=
      hrun.append (.cons rfl (if_pos hl) (.nil _))
    obtain ⟨n, u, hu, ho', hc', hq'⟩ := clear_run (together_run (h.append hwake)) hp hc
    refine ⟨_, u, hwake.append hu, Or.inl ho', ?_, hq'⟩
    rw [hc']
    rfl

theorem quit_kept_polling : ∃ s, Run threadMachine .new
    (List.replicate 2 .owner ++ List.replicate 7 .child ++ List.replicate 4 .owner ++
      List.replicate 3 .child ++ List.replicate 4 .owner ++ List.replicate 8 .child ++ [.owner]) s ∧
    s.owner = .joined ∧ ¬Lost s := by
  have hexec : ((restrict threadMachine Late).exec .new
    (List.replicate 2 .owner ++ List.replicate 7 .child ++ List.replicate 4 .owner ++
      List.replicate 3 .child ++ List.replicate 4 .owner ++ List.replicate 8 .child ++ [.owner])).map
      (·.owner) = some .joined := by
    decide +kernel
  obtain ⟨s, hs, howner⟩ := Option.map_eq_some_iff.mp hexec
  have hrun := run_iff_exec.mpr hs
  exact ⟨s, hrun.of_restrict, howner, (quit_kept hrun.of_restrict).1 hrun⟩

/-- **A quit is lost**: the owner quits as soon as the child has published its loop. -/
theorem quit_lost : ∃ s, Run threadMachine .new
    (List.replicate 2 .owner ++ List.replicate 7 .child ++ List.replicate 8 .owner ++
      List.replicate 2 .child) s ∧ Lost s :=
  ⟨_, run_iff_exec.mpr rfl, Or.inl rfl, rfl, rfl⟩

end ReactorServer.Net.LoopThread
