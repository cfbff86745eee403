import ReactorServer.Cpp
import ReactorServer.Lib.Monitors
import ReactorServer.Lib.Refinement
import Mathlib.Algebra.BigOperators.Group.Finset.Piecewise
import Mathlib.Algebra.GroupWithZero.Nat
import Mathlib.Algebra.Order.BigOperators.Group.Finset

/-!
# The latch

Any number of threads call `wait`, `countDown` and `getCount` of one `CountDownLatch`, each thread
what its plan says; a step is one statement of one of them, with the mutex and the condition of the
latch as a monitor.

The calls take effect one at a time, as calls of a counter without any mutex (`latch_atomic`), and a
`wait` not before the latch has been counted down.  If the calls of `countDown` that come before a
`wait` in their own thread are enough, every call returns (`latch_completes`).
-/

namespace ReactorServer.Sync.Latch

open ReactorServer.Cpp ReactorServer.Lib.Runs ReactorServer.Lib.Monitors
open ReactorServer.Lib.Refinement

/-! ### The model -/

inductive Call
  | wait
  | countDown
  | getCount
  deriving DecidableEq, Repr

/-- What a call has done. -/
inductive Event
  | waited
  | counted
  /-- `getCount` returns this -/
  | got (count : ℤ)
  deriving DecidableEq, Repr

/-- The call that has done it. -/
def Event.call : Event → Call
  | .waited => .wait
  | .counted => .countDown
  | .got _ => .getCount

/-- The next statement of a thread. -/
inductive Place
  /-- its next call, up to `MutexLockGuard lock(mutex_)` -/
  | outside
  /-- `while (count_ > 0)` -/
  | testing
  /-- the return of `cond_.wait()` -/
  | waiting
  /-- `--count_` -/
  | counting
  /-- `if (count_ == 0) cond_.notifyAll()` -/
  | notifying
  /-- `return count_` -/
  | reading
  /-- the end of the guard -/
  | unlocking
  deriving DecidableEq, Repr

/-- Inside the mutex. -/
def Place.inside : Place → Bool
  | .outside | .waiting => false
  | _ => true

/-- The first statement of a call behind its lock. -/
def Call.first : Call → Place
  | .wait => .testing
  | .countDown => .counting
  | .getCount => .reading

/-- The call that has not taken effect yet. -/
def Place.open : Place → List Call
  | .testing | .waiting => [.wait]
  | .counting => [.countDown]
  | .reading => [.getCount]
  | .outside | .notifying | .unlocking => []

/-- `plan` are the calls a thread has still to make; `log` is a record of what its calls have done. -/
structure CountDownLatch (ι : Type*) where
  count_ : ℤ
  mutex : Monitor ι Unit
  place : ι → Place
  plan : ι → List Call
  log : ι → List Event

inductive Act (ι : Type*)
  /-- the next call locks the mutex -/
  | enter (i : ι)
  | test (i : ι)
  /-- `pthread_cond_wait` has locked the mutex again -/
  | resume (i : ι)
  | count (i : ι)
  | notify (i : ι)
  | read (i : ι)
  | leave (i : ι)
  /-- a blocked thread wakes up for no reason -/
  | wake (i : ι)
  deriving DecidableEq

variable {ι : Type*} [DecidableEq ι]

namespace CountDownLatch

/-- `CountDownLatch(cnt)`, with the calls that will be made of it. -/
def new (cnt : ℤ) (plan : ι → List Call) : CountDownLatch ι :=
  ⟨cnt, .fresh, fun _ => .outside, plan, fun _ => []⟩

/-- Thread `i` goes on to `p`. -/
def goto (s : CountDownLatch ι) (i : ι) (p : Place) : CountDownLatch ι :=
  { s with place := Function.update s.place i p }

/-- Its call takes effect. -/
def record (s : CountDownLatch ι) (i : ι) (e : Event) : CountDownLatch ι :=
  { s with log := Function.update s.log i (s.log i ++ [e]) }

end CountDownLatch

def latchMachine (ι : Type*) [DecidableEq ι] : Machine (CountDownLatch ι) (Act ι) Fault where
  enabled s
    | .enter i => s.place i = .outside ∧ s.plan i ≠ [] ∧ s.mutex.owner = none
    | .test i => s.place i = .testing
    | .resume i => s.place i = .waiting ∧ s.mutex.blocked i = none ∧ s.mutex.owner = none
    | .count i => s.place i = .counting
    | .notify i => s.place i = .notifying
    | .read i => s.place i = .reading
    | .leave i => s.place i = .unlocking
    | .wake i => s.mutex.blocked i = some ()
  step s
    | .enter i =>
      match s.plan i with
      | [] => .error .outOfBounds
      | c :: cs => .ok { s.goto i c.first with
          plan := Function.update s.plan i cs, mutex := s.mutex.lock i }
    | .test i =>
      if 0 < s.count_ then .ok { s.goto i .waiting with mutex := s.mutex.wait i () }
      else .ok ((s.goto i .unlocking).record i .waited)
    | .resume i => .ok { s.goto i .testing with mutex := s.mutex.lock i }
    | .count i =>
      if s.count_ - 1 < -INT_MAX - 1 then .error .overflow
      else .ok { (s.goto i .notifying).record i .counted with count_ := s.count_ - 1 }
    | .notify i => .ok { s.goto i .unlocking with
        mutex := if s.count_ = 0 then s.mutex.notifyAll () else s.mutex }
    | .read i => .ok ((s.goto i .unlocking).record i (.got s.count_))
    | .leave i => .ok { s.goto i .outside with mutex := s.mutex.unlock }
    | .wake i => .ok { s with mutex := s.mutex.wake i }

instance (s : CountDownLatch ι) : ∀ a, Decidable ((latchMachine ι).enabled s a)
  | .enter _ => inferInstanceAs (Decidable (_ ∧ _ ∧ _))
  | .test _ => inferInstanceAs (Decidable (_ = _))
  | .resume _ => inferInstanceAs (Decidable (_ ∧ _ ∧ _))
  | .count _ => inferInstanceAs (Decidable (_ = _))
  | .notify _ => inferInstanceAs (Decidable (_ = _))
  | .read _ => inferInstanceAs (Decidable (_ = _))
  | .leave _ => inferInstanceAs (Decidable (_ = _))
  | .wake _ => inferInstanceAs (Decidable (_ = _))

variable {n : ℤ} {plan : ι → List Call} {s t : CountDownLatch ι} {a : Act ι} {as : List (Act ι)}
  {i j : ι}

/-! ### A counter without a mutex -/

/-- The count, and what each thread's calls have done. -/
structure Counter (ι : Type*) where
  count : ℤ
  log : ι → List Event

namespace Counter

def new (cnt : ℤ) : Counter ι := ⟨cnt, fun _ => []⟩

def record (x : Counter ι) (i : ι) (e : Event) : Counter ι :=
  { x with log := Function.update x.log i (x.log i ++ [e]) }

end Counter

/-- Whole calls, one at a time; a `wait` has to wait for its turn. -/
def counterMachine (ι : Type*) [DecidableEq ι] : Machine (Counter ι) (ι × Call) Empty where
  enabled x
    | (_, .wait) => x.count ≤ 0
    | (_, .countDown) => True
    | (_, .getCount) => True
  step x
    | (i, .wait) => .ok (x.record i .waited)
    | (i, .countDown) => .ok { x.record i .counted with count := x.count - 1 }
    | (i, .getCount) => .ok (x.record i (.got x.count))

/-- The latch as a counter. -/
def view (s : CountDownLatch ι) : Counter ι := ⟨s.count_, s.log⟩

/-- **A call takes effect in one step**, inside the mutex. -/
theorem simulates : Simulates (latchMachine ι) (counterMachine ι) fun s x => x = view s := by
  rintro s _ a t rfl he hs
  have hnone : view t = view s → ∃ bs y, Run (counterMachine ι) (view s) bs y ∧ y = view t :=
    fun h => ⟨[], view s, .nil _, h.symm⟩
  cases a with
  | enter i =>
    cases hp : s.plan i with
    | nil =>
      simp only [latchMachine, hp] at hs
      cases hs
    | cons c cs =>
      simp only [latchMachine, hp] at hs
      obtain rfl := Except.ok.inj hs
      exact hnone rfl
  | test i =>
    simp only [latchMachine] at hs
    split_ifs at hs with hpos
    · obtain rfl := Except.ok.inj hs
      exact hnone rfl
    · obtain rfl := Except.ok.inj hs
      exact ⟨[(i, .wait)], _, run_one (not_lt.mp hpos) rfl, rfl⟩
  | resume i =>
    obtain rfl := Except.ok.inj hs
    exact hnone rfl
  | count i =>
    simp only [latchMachine] at hs
    split_ifs at hs
    obtain rfl := Except.ok.inj hs
    exact ⟨[(i, .countDown)], _, run_one trivial rfl, rfl⟩
  | notify i =>
    obtain rfl := Except.ok.inj hs
    exact hnone rfl
  | read i =>
    obtain rfl := Except.ok.inj hs
    exact ⟨[(i, .getCount)], _, run_one trivial rfl, rfl⟩
  | leave i =>
    obtain rfl := Except.ok.inj hs
    exact hnone rfl
  | wake i =>
    obtain rfl := Except.ok.inj hs
    exact hnone rfl

/-! ### What the counter says -/

/-- The calls of `countDown` among these. -/
def downs (cs : List Call) : ℕ := cs.count .countDown

/-- The calls that have taken effect. -/
def done (x : Counter ι) (i : ι) : List Call := (x.log i).map Event.call

omit [DecidableEq ι] in
theorem downs_append (cs ds : List Call) : downs (cs ++ ds) = downs cs + downs ds :=
  List.count_append

@[simp] theorem Counter.record_log (x : Counter ι) (e : Event) :
    (x.record i e).log j = if j = i then x.log i ++ [e] else x.log j :=
  Function.update_apply x.log i (x.log i ++ [e]) j

theorem done_record (x : Counter ι) (e : Event) :
    done (x.record i e) j = if j = i then done x i ++ [e.call] else done x j := by
  unfold done
  rw [Counter.record_log]
  split_ifs
  · rw [List.map_append]
    rfl
  · rfl

section Finite
variable [Fintype ι]

theorem sum_done_record (x : Counter ι) (e : Event) :
    ∑ j, downs (done (x.record i e) j) = ∑ j, downs (done x j) + downs [e.call] := by
  have hpoint : ∀ j, downs (done (x.record i e) j) =
      downs (done x j) + if j = i then downs [e.call] else 0 := by
    intro j
    rw [done_record]
    split_ifs with hj
    · rw [downs_append, hj]
    · rfl
  simp only [hpoint, Finset.sum_add_distrib, Finset.sum_ite_eq', Finset.mem_univ, if_true]

/-- The count, and when a `wait` may have returned. -/
structure Counts (n : ℤ) (x : Counter ι) : Prop where
  count : x.count + ∑ i, downs (done x i) = n
  waited : ∀ i, .waited ∈ x.log i → x.count ≤ 0

theorem Counts.step {x y : Counter ι} {b : ι × Call} (h : Counts n x)
    (he : (counterMachine ι).enabled x b) (hs : (counterMachine ι).step x b = .ok y) :
    Counts n y := by
  have hlog : ∀ (i j : ι) (e : Event), .waited ∈ (x.record i e).log j →
      .waited ∈ x.log j ∨ e = .waited := by
    intro i j e hm
    rw [Counter.record_log] at hm
    split_ifs at hm with hj
    · rw [hj]
      exact (List.mem_append.mp hm).imp id fun h' => (List.mem_singleton.mp h').symm
    · exact Or.inl hm
  obtain ⟨i, c⟩ := b
  cases c with
  | wait =>
    obtain rfl := Except.ok.inj hs
    refine ⟨?_, fun j hj => he⟩
    rw [sum_done_record]
    exact h.count
  | countDown =>
    obtain rfl := Except.ok.inj hs
    constructor
    · have hsum := sum_done_record (i := i) x .counted
      have hcount := h.count
      show x.count - 1 + ((∑ j, downs (done (x.record i .counted) j) : ℕ) : ℤ) = n
      rw [hsum]
      have hone : downs [Event.counted.call] = 1 := rfl
      rw [hone]
      omega
    · intro j hj
      show x.count - 1 ≤ 0
      rcases hlog i j _ hj with hj | hj
      · have := h.waited j hj
        omega
      · cases hj
  | getCount =>
    obtain rfl := Except.ok.inj hs
    refine ⟨?_, fun j hj => ?_⟩
    · rw [sum_done_record]
      exact h.count
    · rcases hlog i j _ hj with hj | hj
      · exact h.waited j hj
      · cases hj

theorem counts_run {x : Counter ι} {bs : List (ι × Call)}
    (h : Run (counterMachine ι) (.new n) bs x) : Counts n x := by
  refine h.invariant (fun _ _ _ hx he hs => hx.step he hs) ⟨?_, fun i hi => ?_⟩
  · show n + ((∑ i : ι, 0 : ℕ) : ℤ) = n
    rw [Finset.sum_const_zero]
    exact Int.add_zero n
  · exact absurd hi List.not_mem_nil

theorem counts_latch (h : Run (latchMachine ι) (.new n plan) as s) : Counts n (view s) := by
  obtain ⟨bs, x, hrun, rfl⟩ := simulates.run h rfl
  exact counts_run hrun

end Finite

/-! ### The order of the calls -/

namespace CountDownLatch

@[simp] theorem goto_place (s : CountDownLatch ι) (p : Place) :
    (s.goto i p).place j = if j = i then p else s.place j :=
  Function.update_apply s.place i p j

@[simp] theorem goto_log (s : CountDownLatch ι) (p : Place) : (s.goto i p).log = s.log := rfl

@[simp] theorem goto_plan (s : CountDownLatch ι) (p : Place) : (s.goto i p).plan = s.plan := rfl

@[simp] theorem record_log (s : CountDownLatch ι) (e : Event) :
    (s.record i e).log j = if j = i then s.log i ++ [e] else s.log j :=
  Function.update_apply s.log i (s.log i ++ [e]) j

end CountDownLatch

/-- What a thread has done, what it is about to do and what is left are its plan. -/
def Follows (plan : ι → List Call) (s : CountDownLatch ι) : Prop :=
  ∀ i, done (view s) i ++ (s.place i).open ++ s.plan i = plan i

/-- Thread `i` goes on, and what takes effect then is no longer to be done. -/
theorem Follows.move (h : Follows plan s) {p : Place} {es : List Event}
    (hplan : t.plan = s.plan) (hplace : t.place = Function.update s.place i p)
    (hlog : ∀ j, t.log j = if j = i then s.log i ++ es else s.log j)
    (hopen : (s.place i).open = es.map Event.call ++ p.open) : Follows plan t := by
  intro j
  have hj := h j
  unfold done view at hj ⊢
  dsimp only at hj ⊢
  rw [hplan, hplace, hlog, Function.update_apply]
  split_ifs with hij
  · subst hij
    rw [hopen, ← List.append_assoc, ← List.map_append] at hj
    exact hj
  · exact hj

theorem Follows.go (h : Follows plan s) {p : Place} (hplan : t.plan = s.plan)
    (hplace : t.place = Function.update s.place i p) (hlog : t.log = s.log)
    (hopen : (s.place i).open = p.open) : Follows plan t := by
  have hlog' : ∀ j, t.log j = if j = i then s.log i ++ [] else s.log j := by
    intro j
    rw [hlog, List.append_nil]
    split_ifs with hij
    · rw [hij]
    · rfl
  exact h.move hplan hplace hlog' hopen

theorem Follows.step (h : Follows plan s) (he : (latchMachine ι).enabled s a)
    (hs : (latchMachine ι).step s a = .ok t) : Follows plan t := by
  cases a with
  | enter i =>
    cases hp : s.plan i with
    | nil =>
      simp only [latchMachine, hp] at hs
      cases hs
    | cons c cs =>
      simp only [latchMachine, hp] at hs
      obtain rfl := Except.ok.inj hs
      intro j
      have hj := h j
      unfold done view at hj ⊢
      simp only [CountDownLatch.goto_place, CountDownLatch.goto_log, Function.update_apply]
      split_ifs with hij
      · subst hij
        rw [he.1, hp] at hj
        rw [← hj]
        cases c <;> simp [Call.first, Place.open]
      · exact hj
  | test i =>
    have hi : s.place i = .testing := he
    simp only [latchMachine] at hs
    split_ifs at hs with hpos
    · obtain rfl := Except.ok.inj hs
      exact h.go rfl rfl rfl (by rw [hi]; rfl)
    · obtain rfl := Except.ok.inj hs
      exact h.move rfl rfl (fun j => CountDownLatch.record_log _ _) (by rw [hi]; rfl)
  | resume i =>
    obtain rfl := Except.ok.inj hs
    exact h.go rfl rfl rfl (by rw [he.1]; rfl)
  | count i =>
    have hi : s.place i = .counting := he
    simp only [latchMachine] at hs
    split_ifs at hs
    obtain rfl := Except.ok.inj hs
    exact h.move rfl rfl (fun j => CountDownLatch.record_log _ _) (by rw [hi]; rfl)
  | notify i =>
    have hi : s.place i = .notifying := he
    obtain rfl := Except.ok.inj hs
    exact h.go rfl rfl rfl (by rw [hi]; rfl)
  | read i =>
    have hi : s.place i = .reading := he
    obtain rfl := Except.ok.inj hs
    exact h.move rfl rfl (fun j => CountDownLatch.record_log _ _) (by rw [hi]; rfl)
  | leave i =>
    have hi : s.place i = .unlocking := he
    obtain rfl := Except.ok.inj hs
    exact h.go rfl rfl rfl (by rw [hi]; rfl)
  | wake i =>
    obtain rfl := Except.ok.inj hs
    exact h

theorem follows_run (h : Run (latchMachine ι) (.new n plan) as s) : Follows plan s :=
  h.invariant (fun _ _ _ hs he hstep => hs.step he hstep) fun _ => rfl

/-- **The latch is atomic.**  In every run the calls of all threads have taken effect one at a time,
each in the order of its thread's plan, as calls of a counter; and before a `wait` returns, `cnt` calls
of `countDown` have taken effect. -/
theorem latch_atomic [Fintype ι] (h : Run (latchMachine ι) (.new n plan) as s) :
    (∃ bs, Run (counterMachine ι) (.new n) bs (view s)) ∧
    (∀ i, done (view s) i ++ (s.place i).open ++ s.plan i = plan i) ∧
    ∀ i, .waited ∈ s.log i → n ≤ ∑ j, downs (done (view s) j) := by
  obtain ⟨bs, x, hrun, rfl⟩ := simulates.run h rfl
  have hcounts := counts_latch h
  refine ⟨⟨bs, hrun⟩, follows_run h, fun i hi => ?_⟩
  have hle := hcounts.waited i hi
  have hcount := hcounts.count
  omega

/-! ### Everything returns -/

/-- **The invariant of the monitor.** -/
structure Sound (s : CountDownLatch ι) : Prop where
  /-- the threads inside own the mutex -/
  owner : ∀ i, (s.place i).inside = true ↔ s.mutex.owner = some i
  /-- the threads blocked are in the wait -/
  waiting : ∀ i, s.mutex.blocked i = some () → s.place i = .waiting
  /-- a thread blocked on a latch that is down is going to be woken -/
  announced : s.count_ ≤ 0 → ∀ i, s.mutex.blocked i = some () →
    s.count_ = 0 ∧ ∃ j, s.place j = .notifying

omit [DecidableEq ι] in
theorem sound_new (n : ℤ) (plan : ι → List Call) : Sound (CountDownLatch.new n plan) where
  owner i := iff_of_false (by simp [CountDownLatch.new, Place.inside]) (by
    simp [CountDownLatch.new, Monitor.fresh])
  waiting i h := by cases h
  announced _ i h := by cases h

omit [DecidableEq ι] in
theorem Sound.unique (h : Sound s) (hi : (s.place i).inside = true)
    (hj : (s.place j).inside = true) : j = i := by
  have := (h.owner i).mp hi
  rw [(h.owner j).mp hj] at this
  exact Option.some.inj this

omit [DecidableEq ι] in
/-- While another is inside and not about to notify, nobody is blocked on a latch that is down. -/
theorem Sound.nobody (h : Sound s) (hi : (s.place i).inside = true) (hne : s.place i ≠ .notifying)
    (hle : s.count_ ≤ 0) : s.mutex.blocked j ≠ some () := by
  intro hj
  obtain ⟨-, k, hk⟩ := h.announced hle j hj
  have : k = i := h.unique hi (by rw [hk]; rfl)
  exact hne (this ▸ hk)

theorem Sound.lock (h : Sound s) (hfree : s.mutex.owner = none)
    (hout : s.mutex.blocked i = none) {p : Place} (hp : p.inside = true)
    (hplace : t.place = Function.update s.place i p) (hmutex : t.mutex = s.mutex.lock i)
    (hcount : t.count_ = s.count_) : Sound t := by
  have hnone : ∀ j, (s.place j).inside = false := by
    intro j
    have := h.owner j
    rw [hfree] at this
    simpa using this
  constructor
  · intro j
    rw [hplace, hmutex, Function.update_apply, Monitor.lock_owner]
    by_cases hj : j = i
    · simp [hj, hp]
    · simp [hj, hnone j, Ne.symm hj]
  · intro j hj
    rw [hmutex, Monitor.lock_blocked] at hj
    rw [hplace, Function.update_of_ne]
    · exact h.waiting j hj
    · rintro rfl
      rw [hout] at hj
      cases hj
  · intro hle j hj
    rw [hmutex, Monitor.lock_blocked] at hj
    obtain ⟨-, k, hk⟩ := h.announced (hcount ▸ hle) j hj
    have := hnone k
    rw [hk] at this
    cases this

/-- Going on inside the mutex, and out of it. -/
theorem Sound.go (h : Sound s) (hi : (s.place i).inside = true) {p : Place}
    (hplace : t.place = Function.update s.place i p)
    (howner : t.mutex.owner = if p.inside = true then some i else none)
    (hblocked : ∀ j, t.mutex.blocked j = some () →
      s.mutex.blocked j = some () ∨ j = i ∧ p = .waiting)
    (hannounced : t.count_ ≤ 0 → ∀ j, t.mutex.blocked j = some () →
      t.count_ = 0 ∧ ∃ k, t.place k = .notifying) : Sound t := by
  refine ⟨fun j => ?_, fun j hj => ?_, hannounced⟩
  · rw [hplace, howner, Function.update_apply]
    by_cases hj : j = i
    · by_cases hp : p.inside = true
      · simp [hj, hp]
      · simp [hj, hp]
    · have hout : ¬(s.place j).inside = true := fun h' => hj (h.unique hi h')
      by_cases hp : p.inside = true
      · simp [hj, hp, hout, Ne.symm hj]
      · simp [hj, hp, hout]
  · rcases hblocked j hj with hb | ⟨rfl, rfl⟩
    · rw [hplace, Function.update_of_ne]
      · exact h.waiting j hb
      · rintro rfl
        rw [h.waiting j hb] at hi
        cases hi
    · rw [hplace, Function.update_self]

theorem Sound.enter (h : Sound s) (he : (latchMachine ι).enabled s (.enter i))
    (hs : (latchMachine ι).step s (.enter i) = .ok t) : Sound t := by
  have hout : s.mutex.blocked i = none := by
    cases hb : s.mutex.blocked i with
    | none => rfl
    | some u =>
      have hwaiting := h.waiting i hb
      rw [he.1] at hwaiting
      cases hwaiting
  cases hp : s.plan i with
  | nil => exact absurd hp he.2.1
  | cons c cs =>
    simp only [latchMachine, hp] at hs
    obtain rfl := Except.ok.inj hs
    exact h.lock he.2.2 hout (p := c.first) (by cases c <;> rfl) rfl rfl rfl

theorem Sound.test (h : Sound s) (hi : s.place i = .testing)
    (hs : (latchMachine ι).step s (.test i) = .ok t) : Sound t := by
  have hinside : (s.place i).inside = true := by rw [hi]; rfl
  have hne : s.place i ≠ .notifying := by rw [hi]; nofun
  simp only [latchMachine] at hs
  split_ifs at hs with hpos
  · obtain rfl := Except.ok.inj hs
    refine h.go hinside (p := .waiting) rfl rfl (fun j hj => ?_)
      fun hle => absurd hpos (not_lt.mpr hle)
    rw [Monitor.wait_blocked] at hj
    split_ifs at hj with hij
    · exact Or.inr ⟨hij, rfl⟩
    · exact Or.inl hj
  · obtain rfl := Except.ok.inj hs
    exact h.go hinside (p := .unlocking) rfl ((h.owner i).mp hinside) (fun j hj => Or.inl hj)
      fun hle j hj => absurd hj (h.nobody hinside hne hle)

theorem Sound.count (h : Sound s) (hi : s.place i = .counting)
    (hs : (latchMachine ι).step s (.count i) = .ok t) : Sound t := by
  have hinside : (s.place i).inside = true := by rw [hi]; rfl
  have hne : s.place i ≠ .notifying := by rw [hi]; nofun
  simp only [latchMachine] at hs
  split_ifs at hs
  obtain rfl := Except.ok.inj hs
  refine h.go hinside (p := .notifying) rfl ((h.owner i).mp hinside) (fun j hj => Or.inl hj) ?_
  intro hle j hj
  -- a thread is blocked, so the latch was not down before
  have hpos : ¬s.count_ ≤ 0 := fun h' => h.nobody hinside hne h' hj
  have hle' : s.count_ - 1 ≤ 0 := hle
  exact ⟨show s.count_ - 1 = 0 by omega, i, Function.update_self ..⟩

theorem Sound.notify (h : Sound s) (hi : s.place i = .notifying)
    (hs : (latchMachine ι).step s (.notify i) = .ok t) : Sound t := by
  have hinside : (s.place i).inside = true := by rw [hi]; rfl
  obtain rfl := Except.ok.inj hs
  have hblocked : ∀ j, (if s.count_ = 0 then s.mutex.notifyAll () else s.mutex).blocked j =
      some () → s.mutex.blocked j = some () ∧ s.count_ ≠ 0 := by
    intro j hj
    split_ifs at hj with h0
    · rw [Monitor.notifyAll_blocked] at hj
      split_ifs at hj with hb
      exact absurd hj hb
    · exact ⟨hj, h0⟩
  refine h.go hinside (p := .unlocking) rfl ?_ (fun j hj => Or.inl (hblocked j hj).1)
    fun hle j hj => ?_
  · show (if s.count_ = 0 then s.mutex.notifyAll () else s.mutex).owner = some i
    split_ifs
    · exact (h.owner i).mp hinside
    · exact (h.owner i).mp hinside
  · exact absurd (h.announced hle j (hblocked j hj).1).1 (hblocked j hj).2

theorem Sound.wake (h : Sound s) (hs : (latchMachine ι).step s (.wake i) = .ok t) : Sound t := by
  obtain rfl := Except.ok.inj hs
  have hblocked : ∀ j, (s.mutex.wake i).blocked j = some () → s.mutex.blocked j = some () := by
    intro j hj
    rw [Monitor.wake_blocked] at hj
    split_ifs at hj
    exact hj
  exact ⟨h.owner, fun j hj => h.waiting j (hblocked j hj),
    fun hle j hj => h.announced hle j (hblocked j hj)⟩

/-- **One step.** -/
theorem Sound.step (h : Sound s) (he : (latchMachine ι).enabled s a)
    (hs : (latchMachine ι).step s a = .ok t) : Sound t := by
  cases a with
  | enter i => exact h.enter he hs
  | test i => exact h.test he hs
  | resume i =>
    obtain rfl := Except.ok.inj hs
    exact h.lock he.2.2 he.2.1 (p := .testing) rfl rfl rfl rfl
  | count i => exact h.count he hs
  | notify i => exact h.notify he hs
  | read i =>
    have hi : (s.place i).inside = true := by rw [show s.place i = .reading from he]; rfl
    have hne : s.place i ≠ .notifying := by rw [show s.place i = .reading from he]; nofun
    obtain rfl := Except.ok.inj hs
    exact h.go hi (p := .unlocking) rfl ((h.owner i).mp hi) (fun j hj => Or.inl hj)
      fun hle j hj => absurd hj (h.nobody hi hne hle)
  | leave i =>
    have hi : (s.place i).inside = true := by rw [show s.place i = .unlocking from he]; rfl
    have hne : s.place i ≠ .notifying := by rw [show s.place i = .unlocking from he]; nofun
    obtain rfl := Except.ok.inj hs
    exact h.go hi (p := .outside) rfl rfl (fun j hj => Or.inl hj)
      fun hle j hj => absurd hj (h.nobody hi hne hle)
  | wake i => exact h.wake hs

theorem sound_run (h : Run (latchMachine ι) (.new n plan) as s) : Sound s :=
  h.invariant (fun _ _ _ hs he hstep => hs.step he hstep) (sound_new n plan)

/-! ### A measure -/

/-- The steps a call has before it. -/
def callWeight (threads : ℕ) : Call → ℕ
  | .wait => 4
  | .countDown => 2 * threads + 4
  | .getCount => 3

/-- The steps a thread has before it in its call; a notification lifts the others by two each. -/
def placeWeight (threads : ℕ) (blocked : Bool) : Place → ℕ
  | .outside => 0
  | .testing => 3
  | .waiting => if blocked then 2 else 4
  | .counting => 2 * threads + 3
  | .notifying => 2 * threads + 2
  | .reading => 2
  | .unlocking => 1

section Finite
variable [Fintype ι]

def threadWeight (s : CountDownLatch ι) (i : ι) : ℕ :=
  placeWeight (Fintype.card ι) (s.mutex.blocked i).isSome (s.place i) +
    ((s.plan i).map (callWeight (Fintype.card ι))).sum

def weight (s : CountDownLatch ι) : ℕ := ∑ i, threadWeight s i

/-- Without wake-ups for no reason. -/
def steady (ι : Type*) [DecidableEq ι] : Machine (CountDownLatch ι) (Act ι) Fault :=
  restrict (latchMachine ι) fun _ a => ∀ i, a ≠ .wake i

omit [DecidableEq ι] in
theorem weight_lt (hi : threadWeight t i < threadWeight s i)
    (hother : ∀ j, j ≠ i → threadWeight t j = threadWeight s j) : weight t < weight s := by
  refine Finset.sum_lt_sum (fun j _ => ?_) ⟨i, Finset.mem_univ i, hi⟩
  by_cases hj : j = i
  · rw [hj]
    exact hi.le
  · exact (hother j hj).le

theorem weight_go {p : Place} (hplan : t.plan = s.plan)
    (hplace : t.place = Function.update s.place i p)
    (hblocked : ∀ j, j ≠ i → t.mutex.blocked j = s.mutex.blocked j)
    (hi : placeWeight (Fintype.card ι) (t.mutex.blocked i).isSome p <
      placeWeight (Fintype.card ι) (s.mutex.blocked i).isSome (s.place i)) : weight t < weight s := by
  refine weight_lt (i := i) ?_ fun j hj => ?_
  · unfold threadWeight
    rw [hplan, hplace, Function.update_self]
    omega
  · unfold threadWeight
    rw [hplan, hplace, Function.update_of_ne hj, hblocked j hj]

omit [Fintype ι] in
theorem placeWeight_le (N : ℕ) (b b' : Bool) (p : Place) :
    placeWeight N b p ≤ placeWeight N b' p + 2 := by
  cases p <;> cases b <;> cases b' <;> simp [placeWeight]

theorem weight_notify (hi : s.place i = .notifying) (hplan : t.plan = s.plan)
    (hplace : t.place = Function.update s.place i .unlocking) : weight t < weight s := by
  have hpoint : ∀ j, threadWeight t j + (if j = i then 2 * Fintype.card ι + 1 else 0) ≤
      threadWeight s j + 2 := by
    intro j
    unfold threadWeight
    rw [hplan, hplace, Function.update_apply]
    split_ifs with hj
    · rw [hj, hi]
      simp only [placeWeight]
      omega
    · have := placeWeight_le (Fintype.card ι) (t.mutex.blocked j).isSome
        (s.mutex.blocked j).isSome (s.place j)
      omega
  have hsum := Finset.sum_le_sum fun j (_ : j ∈ Finset.univ) => hpoint j
  have hconst : ∑ _j : ι, 2 = Fintype.card ι * 2 := Finset.sum_const_nat fun _ _ => rfl
  simp only [Finset.sum_add_distrib, Finset.sum_ite_eq', Finset.mem_univ, if_true, hconst] at hsum
  unfold weight
  omega

/-- What a call has before it is more than what is before it inside. -/
theorem enter_lowers (he : (latchMachine ι).enabled s (.enter i))
    (hs : (latchMachine ι).step s (.enter i) = .ok t) : weight t < weight s := by
  cases hp : s.plan i with
  | nil => exact absurd hp he.2.1
  | cons c cs =>
    simp only [latchMachine, hp] at hs
    obtain rfl := Except.ok.inj hs
    refine weight_lt (i := i) ?_ fun j hj => ?_
    · unfold threadWeight
      simp only [CountDownLatch.goto_place, if_true, Function.update_self, hp, he.1,
        List.map_cons, List.sum_cons]
      cases c <;> simp only [Call.first, placeWeight, callWeight] <;> omega
    · unfold threadWeight
      simp only [CountDownLatch.goto_place, if_neg hj, Function.update_of_ne hj,
        Monitor.lock_blocked]

/-- **Every step lowers the measure.** -/
theorem step_lowers (he : (steady ι).enabled s a) (hs : (steady ι).step s a = .ok t) :
    weight t < weight s := by
  have hs' : (latchMachine ι).step s a = .ok t := hs
  obtain ⟨he, hwake⟩ := he
  cases a with
  | enter i => exact enter_lowers he hs'
  | test i =>
    have hi : s.place i = .testing := he
    simp only [latchMachine] at hs'
    split_ifs at hs' with hpos
    · obtain rfl := Except.ok.inj hs'
      refine weight_go (i := i) rfl rfl (fun j hj => ?_) ?_
      · rw [Monitor.wait_blocked, if_neg hj]
      · rw [Monitor.wait_blocked, if_pos rfl, hi]
        exact Nat.lt_succ_self 2
    · obtain rfl := Except.ok.inj hs'
      refine weight_go (i := i) rfl rfl (fun j _ => rfl) ?_
      rw [hi]
      exact Nat.lt_succ_of_lt (Nat.lt_succ_self 1)
  | resume i =>
    obtain rfl := Except.ok.inj hs'
    refine weight_go (i := i) rfl rfl (fun j _ => rfl) ?_
    rw [he.1, he.2.1]
    exact Nat.lt_succ_self 3
  | count i =>
    have hi : s.place i = .counting := he
    simp only [latchMachine] at hs'
    split_ifs at hs'
    obtain rfl := Except.ok.inj hs'
    refine weight_go (i := i) rfl rfl (fun j _ => rfl) ?_
    rw [hi]
    exact Nat.lt_succ_self _
  | notify i =>
    have hi : s.place i = .notifying := he
    obtain rfl := Except.ok.inj hs'
    exact weight_notify hi rfl rfl
  | read i =>
    have hi : s.place i = .reading := he
    obtain rfl := Except.ok.inj hs'
    refine weight_go (i := i) rfl rfl (fun j _ => rfl) ?_
    rw [hi]
    exact Nat.lt_succ_self 1
  | leave i =>
    have hi : s.place i = .unlocking := he
    obtain rfl := Except.ok.inj hs'
    refine weight_go (i := i) rfl rfl (fun j _ => rfl) ?_
    rw [hi]
    exact Nat.zero_lt_one
  | wake i => exact absurd rfl (hwake i)

/-! ### Somebody can go on -/

/-- The calls of `countDown` that come before a `wait`. -/
def early (cs : List Call) : ℕ := downs (cs.takeWhile (· ≠ .wait))

/-- All calls have returned. -/
def Returned (s : CountDownLatch ι) : Prop := ∀ i, s.place i = .outside ∧ s.plan i = []

omit [Fintype ι] [DecidableEq ι] in
/-- A thread that is not inside and cannot go on, on a latch that is not down, has made all its early
calls. -/
theorem early_le (hf : Follows plan s) (hlog : .waited ∉ s.log i)
    (hplace : s.place i = .outside ∧ s.plan i = [] ∨ s.place i = .waiting) :
    early (plan i) ≤ downs (done (view s) i) := by
  have hnone : ∀ c ∈ done (view s) i, decide (c ≠ .wait) = true := by
    intro c hc
    obtain ⟨e, he, rfl⟩ := List.mem_map.mp hc
    cases e with
    | waited => exact absurd he hlog
    | counted => rfl
    | got v => rfl
  have hi := hf i
  unfold early
  rcases hplace with ⟨hp, hplan⟩ | hp
  · rw [hp, hplan] at hi
    rw [← hi, List.append_assoc, List.takeWhile_append_of_pos hnone]
    simp [Place.open]
  · rw [hp] at hi
    rw [← hi, List.append_assoc, List.takeWhile_append_of_pos hnone]
    simp [Place.open]

omit [DecidableEq ι] in
theorem downs_lt {f g : ι → ℕ} (h : ∀ j, f j ≤ g j) (hi : f i < g i) : ∑ j, f j < ∑ j, g j :=
  Finset.sum_lt_sum (fun j _ => h j) ⟨i, Finset.mem_univ i, hi⟩

/-- No step fails: the count does not leave the range of an `int`. -/
theorem step_returns (hf : Follows plan s) (hc : Counts n (view s))
    (hrange : ∑ i, downs (plan i) ≤ n + INT_MAX + 1) (he : (latchMachine ι).enabled s a) :
    ∃ t, (latchMachine ι).step s a = .ok t := by
  cases a with
  | enter i =>
    cases hp : s.plan i with
    | nil => exact absurd hp he.2.1
    | cons c cs =>
      simp only [latchMachine, hp]
      exact ⟨_, rfl⟩
  | test i =>
    simp only [latchMachine]
    split_ifs
    · exact ⟨_, rfl⟩
    · exact ⟨_, rfl⟩
  | count i =>
    have hi : s.place i = .counting := he
    have hle : ∀ j, downs (done (view s) j) ≤ downs (plan j) := by
      intro j
      rw [← hf j, downs_append, downs_append]
      omega
    have hlt : downs (done (view s) i) < downs (plan i) := by
      rw [← hf i, hi, downs_append, downs_append]
      have hone : downs (Place.open .counting) = 1 := rfl
      omega
    have hsum := downs_lt hle hlt
    have hcount : s.count_ + ∑ j, downs (done (view s) j) = n := hc.count
    simp only [latchMachine]
    rw [if_neg (by omega)]
    exact ⟨_, rfl⟩
  | _ => exact ⟨_, rfl⟩

/-- **Nobody waits for nothing.** -/
theorem returned_or_moves (h : Sound s) (hf : Follows plan s) (hc : Counts n (view s))
    (hearly : n ≤ ∑ i, early (plan i)) (hrange : ∑ i, downs (plan i) ≤ n + INT_MAX + 1) :
    Returned s ∨ Moves (steady ι) s := by
  by_cases hdone : Returned s
  · exact Or.inl hdone
  refine Or.inr ⟨?_, fun a he => step_returns hf hc hrange he.1⟩
  cases ho : s.mutex.owner with
  | some j =>
    have hin := (h.owner j).mpr ho
    cases hp : s.place j with
    | outside => rw [hp] at hin; cases hin
    | waiting => rw [hp] at hin; cases hin
    | testing => exact ⟨.test j, hp, fun _ => nofun⟩
    | counting => exact ⟨.count j, hp, fun _ => nofun⟩
    | notifying => exact ⟨.notify j, hp, fun _ => nofun⟩
    | reading => exact ⟨.read j, hp, fun _ => nofun⟩
    | unlocking => exact ⟨.leave j, hp, fun _ => nofun⟩
  | none =>
    by_contra hstuck
    have hout : ∀ i, (s.place i).inside = false := by
      intro i
      have := h.owner i
      rw [ho] at this
      simpa using this
    have hplace : ∀ i, s.place i = .outside ∧ s.plan i = [] ∨
        s.place i = .waiting ∧ s.mutex.blocked i = some () := by
      intro i
      have hi := hout i
      cases hp : s.place i with
      | outside =>
        refine Or.inl ⟨rfl, ?_⟩
        by_contra hplan
        exact hstuck ⟨.enter i, ⟨hp, hplan, ho⟩, fun _ => nofun⟩
      | waiting =>
        refine Or.inr ⟨rfl, ?_⟩
        cases hb : s.mutex.blocked i with
        | some u => rfl
        | none => exact absurd ⟨.resume i, ⟨hp, hb, ho⟩, fun _ => nofun⟩ hstuck
      | _ => rw [hp] at hi; cases hi
    -- somebody is blocked, so the latch is not down
    have hpos : 0 < s.count_ := by
      by_contra hle
      refine hdone fun i => (hplace i).resolve_right fun hi => ?_
      obtain ⟨-, j, hj⟩ := h.announced (not_lt.mp hle) i hi.2
      have := hout j
      rw [hj] at this
      cases this
    have hlog : ∀ i, .waited ∉ s.log i := fun i hi =>
      absurd (hc.waited i hi) (not_le.mpr hpos)
    have hsum : ∑ i, early (plan i) ≤ ∑ i, downs (done (view s) i) :=
      Finset.sum_le_sum fun i _ => early_le hf (hlog i) ((hplace i).imp id And.left)
    have hcount : s.count_ + ∑ j, downs (done (view s) j) = n := hc.count
    omega

/-- **The latch opens.**  Let the calls of `countDown` that come before a `wait` in their own thread
be `cnt` at least, and all of them not so many that `count_` leaves its range.  Then from every state
that can be reached, whatever threads have been woken for no reason by then, all calls return, whatever
the order of the steps. -/
theorem latch_completes (hearly : n ≤ ∑ i, early (plan i))
    (hrange : ∑ i, downs (plan i) ≤ n + INT_MAX + 1)
    (h : Run (latchMachine ι) (.new n plan) as s) : Completes (steady ι) Returned s := by
  refine completes_of_measure
    (I := fun s => Sound s ∧ Follows plan s ∧ Counts n (view s)) weight ?_ ?_
    ⟨sound_run h, follows_run h, counts_latch h⟩
  · rintro s a t ⟨hs, hf, hc⟩ he hstep
    refine ⟨⟨hs.step he.1 hstep, hf.step he.1 hstep, ?_⟩, step_lowers he hstep⟩
    obtain ⟨bs, y, hrun, rfl⟩ := simulates s (view s) a t rfl he.1 hstep
    exact hrun.invariant (fun _ _ _ hx he hs => hx.step he hs) hc
  · rintro s ⟨hs, hf, hc⟩
    exact returned_or_moves hs hf hc hearly hrange

end Finite

/-! ### One thread waits for another -/

/-- `true` counts the latch down; `false` waits for it and looks at the count. -/
def twoThreads : Bool → List Call
  | true => [.countDown]
  | false => [.wait, .getCount]

theorem latch_atomic_two : ∃ s : CountDownLatch Bool,
    Run (latchMachine Bool) (.new 1 twoThreads)
      [.enter false, .test false, .enter true, .count true, .notify true, .leave true,
        .resume false, .test false, .leave false] s ∧
    .waited ∈ s.log false ∧ (1 : ℤ) ≤ ∑ j, downs (done (view s) j) := by
  have h : ∃ s : CountDownLatch Bool, Run (latchMachine Bool) (.new 1 twoThreads)
      [.enter false, .test false, .enter true, .count true, .notify true, .leave true,
        .resume false, .test false, .leave false] s ∧ .waited ∈ s.log false :=
    ⟨_, run_iff_exec.mpr rfl, by decide⟩
  obtain ⟨s, hrun, hlog⟩ := h
  exact ⟨s, hrun, hlog, (latch_atomic hrun).2.2 false hlog⟩

theorem latch_completes_two :
    Completes (steady Bool) Returned (CountDownLatch.new 1 twoThreads) :=
  latch_completes (by decide) (by decide) (.nil _)

end ReactorServer.Sync.Latch
