import ReactorServer.Lib.Refinement
import ReactorServer.Pool.ThreadPool
import Mathlib.Algebra.Order.BigOperators.Group.Finset

/-!
# Destroying the thread pool

The thread pool from `threadPool_init` to `threadPool_destroy`.  The steps of the producers and of
the workers are those of `ThreadPool`, but for the two tests of `threadPool_keepAlive` in
`threadPool_job_do`, which are steps of their own now; the thread that calls `threadPool_destroy`
takes one for the assignment, each `sem_post`, each `pthread_join` and the rest.  Jobs may be added
while the workers are being joined.  The code does not wait for those who add them and takes no mutex
to empty the queue; here nobody is adding a job when it is emptied, and this is one step.

Until then the pool does what the pool of `ThreadPool` does (`shutdown_refines`): a worker that has
seen the flag set is, to `ThreadPool`, one that `sem_wait` has let through, and there is a job for
it.  Once the flag is down, a worker waits in `sem_wait` once at most, so that the posts to come are
always enough for the workers that may be waiting (`Granted`).
-/

namespace ReactorServer.Pool.Shutdown

open ReactorServer.Cpp ReactorServer.Lib.Runs ReactorServer.Lib.Triples ReactorServer.Lib.Refinement
open ReactorServer.Lib.DoublyLinked ReactorServer.Pool.JobQueue

/-! ### The model -/

/-- Where a worker is in `threadPool_job_do`. -/
inductive Phase (A J : Type)
  /-- about to test `threadPool_keepAlive` in the loop -/
  | testing
  /-- in `sem_wait` -/
  | waiting
  /-- between `sem_wait` and the test behind it -/
  | woken
  /-- between this test and the section under the mutex -/
  | entered
  /-- with a job it has removed and not called yet -/
  | holding (a : A) (job : J)
  /-- with a job it has called and not freed yet -/
  | finished (a : A)
  /-- `threadPool_job_do` has returned -/
  | returned
  deriving DecidableEq, Repr

def Phase.isHolding {A J : Type} : Phase A J → Bool
  | .holding _ _ => true
  | _ => false

def Phase.isFinished {A J : Type} : Phase A J → Bool
  | .finished _ => true
  | _ => false

/-- Where the caller of `threadPool_destroy` is. -/
inductive Stage
  | notCalled
  /-- with so many calls of `sem_post` to go -/
  | posting (left : ℕ)
  /-- about to join this thread; behind the last one, about to empty the queue -/
  | joining (i : ℕ)
  | freed
  deriving DecidableEq, Repr

/-- The calls of `sem_post` to go. -/
def Stage.left : Stage → ℕ
  | .posting left => left
  | _ => 0

/-- Behind a call of `sem_post`, with so many to go. -/
def Stage.posted (left : ℕ) : Stage := if left = 0 then .joining 0 else .posting left

/-- `threadPool->number`: what `threadPool_init` makes of its argument. -/
def poolSize (number : ℤ) : ℕ :=
  let number := if number < 1 then 20 else number
  let number := if number > 50 then 50 else number
  number.toNat

/-- The pool, `threadPool_keepAlive`, and the records of `ThreadPool` with a fourth one: the jobs
that were still in the queue when it was freed. -/
structure threadPool_t (A J : Type) (n : ℕ) where
  jobQueue : thread_job_queue A J
  made : List A
  worker : Fin n → Phase A J
  keepAlive : Bool
  stage : Stage
  added : List J
  took : List (Fin n × J)
  executed : List (Fin n × J)
  dropped : List J

inductive Act (A J : Type) (n : ℕ)
  /-- `threadPool_add_work` up to the mutex -/
  | malloc (a : A) (job : J) (prev next : Option A)
  /-- its section under the mutex -/
  | add (a : A)
  /-- `while (threadPool_keepAlive)` -/
  | test (w : Fin n)
  /-- `sem_wait` returns -/
  | wait (w : Fin n)
  /-- `if (threadPool_keepAlive)` -/
  | enter (w : Fin n)
  /-- the section under the mutex of `threadPool_job_do` -/
  | take (w : Fin n)
  /-- `function(args)` -/
  | call (w : Fin n)
  /-- `free(job)` -/
  | free (w : Fin n)
  /-- `threadPool_keepAlive = 0` -/
  | destroy
  /-- a `sem_post` of `threadPool_destroy` -/
  | post
  /-- `pthread_join` returns -/
  | join
  /-- `threadPool_jobQueue_empty` as a whole, while no job is being added -/
  | empty
  deriving DecidableEq, Repr

variable {A J : Type} [DecidableEq A] {n : ℕ}

/-- `threadPool_init`. -/
def threadPool_init (number : ℤ) : threadPool_t A J (poolSize number) where
  jobQueue := threadPool_jobQueue_init fun _ => none
  made := []
  worker := fun _ => .testing
  keepAlive := true
  stage := .notCalled
  added := []
  took := []
  executed := []
  dropped := []

def setWorker (w : Fin n) (p : Phase A J) (s : threadPool_t A J n) : threadPool_t A J n :=
  { s with worker := Function.update s.worker w p }

def setMemory (m : Memory A J) (s : threadPool_t A J n) : threadPool_t A J n :=
  { s with jobQueue := { s.jobQueue with memory := m } }

/-- The section under the mutex of `threadPool_job_do`. -/
def take (w : Fin n) (s : threadPool_t A J n) : Except Fault (threadPool_t A J n) := do
  let job := threadPool_jobQueue_peek s.jobQueue
  let (a, node) ← deref s.jobQueue.memory job
  let (ret, q) ← threadPool_jobQueue_removeLast s.jobQueue
  let s := { s with jobQueue := q }
  if ret ≠ 0 then pure (setWorker w .returned s)
  else pure { setWorker w (.holding a node.job) s with took := s.took ++ [(w, node.job)] }

/-- The loop of `threadPool_jobQueue_empty`, with so many rounds to go: every round takes one off
`number`.  The jobs of the nodes it frees come with the queue. -/
def emptyLoop : ℕ → Option A → thread_job_queue A J →
    Except Fault (List J × thread_job_queue A J)
  | 0, _, q => .ok ([], q)
  | k + 1, curJob, q => do
    let (a, node) ← deref q.memory curJob
    let (jobs, q) ← emptyLoop k node.prev { q with
      tail := node.prev
      memory := Function.update q.memory a none
      number := q.number - 1 }
    pure (node.job :: jobs, q)

def threadPool_jobQueue_empty (q : thread_job_queue A J) :
    Except Fault (List J × thread_job_queue A J) := do
  let (jobs, q) ← emptyLoop q.number.toNat q.tail q
  pure (jobs, { q with head := none, tail := none })

/-- A job is not added to a pool that has been freed, and a pool is not freed while a job is being
added to it. -/
def enabled (s : threadPool_t A J n) : Act A J n → Prop
  | .malloc a _ _ _ => s.jobQueue.memory a = none ∧ s.stage ≠ .freed
  | .add a => a ∈ s.made
  | .test w => s.worker w = .testing
  | .wait w => s.worker w = .waiting ∧ 0 < s.jobQueue.queueSem
  | .enter w => s.worker w = .woken
  | .take w => s.worker w = .entered
  | .call w => (s.worker w).isHolding = true
  | .free w => (s.worker w).isFinished = true
  | .destroy => s.stage = .notCalled
  | .post => 0 < s.stage.left
  | .join => ∃ w : Fin n, s.stage = .joining w ∧ s.worker w = .returned
  | .empty => s.stage = .joining n ∧ s.made = []

def step (s : threadPool_t A J n) : Act A J n → Except Fault (threadPool_t A J n)
  | .malloc a job prev next =>
    .ok { setMemory (Function.update s.jobQueue.memory a (some ⟨job, prev, next⟩)) s with
      made := s.made ++ [a] }
  | .add a => do
    let q ← threadPool_jobQueue_add (some a) s.jobQueue
    pure { s with
      jobQueue := q
      made := s.made.erase a
      added := s.added ++ (jobOf q.memory a).toList }
  | .test w => .ok (setWorker w (if s.keepAlive then .waiting else .returned) s)
  | .wait w =>
    .ok (setWorker w .woken
      { s with jobQueue := { s.jobQueue with queueSem := s.jobQueue.queueSem - 1 } })
  | .enter w => .ok (setWorker w (if s.keepAlive then .entered else .testing) s)
  | .take w => take w s
  | .call w =>
    match s.worker w with
    | .holding a job =>
      .ok { setWorker w (.finished a) s with executed := s.executed ++ [(w, job)] }
    | _ => .error .outOfBounds
  | .free w =>
    match s.worker w with
    | .finished a =>
      -- a pointer that has been freed must not be freed again
      if (s.jobQueue.memory a).isSome then
        .ok (setWorker w .testing (setMemory (Function.update s.jobQueue.memory a none) s))
      else .error .outOfBounds
    | _ => .error .outOfBounds
  -- one `sem_post` for each thread, and one for nobody
  | .destroy => .ok { s with keepAlive := false, stage := .posting (n + 1) }
  | .post =>
    match s.stage with
    | .posting (k + 1) =>
      .ok { s with
        jobQueue := sem_post s.jobQueue
        stage := .posted k }
    | _ => .error .outOfBounds
  | .join =>
    match s.stage with
    | .joining i => .ok { s with stage := .joining (i + 1) }
    | _ => .error .outOfBounds
  | .empty => do
    let (jobs, q) ← threadPool_jobQueue_empty s.jobQueue
    pure { s with jobQueue := q, stage := .freed, dropped := jobs }

instance [DecidableEq J] (s : threadPool_t A J n) : ∀ a, Decidable (enabled s a)
  | .malloc _ _ _ _ => inferInstanceAs (Decidable (_ ∧ _))
  | .add _ => inferInstanceAs (Decidable (_ ∈ _))
  | .test _ => inferInstanceAs (Decidable (_ = _))
  | .wait _ => inferInstanceAs (Decidable (_ ∧ _))
  | .enter _ => inferInstanceAs (Decidable (_ = _))
  | .take _ => inferInstanceAs (Decidable (_ = _))
  | .call _ => inferInstanceAs (Decidable (_ = _))
  | .free _ => inferInstanceAs (Decidable (_ = _))
  | .destroy => inferInstanceAs (Decidable (_ = _))
  | .post => inferInstanceAs (Decidable (_ < _))
  | .join => inferInstanceAs (Decidable (∃ _, _))
  | .empty => inferInstanceAs (Decidable (_ ∧ _))

def shutdownMachine (A J : Type) [DecidableEq A] (n : ℕ) :
    Machine (threadPool_t A J n) (Act A J n) Fault where
  enabled := enabled
  step := step

instance [DecidableEq J] (s : threadPool_t A J n) (a : Act A J n) :
    Decidable ((shutdownMachine A J n).enabled s a) :=
  inferInstanceAs (Decidable (enabled s a))

/-! ### The pool before it is freed -/

/-- What `ThreadPool` tells apart: a worker that has seen the flag set is one that `sem_wait` has let
through, and any other without a job is waiting. -/
def Phase.plain : Phase A J → ThreadPool.Phase A J
  | .entered => .woken
  | .holding a job => .holding a job
  | .finished a => .finished a
  | _ => .waiting

def Phase.isWoken : Phase A J → Bool
  | .woken => true
  | _ => false

def Phase.isWaiting : Phase A J → Bool
  | .waiting => true
  | _ => false

/-- The pools have the same queue, but for the semaphore, and the workers the same jobs. -/
structure Plain (s : threadPool_t A J n) (x : ThreadPool.threadPool_t A J (Fin n)) : Prop where
  jobQueue : s.jobQueue = { x.jobQueue with queueSem := s.jobQueue.queueSem }
  made : x.made = s.made
  worker : x.worker = fun w => (s.worker w).plain
  added : x.added = s.added
  took : x.took = s.took
  executed : x.executed = s.executed

variable {s t : threadPool_t A J n} {x y : ThreadPool.threadPool_t A J (Fin n)} {w : Fin n}

/-! ### Counting workers -/

/-- The numbers of the workers, added up. -/
def total (g : Phase A J → ℕ) (f : Fin n → Phase A J) : ℕ := ∑ w, g (f w)

omit [DecidableEq A] in
theorem total_erase (g : Phase A J → ℕ) (f : Fin n → Phase A J) (w : Fin n) :
    ∑ v ∈ Finset.univ \ {w}, g (f v) + g (f w) = total g f := by
  rw [Finset.sdiff_singleton_eq_erase]
  exact Finset.sum_erase_add _ (fun v => g (f v)) (Finset.mem_univ w)

omit [DecidableEq A] in
theorem total_update (g : Phase A J → ℕ) (f : Fin n → Phase A J) (w : Fin n) (p : Phase A J) :
    total g (Function.update f w p) + g (f w) = total g f + g p := by
  have hsum : total g (Function.update f w p) = ∑ v, Function.update (fun v => g (f v)) w (g p) v :=
    Finset.sum_congr rfl fun v _ => Function.apply_update (fun _ => g) f w p v
  have hrest := total_erase g f w
  rw [hsum, Finset.sum_update_of_mem (Finset.mem_univ w)]
  omega

omit [DecidableEq A] in
theorem le_total (g : Phase A J → ℕ) (f : Fin n → Phase A J) (w : Fin n) : g (f w) ≤ total g f := by
  have := total_erase g f w
  omega

/-- The workers in `sem_wait`, and those that it has just let through. -/
def asleep (s : threadPool_t A J n) : ℕ := total (fun p => p.isWaiting.toNat) s.worker
def awake (s : threadPool_t A J n) : ℕ := total (fun p => p.isWoken.toNat) s.worker

/-! ### The invariant -/

/-- As long as the flag is up, the semaphore counts the jobs that no worker has come for; once it is
down, it is enough, with the posts to come, for the workers that may still be waiting and for one
more. -/
structure Granted (s : threadPool_t A J n) (k : ℕ) : Prop where
  up : s.keepAlive = true → s.stage = .notCalled ∧ s.jobQueue.queueSem + awake s = k ∧
    ∀ w, s.worker w ≠ .returned
  down : s.keepAlive = false → s.stage ≠ .notCalled ∧
    asleep s + 1 ≤ s.jobQueue.queueSem + s.stage.left

/-- The pool before it is freed, as a pool of `ThreadPool`. -/
structure Sound (s : threadPool_t A J n) (x : ThreadPool.threadPool_t A J (Fin n)) : Prop where
  plain : Plain s x
  ordered : ∃ l, ThreadPool.Ordered x l
  granted : Granted s x.jobQueue.queueSem
  posting : s.stage ≠ .posting 0
  joined : ∀ i, s.stage = .joining i → i ≤ n ∧ ∀ w : Fin n, w < i → s.worker w = .returned
  unfreed : s.stage ≠ .freed

/-- The pool after it has been freed: no node is left, no worker is left, and every job that was
added has been called once, or was the job of a node in the queue. -/
structure Freed (s : threadPool_t A J n) : Prop where
  stage : s.stage = .freed
  memory : ∀ a, s.jobQueue.memory a = none
  empty : s.jobQueue.head = none ∧ s.jobQueue.tail = none ∧ s.jobQueue.number = 0
  made : s.made = []
  returned : ∀ w, s.worker w = .returned
  jobs : s.added = s.took.map Prod.snd ++ s.dropped
  once : ∀ w, ThreadPool.doneBy w s.took = ThreadPool.doneBy w s.executed

/-! ### One step of a worker -/

omit [DecidableEq A] in
theorem asleep_le (s : threadPool_t A J n) : asleep s ≤ n := by
  have hle : ∀ p : Phase A J, p.isWaiting.toNat ≤ 1 := fun p => Bool.toNat_le _
  calc ∑ w, (s.worker w).isWaiting.toNat ≤ ∑ _w : Fin n, 1 :=
        Finset.sum_le_sum fun w _ => hle (s.worker w)
    _ = n := by simp

omit [DecidableEq A] in
theorem plain_update {p : Phase A J} (f : Fin n → Phase A J) (w : Fin n) :
    (fun v => (Function.update f w p v).plain) =
      Function.update (fun v => (f v).plain) w p.plain :=
  funext fun v => Function.apply_update (fun _ => Phase.plain) f w p v

omit [DecidableEq A] in
theorem Plain.sees (h : Plain s x) (w : Fin n) : x.worker w = (s.worker w).plain := by rw [h.worker]

omit [DecidableEq A] in
/-- What a worker does alone is not seen from outside. -/
theorem Plain.alone (h : Plain s x) {p : Phase A J} (hp : p.plain = (s.worker w).plain) :
    Plain (setWorker w p s) x := by
  refine ⟨h.jobQueue, h.made, ?_, h.added, h.took, h.executed⟩
  show x.worker = fun v => (Function.update s.worker w p v).plain
  rw [plain_update, hp, h.worker]
  exact (Function.update_eq_self w _).symm

theorem Sound.goes (h : Sound s x) {p : Phase A J} (hw : s.worker w ≠ .returned)
    (hworker : t.worker = Function.update s.worker w p) (hstage : t.stage = s.stage)
    (hplain : Plain t y) (hordered : ∃ l, ThreadPool.Ordered y l)
    (hgranted : Granted t y.jobQueue.queueSem) : Sound t y := by
  refine ⟨hplain, hordered, hgranted, ?_, fun i hi => ?_, ?_⟩
  · rw [hstage]
    exact h.posting
  · rw [hstage] at hi
    obtain ⟨hle, hjoined⟩ := h.joined i hi
    refine ⟨hle, fun v hv => ?_⟩
    have hne : v ≠ w := fun heq => hw (heq ▸ hjoined v hv)
    rw [hworker, Function.update_of_ne hne]
    exact hjoined v hv
  · rw [hstage]
    exact h.unfreed

omit [DecidableEq A] in
theorem asleep_update {p : Phase A J} (hworker : t.worker = Function.update s.worker w p) :
    asleep t + (s.worker w).isWaiting.toNat = asleep s + p.isWaiting.toNat := by
  unfold asleep
  rw [hworker]
  exact total_update _ s.worker w p

omit [DecidableEq A] in
theorem awake_update {p : Phase A J} (hworker : t.worker = Function.update s.worker w p) :
    awake t + (s.worker w).isWoken.toNat = awake s + p.isWoken.toNat := by
  unfold awake
  rw [hworker]
  exact total_update _ s.worker w p

omit [DecidableEq A] in
theorem returned_update {p : Phase A J} (hs : ∀ v, s.worker v ≠ .returned) (hp : p ≠ .returned)
    (hworker : t.worker = Function.update s.worker w p) (v : Fin n) : t.worker v ≠ .returned := by
  rw [hworker]
  by_cases hv : v = w
  · rw [hv, Function.update_self]
    exact hp
  · rw [Function.update_of_ne hv]
    exact hs v

omit [DecidableEq A] in
theorem Granted.goes {k k' : ℕ} {p : Phase A J} (h : Granted s k)
    (hworker : t.worker = Function.update s.worker w p) (hkeep : t.keepAlive = s.keepAlive)
    (hstage : t.stage = s.stage)
    (hup : s.keepAlive = true → p ≠ .returned ∧
      t.jobQueue.queueSem + p.isWoken.toNat + k =
        s.jobQueue.queueSem + (s.worker w).isWoken.toNat + k')
    (hdown : s.keepAlive = false →
      s.jobQueue.queueSem + p.isWaiting.toNat ≤
        t.jobQueue.queueSem + (s.worker w).isWaiting.toNat) : Granted t k' := by
  have hasleep := asleep_update hworker
  have hawake := awake_update hworker
  constructor
  · intro hk
    rw [hkeep] at hk
    obtain ⟨hs, hcount, hreturned⟩ := h.up hk
    obtain ⟨hp, hsem⟩ := hup hk
    refine ⟨hstage.trans hs, ?_, returned_update hreturned hp hworker⟩
    omega
  · intro hk
    rw [hkeep] at hk
    obtain ⟨hs, hcount⟩ := h.down hk
    have hsem := hdown hk
    rw [hstage]
    exact ⟨hs, by omega⟩

/-- The pool of `ThreadPool` takes no step for this one, or one or several. -/
abbrev Follows (x : ThreadPool.threadPool_t A J (Fin n)) (t : threadPool_t A J n) : Prop :=
  ∃ bs y, Run (ThreadPool.poolMachine A J (Fin n)) x bs y ∧ Sound t y

theorem test_follows (h : Sound s x) (hw : s.worker w = .testing) :
    Follows x (setWorker w (if s.keepAlive then .waiting else .returned) s) := by
  refine ⟨[], x, .nil x, h.goes (w := w) (by rw [hw]; nofun) rfl rfl (h.plain.alone ?_) h.ordered ?_⟩
  · rw [hw]
    split_ifs <;> rfl
  · refine h.granted.goes (w := w) rfl rfl rfl (fun hk => ?_) fun hk => ?_
    · rw [if_pos hk, hw]
      exact ⟨nofun, rfl⟩
    · rw [if_neg (by rw [hk]; nofun), hw]
      exact Nat.le_refl _

theorem wait_follows (h : Sound s x) (hw : s.worker w = .waiting) (hsem : 0 < s.jobQueue.queueSem) :
    Follows x (setWorker w .woken
      { s with jobQueue := { s.jobQueue with queueSem := s.jobQueue.queueSem - 1 } }) := by
  refine ⟨[], x, .nil x, h.goes (w := w) (by rw [hw]; nofun) rfl rfl ?_ h.ordered ?_⟩
  · have halone := h.plain.alone (w := w) (p := .woken) (by rw [hw]; rfl)
    refine ⟨?_, halone.made, halone.worker, halone.added, halone.took, halone.executed⟩
    show ({ s.jobQueue with queueSem := s.jobQueue.queueSem - 1 } : thread_job_queue A J) = _
    rw [h.plain.jobQueue]
    rfl
  · refine h.granted.goes (w := w) rfl rfl rfl (fun _ => ?_) fun _ => ?_
    · rw [hw]
      refine ⟨nofun, ?_⟩
      show s.jobQueue.queueSem - 1 + 1 + _ = s.jobQueue.queueSem + 0 + _
      omega
    · rw [hw]
      show s.jobQueue.queueSem + 0 ≤ s.jobQueue.queueSem - 1 + 1
      omega

theorem leave_follows (h : Sound s x) (hw : s.worker w = .woken) (hk : s.keepAlive = false) :
    Follows x (setWorker w .testing s) := by
  refine ⟨[], x, .nil x, h.goes (w := w) (by rw [hw]; nofun) rfl rfl (h.plain.alone ?_) h.ordered ?_⟩
  · rw [hw]
    rfl
  · refine h.granted.goes (w := w) rfl rfl rfl (fun hup => ?_) fun _ => ?_
    · rw [hk] at hup
      cases hup
    · rw [hw]
      exact Nat.le_refl _

theorem enter_follows (h : Sound s x) (hw : s.worker w = .woken) (hk : s.keepAlive = true) :
    Follows x (setWorker w .entered s) := by
  obtain ⟨l, hl⟩ := h.ordered
  obtain ⟨-, hcount, -⟩ := h.granted.up hk
  have hawake : (s.worker w).isWoken.toNat ≤ awake s :=
    le_total (fun p => p.isWoken.toNat) s.worker w
  rw [hw, show (Phase.woken : Phase A J).isWoken.toNat = 1 from rfl] at hawake
  have hx : x.worker w = .waiting := by rw [h.plain.sees, hw]; rfl
  have hsem : 0 < x.jobQueue.queueSem := by omega
  refine ⟨[.wait w], _, run_one ⟨hx, hsem⟩ rfl, h.goes (w := w) (by rw [hw]; nofun) rfl rfl ?_
    ⟨l, ThreadPool.wait_ordered hl hx hsem⟩ ?_⟩
  · refine ⟨?_, h.plain.made, ?_, h.plain.added, h.plain.took, h.plain.executed⟩
    · show s.jobQueue = _
      rw [h.plain.jobQueue]
      rfl
    · show Function.update x.worker w .woken = fun v => (Function.update s.worker w .entered v).plain
      rw [plain_update, h.plain.worker]
      rfl
  · refine h.granted.goes (w := w) rfl rfl rfl (fun _ => ?_) fun _ => ?_
    · rw [hw]
      refine ⟨nofun, ?_⟩
      show s.jobQueue.queueSem + 0 + x.jobQueue.queueSem =
        s.jobQueue.queueSem + 1 + (x.jobQueue.queueSem - 1)
      omega
    · rw [hw]
      exact Nat.le_refl _

/-! ### The queue under another semaphore -/

theorem removeLast_sem {q r : thread_job_queue A J} {ret : ℤ}
    (h : threadPool_jobQueue_removeLast q = .ok (ret, r)) (k : ℕ) :
    threadPool_jobQueue_removeLast { q with queueSem := k } =
      .ok (ret, { r with queueSem := k }) := by
  unfold threadPool_jobQueue_removeLast at h ⊢
  dsimp only at h ⊢
  split_ifs at h ⊢ with h0 h1
  · cases h
    rfl
  · cases h
    rfl
  · obtain ⟨last, hlast, h⟩ := bind_eq_ok.mp h
    obtain ⟨m, hm, h⟩ := bind_eq_ok.mp h
    cases h
    rw [hlast, ok_bind]
    dsimp only
    rw [hm]
    rfl

theorem removeLast_queueSem {q r : thread_job_queue A J} {ret : ℤ}
    (h : threadPool_jobQueue_removeLast q = .ok (ret, r)) : r.queueSem = q.queueSem := by
  have hself := h.symm.trans (removeLast_sem h q.queueSem)
  exact congrArg (fun q => q.queueSem) (Prod.mk.inj (Except.ok.inj hself)).2

theorem link_sem {q r : thread_job_queue A J} {p : Option A} (h : link p q = .ok r) (k : ℕ) :
    link p { q with queueSem := k } = .ok { r with queueSem := k } := by
  unfold link at h ⊢
  obtain ⟨m1, h1, h⟩ := bind_eq_ok.mp h
  obtain ⟨m2, h2, h⟩ := bind_eq_ok.mp h
  rw [h1, ok_bind, h2, ok_bind]
  split_ifs at h ⊢ with h0
  · cases h
    rfl
  · obtain ⟨m3, h3, h⟩ := bind_eq_ok.mp h
    obtain ⟨m4, h4, h⟩ := bind_eq_ok.mp h
    cases h
    rw [h3, ok_bind, h4]
    rfl

omit [DecidableEq A] in
theorem sem_post_spec (q : thread_job_queue A J) :
    sem_post q = { q with queueSem := (sem_post q).queueSem } ∧ q.queueSem ≤ (sem_post q).queueSem ∧
      ((q.queueSem : ℤ) < INT_MAX → (sem_post q).queueSem = q.queueSem + 1) := by
  unfold sem_post
  split_ifs with h
  · exact ⟨rfl, Nat.le_succ _, fun _ => rfl⟩
  · exact ⟨rfl, Nat.le_refl _, fun hlt => absurd hlt h⟩

theorem add_sem {q r : thread_job_queue A J} {p : Option A}
    (h : threadPool_jobQueue_add p q = .ok r) (k : ℕ) :
    ∃ r', threadPool_jobQueue_add p { q with queueSem := k } = .ok r' ∧
      r' = { r with queueSem := r'.queueSem } ∧ k ≤ r'.queueSem ∧
      ((k : ℤ) < INT_MAX → r'.queueSem = k + 1) := by
  unfold threadPool_jobQueue_add at h ⊢
  obtain ⟨u, hu, h⟩ := bind_eq_ok.mp h
  rw [link_sem hu, ok_bind]
  split_ifs at h with hfull
  · cases h
  obtain rfl := Except.ok.inj h
  rw [if_neg hfull]
  obtain ⟨hpost, hle, heq⟩ := sem_post_spec { u with number := u.number + 1, queueSem := k }
  refine ⟨_, rfl, hpost.trans ?_, hle, heq⟩
  rw [(sem_post_spec { u with number := u.number + 1 }).1]

/-! ### One step -/

/-- The pool when a worker has taken this job, and this is the queue that is left. -/
def taken (w : Fin n) (a : A) (job : J) (q : thread_job_queue A J) (s : threadPool_t A J n) :
    threadPool_t A J n :=
  { setWorker w (.holding a job) { s with jobQueue := q } with took := s.took ++ [(w, job)] }

theorem take_follows (h : Sound s x) (hw : s.worker w = .entered) :
    ∃ a job q, step s (.take w) = .ok (taken w a job q s) ∧ Follows x (taken w a job q s) := by
  obtain ⟨l, hl⟩ := h.ordered
  have hx : x.worker w = .woken := by rw [h.plain.sees, hw]; rfl
  obtain ⟨l', a, node, r, y, -, hpeek, hnode, hremove, htake, hy⟩ := ThreadPool.take_ordered hl hx
  have hsem := removeLast_sem hremove s.jobQueue.queueSem
  rw [← h.plain.jobQueue] at hsem
  have hpeek' : threadPool_jobQueue_peek s.jobQueue = some a := by
    rw [h.plain.jobQueue]
    exact hpeek
  have hnode' : s.jobQueue.memory a = some node := by
    rw [h.plain.jobQueue]
    exact hnode
  have hy' : y = { ThreadPool.setWorker w (.holding a node.job) { x with jobQueue := r } with
      took := x.took ++ [(w, node.job)] } := by
    unfold ThreadPool.take at htake
    rw [hpeek] at htake
    simp only [deref_of_live hnode, hremove, ok_bind, ne_eq, not_true_eq_false, if_false,
      pure_eq_ok] at htake
    exact (Except.ok.inj htake).symm
  refine ⟨a, node.job, { r with queueSem := s.jobQueue.queueSem }, ?_, ?_⟩
  · show take w s = _
    unfold take
    rw [hpeek']
    simp only [deref_of_live hnode', hsem, ok_bind, ne_eq, not_true_eq_false, if_false, pure_eq_ok]
    rfl
  subst hy'
  refine ⟨[.take w], _, run_one hx htake, h.goes (w := w) (by rw [hw]; nofun) rfl rfl ?_ ⟨l', hy⟩ ?_⟩
  · refine ⟨rfl, h.plain.made, ?_, h.plain.added, ?_, h.plain.executed⟩
    · show Function.update x.worker w (.holding a node.job) =
        fun v => (Function.update s.worker w (.holding a node.job) v).plain
      rw [plain_update, h.plain.worker]
      rfl
    · show x.took ++ _ = s.took ++ _
      rw [h.plain.took]
  · have hr := removeLast_queueSem hremove
    refine h.granted.goes (w := w) rfl rfl rfl (fun _ => ?_) fun _ => ?_
    · rw [hw]
      refine ⟨nofun, ?_⟩
      show s.jobQueue.queueSem + 0 + x.jobQueue.queueSem = s.jobQueue.queueSem + 0 + r.queueSem
      rw [hr]
    · rw [hw]
      exact Nat.le_refl _

theorem call_follows (h : Sound s x) {a : A} {job : J} (hw : s.worker w = .holding a job) :
    Follows x { setWorker w (.finished a) s with executed := s.executed ++ [(w, job)] } := by
  obtain ⟨l, hl⟩ := h.ordered
  have hx : x.worker w = .holding a job := by rw [h.plain.sees, hw]; rfl
  have hstep : ThreadPool.step x (.call w) =
      .ok { ThreadPool.setWorker w (.finished a) x with executed := x.executed ++ [(w, job)] } := by
    simp only [ThreadPool.step, hx]
  have hjob : (x.worker w).job.isSome = true := by rw [hx]; rfl
  have hrunning : s.worker w ≠ .returned := by simp [hw]
  refine ⟨[.call w], _, run_one hjob hstep, h.goes (w := w) hrunning rfl rfl ?_
    ⟨l, ThreadPool.call_ordered hl hx⟩ ?_⟩
  · refine ⟨h.plain.jobQueue, h.plain.made, ?_, h.plain.added, h.plain.took, ?_⟩
    · show Function.update x.worker w (.finished a) =
        fun v => (Function.update s.worker w (.finished a) v).plain
      rw [plain_update, h.plain.worker]
      rfl
    · show x.executed ++ _ = s.executed ++ _
      rw [h.plain.executed]
  · refine h.granted.goes (w := w) rfl rfl rfl (fun _ => ?_) fun _ => ?_
    · rw [hw]
      exact ⟨by simp, rfl⟩
    · rw [hw]
      exact Nat.le_refl _

theorem free_follows (h : Sound s x) {a : A} (hw : s.worker w = .finished a) :
    (s.jobQueue.memory a).isSome = true ∧
      Follows x (setWorker w .testing (setMemory (Function.update s.jobQueue.memory a none) s)) := by
  obtain ⟨l, hl⟩ := h.ordered
  have hx : x.worker w = .finished a := by rw [h.plain.sees, hw]; rfl
  have hlive := (hl.of_node (w := w) (a := a) (by rw [hx]; rfl)).1
  have hmemory : s.jobQueue.memory = x.jobQueue.memory := by rw [h.plain.jobQueue]
  have hstep : ThreadPool.step x (.free w) = .ok (ThreadPool.setWorker w .waiting
      (ThreadPool.setMemory (Function.update x.jobQueue.memory a none) x)) := by
    simp only [ThreadPool.step, hx, hlive, if_true]
  have hfinished : (x.worker w).isFinished = true := by rw [hx]; rfl
  have hrunning : s.worker w ≠ .returned := by simp [hw]
  refine ⟨by rw [hmemory]; exact hlive, [.free w], _, run_one hfinished hstep,
    h.goes (w := w) hrunning rfl rfl ?_ ⟨l, ThreadPool.free_ordered hl hx⟩ ?_⟩
  · refine ⟨?_, h.plain.made, ?_, h.plain.added, h.plain.took, h.plain.executed⟩
    · show ({ s.jobQueue with memory := _ } : thread_job_queue A J) = _
      rw [hmemory, h.plain.jobQueue]
      rfl
    · show Function.update x.worker w .waiting =
        fun v => (Function.update s.worker w .testing v).plain
      rw [plain_update, h.plain.worker]
      rfl
  · refine h.granted.goes (w := w) rfl rfl rfl (fun _ => ?_) fun _ => ?_
    · rw [hw]
      exact ⟨by simp, rfl⟩
    · rw [hw]
      exact Nat.le_refl _

theorem malloc_follows (h : Sound s x) {a : A} (hfree : s.jobQueue.memory a = none)
    (node : thread_job_t A J) :
    Follows x { setMemory (Function.update s.jobQueue.memory a (some node)) s with
      made := s.made ++ [a] } := by
  obtain ⟨l, hl⟩ := h.ordered
  have hmemory : s.jobQueue.memory = x.jobQueue.memory := by rw [h.plain.jobQueue]
  have hfree' : x.jobQueue.memory a = none := by rw [← hmemory]; exact hfree
  refine ⟨[.malloc a node.job node.prev node.next], _, run_one hfree' rfl,
    ⟨?_, ⟨l, ThreadPool.malloc_ordered hl hfree'⟩, ⟨h.granted.up, h.granted.down⟩, h.posting,
      h.joined, h.unfreed⟩⟩
  refine ⟨?_, ?_, h.plain.worker, h.plain.added, h.plain.took, h.plain.executed⟩
  · show ({ s.jobQueue with memory := _ } : thread_job_queue A J) = _
    rw [hmemory, h.plain.jobQueue]
    rfl
  · show x.made ++ [a] = s.made ++ [a]
    rw [h.plain.made]

theorem add_queueSem {q r : thread_job_queue A J} {p : Option A}
    (h : threadPool_jobQueue_add p q = .ok r) :
    q.queueSem ≤ r.queueSem ∧ ((q.queueSem : ℤ) < INT_MAX → r.queueSem = q.queueSem + 1) := by
  obtain ⟨r', hr', -, hle, heq⟩ := add_sem h q.queueSem
  obtain rfl := Except.ok.inj (h.symm.trans hr')
  exact ⟨hle, heq⟩

omit [DecidableEq A] in
theorem Plain.holds (h : Plain s x) {l : List A} (hl : Holds x.jobQueue l) : Holds s.jobQueue l := by
  rw [h.jobQueue]
  exact ⟨hl.represents, hl.live, hl.number⟩

omit [DecidableEq A] in
theorem Plain.jobQueue' (h : Plain s x) :
    x.jobQueue = { s.jobQueue with queueSem := x.jobQueue.queueSem } := by
  rw [h.jobQueue]

/-- An addition returns a queue, or there are `INT_MAX` jobs. -/
theorem add_returns {q : thread_job_queue A J} {l : List A} {a : A} (h : Holds q l)
    (ha : (q.memory a).isSome = true) :
    threadPool_jobQueue_add (some a) q = .error .overflow ∧ q.number = INT_MAX ∨
      q.number ≠ INT_MAX ∧ ∃ r, threadPool_jobQueue_add (some a) q = .ok r := by
  obtain ⟨r, hr, -, hnumber, -⟩ := link_ok h ha
  unfold threadPool_jobQueue_add
  rw [hr, ok_bind, hnumber]
  by_cases hfull : q.number = INT_MAX
  · left
    rw [if_pos hfull]
    exact ⟨rfl, hfull⟩
  · right
    rw [if_neg hfull]
    exact ⟨hfull, _, rfl⟩

theorem add_follows (h : Sound s x) {a : A} (ha : a ∈ s.made) :
    Ends (fun f => f = .overflow ∧ s.jobQueue.number = INT_MAX) (Follows x) (step s (.add a)) := by
  obtain ⟨l, hl⟩ := h.ordered
  have hax : a ∈ x.made := by rw [h.plain.made]; exact ha
  have hmemory : s.jobQueue.memory = x.jobQueue.memory := by rw [h.plain.jobQueue]
  have hlive : (s.jobQueue.memory a).isSome = true := by
    rw [hmemory]
    exact (hl.of_made hax).1
  rcases add_returns (h.plain.holds hl.holds) hlive with ⟨hr, hfull⟩ | ⟨hfull, r, hr⟩
  · simp only [step, hr, error_bind]
    exact ⟨rfl, hfull⟩
  simp only [step, hr, ok_bind, pure_eq_ok]
  obtain ⟨r', hr', hsame, -, -⟩ := add_sem hr x.jobQueue.queueSem
  rw [← h.plain.jobQueue'] at hr'
  have hstep : ThreadPool.step x (.add a) = .ok { x with
      jobQueue := r'
      made := x.made.erase a
      added := x.added ++ (jobOf r'.memory a).toList } := by
    simp only [ThreadPool.step, hr', ok_bind, pure_eq_ok]
  have hy := (ThreadPool.add_ordered hl hax).of_ok hstep
  refine ⟨[.add a], _, run_one hax hstep, ⟨?_, ⟨_, hy⟩, ⟨fun hk => ?_, fun hk => ?_⟩, h.posting,
    h.joined, h.unfreed⟩⟩
  · refine ⟨?_, ?_, h.plain.worker, ?_, h.plain.took, h.plain.executed⟩
    · show r = { r' with queueSem := r.queueSem }
      rw [hsame]
    · show x.made.erase a = s.made.erase a
      rw [h.plain.made]
    · show x.added ++ (jobOf r'.memory a).toList = s.added ++ (jobOf r.memory a).toList
      rw [h.plain.added, hsame]
  · obtain ⟨hstage, hcount, hreturned⟩ := h.granted.up hk
    have hnumber : s.jobQueue.number = x.jobQueue.number := by rw [h.plain.jobQueue]
    have hroom : (x.jobQueue.queueSem : ℤ) < INT_MAX := by
      have hlen := hl.count
      have hmax := hl.max
      rw [hnumber] at hfull
      rw [hl.holds.number] at hfull hmax
      omega
    refine ⟨hstage, ?_, hreturned⟩
    show r.queueSem + awake s = r'.queueSem
    rw [(add_queueSem hr).2 (by omega), (add_queueSem hr').2 hroom]
    omega
  · obtain ⟨hstage, hcount⟩ := h.granted.down hk
    refine ⟨hstage, ?_⟩
    show asleep s + 1 ≤ r.queueSem + s.stage.left
    have := (add_queueSem hr).1
    omega

/-- The flag goes down: each worker may be waiting, and there is a post to come for each and one
more. -/
theorem destroy_sound (h : Sound s x) :
    Sound { s with keepAlive := false, stage := .posting (n + 1) } x := by
  refine ⟨⟨h.plain.jobQueue, h.plain.made, h.plain.worker, h.plain.added, h.plain.took,
    h.plain.executed⟩, h.ordered, ⟨nofun, fun _ => ⟨nofun, ?_⟩⟩, nofun, nofun, nofun⟩
  have := asleep_le s
  show asleep s + 1 ≤ s.jobQueue.queueSem + (n + 1)
  omega

theorem Stage.posted_left (k : ℕ) : (Stage.posted k).left = k := by
  unfold Stage.posted
  split_ifs with hk
  · exact hk.symm
  · rfl

theorem Sound.down (h : Sound s x) (hs : s.stage ≠ .notCalled) : s.keepAlive = false := by
  cases hk : s.keepAlive with
  | false => rfl
  | true => exact absurd (h.granted.up hk).1 hs

/-- A post that fails finds a semaphore that is enough for all. -/
theorem post_enough (hn : n ≤ 50) (h : Sound s x) {k : ℕ} (hs : s.stage = .posting (k + 1)) :
    asleep s + 1 ≤ (sem_post s.jobQueue).queueSem + k := by
  obtain ⟨-, hcount⟩ := h.granted.down (h.down (by rw [hs]; nofun))
  rw [hs, show (Stage.posting (k + 1)).left = k + 1 from rfl] at hcount
  have hasleep := asleep_le s
  obtain ⟨-, hle, heq⟩ := sem_post_spec s.jobQueue
  by_cases hroom : (s.jobQueue.queueSem : ℤ) < INT_MAX
  · rw [heq hroom]
    omega
  · have hmax : 50 < s.jobQueue.queueSem := by
      unfold INT_MAX at hroom
      omega
    omega

theorem post_sound (h : Sound s x) {k : ℕ} (hs : s.stage = .posting (k + 1))
    {q : thread_job_queue A J} (hq : q = { s.jobQueue with queueSem := q.queueSem })
    (hk : asleep s + 1 ≤ q.queueSem + k) :
    Sound { s with jobQueue := q, stage := .posted k } x := by
  have hdown := h.down (by rw [hs]; nofun)
  refine ⟨⟨?_, h.plain.made, h.plain.worker, h.plain.added, h.plain.took, h.plain.executed⟩,
    h.ordered, ⟨fun hup => ?_, fun _ => ⟨?_, ?_⟩⟩, ?_, fun i hi => ?_, ?_⟩
  · refine hq.trans ?_
    rw [h.plain.jobQueue]
  · rw [hdown] at hup
    cases hup
  · show Stage.posted k ≠ .notCalled
    unfold Stage.posted
    split_ifs <;> nofun
  · show asleep s + 1 ≤ q.queueSem + (Stage.posted k).left
    rw [Stage.posted_left]
    exact hk
  · show Stage.posted k ≠ .posting 0
    unfold Stage.posted
    split_ifs with hk
    · nofun
    · intro heq
      exact hk (Stage.posting.inj heq)
  · have hi' : Stage.posted k = .joining i := hi
    unfold Stage.posted at hi'
    split_ifs at hi' with hk
    cases hi'
    exact ⟨Nat.zero_le n, fun w hw => absurd hw (Nat.not_lt_zero _)⟩
  · show Stage.posted k ≠ .freed
    unfold Stage.posted
    split_ifs <;> nofun

theorem join_sound (h : Sound s x) (hs : s.stage = .joining w) (hw : s.worker w = .returned) :
    Sound { s with stage := .joining (w + 1) } x := by
  refine ⟨⟨h.plain.jobQueue, h.plain.made, h.plain.worker, h.plain.added, h.plain.took,
    h.plain.executed⟩, h.ordered, ⟨fun hk => ?_, fun hk => ⟨nofun, ?_⟩⟩, nofun, fun i hi => ?_, nofun⟩
  · exact absurd hw ((h.granted.up hk).2.2 w)
  · have hcount := (h.granted.down hk).2
    rw [hs] at hcount
    exact hcount
  · obtain rfl : (w : ℕ) + 1 = i := Stage.joining.inj hi
    refine ⟨w.isLt, fun v hv => ?_⟩
    rcases Nat.lt_or_eq_of_le (Nat.le_of_lt_succ hv) with hlt | heq
    · exact (h.joined w hs).2 v hlt
    · rw [Fin.ext heq]
      exact hw

/-! ### Freeing the queue -/

/-- The loop frees the nodes that the `prev` links run through, by induction on them. -/
theorem emptyLoop_spec {m : List A} : ∀ {q : thread_job_queue A J},
    Links (prevOf q.memory) m none → m.Nodup → (∀ a ∈ m, (q.memory a).isSome = true) →
    ∃ r, emptyLoop m.length m.head? q = .ok (m.filterMap (jobOf q.memory), r) ∧
      (∀ a ∈ m, r.memory a = none) ∧ (∀ a, a ∉ m → r.memory a = q.memory a) ∧
      r.number = q.number - m.length := by
  induction m with
  | nil =>
    intro q _ _ _
    exact ⟨q, rfl, nofun, fun _ _ => rfl, by simp⟩
  | cons a m ih =>
    intro q hlinks hnodup hlive
    obtain ⟨ham, hnodup⟩ := List.nodup_cons.mp hnodup
    obtain ⟨node, hnode⟩ := Option.isSome_iff_exists.mp (hlive a List.mem_cons_self)
    have hprev : node.prev = m.head? := by
      have := hlinks.1
      rw [prevOf, hnode] at this
      simpa using this
    have hsame : ∀ b ∈ m, Function.update q.memory a none b = q.memory b := by
      intro b hb
      have hne : b ≠ a := fun heq => ham (heq ▸ hb)
      rw [Function.update_of_ne hne]
    have hlinks' : Links (prevOf (Function.update q.memory a none)) m none := by
      refine hlinks.2.congr fun b hb => ?_
      rw [prevOf, prevOf, hsame b hb]
    obtain ⟨r, hr, hgone, hkept, hnumber⟩ := @ih { q with
      tail := node.prev
      memory := Function.update q.memory a none
      number := q.number - 1 } hlinks' hnodup fun b hb => by
        show (Function.update q.memory a none b).isSome = true
        rw [hsame b hb]
        exact hlive b (List.mem_cons_of_mem a hb)
    have hjobs : m.filterMap (jobOf (Function.update q.memory a none)) =
        m.filterMap (jobOf q.memory) := by
      refine List.filterMap_congr fun b hb => ?_
      rw [jobOf, jobOf, hsame b hb]
    have hjob : jobOf q.memory a = some node.job := by
      rw [jobOf, hnode]
      rfl
    refine ⟨r, ?_, fun b hb => ?_, fun b hb => ?_, ?_⟩
    · rw [← hprev] at hr
      rw [List.length_cons, List.head?_cons, emptyLoop, deref_of_live hnode, ok_bind,
        List.filterMap_cons_some hjob]
      simp only [hr, ok_bind, pure_eq_ok, hjobs]
    · rcases List.mem_cons.mp hb with rfl | hb
      · rw [hkept b ham]
        show Function.update q.memory b none b = none
        rw [Function.update_self]
      · exact hgone b hb
    · rw [List.mem_cons, not_or] at hb
      rw [hkept b hb.2]
      show Function.update q.memory a none b = q.memory b
      rw [Function.update_of_ne hb.1]
    · rw [hnumber, List.length_cons]
      push_cast
      omega

theorem jobQueue_empty_spec {q : thread_job_queue A J} {l : List A} (h : Holds q l) :
    ∃ r, threadPool_jobQueue_empty q = .ok (ThreadPool.jobs q.memory l, r) ∧
      (∀ a ∈ l, r.memory a = none) ∧ (∀ a, a ∉ l → r.memory a = q.memory a) ∧
      r.head = none ∧ r.tail = none ∧ r.number = 0 := by
  obtain ⟨r, hr, hgone, hkept, hnumber⟩ := emptyLoop_spec (q := q) h.represents.prev
    (List.nodup_reverse.mpr h.represents.nodup) fun a ha => h.live a (List.mem_reverse.mp ha)
  have htail : q.tail = l.reverse.head? := by
    rw [List.head?_reverse]
    exact h.represents.tail
  have hrounds : q.number.toNat = l.reverse.length := by
    rw [h.number, List.length_reverse]
    rfl
  refine ⟨{ r with head := none, tail := none }, ?_, fun a ha => hgone a (List.mem_reverse.mpr ha),
    fun a ha => hkept a (mt List.mem_reverse.mp ha), rfl, rfl, ?_⟩
  · unfold threadPool_jobQueue_empty
    rw [hrounds, htail, hr]
    rfl
  · show r.number = 0
    rw [hnumber, h.number, List.length_reverse]
    exact Int.sub_self _

/-- Once every worker has been joined, what is left is the queue. -/
theorem empty_freed (h : Sound s x) (hs : s.stage = .joining n) (hmade : s.made = []) :
    ∃ t, step s .empty = .ok t ∧ Freed t := by
  obtain ⟨l, hl⟩ := h.ordered
  have hmemory : s.jobQueue.memory = x.jobQueue.memory := by rw [h.plain.jobQueue]
  have hreturned : ∀ w, s.worker w = .returned := fun w => (h.joined n hs).2 w w.isLt
  have hx : ∀ w, x.worker w = .waiting := by
    intro w
    rw [h.plain.sees, hreturned w]
    rfl
  obtain ⟨r, hr, hgone, hkept, hhead, htail, hnumber⟩ := jobQueue_empty_spec (h.plain.holds hl.holds)
  refine ⟨{ s with
      jobQueue := r, stage := .freed, dropped := ThreadPool.jobs s.jobQueue.memory l }, ?_, rfl,
    fun a => ?_, ⟨hhead, htail, hnumber⟩, hmade, hreturned, ?_, fun w => ?_⟩
  · simp only [step, hr, ok_bind, pure_eq_ok]
  · -- a node is alive only in the queue, with a producer or with a worker
    by_cases ha : a ∈ l
    · exact hgone a ha
    · have howned := hl.owned a
      have hnobody : ThreadPool.counted (fun p => p.node = some a) x.worker = 0 := by
        refine Finset.card_eq_zero.mpr (Finset.filter_eq_empty_iff.mpr fun w _ => ?_)
        rw [hx w]
        simp [ThreadPool.Phase.node]
      have hcount : x.made.count a = 0 := by
        rw [h.plain.made, hmade]
        rfl
      rw [hnobody, hcount, List.count_eq_zero_of_not_mem ha] at howned
      show r.memory a = none
      rw [hkept a ha, hmemory]
      cases hdead : x.jobQueue.memory a with
      | none => rfl
      | some node =>
        rw [hdead] at howned
        cases howned
  · show s.added = s.took.map Prod.snd ++ ThreadPool.jobs s.jobQueue.memory l
    rw [← h.plain.added, ← h.plain.took, hmemory]
    exact hl.fifo
  · have honce := hl.once w
    rw [hx w, h.plain.took, h.plain.executed] at honce
    exact honce.trans (List.append_nil _)

/-! ### Runs -/

theorem sound_init (number : ℤ) :
    Sound (threadPool_init number : threadPool_t A J (poolSize number))
      ThreadPool.threadPool_init := by
  have hawake : awake (threadPool_init number : threadPool_t A J (poolSize number)) = 0 := by
    simp [awake, total, threadPool_init, Phase.isWoken]
  refine ⟨⟨rfl, rfl, rfl, rfl, rfl, rfl⟩, ⟨[], ThreadPool.ordered_init⟩, ⟨fun _ => ⟨rfl, ?_, ?_⟩, ?_⟩,
    nofun, nofun, nofun⟩
  · rw [hawake]
    rfl
  · exact fun _ => nofun
  · intro hk
    cases hk

theorem poolSize_le (number : ℤ) : poolSize number ≤ 50 := by
  unfold poolSize
  dsimp only
  split_ifs <;> omega

/-- Every step but the last one is followed by the pool of `ThreadPool`; only the addition to a full
queue can fail. -/
theorem step_follows (hn : n ≤ 50) (h : Sound s x) {act : Act A J n} (hact : enabled s act)
    (hne : act ≠ .empty) :
    Ends (fun f => f = .overflow ∧ s.jobQueue.number = INT_MAX ∧ ∃ a, act = .add a) (Follows x)
      (step s act) := by
  cases act with
  | malloc a job prev next => exact malloc_follows h hact.1 ⟨job, prev, next⟩
  | add a => exact (add_follows h hact).mono (fun f hf => ⟨hf.1, hf.2, a, rfl⟩) fun t ht => ht
  | test w => exact test_follows h hact
  | wait w => exact wait_follows h hact.1 hact.2
  | enter w =>
    show Follows x (setWorker w (if s.keepAlive then .entered else .testing) s)
    split_ifs with hk
    · exact enter_follows h hact hk
    · exact leave_follows h hact (Bool.eq_false_of_not_eq_true hk)
  | take w =>
    obtain ⟨a, job, q, htake, ht⟩ := take_follows h hact
    rw [htake]
    exact ht
  | call w =>
    have hholding : (s.worker w).isHolding = true := hact
    cases hw : s.worker w with
    | holding a job =>
      simp only [step, hw]
      exact call_follows h hw
    | _ => rw [hw] at hholding; cases hholding
  | free w =>
    have hfinished : (s.worker w).isFinished = true := hact
    cases hw : s.worker w with
    | finished a =>
      obtain ⟨hlive, ht⟩ := free_follows h hw
      simp only [step, hw, hlive, if_true]
      exact ht
    | _ => rw [hw] at hfinished; cases hfinished
  | destroy => exact ⟨[], x, .nil x, destroy_sound h⟩
  | post =>
    have hleft : 0 < s.stage.left := hact
    cases hs : s.stage with
    | posting left =>
      rw [hs] at hleft
      obtain ⟨k, rfl⟩ := Nat.exists_eq_succ_of_ne_zero (Nat.ne_of_gt hleft)
      simp only [step, hs]
      exact ⟨[], x, .nil x, post_sound h hs (sem_post_spec s.jobQueue).1 (post_enough hn h hs)⟩
    | _ => rw [hs] at hleft; cases hleft
  | join =>
    obtain ⟨w, hs, hw⟩ := hact
    simp only [step, hs]
    exact ⟨[], x, .nil x, join_sound h hs hw⟩
  | empty => exact absurd rfl hne

omit [DecidableEq A] in
/-- Nothing happens to a pool that has been freed. -/
theorem Freed.not_enabled (h : Freed s) (act : Act A J n) : ¬enabled s act := by
  intro hact
  cases act with
  | malloc a job prev next => exact hact.2 h.stage
  | add a =>
    have ha : a ∈ s.made := hact
    rw [h.made] at ha
    cases ha
  | wait w =>
    have hw := hact.1
    rw [h.returned w] at hw
    cases hw
  | test w | enter w | take w =>
    have hw : s.worker w = _ := hact
    rw [h.returned w] at hw
    cases hw
  | call w =>
    have hw : (s.worker w).isHolding = true := hact
    rw [h.returned w] at hw
    cases hw
  | free w =>
    have hw : (s.worker w).isFinished = true := hact
    rw [h.returned w] at hw
    cases hw
  | destroy =>
    have hs : s.stage = .notCalled := hact
    rw [h.stage] at hs
    cases hs
  | post =>
    have hleft : 0 < s.stage.left := hact
    rw [h.stage] at hleft
    cases hleft
  | join =>
    obtain ⟨w, hs, -⟩ := hact
    rw [h.stage] at hs
    cases hs
  | empty =>
    have hs := hact.1
    rw [h.stage] at hs
    cases hs

/-- The machine up to the freeing of the queue. -/
def untilFreed (A J : Type) [DecidableEq A] (n : ℕ) :
    Machine (threadPool_t A J n) (Act A J n) Fault :=
  restrict (shutdownMachine A J n) fun _ act => act ≠ .empty

theorem untilFreed_simulates (hn : n ≤ 50) :
    Simulates (untilFreed A J n) (ThreadPool.poolMachine A J (Fin n)) Sound :=
  fun _ _ _ _ h he hs => (step_follows hn h he.1 he.2).of_ok hs

theorem step_sound (hn : n ≤ 50) (h : Sound s x) {act : Act A J n} (hact : enabled s act) :
    Ends (fun f => f = .overflow ∧ s.jobQueue.number = INT_MAX ∧ ∃ a, act = .add a)
      (fun t => (∃ y, Sound t y) ∨ Freed t) (step s act) := by
  by_cases hne : act = .empty
  · subst hne
    obtain ⟨t, ht, hfreed⟩ := empty_freed h hact.1 hact.2
    rw [ht]
    exact .inr hfreed
  · exact (step_follows hn h hact hne).imp fun t ⟨_, y, _, hy⟩ => .inl ⟨y, hy⟩

variable {number : ℤ} {as : List (Act A J (poolSize number))}

theorem run_sound {s : threadPool_t A J (poolSize number)}
    (h : Run (shutdownMachine A J (poolSize number)) (threadPool_init number) as s) :
    (∃ x, Sound s x) ∨ Freed s := by
  refine h.invariant (I := fun s => (∃ x, Sound s x) ∨ Freed s) ?_ (.inl ⟨_, sound_init number⟩)
  rintro s act t (⟨x, hs⟩ | hs) he hstep
  · exact (step_sound (poolSize_le number) hs he).of_ok hstep
  · exact absurd he (hs.not_enabled act)

theorem run_untilFreed {s : threadPool_t A J (poolSize number)}
    (h : Run (shutdownMachine A J (poolSize number)) (threadPool_init number) as s)
    (hs : s.stage ≠ .freed) :
    Run (untilFreed A J (poolSize number)) (threadPool_init number) as s := by
  refine (h.history (I := fun as s => Run (shutdownMachine A J (poolSize number))
    (threadPool_init number) as s ∧ (s.stage ≠ .freed →
      Run (untilFreed A J (poolSize number)) (threadPool_init number) as s))
    ⟨.nil _, fun _ => .nil _⟩ ?_).2 hs
  rintro as s act t ⟨hrun, hfree⟩ he hstep
  refine ⟨hrun.append (run_one he hstep), fun ht => ?_⟩
  rcases run_sound hrun with ⟨x, hx⟩ | hfreed
  · have hne : act ≠ .empty := by
      rintro rfl
      obtain ⟨t', ht', hfreed⟩ := empty_freed hx he.1 he.2
      obtain rfl := Except.ok.inj (ht'.symm.trans hstep)
      exact ht hfreed.stage
    exact (hfree hx.unfreed).append (run_one ⟨he, hne⟩ hstep)
  · exact absurd he (hfreed.not_enabled act)

/-- **The pool that can be destroyed is the pool that cannot**, until it is freed: the same queue
but for the semaphore, the same nodes on their way to it, the same jobs added, removed and called,
by the same workers; and no step but an addition to `INT_MAX` jobs fails. -/
theorem shutdown_refines {s : threadPool_t A J (poolSize number)}
    (h : Run (shutdownMachine A J (poolSize number)) (threadPool_init number) as s)
    (hs : s.stage ≠ .freed) :
    (∃ bs x, Run (ThreadPool.poolMachine A J (Fin (poolSize number))) ThreadPool.threadPool_init bs x ∧
      Plain s x) ∧
    ∀ act f, enabled s act → step s act = .error f →
      f = .overflow ∧ s.jobQueue.number = INT_MAX ∧ ∃ a, act = .add a := by
  have hn := poolSize_le number
  obtain ⟨bs, x, hrun, hx⟩ := (untilFreed_simulates hn).run (run_untilFreed h hs) (sound_init number)
  exact ⟨⟨bs, x, hrun, hx.plain⟩, fun act f he hf => (step_sound hn hx he).of_error hf⟩

/-- A worker is let through and the flag goes down; to the pool of `ThreadPool` nothing has
happened. -/
theorem shutdown_refines_one :
    ∃ s, Run (shutdownMachine ℕ ℕ (poolSize 1)) (threadPool_init 1)
        [.test ⟨0, by decide⟩, .malloc 0 7 none none, .add 0, .wait ⟨0, by decide⟩, .destroy, .post,
          .enter ⟨0, by decide⟩] s ∧ s.jobQueue.queueSem = 1 ∧ s.worker ⟨0, by decide⟩ = .testing ∧
      ∃ bs x, Run (ThreadPool.poolMachine ℕ ℕ (Fin (poolSize 1))) ThreadPool.threadPool_init bs x ∧
        Plain s x := by
  have hexec : ∃ s, (shutdownMachine ℕ ℕ (poolSize 1)).exec (threadPool_init 1)
      [.test ⟨0, by decide⟩, .malloc 0 7 none none, .add 0, .wait ⟨0, by decide⟩, .destroy, .post,
        .enter ⟨0, by decide⟩] = some s ∧ s.jobQueue.queueSem = 1 ∧
      s.worker ⟨0, by decide⟩ = .testing ∧ s.stage = .posting 1 := ⟨_, rfl, rfl, rfl, rfl⟩
  obtain ⟨s, hs, hsem, hw, hstage⟩ := hexec
  have hrun := run_iff_exec.mpr hs
  exact ⟨s, hrun, hsem, hw, (shutdown_refines hrun (by rw [hstage]; nofun)).1⟩

end ReactorServer.Pool.Shutdown
