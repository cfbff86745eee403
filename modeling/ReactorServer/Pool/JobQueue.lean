import ReactorServer.Cpp
import ReactorServer.Lib.DoublyLinked
import ReactorServer.Lib.Triples

/-!
# The job queue of the thread pool

The queue is a doubly linked list of jobs in memory, with a counter and a semaphore beside it.  New
jobs come in at the head; the last one, at the tail, is the next to be done.  Which branch an
operation takes is decided by the counter alone; where the counter is the length of the list, the
operations are those of a doubly linked list (`jobQueue_add_spec`,
`jobQueue_removeLast_eq`).
-/

namespace ReactorServer.Pool.JobQueue

open ReactorServer.Cpp ReactorServer.Lib.Runs ReactorServer.Lib.Triples
open ReactorServer.Lib.DoublyLinked

/-! ### Memory -/

/-- `thread_job_t`: `function` and `arg` are one value here, the job. -/
structure thread_job_t (A J : Type) where
  job : J
  prev : Option A
  next : Option A
  deriving DecidableEq, Repr

/-- The nodes that have been allocated and not freed. -/
abbrev Memory (A J : Type) := A → Option (thread_job_t A J)

variable {A J : Type}

/-- `*p`. -/
def deref (m : Memory A J) (p : Option A) : Except Fault (A × thread_job_t A J) :=
  match p with
  | none => .error .outOfBounds
  | some a =>
    match m a with
    | none => .error .outOfBounds
    | some n => .ok (a, n)

theorem deref_of_live {m : Memory A J} {a : A} {n : thread_job_t A J} (h : m a = some n) :
    deref m (some a) = .ok (a, n) := by
  simp [deref, h]

variable [DecidableEq A]

/-- `*p = f(*p)`. -/
def store (p : Option A) (f : thread_job_t A J → thread_job_t A J) (m : Memory A J) :
    Except Fault (Memory A J) := do
  let (a, n) ← deref m p
  pure (Function.update m a (some (f n)))

/-- `p->next = q`. -/
def setNext (p q : Option A) (m : Memory A J) : Except Fault (Memory A J) :=
  store p (fun n => { n with next := q }) m

/-- `p->prev = q`. -/
def setPrev (p q : Option A) (m : Memory A J) : Except Fault (Memory A J) :=
  store p (fun n => { n with prev := q }) m

/-! ### The queue -/

/-- `thread_job_queue`, with the value of the semaphore `queueSem` designates, and the memory. -/
structure thread_job_queue (A J : Type) where
  memory : Memory A J
  number : ℤ
  queueSem : ℕ
  head : Option A
  tail : Option A

variable {q r : thread_job_queue A J} {a b : A} {l : List A} {n : thread_job_t A J}

/-- `threadPool_jobQueue_init`, and `sem_init` with `0`. -/
def threadPool_jobQueue_init (m : Memory A J) : thread_job_queue A J := ⟨m, 0, 0, none, none⟩

/-- `sem_post`: at the limit it fails and changes nothing. -/
def sem_post (q : thread_job_queue A J) : thread_job_queue A J :=
  if (q.queueSem : ℤ) < INT_MAX then { q with queueSem := q.queueSem + 1 } else q

/-- What `threadPool_jobQueue_add` does to the links. -/
def link (newJob : Option A) (q : thread_job_queue A J) : Except Fault (thread_job_queue A J) := do
  let m ← setNext newJob none q.memory
  let m ← setPrev newJob none m
  if q.number = 0 then
    pure { q with memory := m, head := newJob, tail := newJob }
  else do
    let m ← setNext newJob q.head m
    let m ← setPrev q.head newJob m
    pure { q with memory := m, head := newJob }

def threadPool_jobQueue_add (newJob : Option A) (q : thread_job_queue A J) :
    Except Fault (thread_job_queue A J) := do
  let q ← link newJob q
  if q.number = INT_MAX then throw .overflow
  pure (sem_post { q with number := q.number + 1 })

/-- The value returned and the queue. -/
def threadPool_jobQueue_removeLast (q : thread_job_queue A J) :
    Except Fault (ℤ × thread_job_queue A J) := do
  let lastJob := q.tail
  if q.number = 0 then pure (-1, q)
  else if q.number = 1 then
    pure (0, { q with head := none, tail := none, number := q.number - 1 })
  else do
    let (_, last) ← deref q.memory lastJob
    let m ← setNext last.prev none q.memory
    pure (0, { q with memory := m, tail := last.prev, number := q.number - 1 })

def threadPool_jobQueue_peek (q : thread_job_queue A J) : Option A := q.tail

/-! ### The list in memory -/

def nextOf (m : Memory A J) (a : A) : Option A := (m a).bind (·.next)
def prevOf (m : Memory A J) (a : A) : Option A := (m a).bind (·.prev)
def jobOf (m : Memory A J) (a : A) : Option J := (m a).map (·.job)

/-- The queue as a doubly linked list. -/
def view (q : thread_job_queue A J) : DList A := ⟨nextOf q.memory, prevOf q.memory, q.head, q.tail⟩

/-- Nodes keep their jobs, and none comes or goes. -/
def SameJobs (m m' : Memory A J) : Prop := ∀ a, jobOf m' a = jobOf m a

omit [DecidableEq A] in
theorem isSome_jobOf (m : Memory A J) (a : A) : (jobOf m a).isSome = (m a).isSome := by
  unfold jobOf
  rw [Option.isSome_map]

theorem setNext_ok {m : Memory A J} (h : (m a).isSome = true) (p : Option A) :
    ∃ m', setNext (some a) p m = .ok m' ∧ nextOf m' = Function.update (nextOf m) a p ∧
      prevOf m' = prevOf m ∧ SameJobs m m' := by
  obtain ⟨n, hn⟩ := Option.isSome_iff_exists.mp h
  refine ⟨Function.update m a (some { n with next := p }), ?_, ?_, ?_, ?_⟩
  · simp [setNext, store, deref_of_live hn]
  · funext b
    by_cases hb : b = a
    · simp [nextOf, hb]
    · simp [nextOf, Function.update_of_ne hb]
  · funext b
    by_cases hb : b = a
    · simp [prevOf, hb, hn]
    · simp [prevOf, Function.update_of_ne hb]
  · intro b
    by_cases hb : b = a
    · simp [jobOf, hb, hn]
    · simp [jobOf, Function.update_of_ne hb]

theorem setPrev_ok {m : Memory A J} (h : (m a).isSome = true) (p : Option A) :
    ∃ m', setPrev (some a) p m = .ok m' ∧ prevOf m' = Function.update (prevOf m) a p ∧
      nextOf m' = nextOf m ∧ SameJobs m m' := by
  obtain ⟨n, hn⟩ := Option.isSome_iff_exists.mp h
  refine ⟨Function.update m a (some { n with prev := p }), ?_, ?_, ?_, ?_⟩
  · simp [setPrev, store, deref_of_live hn]
  · funext b
    by_cases hb : b = a
    · simp [prevOf, hb]
    · simp [prevOf, Function.update_of_ne hb]
  · funext b
    by_cases hb : b = a
    · simp [nextOf, hb, hn]
    · simp [nextOf, Function.update_of_ne hb]
  · intro b
    by_cases hb : b = a
    · simp [jobOf, hb, hn]
    · simp [jobOf, Function.update_of_ne hb]

/-- The queue holds the list, its nodes are alive, and the counter is its length. -/
structure Holds (q : thread_job_queue A J) (l : List A) : Prop where
  represents : Represents (view q) l
  live : ∀ a ∈ l, (q.memory a).isSome = true
  number : q.number = l.length

omit [DecidableEq A] in
theorem SameJobs.isSome {m m' : Memory A J} (h : SameJobs m m') (a : A) :
    (m' a).isSome = (m a).isSome := by
  rw [← isSome_jobOf, ← isSome_jobOf, h a]

theorem link_ok (h : Holds q l) (ha : (q.memory a).isSome = true) :
    ∃ r, link (some a) q = .ok r ∧ view r = pushFront a (view q) ∧ r.number = q.number ∧
      r.queueSem = q.queueSem ∧ SameJobs q.memory r.memory := by
  obtain ⟨m1, h1, hn1, hp1, hj1⟩ := setNext_ok ha none
  have ha1 := (hj1.isSome a).trans ha
  obtain ⟨m2, h2, hp2, hn2, hj2⟩ := setPrev_ok ha1 none
  have hj : SameJobs q.memory m2 := fun b => (hj2 b).trans (hj1 b)
  unfold link
  rw [h1, ok_bind, h2, ok_bind]
  rcases l with _ | ⟨b, l⟩
  · have hhead : q.head = none := h.represents.head
    have htail : q.tail = none := h.represents.tail
    rw [if_pos (show q.number = 0 from h.number)]
    refine ⟨_, rfl, ?_, rfl, rfl, hj⟩
    unfold view pushFront
    simp only [hhead, htail, hn2, hn1, hp2, hp1]
    rfl
  · have hhead : q.head = some b := h.represents.head
    obtain ⟨t, htail⟩ : ∃ t, q.tail = some t := by
      refine Option.ne_none_iff_exists'.mp fun hn => ?_
      exact List.cons_ne_nil _ _ (h.represents.tail_eq_none.mp hn)
    have h0 : q.number ≠ 0 := by
      rw [h.number, List.length_cons]
      omega
    have hb : (m2 b).isSome = true := by
      rw [hj.isSome]
      exact h.live b List.mem_cons_self
    obtain ⟨m3, h3, hn3, hp3, hj3⟩ := setNext_ok ((hj2.isSome a).trans ha1) (some b)
    obtain ⟨m4, h4, hp4, hn4, hj4⟩ := setPrev_ok ((hj3.isSome b).trans hb) (some a)
    rw [if_neg h0, hhead, h3, ok_bind, h4]
    refine ⟨_, rfl, ?_, rfl, rfl, fun b => (hj4 b).trans ((hj3 b).trans (hj b))⟩
    unfold view pushFront
    simp only [hhead, htail, hn4, hn3, hn2, hn1, hp4, hp3, hp2, hp1, Function.update_idem]
    rfl

/-- **A job is added in front**, unless there are too many. -/
theorem jobQueue_add_spec (h : Holds q l) (ha : (q.memory a).isSome = true) (hal : a ∉ l)
    (hmax : q.number ≤ INT_MAX) (hsem : (q.queueSem : ℤ) ≤ q.number) :
    Ends (fun f => f = .overflow ∧ q.number = INT_MAX)
      (fun r => Holds r (a :: l) ∧ r.queueSem = q.queueSem + 1 ∧ SameJobs q.memory r.memory ∧
        r.number ≤ INT_MAX) (threadPool_jobQueue_add (some a) q) := by
  obtain ⟨r, hr, hview, hnum, hsem', hjobs⟩ := link_ok h ha
  unfold threadPool_jobQueue_add
  rw [hr, ok_bind, hnum]
  by_cases hfull : q.number = INT_MAX
  · rw [if_pos hfull]
    exact ⟨rfl, hfull⟩
  · have hlt : (r.queueSem : ℤ) < INT_MAX := by
      rw [hsem']
      omega
    rw [if_neg hfull]
    show Ends _ _ (.ok (sem_post { r with number := q.number + 1 }))
    rw [show sem_post { r with number := q.number + 1 } = { r with
      number := q.number + 1, queueSem := r.queueSem + 1 } from if_pos hlt]
    refine ⟨⟨?_, fun b hb => ?_, ?_⟩, ?_, hjobs, ?_⟩
    · show Represents (view r) (a :: l)
      rw [hview]
      exact h.represents.pushFront hal
    · show (r.memory b).isSome = true
      rw [hjobs.isSome]
      rcases List.mem_cons.mp hb with rfl | hb
      · exact ha
      · exact h.live b hb
    · show q.number + 1 = _
      rw [h.number, List.length_cons]
      omega
    · show r.queueSem + 1 = _
      rw [hsem']
    · show q.number + 1 ≤ INT_MAX
      omega

/-- **The last job is taken away.** -/
theorem jobQueue_removeLast_eq (h : Holds q (l ++ [a])) :
    threadPool_jobQueue_peek q = some a ∧
    ∃ r, threadPool_jobQueue_removeLast q = .ok (0, r) ∧ Holds r l ∧ r.queueSem = q.queueSem ∧
      SameJobs q.memory r.memory := by
  have htail : q.tail = some a := by
    have := h.represents.tail
    rwa [List.getLast?_concat] at this
  refine ⟨htail, ?_⟩
  obtain ⟨n, hn⟩ := Option.isSome_iff_exists.mp (h.live a (by simp))
  have hlen : q.number = l.length + 1 := by
    rw [h.number, List.length_append]
    rfl
  unfold threadPool_jobQueue_removeLast
  rw [if_neg (by omega)]
  rcases List.eq_nil_or_concat l with rfl | ⟨l, b, rfl⟩
  · rw [if_pos (by simpa using hlen)]
    refine ⟨_, rfl, ⟨represents_nil _ _, nofun, ?_⟩, rfl, fun _ => rfl⟩
    show q.number - 1 = 0
    rw [hlen]
    rfl
  · rw [List.concat_eq_append] at h hlen ⊢
    rw [List.length_append, List.length_singleton] at hlen
    rw [if_neg (by omega), htail]
    have hprev : prevOf q.memory a = some b := by
      have hchain := h.represents.prev
      rw [List.reverse_append, List.reverse_singleton, List.singleton_append, List.reverse_append,
        List.reverse_singleton, List.singleton_append] at hchain
      exact hchain.1
    have hn' : n.prev = some b := by
      rw [prevOf, hn] at hprev
      exact hprev
    obtain ⟨m, hm, hnext, hprev', hjobs⟩ := setNext_ok (h.live b (by simp)) none
    simp only [deref_of_live hn, ok_bind, hn', hm, pure_eq_ok]
    refine ⟨_, rfl, ⟨?_, fun x hx => ?_, ?_⟩, rfl, hjobs⟩
    · have hrep := h.represents.popBack
      unfold popBack at hrep
      rw [show (view q).tail = some a from htail] at hrep
      dsimp only at hrep
      rw [show (view q).prev a = some b from hprev] at hrep
      dsimp only at hrep
      unfold view
      rw [hnext, hprev']
      exact hrep
    · show (m x).isSome = true
      rw [hjobs.isSome]
      exact h.live x (List.mem_append_left _ hx)
    · show q.number - 1 = _
      rw [hlen, List.length_append, List.length_singleton]
      omega

end ReactorServer.Pool.JobQueue
