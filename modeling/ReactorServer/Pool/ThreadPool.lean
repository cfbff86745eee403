import ReactorServer.Pool.JobQueue
import Mathlib.Algebra.BigOperators.Group.Finset.Basic
import Mathlib.Algebra.BigOperators.Group.Finset.Piecewise
import Mathlib.Algebra.Order.Group.Multiset
import Mathlib.Data.Fintype.Card

/-!
# The thread pool

Producers add jobs to the queue and workers do them, any number of each.  A step is what one thread
does without another being able to see it half done: a call of `threadPool_add_work` is the
allocation of the node and the section under the mutex; a round of `threadPool_job_do` is the return
of `sem_wait`, the section under the mutex, the call of the job's function and the `free`.  Nobody
has called `threadPool_destroy`.

Every reachable state is in order (`Ordered`): the semaphore and the workers it has let through are
as many as the jobs in the queue, and a node belongs to the queue, to one producer or to one worker.
So a worker finds a job where it looks for one (`pool_ordered`).
-/

namespace ReactorServer.Pool.ThreadPool

open ReactorServer.Cpp ReactorServer.Lib.Runs ReactorServer.Lib.Triples
open ReactorServer.Lib.DoublyLinked ReactorServer.Pool.JobQueue

/-! ### The model -/

/-- Where a worker is in `threadPool_job_do`. -/
inductive Phase (A J : Type)
  /-- on the way to `sem_wait`, or in it -/
  | waiting
  /-- between `sem_wait` and the section under the mutex -/
  | woken
  /-- with a job it has removed and not called yet -/
  | holding (a : A) (job : J)
  /-- with a job it has called and not freed yet -/
  | finished (a : A)
  /-- `threadPool_job_do` has returned -/
  | returned
  deriving DecidableEq, Repr

namespace Phase

variable {A J : Type}

def isWoken : Phase A J → Bool
  | .woken => true
  | _ => false

/-- The node of the worker. -/
def node : Phase A J → Option A
  | .holding a _ => some a
  | .finished a => some a
  | _ => none

/-- The job it is about to call. -/
def job : Phase A J → Option J
  | .holding _ job => some job
  | _ => none

def isFinished : Phase A J → Bool
  | .finished _ => true
  | _ => false

end Phase

/-- The pool with the nodes of the producers that are on the way to the mutex (`made`), and three
records of the past: the jobs added, the jobs removed and by whom, and the jobs called and by
whom. -/
structure threadPool_t (A J W : Type) where
  jobQueue : thread_job_queue A J
  made : List A
  worker : W → Phase A J
  added : List J
  took : List (W × J)
  executed : List (W × J)

inductive Act (A J W : Type)
  /-- `threadPool_add_work` up to the mutex; `malloc` gives a node, its links as they come -/
  | malloc (a : A) (job : J) (prev next : Option A)
  /-- its section under the mutex -/
  | add (a : A)
  /-- `sem_wait` returns -/
  | wait (w : W)
  /-- the section under the mutex of `threadPool_job_do` -/
  | take (w : W)
  /-- `function(args)` -/
  | call (w : W)
  /-- `free(job)` -/
  | free (w : W)
  deriving DecidableEq, Repr

variable {A J W : Type} [DecidableEq A] [DecidableEq W]

/-- `threadPool_init`. -/
def threadPool_init : threadPool_t A J W :=
  ⟨threadPool_jobQueue_init fun _ => none, [], fun _ => .waiting, [], [], []⟩

def setWorker (w : W) (p : Phase A J) (s : threadPool_t A J W) : threadPool_t A J W :=
  { s with worker := Function.update s.worker w p }

def setMemory (m : Memory A J) (s : threadPool_t A J W) : threadPool_t A J W :=
  { s with jobQueue := { s.jobQueue with memory := m } }

def enabled (s : threadPool_t A J W) : Act A J W → Prop
  | .malloc a _ _ _ => s.jobQueue.memory a = none
  | .add a => a ∈ s.made
  | .wait w => s.worker w = .waiting ∧ 0 < s.jobQueue.queueSem
  | .take w => s.worker w = .woken
  | .call w => (s.worker w).job.isSome = true
  | .free w => (s.worker w).isFinished = true

instance [DecidableEq J] (s : threadPool_t A J W) : ∀ a, Decidable (enabled s a)
  | .malloc _ _ _ _ => inferInstanceAs (Decidable (_ = _))
  | .add _ => inferInstanceAs (Decidable (_ ∈ _))
  | .wait _ => inferInstanceAs (Decidable (_ ∧ _))
  | .take _ => inferInstanceAs (Decidable (_ = _))
  | .call _ => inferInstanceAs (Decidable (_ = _))
  | .free _ => inferInstanceAs (Decidable (_ = _))

/-- The section under the mutex of `threadPool_job_do`. -/
def take (w : W) (s : threadPool_t A J W) : Except Fault (threadPool_t A J W) := do
  let job := threadPool_jobQueue_peek s.jobQueue
  let (a, n) ← deref s.jobQueue.memory job
  let (ret, q) ← threadPool_jobQueue_removeLast s.jobQueue
  let s := { s with jobQueue := q }
  if ret ≠ 0 then pure (setWorker w .returned s)
  else pure { setWorker w (.holding a n.job) s with took := s.took ++ [(w, n.job)] }

def step (s : threadPool_t A J W) : Act A J W → Except Fault (threadPool_t A J W)
  | .malloc a job prev next =>
    .ok { setMemory (Function.update s.jobQueue.memory a (some ⟨job, prev, next⟩)) s with
      made := s.made ++ [a] }
  | .add a => do
    let q ← threadPool_jobQueue_add (some a) s.jobQueue
    pure { s with
      jobQueue := q
      made := s.made.erase a
      added := s.added ++ (jobOf q.memory a).toList }
  | .wait w =>
    .ok (setWorker w .woken
      { s with jobQueue := { s.jobQueue with queueSem := s.jobQueue.queueSem - 1 } })
  | .take w => take w s
  | .call w =>
    match s.worker w with
    | .holding a job =>
      .ok { setWorker w (.finished a) s with executed := s.executed ++ [(w, job)] }
    | _ => .error .outOfBounds
  | .free w =>
    match s.worker w with
    | .finished a =>
      -- a pointer that has been freed must not be freed again
      if (s.jobQueue.memory a).isSome then
        .ok (setWorker w .waiting (setMemory (Function.update s.jobQueue.memory a none) s))
      else .error .outOfBounds
    | _ => .error .outOfBounds

def poolMachine (A J W : Type) [DecidableEq A] [DecidableEq W] :
    Machine (threadPool_t A J W) (Act A J W) Fault where
  enabled := enabled
  step := step

instance [DecidableEq J] (s : threadPool_t A J W) (a : Act A J W) :
    Decidable ((poolMachine A J W).enabled s a) :=
  inferInstanceAs (Decidable (enabled s a))

/-! ### Counting workers -/

variable [Fintype W]

/-- How many workers are in a phase with `P`. -/
def counted (P : Phase A J → Bool) (f : W → Phase A J) : ℕ :=
  (Finset.univ.filter fun w => P (f w) = true).card

omit [DecidableEq A] in
theorem counted_update (P : Phase A J → Bool) (f : W → Phase A J) (w : W) (p : Phase A J) :
    counted P (Function.update f w p) + (P (f w)).toNat = counted P f + (P p).toNat := by
  have herase : ((Finset.univ.filter fun v => P (f v) = true).erase w).card + (P (f w)).toNat =
      counted P f := by
    cases h : P (f w) with
    | false =>
      rw [Finset.erase_eq_of_notMem (by simp [h])]
      rfl
    | true => exact Finset.card_erase_add_one (by simp [h])
  have hrest : ∀ v, v ≠ w → (P (Function.update f w p v) = true ↔ P (f v) = true) := by
    intro v hv
    rw [Function.update_of_ne hv]
  cases hp : P p with
  | false =>
    have hset : (Finset.univ.filter fun v => P (Function.update f w p v) = true) =
        (Finset.univ.filter fun v => P (f v) = true).erase w := by
      ext v
      by_cases hv : v = w
      · simp [hv, hp]
      · simp [hv]
    unfold counted at herase ⊢
    rw [hset, herase]
    rfl
  | true =>
    have hset : (Finset.univ.filter fun v => P (Function.update f w p v) = true) =
        insert w ((Finset.univ.filter fun v => P (f v) = true).erase w) := by
      ext v
      by_cases hv : v = w
      · simp [hv, hp]
      · simp [hv]
    unfold counted at herase ⊢
    rw [hset, Finset.card_insert_of_notMem (Finset.notMem_erase _ _), Bool.toNat_true]
    omega

omit [DecidableEq A] in
theorem toNat_le_counted {P : Phase A J → Bool} (hP : P .waiting = false) (f : W → Phase A J)
    (w : W) : (P (f w)).toNat ≤ counted P f := by
  have := counted_update P f w .waiting
  rw [hP] at this
  simp only [Bool.toNat_false] at this
  omega

/-! ### The invariant -/

/-- The jobs of the nodes, the one to be done first in front. -/
def jobs (m : Memory A J) (l : List A) : List J := l.reverse.filterMap (jobOf m)

/-- What the record says of one worker. -/
def doneBy (w : W) (record : List (W × J)) : List J := (record.filter (·.1 = w)).map Prod.snd

/-- **The pool is in order**, with these nodes in the queue.  Every node that is alive belongs to the
queue, to a producer or to a worker, and to one of them only. -/
structure Ordered (s : threadPool_t A J W) (l : List A) : Prop where
  holds : Holds s.jobQueue l
  max : s.jobQueue.number ≤ INT_MAX
  count : s.jobQueue.queueSem + counted Phase.isWoken s.worker = l.length
  owned : ∀ a, l.count a + s.made.count a + counted (fun p => p.node = some a) s.worker =
    (s.jobQueue.memory a).isSome.toNat
  fifo : s.added = s.took.map Prod.snd ++ jobs s.jobQueue.memory l
  once : ∀ w, doneBy w s.took = doneBy w s.executed ++ (s.worker w).job.toList
  staying : ∀ w, s.worker w ≠ .returned

variable {s t : threadPool_t A J W} {l : List A} {a : A} {w : W}

omit [DecidableEq A] [DecidableEq W] in
theorem jobs_congr {m m' : Memory A J} (h : ∀ a ∈ l, jobOf m' a = jobOf m a) :
    jobs m' l = jobs m l :=
  List.filterMap_congr fun a ha => h a (List.mem_reverse.mp ha)

omit [DecidableEq A] [DecidableEq W] in
theorem jobs_snoc {m : Memory A J} {job : J} (h : jobOf m a = some job) :
    jobs m (l ++ [a]) = job :: jobs m l := by
  unfold jobs
  rw [List.reverse_append, List.reverse_singleton, List.singleton_append]
  exact List.filterMap_cons_some h

omit [DecidableEq A] in
theorem Holds.setMemory {q : thread_job_queue A J} (h : Holds q l) {m : Memory A J}
    (hm : ∀ a ∈ l, m a = q.memory a) : Holds { q with memory := m } l where
  represents := h.represents.congr rfl rfl
    (fun a ha => by
      show nextOf m a = nextOf q.memory a
      rw [nextOf, nextOf, hm a ha])
    (fun a ha => by
      show prevOf m a = prevOf q.memory a
      rw [prevOf, prevOf, hm a ha])
  live := fun a ha => by
    show (m a).isSome = true
    rw [hm a ha]
    exact h.live a ha
  number := h.number

theorem ordered_init : Ordered (threadPool_init : threadPool_t A J W) [] where
  holds := ⟨represents_nil _ _, nofun, rfl⟩
  max := by
    show (0 : ℤ) ≤ INT_MAX
    decide
  count := by simp [threadPool_init, threadPool_jobQueue_init, counted, Phase.isWoken]
  owned := fun a => by simp [threadPool_init, threadPool_jobQueue_init, counted, Phase.node]
  fifo := rfl
  once := fun _ => rfl
  staying := fun _ => nofun

omit [DecidableEq A] [Fintype W] in
theorem doneBy_concat_self (w : W) (record : List (W × J)) (job : J) :
    doneBy w (record ++ [(w, job)]) = doneBy w record ++ [job] := by
  simp [doneBy]

omit [DecidableEq A] [Fintype W] in
theorem doneBy_concat_of_ne {v : W} (hv : v ≠ w) (record : List (W × J)) (job : J) :
    doneBy v (record ++ [(w, job)]) = doneBy v record := by
  simp [doneBy, hv.symm]

/-! ### One step -/

/-- What belongs to a producer is alive, and is not in the queue. -/
theorem Ordered.of_made (h : Ordered s l) (ha : a ∈ s.made) :
    (s.jobQueue.memory a).isSome = true ∧ a ∉ l := by
  have howned := h.owned a
  have hmade := List.count_pos_iff.mpr ha
  have hle := Bool.toNat_le (s.jobQueue.memory a).isSome
  constructor
  · by_contra hdead
    rw [Bool.not_eq_true] at hdead
    rw [hdead, Bool.toNat_false] at howned
    omega
  · intro hal
    have := List.count_pos_iff.mpr hal
    omega

/-- What belongs to a worker is alive, and is not in the queue. -/
theorem Ordered.of_node (h : Ordered s l) (ha : (s.worker w).node = some a) :
    (s.jobQueue.memory a).isSome = true ∧ a ∉ l := by
  have howned := h.owned a
  have hnode := toNat_le_counted (P := fun p : Phase A J => decide (p.node = some a)) rfl s.worker w
  have hle := Bool.toNat_le (s.jobQueue.memory a).isSome
  rw [decide_eq_true ha, Bool.toNat_true] at hnode
  constructor
  · by_contra hdead
    rw [Bool.not_eq_true] at hdead
    rw [hdead, Bool.toNat_false] at howned
    omega
  · intro hal
    have := List.count_pos_iff.mpr hal
    omega

theorem malloc_ordered (h : Ordered s l) {n : thread_job_t A J}
    (hfree : s.jobQueue.memory a = none) :
    Ordered { setMemory (Function.update s.jobQueue.memory a (some n)) s with
      made := s.made ++ [a] } l := by
  have hal : a ∉ l := by
    intro hal
    have := h.holds.live a hal
    rw [hfree] at this
    exact Bool.false_ne_true this
  have hsame : ∀ b ∈ l, Function.update s.jobQueue.memory a (some n) b = s.jobQueue.memory b :=
    fun b hb => Function.update_of_ne (fun hba : b = a => hal (hba ▸ hb)) _ _
  refine ⟨Holds.setMemory h.holds hsame, h.max, h.count, fun b => ?_, ?_, h.once, h.staying⟩
  · have howned := h.owned b
    show l.count b + (s.made ++ [a]).count b + counted (fun p => p.node = some b) s.worker =
      (Function.update s.jobQueue.memory a (some n) b).isSome.toNat
    rw [List.count_append]
    by_cases hba : b = a
    · rw [hba] at howned ⊢
      rw [hfree] at howned
      rw [Function.update_self, List.count_singleton_self]
      simp only [Option.isSome_none, Option.isSome_some, Bool.toNat_false,
        Bool.toNat_true] at howned ⊢
      omega
    · rw [Function.update_of_ne hba, List.count_singleton, if_neg (by simpa using Ne.symm hba)]
      omega
  · have hjobs : ∀ b ∈ l, jobOf (Function.update s.jobQueue.memory a (some n)) b =
        jobOf s.jobQueue.memory b := by
      intro b hb
      unfold jobOf
      rw [hsame b hb]
    show s.added = s.took.map Prod.snd ++ jobs (Function.update s.jobQueue.memory a (some n)) l
    rw [jobs_congr hjobs]
    exact h.fifo

theorem add_ordered (h : Ordered s l) (ha : a ∈ s.made) :
    Ends (fun f => f = .overflow ∧ s.jobQueue.number = INT_MAX)
      (fun t => Ordered t (a :: l)) (step s (.add a)) := by
  obtain ⟨hlive, hal⟩ := h.of_made ha
  have hsem : (s.jobQueue.queueSem : ℤ) ≤ s.jobQueue.number := by
    rw [h.holds.number]
    have := h.count
    omega
  refine (jobQueue_add_spec h.holds hlive hal h.max hsem).bind ?_
  rintro r ⟨hholds, hsem', hjobs, hmax⟩
  refine ⟨hholds, hmax, ?_, fun b => ?_, ?_, h.once, h.staying⟩
  · show r.queueSem + counted Phase.isWoken s.worker = _
    have := h.count
    rw [List.length_cons]
    omega
  · show (a :: l).count b + (s.made.erase a).count b +
      counted (fun p => p.node = some b) s.worker = (r.memory b).isSome.toNat
    have howned := h.owned b
    rw [hjobs.isSome, List.count_cons, List.count_erase]
    by_cases hba : b = a
    · rw [hba] at howned ⊢
      have := List.count_pos_iff.mpr ha
      simp only [beq_self_eq_true, if_true]
      omega
    · simp only [beq_iff_eq, Ne.symm hba, if_false]
      omega
  · show s.added ++ (jobOf r.memory a).toList = s.took.map Prod.snd ++ jobs r.memory (a :: l)
    have hcons : jobs r.memory (a :: l) = jobs r.memory l ++ (jobOf r.memory a).toList := by
      unfold jobs
      rw [List.reverse_cons, List.filterMap_append]
      cases h' : jobOf r.memory a <;> simp [h']
    rw [hcons, jobs_congr fun b _ => hjobs b, h.fifo, List.append_assoc]

theorem Ordered.counted_node (h : Ordered s l) (w : W) (p : Phase A J) (b : A) :
    l.count b + s.made.count b +
        counted (fun p => p.node = some b) (Function.update s.worker w p) +
        (decide ((s.worker w).node = some b)).toNat =
      (s.jobQueue.memory b).isSome.toNat + (decide (p.node = some b)).toNat := by
  have hupdate := counted_update (fun p : Phase A J => decide (p.node = some b)) s.worker w p
  have howned := h.owned b
  omega

omit [DecidableEq A] [Fintype W] in
theorem job_update {f : W → Phase A J} {p : Phase A J} (hp : p.job = (f w).job) (v : W) :
    (Function.update f w p v).job = (f v).job := by
  by_cases hv : v = w
  · rw [hv, Function.update_self, hp]
  · rw [Function.update_of_ne hv]

omit [DecidableEq A] [Fintype W] in
theorem staying_update {f : W → Phase A J} {p : Phase A J} (hf : ∀ v, f v ≠ .returned)
    (hp : p ≠ .returned) (v : W) : Function.update f w p v ≠ .returned := by
  by_cases hv : v = w
  · rw [hv, Function.update_self]
    exact hp
  · rw [Function.update_of_ne hv]
    exact hf v

theorem wait_ordered (h : Ordered s l) (hw : s.worker w = .waiting)
    (hsem : 0 < s.jobQueue.queueSem) :
    Ordered (setWorker w .woken
      { s with jobQueue := { s.jobQueue with queueSem := s.jobQueue.queueSem - 1 } }) l := by
  refine ⟨⟨h.holds.represents, h.holds.live, h.holds.number⟩, h.max, ?_, fun b => ?_, h.fifo,
    fun v => ?_, staying_update h.staying nofun⟩
  · have hupdate := counted_update Phase.isWoken s.worker w (.woken : Phase A J)
    have hcount := h.count
    rw [hw] at hupdate
    simp only [Phase.isWoken, Bool.toNat_true, Bool.toNat_false] at hupdate
    show s.jobQueue.queueSem - 1 + counted Phase.isWoken (Function.update s.worker w .woken) = _
    omega
  · have hnode := h.counted_node w .woken b
    rw [hw] at hnode
    exact hnode
  · show doneBy v s.took = doneBy v s.executed ++ (Function.update s.worker w .woken v).job.toList
    rw [job_update (by rw [hw]; rfl)]
    exact h.once v

/-- A worker that `sem_wait` has let through finds the last job, and takes it away. -/
theorem take_ordered (h : Ordered s l) (hw : s.worker w = .woken) :
    ∃ l' a n r t, l = l' ++ [a] ∧ threadPool_jobQueue_peek s.jobQueue = some a ∧
      s.jobQueue.memory a = some n ∧ threadPool_jobQueue_removeLast s.jobQueue = .ok (0, r) ∧
      take w s = .ok t ∧ Ordered t l' := by
  have hwoken := toNat_le_counted (P := (Phase.isWoken : Phase A J → Bool)) rfl s.worker w
  rw [hw, show (Phase.isWoken (.woken : Phase A J)).toNat = 1 from rfl] at hwoken
  have hcount := h.count
  rcases List.eq_nil_or_concat l with rfl | ⟨l, a, rfl⟩
  · rw [List.length_nil] at hcount
    omega
  rw [List.concat_eq_append] at h hcount ⊢
  obtain ⟨n, hn⟩ := Option.isSome_iff_exists.mp (h.holds.live a (by simp))
  obtain ⟨hpeek, r, hremove, hholds, hsem, hjobs⟩ := jobQueue_removeLast_eq h.holds
  have htake : take w s = .ok { setWorker w (.holding a n.job) { s with jobQueue := r } with
      took := s.took ++ [(w, n.job)] } := by
    unfold take
    rw [hpeek]
    simp only [deref_of_live hn, hremove, ok_bind, ne_eq, not_true_eq_false, if_false, pure_eq_ok]
  refine ⟨l, a, n, r, _, rfl, hpeek, hn, hremove, htake, hholds, ?_, ?_, fun b => ?_, ?_,
    fun v => ?_, staying_update h.staying nofun⟩
  · show r.number ≤ INT_MAX
    have hmax := h.max
    rw [h.holds.number, List.length_append] at hmax
    rw [hholds.number]
    omega
  · have hupdate := counted_update Phase.isWoken s.worker w (.holding a n.job)
    rw [hw] at hupdate
    simp only [Phase.isWoken, Bool.toNat_true, Bool.toNat_false] at hupdate
    rw [List.length_append, List.length_singleton] at hcount
    show r.queueSem + counted Phase.isWoken (Function.update s.worker w _) = _
    omega
  · have hnode := h.counted_node w (.holding a n.job) b
    rw [hw, List.count_append, List.count_singleton] at hnode
    show l.count b + s.made.count b + counted (fun p => p.node = some b)
      (Function.update s.worker w (.holding a n.job)) = (r.memory b).isSome.toNat
    rw [hjobs.isSome]
    by_cases hba : a = b
    · simp only [Phase.node, hba] at hnode ⊢
      simp only [beq_self_eq_true, if_true, reduceCtorEq, decide_false, decide_true,
        Bool.toNat_true, Bool.toNat_false] at hnode ⊢
      omega
    · simp only [Phase.node, beq_iff_eq, hba, if_false, reduceCtorEq, decide_false, Option.some.injEq,
        Bool.toNat_false] at hnode ⊢
      omega
  · show s.added = (s.took ++ [(w, n.job)]).map Prod.snd ++ jobs r.memory l
    have hjob : jobOf s.jobQueue.memory a = some n.job := by
      rw [jobOf, hn]
      rfl
    rw [jobs_congr fun b _ => hjobs b, h.fifo, jobs_snoc hjob, List.map_append]
    simp
  · show doneBy v (s.took ++ [(w, n.job)]) = doneBy v s.executed ++
      (Function.update s.worker w (.holding a n.job) v).job.toList
    have honce := h.once v
    by_cases hv : v = w
    · rw [hv, hw] at honce
      rw [hv, doneBy_concat_self, Function.update_self, honce]
      simp [Phase.job]
    · rw [doneBy_concat_of_ne hv, Function.update_of_ne hv]
      exact honce

theorem call_ordered (h : Ordered s l) {job : J} (hw : s.worker w = .holding a job) :
    Ordered { setWorker w (.finished a) s with executed := s.executed ++ [(w, job)] } l := by
  refine ⟨h.holds, h.max, ?_, fun b => ?_, h.fifo, fun v => ?_, staying_update h.staying nofun⟩
  · have hupdate := counted_update Phase.isWoken s.worker w (.finished a)
    have hcount := h.count
    rw [hw] at hupdate
    simp only [Phase.isWoken, Bool.toNat_false] at hupdate
    show s.jobQueue.queueSem + counted Phase.isWoken (Function.update s.worker w _) = _
    omega
  · have hnode := h.counted_node w (.finished a) b
    rw [hw] at hnode
    exact Nat.add_right_cancel hnode
  · show doneBy v s.took = doneBy v (s.executed ++ [(w, job)]) ++
      (Function.update s.worker w (.finished a) v).job.toList
    have honce := h.once v
    by_cases hv : v = w
    · rw [hv, hw] at honce
      rw [hv, doneBy_concat_self, Function.update_self, honce]
      simp [Phase.job]
    · rw [doneBy_concat_of_ne hv, Function.update_of_ne hv]
      exact honce

theorem free_ordered (h : Ordered s l) (hw : s.worker w = .finished a) :
    Ordered (setWorker w .waiting (setMemory (Function.update s.jobQueue.memory a none) s)) l := by
  obtain ⟨hlive, hal⟩ := h.of_node (w := w) (a := a) (by rw [hw]; rfl)
  have hsame : ∀ b ∈ l, Function.update s.jobQueue.memory a none b = s.jobQueue.memory b :=
    fun b hb => Function.update_of_ne (fun hba : b = a => hal (hba ▸ hb)) _ _
  refine ⟨Holds.setMemory h.holds hsame, h.max, ?_, fun b => ?_, ?_, fun v => ?_,
    staying_update h.staying nofun⟩
  · have hupdate := counted_update Phase.isWoken s.worker w .waiting
    have hcount := h.count
    rw [hw] at hupdate
    simp only [Phase.isWoken, Bool.toNat_false] at hupdate
    show s.jobQueue.queueSem + counted Phase.isWoken (Function.update s.worker w _) = _
    omega
  · have hnode := h.counted_node w .waiting b
    rw [hw] at hnode
    show l.count b + s.made.count b + counted (fun p => p.node = some b)
      (Function.update s.worker w .waiting) =
      (Function.update s.jobQueue.memory a none b).isSome.toNat
    by_cases hba : a = b
    · rw [hba] at hlive hnode ⊢
      rw [hlive] at hnode
      rw [Function.update_self]
      simp only [Phase.node, decide_true, reduceCtorEq, decide_false, Bool.toNat_true,
        Bool.toNat_false, Option.isSome_none] at hnode ⊢
      omega
    · rw [Function.update_of_ne (Ne.symm hba)]
      simp only [Phase.node, Option.some.injEq, hba, reduceCtorEq, decide_false,
        Bool.toNat_false] at hnode ⊢
      omega
  · have hjobs : ∀ b ∈ l, jobOf (Function.update s.jobQueue.memory a none) b =
        jobOf s.jobQueue.memory b := by
      intro b hb
      unfold jobOf
      rw [hsame b hb]
    show s.added = s.took.map Prod.snd ++ jobs (Function.update s.jobQueue.memory a none) l
    rw [jobs_congr hjobs]
    exact h.fifo
  · show doneBy v s.took = doneBy v s.executed ++ (Function.update s.worker w .waiting v).job.toList
    rw [job_update (by rw [hw]; rfl)]
    exact h.once v

/-- Only the addition to a full queue can fail. -/
theorem step_ordered (h : Ordered s l) {act : Act A J W} (hact : enabled s act) :
    Ends (fun f => f = .overflow ∧ s.jobQueue.number = INT_MAX ∧ ∃ a, act = .add a)
      (fun t => ∃ l', Ordered t l') (step s act) := by
  cases act with
  | malloc a job prev next => exact ⟨l, malloc_ordered h hact⟩
  | add a =>
    have hadd := add_ordered h hact
    exact hadd.mono (fun f hf => ⟨hf.1, hf.2, a, rfl⟩) fun t ht => ⟨_, ht⟩
  | wait w => exact ⟨l, wait_ordered h hact.1 hact.2⟩
  | take w =>
    obtain ⟨l', a, n, r, t, -, -, -, -, htake, ht⟩ := take_ordered h hact
    show Ends _ _ (take w s)
    rw [htake]
    exact ⟨l', ht⟩
  | call w =>
    have hjob : (s.worker w).job.isSome = true := hact
    cases hw : s.worker w with
    | holding a job =>
      simp only [step, hw]
      exact ⟨l, call_ordered h hw⟩
    | _ => rw [hw] at hjob; cases hjob
  | free w =>
    have hfinished : (s.worker w).isFinished = true := hact
    cases hw : s.worker w with
    | finished a =>
      have hnode : (s.worker w).node = some a := by
        rw [hw]
        rfl
      simp only [step, hw, (h.of_node hnode).1, if_true]
      exact ⟨l, free_ordered h hw⟩
    | _ => rw [hw] at hfinished; cases hfinished

/-! ### Runs -/

omit [DecidableEq A] in
theorem sum_doneBy (record : List (W × J)) :
    ∑ w, (doneBy w record : Multiset J) = (record.map Prod.snd : List J) := by
  induction record with
  | nil => simp [doneBy]
  | cons r record ih =>
    have hcons : ∀ w, (doneBy w (r :: record) : Multiset J) =
        (if r.1 = w then {r.2} else 0) + (doneBy w record : Multiset J) := by
      intro w
      by_cases hw : r.1 = w
      · simp [doneBy, hw]
      · simp [doneBy, hw]
    simp only [hcons, Finset.sum_add_distrib, ih, Finset.sum_ite_eq, Finset.mem_univ, if_true]
    rfl

theorem run_ordered {as : List (Act A J W)} (h : Run (poolMachine A J W) threadPool_init as s) :
    ∃ l, Ordered s l :=
  run_ends (M := poolMachine A J W) (E := fun _ => True) (I := fun s => ∃ l, Ordered s l)
    (fun _ _ hs he => (step_ordered hs.choose_spec he).mono (fun _ _ => trivial) fun _ => id)
    h ⟨[], ordered_init⟩

/-- **The job queue of the thread pool.**  Whatever the producers and the workers do, the queue is
a list that can be read both ways; the semaphore and the workers between `sem_wait` and the removal
are as many as its jobs; such a worker finds a job, and the removal does not fail; only an addition
to `INT_MAX` jobs fails; the jobs removed are the first ones added; every job added has been called,
is in the hands of one worker, or is in the queue. -/
theorem pool_ordered {as : List (Act A J W)}
    (h : Run (poolMachine A J W) threadPool_init as s) :
    ∃ l, Represents (view s.jobQueue) l ∧ s.jobQueue.number = l.length ∧
      (s.jobQueue.head = none ↔ l = []) ∧ (s.jobQueue.tail = none ↔ l = []) ∧
      ((s.jobQueue.queueSem + counted Phase.isWoken s.worker : ℕ) : ℤ) = s.jobQueue.number ∧
      (∀ w, s.worker w = .woken → ∃ a n r t, threadPool_jobQueue_peek s.jobQueue = some a ∧
        s.jobQueue.memory a = some n ∧
        threadPool_jobQueue_removeLast s.jobQueue = .ok (0, r) ∧ step s (.take w) = .ok t) ∧
      (∀ w, s.worker w ≠ .returned) ∧
      (∀ act f, enabled s act → step s act = .error f →
        f = .overflow ∧ s.jobQueue.number = INT_MAX ∧ ∃ a, act = .add a) ∧
      s.added = s.took.map Prod.snd ++ jobs s.jobQueue.memory l ∧
      (∀ w, doneBy w s.took = doneBy w s.executed ++ (s.worker w).job.toList) ∧
      (s.added : Multiset J) = (s.executed.map Prod.snd : List J) +
        ∑ w, ((s.worker w).job.toList : Multiset J) + (jobs s.jobQueue.memory l : List J) := by
  obtain ⟨l, hl⟩ := run_ordered h
  refine ⟨l, hl.holds.represents, hl.holds.number, hl.holds.represents.head_eq_none,
    hl.holds.represents.tail_eq_none, ?_, fun w hw => ?_, hl.staying, fun act f hact hf => ?_,
    hl.fifo, hl.once, ?_⟩
  · rw [hl.count, hl.holds.number]
  · obtain ⟨-, a, n, r, t, -, hpeek, hn, hremove, htake, -⟩ := take_ordered hl hw
    exact ⟨a, n, r, t, hpeek, hn, hremove, htake⟩
  · exact (step_ordered hl hact).of_error hf
  · have htook : (s.took.map Prod.snd : Multiset J) = (s.executed.map Prod.snd : List J) +
        ∑ w, ((s.worker w).job.toList : Multiset J) := by
      rw [← sum_doneBy, ← sum_doneBy, ← Finset.sum_add_distrib]
      refine Finset.sum_congr rfl fun w _ => ?_
      rw [hl.once w]
      exact (Multiset.coe_add _ _).symm
    rw [hl.fifo, ← Multiset.coe_add, htook]

/-- Two jobs are added, and one is removed while another worker comes through. -/
theorem pool_ordered_two :
    ∃ s, Run (poolMachine ℕ ℕ Bool) threadPool_init
        [.malloc 0 7 none none, .malloc 1 8 none none, .add 0, .wait true, .add 1, .take true,
          .wait false] s ∧
      s.worker false = .woken ∧ s.took = [(true, 7)] ∧
      ∃ a n r t, threadPool_jobQueue_peek s.jobQueue = some a ∧ s.jobQueue.memory a = some n ∧
        threadPool_jobQueue_removeLast s.jobQueue = .ok (0, r) ∧ step s (.take false) = .ok t := by
  have hexec : ∃ s, (poolMachine ℕ ℕ Bool).exec threadPool_init
      [.malloc 0 7 none none, .malloc 1 8 none none, .add 0, .wait true, .add 1, .take true,
        .wait false] = some s ∧ s.worker false = .woken ∧ s.took = [(true, 7)] :=
    ⟨_, rfl, rfl, rfl⟩
  obtain ⟨s, hs, hw, htook⟩ := hexec
  have hrun := run_iff_exec.mpr hs
  obtain ⟨l, -, -, -, -, -, hwoken, -⟩ := pool_ordered hrun
  exact ⟨s, hrun, hw, htook, hwoken false hw⟩

end ReactorServer.Pool.ThreadPool
