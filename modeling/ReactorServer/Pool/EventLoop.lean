import ReactorServer.Pool.Reactor
import ReactorServer.Pool.ThreadPool

/-!
# The event loop of a reactor

`event_loop` looks up the handler of every descriptor that `epoll_wait` reports and makes a job of it for
the pool, while other threads add handlers (nobody calls `rm_eh`) and the workers do the jobs.  `add_eh`
registers a descriptor and stores its handler under one lock, which `find_eh` takes too, so that no event
comes without a handler: every event that is not the end of a peer becomes one job for the handler of its
descriptor, the jobs are taken in the order of the events, and nothing fails but an addition to a full
queue (`events_dispatched`).
-/

namespace ReactorServer.Pool.EventLoop

open ReactorServer.Cpp ReactorServer.Lib.Runs ReactorServer.Lib.Triples
open ReactorServer.Lib.DoublyLinked ReactorServer.Pool.JobQueue ReactorServer.Pool.ThreadPool
open ReactorServer.Pool.Reactor (reactor_core_t event_handler_t Handler Kept find_eh allowed)

/-! ### The model -/

def EPOLLRDHUP : BitVec 32 := 0x2000#32

/-- `struct epoll_event`, with the descriptor that `addFd` has put into `data`. -/
structure epoll_event where
  events : BitVec 32
  fd : ℤ
  deriving DecidableEq, Repr

/-- The argument of the job; the function is the handler's. -/
structure handle_event_msg_t (A : Type) where
  e : BitVec 32
  eh : A
  deriving DecidableEq, Repr

/-- Where `event_loop` is. -/
inductive Turn (A N : Type)
  /-- in `epoll_wait`, or at the head of the loop over the events -/
  | idle
  /-- `find_eh` has returned a handler -/
  | found (msg : handle_event_msg_t A)
  /-- in `threadPool_add_work`, with the node -/
  | adding (a : N) (msg : handle_event_msg_t A)

/-- The message that is not in the pool yet. -/
def Turn.msg {A N : Type} : Turn A N → Option (handle_event_msg_t A)
  | .idle => none
  | .found msg => some msg
  | .adding _ msg => some msg

/-- A `reactor_t` with its pool; `ees` are the events that the loop has still before it.  Two records of
the past: the handlers added, and the events that have been looked at. -/
structure reactor_t (A N W : Type) where
  core : reactor_core_t A
  threadPool : threadPool_t N (handle_event_msg_t A) W
  ees : List epoll_event
  turn : Turn A N
  live : List (Handler A)
  handled : List epoll_event

inductive Act (A N W : Type)
  /-- a thread adds a handler it has just made -/
  | add_eh (p : A) (eh : event_handler_t)
  /-- `epoll_wait` returns -/
  | wait (ees : List epoll_event)
  /-- the next event is looked at -/
  | find
  /-- `threadPool_add_work` up to the mutex -/
  | submit (a : N) (prev next : Option N)
  /-- its section under the mutex -/
  | add
  /-- a worker goes on -/
  | work (act : ThreadPool.Act N (handle_event_msg_t A) W)

variable {A N W : Type} [DecidableEq A] [DecidableEq N] [DecidableEq W]

omit [DecidableEq A] [DecidableEq N] [DecidableEq W] in
/-- `create_reactor`, with the pool it is given. -/
def create_reactor : reactor_t A N W :=
  ⟨Reactor.create_reactor, threadPool_init, [], .idle, [], []⟩

/-- A step of `threadPool_job_do`. -/
def isWork : ThreadPool.Act N (handle_event_msg_t A) W → Prop
  | .malloc _ _ _ _ => False
  | .add _ => False
  | _ => True

def enabled (s : reactor_t A N W) : Act A N W → Prop
  | .add_eh p eh => allowed s.live (.add p eh)
  -- `epoll_wait` reports descriptors that have been registered
  | .wait ees => s.turn.msg = none ∧ s.ees = [] ∧ ∀ e ∈ ees, e.fd ∈ s.live.map (fun h => h.2.fd)
  | .find => s.turn.msg = none ∧ s.ees ≠ []
  | .submit a _ _ => (∃ msg, s.turn = .found msg) ∧ s.threadPool.jobQueue.memory a = none
  | .add => ∃ a msg, s.turn = .adding a msg
  | .work act => isWork act ∧ ThreadPool.enabled s.threadPool act

def step (s : reactor_t A N W) : Act A N W → Except Fault (reactor_t A N W)
  | .add_eh p eh => do
    let core ← Reactor.call s.core (.add p eh)
    pure { s with core := core, live := s.live ++ [(p, eh)] }
  | .wait ees => .ok { s with ees := ees }
  | .find =>
    match s.ees with
    | [] => .error .outOfBounds
    | e :: ees =>
      let s := { s with ees := ees, handled := s.handled ++ [e] }
      -- `user down`
      if e.events &&& EPOLLRDHUP ≠ 0 then pure s
      else do
        match ← find_eh s.core e.fd with
        | none => pure s
        | some (eh, _) => pure { s with turn := .found ⟨e.events, eh⟩ }
  | .submit a prev next =>
    match s.turn with
    | .found msg => do
      -- `eh->handle_event`
      let _ ← Reactor.deref s.core.memory msg.eh
      let pool ← ThreadPool.step s.threadPool (.malloc a msg prev next)
      pure { s with threadPool := pool, turn := .adding a msg }
    | _ => .error .outOfBounds
  | .add =>
    match s.turn with
    | .adding a _ => do
      let pool ← ThreadPool.step s.threadPool (.add a)
      pure { s with threadPool := pool, turn := .idle }
    | _ => .error .outOfBounds
  | .work act => do
    let pool ← ThreadPool.step s.threadPool act
    pure { s with threadPool := pool }

def reactorMachine (A N W : Type) [DecidableEq A] [DecidableEq N] [DecidableEq W] :
    Machine (reactor_t A N W) (Act A N W) Fault where
  enabled := enabled
  step := step

/-- What an event asks for, where these handlers have been added. -/
def message (live : List (Handler A)) (e : epoll_event) : Option (handle_event_msg_t A) :=
  if e.events &&& EPOLLRDHUP ≠ 0 then none
  else (live.find? fun h => h.2.fd = e.fd).map fun h => ⟨e.events, h.1⟩

variable {s t : reactor_t A N W} {l : List N} {a : N} {e : epoll_event} {live : List (Handler A)}

/-! ### Looking up a handler -/

/-- The descriptor of the event has a handler. -/
def Known (live : List (Handler A)) (e : epoll_event) : Prop := e.fd ∈ live.map (fun h => h.2.fd)

omit [DecidableEq A] in
theorem Known.append (h : Known live e) (x : Handler A) : Known (live ++ [x]) e := by
  unfold Known
  rw [List.map_append]
  exact List.mem_append_left _ h

omit [DecidableEq A] in
theorem Known.find (h : Known live e) : ∃ x, live.find? (fun h => h.2.fd = e.fd) = some x := by
  obtain ⟨x, hx, hfd⟩ := List.mem_map.mp h
  have hsome : (live.find? fun h => decide (h.2.fd = e.fd)).isSome := by
    rw [List.find?_isSome]
    exact ⟨x, hx, by simpa using hfd⟩
  exact Option.isSome_iff_exists.mp hsome

omit [DecidableEq A] in
theorem message_append (h : Known live e) (x : Handler A) :
    message (live ++ [x]) e = message live e := by
  obtain ⟨y, hy⟩ := h.find
  unfold message
  rw [List.find?_append, hy]
  rfl

omit [DecidableEq A] in
theorem find_known {core : reactor_core_t A} (hk : Kept live core) (h : Known live e) :
    ∃ p i, find_eh core e.fd = .ok (some (p, i)) ∧ p ∈ live.map Prod.fst ∧
      (e.events &&& EPOLLRDHUP = 0 → message live e = some ⟨e.events, p⟩) := by
  obtain ⟨x, hx⟩ := h.find
  have hxmem := List.mem_of_find?_eq_some hx
  have hxfd : x.2.fd = e.fd := by simpa using List.find?_some hx
  rcases Reactor.find_eh_spec hk e.fd with ⟨-, hnone⟩ | ⟨j, hj, hfind, hfd⟩
  · exact absurd hxfd (hnone x hxmem)
  · have hsame : live[j] = x := Reactor.eq_of_fd hk (List.getElem_mem hj) hxmem (hfd.trans hxfd.symm)
    refine ⟨live[j].1, j, hfind, List.mem_map_of_mem (List.getElem_mem hj), fun hev => ?_⟩
    unfold message
    rw [if_neg (fun hne => hne hev), hx, hsame]
    rfl

/-! ### What the steps of the pool leave alone -/

variable [Fintype W]

omit [DecidableEq A] in
/-- A worker adds no job, and leaves the nodes of the producers alone. -/
theorem work_frame {q r : threadPool_t N (handle_event_msg_t A) W}
    {act : ThreadPool.Act N (handle_event_msg_t A) W} (h : Ordered q l) (hwork : isWork act)
    (he : ThreadPool.enabled q act) (hs : ThreadPool.step q act = .ok r) :
    r.added = q.added ∧ r.made = q.made ∧
      ∀ a ∈ q.made, jobOf r.jobQueue.memory a = jobOf q.jobQueue.memory a := by
  cases act with
  | malloc a job prev next => exact absurd hwork id
  | add a => exact absurd hwork id
  | wait w =>
    obtain rfl := Except.ok.inj hs
    exact ⟨rfl, rfl, fun _ _ => rfl⟩
  | take w =>
    obtain ⟨l', b, n, q', u, hl, hpeek, hn, hremove, htake, -⟩ := take_ordered h he
    obtain rfl : u = r := Except.ok.inj (htake.symm.trans hs)
    have hjobs : SameJobs q.jobQueue.memory q'.memory := by
      obtain ⟨-, q'', hremove', -, -, hjobs⟩ := jobQueue_removeLast_eq (hl ▸ h.holds)
      obtain rfl := (Prod.mk.inj (Except.ok.inj (hremove.symm.trans hremove'))).2
      exact hjobs
    have hu : ThreadPool.take w q = .ok { setWorker w (.holding b n.job) { q with jobQueue := q' } with
        took := q.took ++ [(w, n.job)] } := by
      unfold ThreadPool.take
      rw [hpeek]
      simp only [deref_of_live hn, hremove, ok_bind, ne_eq, not_true_eq_false, if_false, pure_eq_ok]
    obtain rfl := Except.ok.inj (hu.symm.trans htake)
    exact ⟨rfl, rfl, fun a _ => hjobs a⟩
  | call w =>
    have hjob : (q.worker w).job.isSome = true := he
    cases hw : q.worker w with
    | holding b job =>
      simp only [ThreadPool.step, hw] at hs
      obtain rfl := Except.ok.inj hs
      exact ⟨rfl, rfl, fun _ _ => rfl⟩
    | _ => rw [hw] at hjob; cases hjob
  | free w =>
    have hfinished : (q.worker w).isFinished = true := he
    cases hw : q.worker w with
    | finished b =>
      have hnode : (q.worker w).node = some b := by
        rw [hw]
        rfl
      simp only [ThreadPool.step, hw, (h.of_node hnode).1, if_true] at hs
      obtain rfl := Except.ok.inj hs
      refine ⟨rfl, rfl, fun a ha => ?_⟩
      have hne : a ≠ b := by
        rintro rfl
        -- a node belongs to one producer or to one worker
        have howned := h.owned a
        have hmade := List.count_pos_iff.mpr ha
        have hworker := toNat_le_counted (P := fun p : Phase N (handle_event_msg_t A) =>
          decide (p.node = some a)) rfl q.worker w
        rw [decide_eq_true hnode, Bool.toNat_true] at hworker
        have hle := Bool.toNat_le (q.jobQueue.memory a).isSome
        omega
      show jobOf (Function.update q.jobQueue.memory b none) a = _
      unfold jobOf
      rw [Function.update_of_ne hne]
    | _ => rw [hw] at hfinished; cases hfinished

omit [DecidableEq A] in
theorem add_frame {q r : threadPool_t N (handle_event_msg_t A) W} (h : Ordered q l)
    (ha : a ∈ q.made) (hs : ThreadPool.step q (.add a) = .ok r) :
    r.added = q.added ++ (jobOf q.jobQueue.memory a).toList := by
  obtain ⟨hlive, hal⟩ := h.of_made ha
  have hsem : (q.jobQueue.queueSem : ℤ) ≤ q.jobQueue.number := by
    rw [h.holds.number]
    have := h.count
    omega
  obtain ⟨q', hadd, hs⟩ := bind_eq_ok.mp hs
  obtain rfl := Except.ok.inj hs
  have hjobs := ((jobQueue_add_spec h.holds hlive hal h.max hsem).of_ok hadd).2.2.1
  show q.added ++ (jobOf q'.memory a).toList = _
  rw [hjobs a]

/-! ### The invariant -/

/-- **The invariant of the event loop.** -/
structure Dispatching (s : reactor_t A N W) : Prop where
  table : Kept s.live s.core
  pool : ∃ l, Ordered s.threadPool l
  known : ∀ e ∈ s.ees ++ s.handled, Known s.live e
  found : ∀ msg, s.turn = .found msg → msg.eh ∈ s.live.map Prod.fst
  adding : ∀ a msg, s.turn = .adding a msg →
    a ∈ s.threadPool.made ∧ jobOf s.threadPool.jobQueue.memory a = some msg
  sent : s.handled.filterMap (message s.live) = s.threadPool.added ++ s.turn.msg.toList

omit [DecidableEq A] in
theorem dispatching_create : Dispatching (create_reactor : reactor_t A N W) where
  table := Reactor.kept_new
  pool := ⟨[], ordered_init⟩
  known _ he := absurd he List.not_mem_nil
  found _ h := by cases h
  adding _ _ h := by cases h
  sent := rfl

/-- The only way a step can fail. -/
def Full (s : reactor_t A N W) (f : Fault) : Prop :=
  f = .overflow ∧ s.threadPool.jobQueue.number = INT_MAX

theorem add_eh_spec (h : Dispatching s) {p : A} {eh : event_handler_t}
    (ha : allowed s.live (.add p eh)) : Ends (Full s) Dispatching (step s (.add_eh p eh)) := by
  obtain ⟨core, hcall, hkept⟩ := Reactor.add_spec h.table ha
  unfold step
  dsimp only
  rw [hcall]
  refine
    { table := hkept
      pool := h.pool
      known := fun e he => (h.known e he).append _
      found := fun msg hmsg => ?_
      adding := h.adding
      sent := ?_ }
  · show msg.eh ∈ (s.live ++ [(p, eh)]).map Prod.fst
    rw [List.map_append]
    exact List.mem_append_left _ (h.found msg hmsg)
  · show s.handled.filterMap (message (s.live ++ [(p, eh)])) = _
    rw [← h.sent]
    exact List.filterMap_congr fun e he =>
      message_append (h.known e (List.mem_append_right _ he)) _

theorem find_spec (h : Dispatching s) (hidle : s.turn.msg = none) {ees : List epoll_event}
    (hees : s.ees = e :: ees) : Ends (Full s) Dispatching (step s .find) := by
  have hknown : Known s.live e := h.known e (by rw [hees]; simp)
  have hall : ∀ x ∈ ees ++ (s.handled ++ [e]), Known s.live x := by
    intro x hx
    refine h.known x ?_
    rw [hees]
    simp only [List.mem_append, List.mem_cons, List.not_mem_nil, or_false] at hx ⊢
    tauto
  have hsent := h.sent
  rw [hidle] at hsent
  unfold step
  simp only [hees]
  by_cases hdown : e.events &&& EPOLLRDHUP ≠ 0
  · rw [if_pos hdown]
    refine ⟨h.table, h.pool, hall, h.found, h.adding, ?_⟩
    show (s.handled ++ [e]).filterMap (message s.live) = s.threadPool.added ++ s.turn.msg.toList
    have hnone : message s.live e = none := if_pos hdown
    rw [List.filterMap_append, hsent, hidle]
    simp [hnone]
  · rw [if_neg hdown]
    obtain ⟨p, i, hfind, hp, hmsg⟩ := find_known h.table hknown
    rw [hfind]
    refine ⟨h.table, h.pool, hall, fun msg hturn => ?_, fun a msg hturn => (nomatch hturn), ?_⟩
    · cases hturn
      exact hp
    · show (s.handled ++ [e]).filterMap (message s.live) = s.threadPool.added ++ [⟨e.events, p⟩]
      rw [List.filterMap_append, hsent]
      simp [hmsg (not_not.mp hdown)]

theorem submit_spec (h : Dispatching s) {msg : handle_event_msg_t A} (hturn : s.turn = .found msg)
    {prev next : Option N} (hfree : s.threadPool.jobQueue.memory a = none) :
    Ends (Full s) Dispatching (step s (.submit a prev next)) := by
  obtain ⟨l, hl⟩ := h.pool
  obtain ⟨x, hx, hmsg⟩ := List.mem_map.mp (h.found msg hturn)
  have hderef : Reactor.deref s.core.memory msg.eh = .ok x.2 := by
    rw [Reactor.deref, ← hmsg, h.table.memory x hx]
  have hsent := h.sent
  rw [hturn] at hsent
  unfold step
  simp only [hturn, hderef, ok_bind]
  refine
    { table := h.table
      pool := ⟨l, malloc_ordered hl hfree⟩
      known := h.known
      found := fun _ hmsg => by cases hmsg
      adding := fun b m hb => ?_
      sent := hsent }
  cases hb
  refine ⟨List.mem_append_right _ List.mem_cons_self, ?_⟩
  show jobOf (Function.update s.threadPool.jobQueue.memory a _) a = _
  simp [jobOf]

theorem add_spec (h : Dispatching s) {msg : handle_event_msg_t A} (hturn : s.turn = .adding a msg) :
    Ends (Full s) Dispatching (step s .add) := by
  obtain ⟨l, hl⟩ := h.pool
  obtain ⟨hmade, hjob⟩ := h.adding a msg hturn
  have hsent := h.sent
  rw [hturn] at hsent
  unfold step
  simp only [hturn]
  cases hadd : ThreadPool.step s.threadPool (.add a) with
  | error f => exact (add_ordered hl hmade).of_error hadd
  | ok pool =>
    have hadded := add_frame hl hmade hadd
    rw [hjob] at hadded
    refine
      { table := h.table
        pool := ⟨_, (add_ordered hl hmade).of_ok hadd⟩
        known := h.known
        found := fun _ hmsg => nomatch hmsg
        adding := fun _ _ hb => nomatch hb
        sent := ?_ }
    show s.handled.filterMap (message s.live) = pool.added ++ []
    rw [hsent, hadded, List.append_nil]
    rfl

theorem work_spec (h : Dispatching s) {act : ThreadPool.Act N (handle_event_msg_t A) W}
    (hwork : isWork act) (he : ThreadPool.enabled s.threadPool act) :
    Ends (Full s) Dispatching (step s (.work act)) := by
  obtain ⟨l, hl⟩ := h.pool
  unfold step
  dsimp only
  cases hstep : ThreadPool.step s.threadPool act with
  | error f =>
    obtain ⟨hf, hfull, -⟩ := (step_ordered hl he).of_error hstep
    exact ⟨hf, hfull⟩
  | ok pool =>
    obtain ⟨hadded, hmade, hjobs⟩ := work_frame hl hwork he hstep
    refine
      { table := h.table
        pool := (step_ordered hl he).of_ok hstep
        known := h.known
        found := h.found
        adding := fun a msg hturn => ?_
        sent := ?_ }
    · obtain ⟨ha, hjob⟩ := h.adding a msg hturn
      exact ⟨hmade.symm ▸ ha, (hjobs a ha).trans hjob⟩
    · show s.handled.filterMap (message s.live) = pool.added ++ s.turn.msg.toList
      rw [hadded]
      exact h.sent

/-- **One step** keeps the invariant, or adds a job to a full queue. -/
theorem step_spec (h : Dispatching s) {act : Act A N W} (he : enabled s act) :
    Ends (Full s) Dispatching (step s act) := by
  cases act with
  | add_eh p eh => exact add_eh_spec h he
  | wait ees =>
    refine ⟨h.table, h.pool, fun e hmem => ?_, h.found, h.adding, h.sent⟩
    rcases List.mem_append.mp hmem with hnew | hold
    · exact he.2.2 e hnew
    · exact h.known e (List.mem_append_right _ hold)
  | find =>
    obtain ⟨e, ees, hees⟩ := List.exists_cons_of_ne_nil he.2
    exact find_spec h he.1 hees
  | submit a prev next =>
    obtain ⟨⟨msg, hturn⟩, hfree⟩ := he
    exact submit_spec h hturn hfree
  | add =>
    obtain ⟨a, msg, hturn⟩ := he
    exact add_spec h hturn
  | work act => exact work_spec h he.1 he.2

variable {acts : List (Act A N W)}

theorem dispatching_run (h : Run (reactorMachine A N W) create_reactor acts s) : Dispatching s :=
  run_ends (M := reactorMachine A N W) (E := fun _ => True) (I := Dispatching)
    (fun _ _ hs he => (step_spec hs he).mono (fun _ _ => trivial) fun _ => id) h dispatching_create

/-- The event is not the end of a peer. -/
def asks (e : epoll_event) : Bool := e.events &&& EPOLLRDHUP = 0

omit [DecidableEq A] [DecidableEq N] [DecidableEq W] [Fintype W] in
theorem length_messages {es : List epoll_event} (h : ∀ e ∈ es, Known live e) :
    (es.filterMap (message live)).length = es.countP asks := by
  induction es with
  | nil => rfl
  | cons e es ih =>
    have hrest := ih fun x hx => h x (List.mem_cons_of_mem _ hx)
    by_cases hev : e.events &&& EPOLLRDHUP = 0
    · obtain ⟨y, hy⟩ := (h e List.mem_cons_self).find
      have hsome : message live e = some ⟨e.events, y.1⟩ := by
        unfold message
        rw [if_neg (fun hne => hne hev), hy]
        rfl
      rw [List.filterMap_cons_some hsome, List.length_cons, hrest,
        List.countP_cons_of_pos (show asks e = true from decide_eq_true hev)]
    · have hnone : message live e = none := if_pos hev
      rw [List.filterMap_cons_none hnone, hrest,
        List.countP_cons_of_neg (show ¬asks e = true from fun hasks => hev (of_decide_eq_true hasks))]

/-- **Every event becomes one job.**  In every interleaving of the event loop with the threads that add
handlers and the workers: the events looked at, the ends of peers apart, are as many jobs, each for the
handler of its descriptor, in the order of the events; the first of them have been taken, and each of
these by the worker that has called it or is about to; the next ones are in the queue, and at most one is
on its way to it; and no step that can come next fails but an addition to `INT_MAX` jobs. -/
theorem events_dispatched (h : Run (reactorMachine A N W) create_reactor acts s) :
    ∃ l, Represents (view s.threadPool.jobQueue) l ∧
      s.handled.filterMap (message s.live) = s.threadPool.took.map Prod.snd ++
        jobs s.threadPool.jobQueue.memory l ++ s.turn.msg.toList ∧
      (s.handled.filterMap (message s.live)).length = s.handled.countP asks ∧
      (∀ w, doneBy w s.threadPool.took =
        doneBy w s.threadPool.executed ++ (s.threadPool.worker w).job.toList) ∧
      ∀ act f, enabled s act → step s act = .error f →
        f = .overflow ∧ s.threadPool.jobQueue.number = INT_MAX := by
  have hs := dispatching_run h
  obtain ⟨l, hl⟩ := hs.pool
  refine ⟨l, hl.holds.represents, ?_, ?_, hl.once, fun act f he => (step_spec hs he).of_error⟩
  · rw [hs.sent, hl.fifo]
  · exact length_messages fun e he => hs.known e (List.mem_append_right _ he)

/-- Two handlers; of three events the second is the end of a peer, and the first one's job has been
taken. -/
theorem events_dispatched_three : ∃ s : reactor_t ℕ ℕ Bool,
    Run (reactorMachine ℕ ℕ Bool) create_reactor [.add_eh 0 ⟨3, true⟩, .add_eh 1 ⟨4, true⟩,
      .wait [⟨1, 4⟩, ⟨0x2000, 3⟩, ⟨1, 3⟩], .find, .submit 7 none none, .add, .work (.wait true),
      .find, .work (.take true), .find] s ∧
    s.threadPool.took = [(true, ⟨1, 1⟩)] ∧ s.turn = .found ⟨1, 0⟩ ∧
    (s.handled.filterMap (message s.live)).length = s.handled.countP asks := by
  obtain ⟨s, h, htook, hturn⟩ : ∃ s : reactor_t ℕ ℕ Bool,
      Run (reactorMachine ℕ ℕ Bool) create_reactor [.add_eh 0 ⟨3, true⟩, .add_eh 1 ⟨4, true⟩,
        .wait [⟨1, 4⟩, ⟨0x2000, 3⟩, ⟨1, 3⟩], .find, .submit 7 none none, .add, .work (.wait true),
        .find, .work (.take true), .find] s ∧
      s.threadPool.took = [(true, ⟨1, 1⟩)] ∧ s.turn = .found ⟨1, 0⟩ :=
    ⟨_, .cons (show allowed [] (.add 0 ⟨3, true⟩) by decide) rfl
      (.cons (show allowed [(0, ⟨3, true⟩)] (.add 1 ⟨4, true⟩) by decide) rfl
      (.cons ⟨rfl, rfl, show ∀ e ∈ [_, _, _], epoll_event.fd e ∈ [3, 4] by decide⟩ rfl
      (.cons ⟨rfl, nofun⟩ rfl (.cons ⟨⟨_, rfl⟩, rfl⟩ rfl (.cons ⟨_, _, rfl⟩ rfl
      (.cons ⟨trivial, rfl, Nat.zero_lt_one⟩ rfl (.cons ⟨rfl, nofun⟩ rfl
      (.cons ⟨trivial, rfl⟩ rfl (.cons ⟨rfl, nofun⟩ rfl (.nil _)))))))))), rfl, rfl⟩
  obtain ⟨l, -, -, hlen, -⟩ := events_dispatched h
  exact ⟨s, h, htook, hturn, hlen⟩

end ReactorServer.Pool.EventLoop
