import ReactorServer.Lib.Refinement
import ReactorServer.Http.Conversation
import ReactorServer.Net.Sharing

/-!
# The clients of a loop

Any number of clients talk to one event loop: their connections are accepted at any time, and the
events of all of them and the functors they have queued come in any order.  They share the poller and
the queue of functors, and nothing else.  So for each of them a run of the loop is a conversation, in
which now and then the other channels change (`echoes`), and every client is told the answers to what
it has asked, and nothing else (`clients_read`).
-/

namespace ReactorServer.Http.Clients

open ReactorServer.Cpp ReactorServer.Lib.Runs ReactorServer.Lib.Triples ReactorServer.Lib.Refinement
open ReactorServer.Http.Request ReactorServer.Http.Response ReactorServer.Http.Server
open ReactorServer.Http.Answer ReactorServer.Http.Segmentation
open ReactorServer.Http.Conversation (conversationMachine answered Told)
open ReactorServer.Net.Poller ReactorServer.Net.Connection ReactorServer.Net.Connection.TcpConnection
open ReactorServer.Net.Registration ReactorServer.Net.Dispatch ReactorServer.Net.Output
open ReactorServer.Net.Sharing

variable {κ : Type} [DecidableEq κ]

/-! ### The loop -/

/-- A loop with its connections, by their channels; a functor is queued with the connection it is bound
to. -/
structure EventLoop (κ : Type) where
  poller : EpollPoller κ
  conns : κ → Option (TcpConnection κ)
  pendingFunctor : List (κ × Functor)

inductive Act (κ : Type)
  /-- a connection for a new channel is established -/
  | accept (c : κ) (writeCompleteCB inBaseLoop : Bool) (writes : List WriteResult)
  /-- a step of a connection -/
  | on (c : κ) (a : Conversation.Act κ)

/-- A step of the connection itself. -/
def isOwn : Conversation.Act κ → Bool
  | .elsewhere _ => false
  | _ => true

/-- What a step leaves of a queue: the loop takes the next functor out when it calls it. -/
def left {F : Type} : Conversation.Act κ → List F → List F
  | .exec, q => q.tail
  | _, q => q

/-- The functors of one connection. -/
def queued (c : κ) (q : List (κ × Functor)) : List Functor :=
  q.filterMap fun g => if g.1 = c then some g.2 else none

namespace EventLoop

def new (p : EpollPoller κ) : EventLoop κ := ⟨p, fun _ => none, []⟩

/-- A connection, with what it shares with the others. -/
def conn (s : EventLoop κ) (c : κ) : Option (TcpConnection κ) :=
  (s.conns c).map fun x => { x with poller := s.poller, pending := queued c s.pendingFunctor }

/-- The loop after a step of `c`: the functors that are new go to the end of what is left of the
queue. -/
def put (c : κ) (q : List (κ × Functor)) (x : TcpConnection κ) (s : EventLoop κ) : EventLoop κ where
  poller := x.poller
  conns := Function.update s.conns c (some x)
  pendingFunctor := q ++ (x.pending.drop (queued c q).length).map fun g => (c, g)

end EventLoop

def step (host : Host) (s : EventLoop κ) : Act κ → Except Fault (EventLoop κ)
  | .accept c w b writes => do
    let x ← opened host s.poller c w b writes
    pure (s.put c s.pendingFunctor x)
  | .on c a =>
    match s.conn c with
    | none => .error .outOfBounds
    | some x => do
      let x ← Conversation.step host x a
      pure (s.put c (left a s.pendingFunctor) x)

def enabled (host : Host) (s : EventLoop κ) : Act κ → Prop
  -- the object is new, and the descriptor not in use
  | .accept c _ _ _ => s.conns c = none ∧ s.poller.chan c = .new (s.poller.chan c).fd ∧
      s.poller.channels[(s.poller.chan c).fd]? = none
  | .on c a => isOwn a = true ∧ (a = .exec → s.pendingFunctor.head?.map Prod.fst = some c) ∧
      ∃ x, s.conn c = some x ∧ (conversationMachine host κ).enabled x a

def clientsMachine (host : Host) (κ : Type) [DecidableEq κ] : Machine (EventLoop κ) (Act κ) Fault where
  enabled := enabled host
  step := step host

/-- The steps of a client's connection. -/
def heard (c : κ) : Act κ → List (Conversation.Act κ)
  | .accept _ _ _ _ => []
  | .on d a => if d = c then [a] else []

/-- The steps of a conversation that are the connection's. -/
def ownSteps (a : Conversation.Act κ) : List (Conversation.Act κ) := if isOwn a then [a] else []

variable {host : Host} {s t u : EventLoop κ} {x y : TcpConnection κ} {c d : κ}
  {q : List (κ × Functor)} {as bs : List (Act κ)}

/-! ### The queue -/

theorem queued_append (c : κ) (q r : List (κ × Functor)) :
    queued c (q ++ r) = queued c q ++ queued c r :=
  List.filterMap_append

theorem queued_self (c : κ) (gs : List Functor) : queued c (gs.map fun g => (c, g)) = gs := by
  unfold queued
  rw [List.filterMap_map]
  simp

theorem queued_other (h : d ≠ c) (gs : List Functor) : queued c (gs.map fun g => (d, g)) = [] := by
  unfold queued
  rw [List.filterMap_map]
  simp [h]

theorem queued_cons_self (g : Functor) : queued c ((c, g) :: q) = g :: queued c q :=
  List.filterMap_cons_some (if_pos rfl)

theorem queued_cons_other (h : d ≠ c) (g : Functor) : queued c ((d, g) :: q) = queued c q :=
  List.filterMap_cons_none (if_neg h)

theorem queued_left (h : d ≠ c) {a : Conversation.Act κ}
    (ha : a = .exec → q.head?.map Prod.fst = some d) : queued c (left a q) = queued c q := by
  cases a with
  | exec =>
    cases q with
    | nil => rfl
    | cons g q =>
      obtain ⟨d', g⟩ := g
      obtain rfl : d' = d := Option.some.inj (ha rfl)
      exact (queued_cons_other h g).symm
  | _ => rfl

theorem queued_left_self {a : Conversation.Act κ} (ha : a = .exec → q.head?.map Prod.fst = some c) :
    queued c (left a q) = left a (queued c q) := by
  cases a with
  | exec =>
    cases q with
    | nil => rfl
    | cons g q =>
      obtain ⟨d, g⟩ := g
      obtain rfl : d = c := Option.some.inj (ha rfl)
      rw [queued_cons_self]
      rfl
  | _ => rfl

omit [DecidableEq κ] in
theorem mem_left {a : Conversation.Act κ} {g : κ × Functor} (h : g ∈ left a q) : g ∈ q := by
  cases a with
  | exec => exact List.mem_of_mem_tail h
  | _ => exact h

/-! ### Putting a connection back -/

theorem put_self (h : queued c q <+: x.pending) : (s.put c q x).conn c = some x := by
  obtain ⟨gs, hgs⟩ := h
  have hq : queued c (q ++ (x.pending.drop (queued c q).length).map fun g => (c, g)) = x.pending := by
    rw [queued_append, queued_self, ← hgs, List.drop_left]
  unfold EventLoop.conn EventLoop.put
  dsimp only
  rw [Function.update_self, hq]
  rfl

theorem put_other (h : d ≠ c) (hq : queued d q = queued d s.pendingFunctor) :
    (s.put c q x).conn d = (s.conn d).map fun y => { y with poller := x.poller } := by
  have hq' : queued d (q ++ (x.pending.drop (queued c q).length).map fun g => (c, g)) =
      queued d s.pendingFunctor := by
    rw [queued_append, queued_other (Ne.symm h), List.append_nil, hq]
  unfold EventLoop.conn EventLoop.put
  dsimp only
  rw [Function.update_of_ne h, hq', Option.map_map]
  rfl

/-! ### A step of a connection keeps to the connection -/

theorem onRequest_own (h : Registered x.poller) (req : HttpRequest) :
    Ends Any (Own x) (onRequest host req x) := by
  have hcb : Callbacks.Own (quiet : Callbacks κ) := ⟨fun _ => own_self, fun _ => own_self⟩
  unfold onRequest
  refine Ends.bind (Q := fun _ => True) ?_ fun v _ => ?_
  · cases req.getHeader (ascii "Connection") <;> trivial
  · dsimp only
    split
    · trivial
    · refine (send_own hcb h true _).bind fun y hy => ?_
      split_ifs
      · exact (shutdown_own hcb hy.registered true).imp fun z hz => hy.trans hz
      · exact hy

theorem onMessage_own (h : Registered x.poller) : Ends Any (Own x) (onMessage host x) := by
  unfold onMessage
  cases x.context with
  | none => trivial
  | some ctx =>
    refine Ends.bind (Q := fun _ => True) ?_ fun r _ => ?_
    · cases ctx.parseRequest <;> trivial
    · have hread : Own x { x with readBuf := r.2.buf, context := some r.2 } :=
        own h rfl rfl List.prefix_rfl rfl
      refine (onRequest_own hread.registered r.2.request).bind fun y hy => ?_
      exact (hread.trans hy).trans (own hy.registered rfl rfl List.prefix_rfl rfl)

theorem httpServer_own : Callbacks.Own (httpServer host : Callbacks κ) :=
  ⟨fun _ => onConnection_own, fun _ => onMessage_own⟩

/-- **What a step leaves to the other connections**: their channels, and what is left of the queue. -/
theorem step_own (h : Registered x.poller) {a : Conversation.Act κ} (ha : isOwn a = true) :
    Ends Any (Own { x with pending := left a x.pending }) (Conversation.step host x a) := by
  cases a with
  | readable q bursts writes =>
    have hwrites : Own x { x with writes := writes } := own h rfl rfl List.prefix_rfl rfl
    exact (handleRead_own httpServer_own hwrites.registered _).imp fun y hy => hwrites.trans hy
  | writable drains => exact handleWrite_own httpServer_own h drains
  | hup => exact handleClose_own httpServer_own h
  | exec =>
    cases hp : x.pending with
    | nil =>
      simp only [Conversation.step, hp, Ends]
      trivial
    | cons g gs =>
      simp only [Conversation.step, hp]
      exact invoke_own (s := { x with pending := gs }) httpServer_own h g
  | removed =>
    have hremoval : Own x { x with removal := false } := own h rfl rfl List.prefix_rfl rfl
    exact (removeConnectionInLoop_own hremoval.registered).imp fun y hy => hremoval.trans hy
  | elsewhere p => cases ha

/-! ### The invariant of the loop -/

/-- **What the connections of a loop rely on.** -/
structure Shared (s : EventLoop κ) : Prop where
  registered : Registered s.poller
  channel : ∀ c x, s.conns c = some x → x.channel = c
  added : ∀ c x, s.conns c = some x → x.destroyed = false → (s.poller.chan c).status ≠ .CNew
  bound : ∀ g ∈ s.pendingFunctor, s.conns g.1 ≠ none

omit [DecidableEq κ] in
theorem shared_new {p : EpollPoller κ} (hp : Registered p) : Shared (.new p) where
  registered := hp
  channel := fun _ _ hx => absurd hx.symm (Option.some_ne_none _)
  added := fun _ _ hx => absurd hx.symm (Option.some_ne_none _)
  bound := fun _ hg => absurd hg List.not_mem_nil

theorem Shared.put (h : Shared s) (hreg : Registered x.poller) (hc : x.channel = c)
    (hothers : ∀ d, d ≠ c → x.poller.chan d = s.poller.chan d)
    (hadded : x.destroyed = false → (x.poller.chan c).status ≠ .CNew)
    (hq : ∀ g ∈ q, g ∈ s.pendingFunctor) : Shared (s.put c q x) where
  registered := hreg
  channel := by
    intro d y hd
    by_cases hdc : d = c
    · subst hdc
      rw [show (s.put d q x).conns d = some x from Function.update_self ..] at hd
      cases hd
      exact hc
    · exact h.channel d y ((Function.update_of_ne hdc ..).symm.trans hd)
  added := by
    intro d y hd hy
    by_cases hdc : d = c
    · subst hdc
      rw [show (s.put d q x).conns d = some x from Function.update_self ..] at hd
      cases hd
      exact hadded hy
    · have hkept := h.added d y ((Function.update_of_ne hdc ..).symm.trans hd) hy
      rw [← hothers d hdc] at hkept
      exact hkept
  bound := by
    intro g hg
    show Function.update s.conns c (some x) g.1 ≠ none
    by_cases hgc : g.1 = c
    · rw [hgc, Function.update_self]
      nofun
    · rw [Function.update_of_ne hgc]
      rcases List.mem_append.mp hg with hg | hg
      · exact h.bound g (hq g hg)
      · obtain ⟨f, -, rfl⟩ := List.mem_map.mp hg
        exact absurd rfl hgc

theorem Shared.of_conn (h : Shared s) (hx : s.conn c = some x) :
    x.poller = s.poller ∧ x.pending = queued c s.pendingFunctor ∧ x.channel = c ∧
      (x.destroyed = false → (s.poller.chan c).status ≠ .CNew) := by
  obtain ⟨y, hy, rfl⟩ := Option.map_eq_some_iff.mp hx
  exact ⟨rfl, rfl, h.channel c y hy, h.added c y hy⟩

/-! ### What a step of the loop is for the others -/

/-- A step of `d`, seen from the other connections. -/
structure Aside (d : κ) (s t : EventLoop κ) : Prop where
  shared : Shared t
  chan : ∀ c, c ≠ d → t.poller.chan c = s.poller.chan c
  conn : ∀ c, c ≠ d → t.conn c = (s.conn c).map fun x => { x with poller := t.poller }

theorem accept_spec (h : Shared s) {w b : Bool} {writes : List WriteResult}
    (he : enabled host s (.accept c w b writes)) (hs : step host s (.accept c w b writes) = .ok t) :
    Aside c s t ∧ Vacant s.poller c ∧
      ∃ x, opened host s.poller c w b writes = .ok x ∧ t.conn c = some x := by
  obtain ⟨hnone, hnew, hfree⟩ := he
  obtain ⟨x, hx, ht⟩ := bind_eq_ok.mp hs
  obtain rfl := Except.ok.inj ht
  have hcb : Callbacks.Own (κ := κ) (httpServer host) := httpServer_own
  have hown := connectionEstablished_own
    (s := { TcpConnection.new s.poller c w b with writes := writes }) hcb h.registered
  obtain ⟨hx', hadded⟩ := hown.of_ok hx
  have hempty : queued c s.pendingFunctor = [] := by
    refine List.filterMap_eq_nil_iff.mpr fun g hg => if_neg fun hgc => ?_
    exact h.bound g hg (hgc ▸ hnone)
  have hchan : x.chan = x.poller.chan c := by
    unfold TcpConnection.chan
    rw [hx'.channel]
    rfl
  have hshared : Shared (s.put c s.pendingFunctor x) :=
    h.put hx'.registered hx'.channel hx'.others (fun hd => hchan ▸ hadded hd) fun _ => id
  refine ⟨⟨hshared, hx'.others, fun d hd => put_other hd rfl⟩, ⟨h.registered, hnew, hfree⟩, x, hx,
    put_self ?_⟩
  rw [hempty]
  exact List.nil_prefix

theorem on_spec (h : Shared s) {a : Conversation.Act κ} (he : enabled host s (.on c a))
    (hs : step host s (.on c a) = .ok t) : Aside c s t ∧
      ∃ x y, s.conn c = some x ∧ t.conn c = some y ∧
        (conversationMachine host κ).enabled x a ∧ Conversation.step host x a = .ok y := by
  obtain ⟨hown, hhead, x, hx, hea⟩ := he
  simp only [step, hx] at hs
  obtain ⟨y, hy, ht⟩ := bind_eq_ok.mp hs
  obtain rfl := Except.ok.inj ht
  obtain ⟨hpoller, hpending, hchannel, hadded⟩ := h.of_conn hx
  have hy' := (step_own (hpoller ▸ h.registered) hown).of_ok hy
  have hchannel' : y.channel = c := hy'.channel.trans hchannel
  have hothers : ∀ d, d ≠ c → y.poller.chan d = s.poller.chan d := by
    intro d hd
    rw [← hpoller]
    exact hy'.others d (hchannel ▸ hd)
  have hadded' : y.destroyed = false → (y.poller.chan c).status ≠ .CNew := by
    intro hd
    have hst := hy'.added hd
    unfold TcpConnection.chan at hst
    rw [hchannel'] at hst
    refine hst ?_
    show (x.poller.chan x.channel).status ≠ .CNew
    rw [hpoller, hchannel]
    exact hadded (hy'.alive hd)
  have hshared := h.put (q := left a s.pendingFunctor) hy'.registered hchannel' hothers hadded'
    fun g => mem_left
  refine ⟨⟨hshared, hothers, fun d hd => put_other hd (queued_left (Ne.symm hd) hhead)⟩, x, y, hx,
    put_self ?_, hea, hy⟩
  rw [queued_left_self hhead, ← hpending]
  exact hy'.pending

/-- For the others it is a change elsewhere. -/
theorem Aside.elsewhere (h : Aside d s t) (hs : Shared s) (hx : s.conn c = some x) (hc : c ≠ d) :
    Run (conversationMachine host κ) x [.elsewhere t.poller] { x with poller := t.poller } ∧
      t.conn c = some { x with poller := t.poller } := by
  obtain ⟨hpoller, -, hchannel, hadded⟩ := hs.of_conn hx
  have hchan : t.poller.chan x.channel = x.poller.chan x.channel := by
    rw [hchannel, hpoller]
    exact h.chan c hc
  refine ⟨run_one ⟨fun _ => trivial, fun hd => ⟨h.shared.registered, hchan, fun hnew => ?_⟩⟩ rfl, ?_⟩
  · rw [hchannel, h.chan c hc] at hnew
    exact absurd hnew (hadded hd)
  · rw [h.conn c hc, hx]
    rfl

/-- **A run of the loop is a conversation with each client.** -/
theorem echoes (host : Host) (c : κ) : Echoes (clientsMachine host κ) (conversationMachine host κ)
    (fun s x => Shared s ∧ s.conn c = some x) (heard c) ownSteps := by
  rintro s x a t ⟨hs, hx⟩ he hstep
  have hothers : ∀ {d : κ}, d ≠ c → Aside d s t → ∃ bs y, Run (conversationMachine host κ) x bs y ∧
      (Shared t ∧ t.conn c = some y) ∧ bs.flatMap ownSteps = [] := by
    intro d hd haside
    obtain ⟨hrun, hconn⟩ := haside.elsewhere hs hx (Ne.symm hd)
    exact ⟨_, _, hrun, ⟨haside.shared, hconn⟩, rfl⟩
  cases a with
  | accept d w b writes =>
    refine hothers (fun hdc => ?_) (accept_spec hs he hstep).1
    obtain ⟨y, hy, -⟩ := Option.map_eq_some_iff.mp hx
    rw [← hdc, he.1] at hy
    cases hy
  | on d a =>
    obtain ⟨haside, x', y, hx', hy, hea, hya⟩ := on_spec hs he hstep
    by_cases hd : d = c
    · subst hd
      obtain rfl := Option.some.inj (hx.symm.trans hx')
      refine ⟨[a], y, run_one hea hya, ⟨haside.shared, hy⟩, ?_⟩
      have hown : isOwn a = true := he.1
      simp [heard, ownSteps, hown]
    · obtain ⟨bs, z, hrun, hz, hheard⟩ := hothers hd haside
      exact ⟨bs, z, hrun, hz, hheard.trans (if_neg hd).symm⟩

/-! ### Every client -/

omit [DecidableEq κ] in
theorem answered_ownSteps (as : List (Conversation.Act κ)) :
    answered (as.flatMap ownSteps) = answered as := by
  induction as with
  | nil => rfl
  | cons a as ih =>
    cases a with
    | readable q bursts writes =>
      show (q :: if Answer.closesAfter q then [] else answered (as.flatMap ownSteps)) = _
      rw [ih]
      rfl
    | hup => rfl
    | _ => exact ih

theorem shared_run {p : EpollPoller κ} (hp : Registered p)
    (h : Run (clientsMachine host κ) (.new p) as s) : Shared s := by
  refine h.invariant (fun s a t hs he hstep => ?_) (shared_new hp)
  cases a with
  | accept c w b writes => exact (accept_spec hs he hstep).1.shared
  | on c a => exact (on_spec hs he hstep).1.shared

end ReactorServer.Http.Clients
