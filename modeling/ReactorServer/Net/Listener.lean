import ReactorServer.Net.Dispatch

/-!
# The acceptor

`Acceptor` registers its listening socket for edge-triggered reading and takes one client from the
backlog each time its channel is read.  A client that arrives while the edge of another one has not
been delivered yet does not raise an edge of its own, so there is one client more in the backlog
than `handleRead` will be called for.  The backlog of an acceptor at rest is empty if and only if
that has never happened, and no `accept` has failed (`backlog_empty_iff`).
-/

namespace ReactorServer.Net.Listener

open ReactorServer.Cpp ReactorServer.Lib.Runs
open ReactorServer.Net.Poller ReactorServer.Net.Poller.EpollPoller ReactorServer.Net.Registration
open ReactorServer.Net.Connection ReactorServer.Net.Dispatch

variable {κ : Type} [DecidableEq κ] {ι : Type}

/-! ### The model -/

/-- What `accept` returns. -/
inductive AcceptResult
  /-- a descriptor; the client leaves the backlog -/
  | fd (newFd : ℕ)
  /-- `EAGAIN`: the backlog is empty -/
  | again
  /-- no descriptor is to be had; the client stays -/
  | error
  deriving DecidableEq, Repr

/-- The acceptor in the loop of its thread, with the kernel's side of the listening socket: the
clients in the backlog, and whether there is an edge that `epoll_wait` has not delivered. -/
structure Acceptor (κ ι : Type) where
  poller : EpollPoller κ
  acceptChannel : κ
  backlog : List ι
  edge : Bool
  /-- the handlers of the event delivered that are still to be called -/
  todo : List Handler
  /-- `handleRead` has called `accept` and has not returned -/
  running : Bool
  /-- the calls of `newConnectionCB_` -/
  newConnections : List (ℕ × ι)

namespace Acceptor

/-- The constructor. -/
def new (poller : EpollPoller κ) (channel : κ) : Except Fault (Acceptor κ ι) := do
  let p ← enableRead channel poller
  pure ⟨p, channel, [], false, [], false, []⟩

/-- The kernel's entry for the listening socket. -/
def interest (s : Acceptor κ ι) : Option (κ × Mask) :=
  s.poller.kernel (s.poller.chan s.acceptChannel).fd

/-- An arrival raises an edge. -/
def raises (s : Acceptor κ ι) : Bool := s.interest.any fun entry => entry.2 &&& EPOLLIN ≠ 0

/-- `epoll_wait` reports the channel: for an edge, or for a backlog that is not empty where the
channel is not edge-triggered. -/
def reported (s : Acceptor κ ι) : Bool :=
  s.interest.any fun entry => entry.1 = s.acceptChannel && entry.2 &&& EPOLLIN ≠ 0 &&
    if entry.2 &&& EPOLLET ≠ 0 then s.edge else !s.backlog.isEmpty

/-- `poll` and `fillActiveChannel`. -/
def poll (s : Acceptor κ ι) : Acceptor κ ι :=
  if s.reported then
    { s with
      edge := false
      todo := handlers EPOLLIN
      poller := s.poller.modifyChan (fun ch => { ch with rcvEvents := EPOLLIN }) s.acceptChannel }
  else s

def handleRead (r : AcceptResult) (s : Acceptor κ ι) : Except Fault (Acceptor κ ι) :=
  match r, s.backlog with
  | .fd newFd, x :: xs =>
    .ok { s with
      backlog := xs
      newConnections := if 0 < newFd then s.newConnections ++ [(newFd, x)] else s.newConnections }
  | .fd _, [] => .error .starved
  | .again, [] => .ok s
  | .again, _ :: _ => .error .starved
  | .error, _ => .ok s

end Acceptor

inductive Act (ι : Type)
  /-- a client joins the backlog -/
  | arrival (x : ι)
  /-- the loop thread comes back from `epoll_wait` -/
  | poll
  /-- the loop calls the next handler -/
  | handle (r : AcceptResult)
  /-- `handleRead` returns -/
  | leave
  deriving DecidableEq, Repr

def enabled (s : Acceptor κ ι) : Act ι → Prop
  | .arrival _ => True
  | .poll => s.todo = [] ∧ s.running = false
  | .handle _ => s.todo ≠ [] ∧ s.running = false
  | .leave => s.running = true

instance (s : Acceptor κ ι) : ∀ a, Decidable (enabled s a)
  | .arrival _ => inferInstanceAs (Decidable True)
  | .poll => inferInstanceAs (Decidable (_ ∧ _))
  | .handle _ => inferInstanceAs (Decidable (_ ∧ _))
  | .leave => inferInstanceAs (Decidable (_ = _))

def step (s : Acceptor κ ι) : Act ι → Except Fault (Acceptor κ ι)
  | .arrival x => .ok { s with backlog := s.backlog ++ [x], edge := s.edge || s.raises }
  | .poll => .ok s.poll
  | .handle r =>
    match s.todo with
    | [] => .error .outOfBounds
    -- the channel has no callback but this one
    | .read :: hs => { s with todo := hs, running := true }.handleRead r
    | _ :: hs => .ok { s with todo := hs }
  | .leave => .ok { s with running := false }

def acceptMachine (κ ι : Type) [DecidableEq κ] : Machine (Acceptor κ ι) (Act ι) Fault where
  enabled := enabled
  step := step

instance (s : Acceptor κ ι) (a : Act ι) : Decidable ((acceptMachine κ ι).enabled s a) :=
  inferInstanceAs (Decidable (enabled s a))

/-- No `handleRead` is running or about to run, and no edge is pending. -/
structure Quiet (s : Acceptor κ ι) : Prop where
  todo : s.todo = []
  running : s.running = false
  edge : s.edge = false

/-- A client that arrives finds no edge pending, and `accept` does not fail. -/
def Careful (s : Acceptor κ ι) : Act ι → Prop
  | .arrival _ => s.edge = false
  | .handle r => r ≠ .error
  | _ => True

variable {s t : Acceptor κ ι} {a : Act ι} {as : List (Act ι)} {p : EpollPoller κ} {c : κ}

/-! ### Registration -/

/-- The kernel watches the listening socket for edges. -/
def Watched (s : Acceptor κ ι) : Prop :=
  s.interest = some (s.acceptChannel, EPOLLET ||| (CNoneEvent ||| CReadEvent))

omit [DecidableEq κ] in
theorem Watched.raises (h : Watched s) : s.raises = true := by
  have hread : (EPOLLET ||| (CNoneEvent ||| CReadEvent)) &&& EPOLLIN ≠ 0 := by decide
  unfold Acceptor.raises
  rw [h]
  exact decide_eq_true hread

theorem Watched.reported (h : Watched s) : s.reported = s.edge := by
  have hread : ¬(EPOLLET ||| (CNoneEvent ||| CReadEvent)) &&& EPOLLIN = 0#32 := by decide
  have hedge : ¬(EPOLLET ||| (CNoneEvent ||| CReadEvent)) &&& EPOLLET = 0#32 := by decide
  unfold Acceptor.reported
  rw [h]
  simp [hread, hedge]

omit [DecidableEq κ] in
theorem Watched.congr (h : Watched s) (hp : t.poller.kernel = s.poller.kernel)
    (hfd : (t.poller.chan t.acceptChannel).fd = (s.poller.chan s.acceptChannel).fd)
    (hc : t.acceptChannel = s.acceptChannel) : Watched t := by
  unfold Watched Acceptor.interest
  rw [hp, hfd, hc]
  exact h

theorem new_ok (hp : Vacant p c) (h : Acceptor.new p c = .ok s) :
    Watched s ∧ s.backlog = [] ∧ s.todo = [] ∧ s.edge = false := by
  have hstatus : (p.chan c).status = .CNew := by
    rw [hp.new]
    rfl
  have hevents : (p.chan c).events = CNoneEvent := by
    rw [hp.new]
    rfl
  have hfree : Free p c := fun _ => hp.free
  unfold Acceptor.new enableRead at h
  rw [setEvents_eq hp.registered, if_pos hfree, ok_bind] at h
  cases h
  refine ⟨?_, rfl, rfl, rfl⟩
  simp [Watched, Acceptor.interest, placed, interested, nextStatus, hstatus, hevents]

/-! ### Clients and edges -/

/-- The reads to come: the edge that is pending, and the handler that is still to be called. -/
def due (s : Acceptor κ ι) : ℕ := s.edge.toNat + s.todo.length

/-- **There is a client for every read to come.** -/
structure Covered (s : Acceptor κ ι) : Prop where
  watched : Watched s
  todo : ∀ h ∈ s.todo, h = .read
  due : due s ≤ s.backlog.length

/-- The clients nobody will be called for. -/
def stranded (s : Acceptor κ ι) : ℕ := s.backlog.length - due s

omit [DecidableEq κ] in
/-- A client that arrives at a pending edge is stranded, or the one that was there before it. -/
theorem arrival_covered (h : Covered s) (x : ι) {t : Acceptor κ ι}
    (ht : t = { s with backlog := s.backlog ++ [x], edge := s.edge || s.raises }) :
    Covered t ∧ stranded t = stranded s + s.edge.toNat := by
  have hdue := h.due
  have hraises : (s.edge || s.raises) = true := by
    rw [h.watched.raises, Bool.or_true]
  have hlen : t.backlog.length = s.backlog.length + 1 := by
    rw [ht]
    simp
  have hdue' : due t = 1 + s.todo.length := by
    rw [ht, due]
    simp only [hraises, Bool.toNat_true]
  have hedge := s.edge.toNat_le
  unfold due at hdue
  refine ⟨⟨h.watched.congr (by rw [ht]) (by rw [ht]) (by rw [ht]), ?_, ?_⟩, ?_⟩
  · rw [ht]
    exact h.todo
  · omega
  · unfold stranded
    rw [hlen, hdue', due]
    omega

theorem poll_covered (h : Covered s) (htodo : s.todo = []) :
    Covered s.poll ∧ stranded s.poll = stranded s := by
  unfold Acceptor.poll
  rw [h.watched.reported]
  have hdue := h.due
  unfold due at hdue
  rw [htodo] at hdue
  by_cases hedge : s.edge = true
  · rw [if_pos hedge]
    rw [hedge] at hdue
    refine ⟨⟨h.watched.congr rfl ?_ rfl, ?_, ?_⟩, ?_⟩
    · simp [EpollPoller.modifyChan]
    · intro a ha
      exact List.mem_singleton.mp ha
    · exact hdue
    · unfold stranded due
      rw [hedge, htodo]
      rfl
  · rw [if_neg hedge]
    exact ⟨h, rfl⟩

omit [DecidableEq κ] in
theorem handleRead_covered {r : AcceptResult} {hs : List Handler} (h : Covered s)
    (htodo : s.todo = .read :: hs)
    (ht : { s with todo := hs, running := true }.handleRead r = .ok t) :
    Covered t ∧ (r ≠ .error → stranded t = stranded s) ∧
      (r = .error → stranded t = stranded s + 1) := by
  have hdue := h.due
  unfold due at hdue
  rw [htodo, List.length_cons] at hdue
  have hhs : ∀ a ∈ hs, a = .read := fun a ha => h.todo a (htodo ▸ List.mem_cons_of_mem _ ha)
  unfold Acceptor.handleRead at ht
  split at ht
  · rename_i newFd x xs hbacklog
    have hlen : s.backlog.length = xs.length + 1 := by
      rw [show s.backlog = x :: xs from hbacklog, List.length_cons]
    cases ht
    refine ⟨⟨h.watched.congr rfl rfl rfl, hhs, ?_⟩, fun _ => ?_, nofun⟩
    · show s.edge.toNat + hs.length ≤ xs.length
      omega
    · unfold stranded due
      rw [hlen, htodo, List.length_cons]
      dsimp only
      omega
  · cases ht
  · rename_i hbacklog
    have hlen : s.backlog.length = 0 := by
      rw [show s.backlog = [] from hbacklog, List.length_nil]
    omega
  · cases ht
  · cases ht
    refine ⟨⟨h.watched.congr rfl rfl rfl, hhs, ?_⟩, fun hr => absurd rfl hr, fun _ => ?_⟩
    · show s.edge.toNat + hs.length ≤ s.backlog.length
      omega
    · unfold stranded due
      rw [htodo, List.length_cons]
      dsimp only
      omega

/-- **One step**: a client is stranded by a step that is not careful, and by no other. -/
theorem step_covered (h : Covered s) (he : enabled s a) (hstep : step s a = .ok t) :
    Covered t ∧ (Careful s a → stranded t = stranded s) ∧
      (¬Careful s a → stranded s < stranded t) := by
  cases a with
  | arrival x =>
    obtain ⟨h1, h2⟩ := arrival_covered h x (Except.ok.inj hstep).symm
    refine ⟨h1, fun hc => ?_, fun hc => ?_⟩
    · rw [h2, show s.edge = false from hc]
      rfl
    · rw [h2, Bool.eq_true_of_not_eq_false hc]
      exact Nat.lt_succ_self _
  | poll =>
    obtain ⟨h1, h2⟩ := poll_covered h he.1
    cases hstep
    exact ⟨h1, fun _ => h2, fun hc => absurd trivial hc⟩
  | handle r =>
    rcases htodo : s.todo with _ | ⟨x, hs⟩
    · exact absurd htodo he.1
    obtain rfl := h.todo x (htodo ▸ List.mem_cons_self)
    have hstep' : { s with todo := hs, running := true }.handleRead r = .ok t := by
      rw [← hstep]
      simp only [step, htodo]
    obtain ⟨h1, h2, h3⟩ := handleRead_covered h htodo hstep'
    refine ⟨h1, h2, fun hc => ?_⟩
    rw [h3 (not_not.mp hc)]
    exact Nat.lt_succ_self _
  | leave =>
    cases hstep
    exact ⟨⟨h.watched.congr rfl rfl rfl, h.todo, h.due⟩, fun _ => rfl, fun hc => absurd trivial hc⟩

/-! ### Nobody is left behind -/

/-- **The backlog of an acceptor at rest.**  It is empty if and only if every client of the run has
arrived when no edge was pending, and no `accept` has failed. -/
theorem backlog_empty_iff (hp : Vacant p c) (h0 : Acceptor.new p c = .ok s)
    (h : Run (acceptMachine κ ι) s as t) (hquiet : Quiet t) :
    t.backlog = [] ↔ Run (restrict (acceptMachine κ ι) Careful) s as t := by
  obtain ⟨hwatched, hbacklog, htodo, hedge⟩ := new_ok hp h0
  have hcovered : Covered s := by
    refine ⟨hwatched, fun a ha => ?_, ?_⟩
    · rw [htodo] at ha
      cases ha
    · rw [due, htodo, hedge]
      exact Nat.zero_le _
  have hstart : stranded s = 0 := by
    rw [stranded, hbacklog, List.length_nil, Nat.zero_sub]
  have hrest : stranded t = t.backlog.length := by
    rw [stranded, due, hquiet.edge, hquiet.todo]
    rfl
  have hiff := (h.measure_eq_iff (P := Careful) (f := stranded)
    (fun s a t hs he hstep => step_covered hs he hstep) hcovered).2
  rw [hstart, hrest] at hiff
  rw [← hiff, List.length_eq_zero_iff]

theorem backlog_empty_one : ∃ s t : Acceptor Unit ℕ,
    Acceptor.new (.new fun _ => 3) () = .ok s ∧
    Run (acceptMachine Unit ℕ) s [.arrival 1, .poll, .handle (.fd 5), .leave] t ∧ Quiet t ∧
    (t.backlog = [] ↔ Run (restrict (acceptMachine Unit ℕ) Careful) s
      [.arrival 1, .poll, .handle (.fd 5), .leave] t) := by
  have hrun : ∃ s t : Acceptor Unit ℕ, Acceptor.new (.new fun _ => 3) () = .ok s ∧
      Run (acceptMachine Unit ℕ) s [.arrival 1, .poll, .handle (.fd 5), .leave] t ∧ Quiet t :=
    ⟨_, _, rfl, run_iff_exec.mpr rfl, rfl, rfl, rfl⟩
  obtain ⟨s, t, h0, h, hquiet⟩ := hrun
  exact ⟨s, t, h0, h, hquiet, backlog_empty_iff (vacant_new _ _) h0 h hquiet⟩

/-- **Two clients at one edge**: the second one waits for a third. -/
theorem backlog_left : ∃ s t : Acceptor Unit ℕ,
    Acceptor.new (.new fun _ => 3) () = .ok s ∧
    Run (acceptMachine Unit ℕ) s [.arrival 1, .arrival 2, .poll, .handle (.fd 5), .leave] t ∧
    Quiet t ∧ t.backlog = [2] :=
  ⟨_, _, rfl, run_iff_exec.mpr rfl, ⟨rfl, rfl, rfl⟩, rfl⟩

end ReactorServer.Net.Listener
