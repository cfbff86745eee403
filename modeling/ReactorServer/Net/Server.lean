import ReactorServer.Lib.Triples
import ReactorServer.Net.Connection
import ReactorServer.Net.Loop
import Mathlib.Data.List.Count

/-!
# The registry of connections

`TcpServer` with its loops: the base loop, number `0`, which accepts connections and keeps
`connections_`, and `numLoops` IO loops, numbers `1` to `numLoops`, which serve them; with none the
base loop serves them itself.  Establishing a connection, removing it and destroying it are functors
that travel between the loops; a functor for the loop it comes from is called at once.

A connection is named by its place in `conns`, the connection objects in the order in which they
were accepted.  `established`, `removed` and `destroyed` record the functors that have run.
-/

namespace ReactorServer.Net.Server

open ReactorServer.Cpp ReactorServer.Lib.Runs ReactorServer.Lib.Triples
open ReactorServer.Net.Connection (State)
open ReactorServer.Net.Loop (Functors)

/-! ### The server -/

inductive Functor
  | connectionEstablished (c : ℕ)
  | removeConnectionInLoop (c : ℕ)
  | connectionDestroyed (c : ℕ)
  deriving DecidableEq, Repr

/-- The connection object the functor is bound to. -/
def Functor.conn : Functor → ℕ
  | .connectionEstablished c => c
  | .removeConnectionInLoop c => c
  | .connectionDestroyed c => c

/-- What the server knows of a `TcpConnection`: `name_`, `loop_` and `state_`. -/
structure Conn where
  name : String
  loop : ℕ
  state : State
  deriving DecidableEq, Repr

structure TcpServer where
  name : String
  numLoops : ℕ
  next : ℕ
  nextConnId : ℤ
  connections : Std.ExtTreeMap String ℕ
  conns : List Conn
  loops : ℕ → Functors Functor
  established : List ℕ
  removed : List ℕ
  destroyed : List ℕ

namespace TcpServer

/-- A started server. -/
def new (name : String) (numLoops : ℕ) : TcpServer where
  name := name
  numLoops := numLoops
  next := 0
  nextConnId := 1
  connections := ∅
  conns := []
  loops := fun _ => .new
  established := []
  removed := []
  destroyed := []

/-- What `snprintf(buf, sizeof(buf), "-%s*%d", "9000", id)` leaves in `buf`, behind `name_`. -/
def connName (name : String) (id : ℤ) : String := name ++ "-9000*" ++ toString id

/-- A value in an `int`. -/
def wrap (x : ℤ) : ℤ := x.bmod (2 ^ 32)

/-- `queueInLoop`. -/
def queueInLoop (l : ℕ) (f : Functor) (s : TcpServer) : TcpServer :=
  { s with loops := Function.update s.loops l ((s.loops l).push f) }

/-- The object a connection pointer designates. -/
def get (c : ℕ) (s : TcpServer) : Except Fault Conn :=
  match s.conns[c]? with
  | some k => .ok k
  | none => .error .outOfBounds

def setState (st : State) (c : ℕ) (s : TcpServer) : TcpServer :=
  { s with conns := s.conns.modify c fun k => { k with state := st } }

/-- `TcpConnection::connectionEstablished`. -/
def connectionEstablished (c : ℕ) (s : TcpServer) : Except Fault TcpServer := do
  let k ← s.get c
  assert .connectionEstablished (k.state = .CConnecting)
  pure { s.setState .CConnected c with established := s.established ++ [c] }

/-- `TcpConnection::connectionDestroyed`; what it does to the channel is not the server's. -/
def connectionDestroyed (c : ℕ) (s : TcpServer) : Except Fault TcpServer := do
  let k ← s.get c
  let s := if k.state = .CConnected then s.setState .CDisconnected c else s
  pure { s with destroyed := s.destroyed ++ [c] }

def removeConnectionInLoop (c : ℕ) (s : TcpServer) : Except Fault TcpServer := do
  let k ← s.get c
  -- `assert(connections_.erase(conn->getName()) == 1)`
  assert .removeConnectionInLoop (k.name ∈ s.connections)
  let s := { s with connections := s.connections.erase k.name, removed := s.removed ++ [c] }
  pure (s.queueInLoop k.loop (.connectionDestroyed c))

/-- `func()`. -/
def invoke : Functor → TcpServer → Except Fault TcpServer
  | .connectionEstablished c => connectionEstablished c
  | .removeConnectionInLoop c => removeConnectionInLoop c
  | .connectionDestroyed c => connectionDestroyed c

/-- `runInLoop` of the loop `l`, in the thread of the loop `caller`. -/
def runInLoop (caller l : ℕ) (f : Functor) (s : TcpServer) : Except Fault TcpServer :=
  if caller = l then invoke f s else .ok (s.queueInLoop l f)

/-- `EventLoopThreadPool::getNextLoop`: the loop, and the new `next_`. -/
def getNextLoop (s : TcpServer) : Except Fault (ℕ × ℕ) :=
  if s.numLoops = 0 then .ok (0, s.next)
  else if s.next < s.numLoops then .ok (s.next + 1, (s.next + 1) % s.numLoops)
  else .error .outOfBounds

def newConnection (s : TcpServer) : Except Fault TcpServer := do
  let (ioLoop, next) ← s.getNextLoop
  let name := connName s.name s.nextConnId
  let c := s.conns.length
  let s := { s with
    next := next, nextConnId := wrap (s.nextConnId + 1)
    conns := s.conns ++ [Conn.mk name ioLoop .CConnecting], connections := s.connections.insert name c }
  s.runInLoop 0 ioLoop (.connectionEstablished c)

/-- `removeConnection`, in the thread of the loop `caller`. -/
def removeConnection (caller c : ℕ) (s : TcpServer) : Except Fault TcpServer :=
  s.runInLoop caller 0 (.removeConnectionInLoop c)

/-- `TcpConnection::handleClose`. -/
def handleClose (c : ℕ) (s : TcpServer) : Except Fault TcpServer := do
  let k ← s.get c
  assert .handleClose (k.state = .CConnected ∨ k.state = .CConnecting)
  (s.setState .CDisconnected c).removeConnection k.loop c

/-- `TcpConnection::shutdown`, as far as `state_` goes. -/
def shutdown (c : ℕ) (s : TcpServer) : Except Fault TcpServer := do
  let k ← s.get c
  pure (if k.state = .CConnected then s.setState .CDisconnecting c else s)

end TcpServer

open TcpServer

/-! ### Its runs -/

inductive Act
  /-- the base loop accepts a connection -/
  | accept
  /-- a loop begins a round of `doPendingFunctors` -/
  | swap (l : ℕ)
  /-- a loop calls the next functor of the round -/
  | exec (l : ℕ)
  /-- the loop of an established connection delivers a close event -/
  | close (c : ℕ)
  /-- a thread shuts an established connection down -/
  | shutdown (c : ℕ)
  deriving DecidableEq, Repr

def enabled (s : TcpServer) : Act → Prop
  | .accept => True
  | .swap l => l ≤ s.numLoops ∧ (s.loops l).functors = []
  | .exec l => l ≤ s.numLoops ∧ (s.loops l).functors ≠ []
  | .close c => c ∈ s.established
  | .shutdown c => c ∈ s.established

instance (s : TcpServer) : ∀ a, Decidable (enabled s a)
  | .accept => inferInstanceAs (Decidable True)
  | .swap _ => inferInstanceAs (Decidable (_ ∧ _))
  | .exec _ => inferInstanceAs (Decidable (_ ∧ _))
  | .close _ => inferInstanceAs (Decidable (_ ∈ _))
  | .shutdown _ => inferInstanceAs (Decidable (_ ∈ _))

def step (s : TcpServer) : Act → Except Fault TcpServer
  | .accept => s.newConnection
  | .swap l => .ok { s with loops := Function.update s.loops l (s.loops l).swap }
  | .exec l =>
    match (s.loops l).functors with
    | [] => .error .outOfBounds
    | f :: _ => invoke f { s with loops := Function.update s.loops l (s.loops l).advance }
  | .close c => s.handleClose c
  | .shutdown c => s.shutdown c

def serverMachine : Machine TcpServer Act Fault where
  enabled := enabled
  step := step

instance (s : TcpServer) (a : Act) : Decidable (serverMachine.enabled s a) :=
  inferInstanceAs (Decidable (enabled s a))

end ReactorServer.Net.Server
