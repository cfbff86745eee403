import ReactorServer.Http.Context
import ReactorServer.Net.Poller

/-!
# One connection

`TcpConnection` with the poller its channel is registered with.  What the kernel answers is
supplied: a call takes the results of its `read`s and of `handleWrite`'s `write`s as lists, and the
connection holds in `writes` those of the `write`s that `sendInLoop` makes.  The functors queued for
the connection in its loop are `pending`; `mapped` and `removal` are what `closeCB_` touches of the
server: whether the server's map holds the connection, and whether a `removeConnectionInLoop` is on
its way to the base loop.

`passed`, `accepted` and `calls` are records: the payloads handed to `send`, the bytes the kernel
has taken, and the `write`s and `shutdown`s of the loop.
-/

namespace ReactorServer.Net.Connection

open ReactorServer.Cpp ReactorServer.Lib.Runs
open ReactorServer.Http.Context ReactorServer.Net.Poller ReactorServer.Net.Poller.EpollPoller

def READ_BUFFER_SIZE : ℕ := 1024 * 100
def WRITE_BUFFER_SIZE : ℕ := 1024 * 1024 * 10

/-- `enum State`. -/
inductive State
  | CConnecting
  | CConnected
  | CDisconnecting
  | CDisconnected
  deriving DecidableEq, Repr

/-- What `write` returns: a count, or `-1` with `EAGAIN`, with `EPIPE` or `ECONNRESET`, or with
another `errno`. -/
inductive WriteResult
  | count (n : ℕ)
  | again
  | reset
  | error
  deriving DecidableEq, Repr

/-- What `read` returns: bytes (none at the end of the stream), or `-1` with `EAGAIN`, or with
another `errno`. -/
inductive ReadResult
  | bytes (b : Bytes)
  | again
  | error
  deriving DecidableEq, Repr

/-- The memory around a `std::string` that is passed by `c_str()` and `size()`: the byte in front of
it and its bytes; a `NUL` follows. -/
structure Payload where
  front : UInt8
  bytes : Bytes
  deriving DecidableEq, Repr

namespace Payload

/-- `len`. -/
def len (buf : Payload) : ℤ := buf.bytes.length

/-- The C string at `buf + n`, for `-1 ≤ n`. -/
def cstrAt (buf : Payload) (n : ℤ) : Bytes := cstr ((buf.front :: buf.bytes).drop (n + 1).toNat)

end Payload

/-- A functor queued for the connection. -/
inductive Functor
  | sendInLoop (buf : Payload)
  | shutdownInLoop
  | startReadInLoop
  | stopReadInLoop
  | writeComplete
  | connectionDestroyed
  deriving DecidableEq, Repr

/-- A system call of the loop on the socket, with the state and the backlog in front of it: a
`write` of a new payload, or the place of `::shutdown`, with whether it is called. -/
inductive Syscall
  | direct (state : State) (backlog len : ℤ) (result : WriteResult)
  | shutdown (state : State) (backlog : ℤ) (issued : Bool)
  deriving DecidableEq, Repr

structure TcpConnection (κ : Type) where
  poller : EpollPoller κ
  channel : κ
  state : State
  reading : Bool
  /-- `readBuf_`, up to `readIdx_` -/
  readBuf : Bytes
  context : Option HttpContext
  writeBuf : ℕ → UInt8
  writeIdx : ℤ
  /-- whether `writeCompleteCB_` is set -/
  writeCompleteCB : Bool
  /-- whether the base loop is the connection's loop -/
  inBaseLoop : Bool
  mapped : Bool
  removal : Bool
  destroyed : Bool
  pending : List Functor
  writes : List WriteResult
  passed : List Bytes
  accepted : Bytes
  calls : List Syscall

/-- The callbacks of the connection's user. -/
structure Callbacks (κ : Type) where
  connectionCB : TcpConnection κ → Except Fault (TcpConnection κ)
  messageCB : TcpConnection κ → Except Fault (TcpConnection κ)

namespace TcpConnection

variable {κ : Type} [DecidableEq κ]

/-- The constructor, and the entry `newConnection` makes in the server's map. -/
def new (poller : EpollPoller κ) (channel : κ) (writeCompleteCB inBaseLoop : Bool) :
    TcpConnection κ where
  poller := poller
  channel := channel
  state := .CConnecting
  reading := true
  readBuf := []
  context := none
  writeBuf := fun _ => 0
  writeIdx := 0
  writeCompleteCB := writeCompleteCB
  inBaseLoop := inBaseLoop
  mapped := true
  removal := false
  destroyed := false
  pending := []
  writes := []
  passed := []
  accepted := []
  calls := []

/-- `*channel_`. -/
def chan (s : TcpConnection κ) : Channel := s.poller.chan s.channel

/-- An operation of the channel. -/
def onChannel (op : κ → EpollPoller κ → Except Fault (EpollPoller κ)) (s : TcpConnection κ) :
    Except Fault (TcpConnection κ) := do
  let p ← op s.channel s.poller
  pure { s with poller := p }

def queue (f : Functor) (s : TcpConnection κ) : TcpConnection κ :=
  { s with pending := s.pending ++ [f] }

def setState (st : State) (s : TcpConnection κ) : TcpConnection κ := { s with state := st }

def setContext (c : HttpContext) (s : TcpConnection κ) : TcpConnection κ :=
  { s with context := some c }

/-! ### Sending -/

/-- The memory `m` after `b` has been copied to the address `i`. -/
def poke (m : ℕ → UInt8) (i : ℕ) (b : Bytes) : ℕ → UInt8 :=
  fun j => if i ≤ j then (b[j - i]?).getD (m j) else m j

/-- `strcpy(writeBuf_ + writeIdx_, buf + n); writeIdx_ += len - n`. -/
def save (buf : Payload) (n : ℤ) (s : TcpConnection κ) : Except Fault (TcpConnection κ) := do
  let src := buf.cstrAt n ++ [NUL]
  if (WRITE_BUFFER_SIZE : ℤ) < s.writeIdx + src.length then throw .overrun
  if INT_MAX < s.writeIdx + (buf.len - n) then throw .overflow
  pure { s with
    writeBuf := poke s.writeBuf s.writeIdx.toNat src, writeIdx := s.writeIdx + (buf.len - n) }

/-- The answer to `write(fd, buf, len)` in `sendInLoop`. -/
def writeDirect (buf : Payload) (s : TcpConnection κ) :
    Except Fault (WriteResult × TcpConnection κ) :=
  match s.writes with
  | [] => .error .starved
  | r :: ws =>
    let s := { s with writes := ws, calls := s.calls ++ [.direct s.state s.writeIdx buf.len r] }
    match r with
    | .count n =>
      if n ≤ buf.bytes.length then
        .ok (r, { s with accepted := s.accepted ++ buf.bytes.take n })
      else .error .starved
    | _ => .ok (r, s)

/-- The part of `sendInLoop` that tries to write: `n` and `faultError`. -/
def trySend (buf : Payload) (s : TcpConnection κ) : Except Fault (ℤ × Bool × TcpConnection κ) := do
  if s.chan.isWriting then pure (0, false, s)
  else
    let (r, s) ← s.writeDirect buf
    match r with
    | .count n =>
      if (n : ℤ) = buf.len ∧ s.writeCompleteCB then pure (n, false, s.queue .writeComplete)
      else pure (n, false, s)
    | .again =>
      let s ← s.onChannel enableWrite
      pure (-1, false, s)
    | .reset => pure (-1, true, s)
    | .error => pure (-1, false, s)

def sendInLoop (buf : Payload) (s : TcpConnection κ) : Except Fault (TcpConnection κ) := do
  let (n, faultError, s) ← s.trySend buf
  let s ← if ¬faultError ∧ n < buf.len then do
      let s ← s.save buf n
      if s.chan.isWriting then pure s else s.onChannel enableWrite
    else pure s
  pure { s with readBuf := [] }

/-! ### Shutting down and reading -/

/-- `::shutdown(fd, SHUT_WR)`, unless the channel is writing. -/
def shutdownInLoop (s : TcpConnection κ) : TcpConnection κ :=
  { s with calls := s.calls ++ [.shutdown s.state s.writeIdx (¬s.chan.isWriting)] }

def startReadInLoop (s : TcpConnection κ) : Except Fault (TcpConnection κ) := do
  if ¬s.reading ∧ ¬s.chan.isReading then
    let s ← s.onChannel enableRead
    pure { s with reading := true }
  else pure s

def stopReadInLoop (s : TcpConnection κ) : Except Fault (TcpConnection κ) := do
  if s.reading ∨ s.chan.isReading then
    let s ← s.onChannel disableRead
    pure { s with reading := false }
  else pure s

/-! ### The life of the connection -/

/-- `connectionEstablished`; tying the channel has no effect the model could show. -/
def connectionEstablished (cb : Callbacks κ) (s : TcpConnection κ) :
    Except Fault (TcpConnection κ) := do
  assert .connectionEstablished (s.state = .CConnecting)
  let s ← (s.setState .CConnected).onChannel enableRead
  cb.connectionCB s

def connectionDestroyed (cb : Callbacks κ) (s : TcpConnection κ) :
    Except Fault (TcpConnection κ) := do
  let s ← if s.state = .CConnected then do
      let s ← (s.setState .CDisconnected).onChannel disableAll
      cb.connectionCB s
    else pure s
  let s ← s.onChannel remove
  pure { s with destroyed := true }

/-- `TcpServer::removeConnectionInLoop`, for this connection. -/
def removeConnectionInLoop (s : TcpConnection κ) : Except Fault (TcpConnection κ) := do
  assert .removeConnectionInLoop (s.mapped = true)
  pure ({ s with mapped := false }.queue .connectionDestroyed)

/-- `closeCB_`: `TcpServer::removeConnection`. -/
def closeCB (s : TcpConnection κ) : Except Fault (TcpConnection κ) :=
  if s.inBaseLoop then s.removeConnectionInLoop else .ok { s with removal := true }

def handleClose (cb : Callbacks κ) (s : TcpConnection κ) : Except Fault (TcpConnection κ) := do
  assert .handleClose (s.state = .CConnected ∨ s.state = .CConnecting)
  let s ← (s.setState .CDisconnected).onChannel disableAll
  let s ← cb.connectionCB s
  s.closeCB

/-! ### Functors and calls -/

/-- `func()`. -/
def invoke (cb : Callbacks κ) : Functor → TcpConnection κ → Except Fault (TcpConnection κ)
  | .sendInLoop buf, s => s.sendInLoop buf
  | .shutdownInLoop, s => .ok s.shutdownInLoop
  | .startReadInLoop, s => s.startReadInLoop
  | .stopReadInLoop, s => s.stopReadInLoop
  -- `std::bind` of a pointer to the data member: calling it reads the member
  | .writeComplete, s => .ok s
  | .connectionDestroyed, s => s.connectionDestroyed cb

/-- `loop_->runInLoop(f)`, from the loop thread or from another. -/
def runInLoop (inLoop : Bool) (cb : Callbacks κ) (f : Functor) (s : TcpConnection κ) :
    Except Fault (TcpConnection κ) :=
  if inLoop then invoke cb f s else .ok (s.queue f)

def send (inLoop : Bool) (cb : Callbacks κ) (buf : Payload) (s : TcpConnection κ) :
    Except Fault (TcpConnection κ) :=
  let s := { s with passed := s.passed ++ [buf.bytes] }
  if s.state = .CConnected then s.runInLoop inLoop cb (.sendInLoop buf) else .ok s

def shutdown (inLoop : Bool) (cb : Callbacks κ) (s : TcpConnection κ) :
    Except Fault (TcpConnection κ) :=
  if s.state = .CConnected then
    (s.setState .CDisconnecting).runInLoop inLoop cb .shutdownInLoop
  else .ok s

def startRead (inLoop : Bool) (cb : Callbacks κ) (s : TcpConnection κ) :
    Except Fault (TcpConnection κ) :=
  s.runInLoop inLoop cb .startReadInLoop

def stopRead (inLoop : Bool) (cb : Callbacks κ) (s : TcpConnection κ) :
    Except Fault (TcpConnection κ) :=
  s.runInLoop inLoop cb .stopReadInLoop

/-! ### Handlers -/

/-- The loop of `handleRead`: whether it ends with `break`.  A `read` into a full buffer asks for no
bytes and returns none. -/
def readLoop : List ReadResult → TcpConnection κ → Except Fault (Bool × TcpConnection κ)
  | [], _ => .error .starved
  | .again :: _, s => if s.readBuf.length < READ_BUFFER_SIZE then .ok (true, s) else .error .starved
  | .error :: _, s => .ok (false, s)
  | .bytes b :: rs, s =>
    if b = [] then .ok (false, s)
    else if s.readBuf.length + b.length ≤ READ_BUFFER_SIZE then
      readLoop rs { s with readBuf := s.readBuf ++ b }
    else .error .starved

def handleRead (cb : Callbacks κ) (reads : List ReadResult) (s : TcpConnection κ) :
    Except Fault (TcpConnection κ) := do
  let (again, s) ← s.readLoop reads
  if again then
    match s.context with
    | none => throw .outOfBounds
    | some c => cb.messageCB (s.setContext (c.setBuffer s.readBuf))
  else pure s

/-- What `write(fd, writeBuf_, writeIdx_)` hands to the kernel when it takes `n` bytes. -/
def backlog (s : TcpConnection κ) (n : ℕ) : Bytes := (List.range n).map s.writeBuf

/-- The branch of `handleWrite` for "data send completed". -/
def sendCompleted (s : TcpConnection κ) : Except Fault (TcpConnection κ) := do
  let s ← s.onChannel disableWrite
  let s := if s.writeCompleteCB then s.queue .writeComplete else s
  let s := if s.state = .CDisconnecting then s.shutdownInLoop else s
  pure { s with writeIdx := 0, writeBuf := fun _ => 0 }

/-- The loop of `handleWrite`, with `bytes_to_send` and `bytes_have_send`; every `write` is handed
the whole of `writeBuf_`. -/
def writeLoop (cb : Callbacks κ) : List WriteResult → ℤ → ℤ → TcpConnection κ →
    Except Fault (TcpConnection κ)
  | [], _, _, _ => .error .starved
  | .again :: rs, toSend, haveSent, s => do
    let s ← if s.chan.isWriting then pure s else s.onChannel enableWrite
    writeLoop cb rs toSend haveSent s
  | .reset :: _, _, _, s => .ok s
  | .error :: _, _, _, s => .ok s
  | .count n :: rs, toSend, haveSent, s =>
    if s.writeIdx < n then .error .starved
    else if 0 < n then
      let s := { s with accepted := s.accepted ++ s.backlog n }
      if toSend - n ≤ haveSent + n then s.sendCompleted
      else writeLoop cb rs (toSend - n) (haveSent + n) s
    else do
      let s ← s.handleClose cb
      writeLoop cb rs toSend haveSent s

def handleWrite (cb : Callbacks κ) (drains : List WriteResult) (s : TcpConnection κ) :
    Except Fault (TcpConnection κ) :=
  if s.chan.isWriting then s.writeLoop cb drains s.writeIdx 0 else .ok s

/-- `HttpServer::onConnection`, the connection callback of the server: a new parser for a connected
connection. -/
def onConnection (s : TcpConnection κ) : Except Fault (TcpConnection κ) :=
  if s.state = .CConnected then .ok (s.setContext .new) else .ok s

end TcpConnection

/-- The four callbacks of the channel. -/
inductive Handler
  | close
  | error
  | read
  | write
  deriving DecidableEq, Repr

/-- Those that `handleEventWithGuard` calls for the events received, in order. -/
def handlers (rcvEvents : Mask) : List Handler :=
  (if rcvEvents &&& EPOLLHUP ≠ 0 then [.close] else []) ++
  (if rcvEvents &&& EPOLLERR ≠ 0 then [.error] else []) ++
  (if rcvEvents &&& (EPOLLIN ||| EPOLLPRI) ≠ 0 then [.read] else []) ++
  (if rcvEvents &&& EPOLLOUT ≠ 0 then [.write] else [])

/-- One of them, with what the kernel answers to its `read`s and `write`s. -/
def Handler.run {κ : Type} [DecidableEq κ] (cb : Callbacks κ) (reads : List ReadResult)
    (drains : List WriteResult) (s : TcpConnection κ) : Handler → Except Fault (TcpConnection κ)
  | .close => s.handleClose cb
  -- `handleError` prints
  | .error => .ok s
  | .read => s.handleRead cb reads
  | .write => s.handleWrite cb drains

end ReactorServer.Net.Connection
