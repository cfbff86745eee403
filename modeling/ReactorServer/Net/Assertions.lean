import ReactorServer.Lib.Follow
import ReactorServer.Net.Registration
import ReactorServer.Net.Server

/-!
# A build without assertions

With `NDEBUG` the expression of an `assert` is not evaluated.  Two of those on the way of a
connection do something: `assert(channels_[fd] = channel)` writes what is there already, and
`assert(connections_.erase(...) == 1)` takes the connection out of the map of the server.  `Process`
is the server with the pollers of its loops, in both builds; the build without assertions follows
every run of the other one but for the map, and with the map as long as nothing is removed from it
(`asserts_iff`).
-/

namespace ReactorServer.Net.Assertions

open ReactorServer.Cpp ReactorServer.Lib.Runs ReactorServer.Lib.Follow
open ReactorServer.Net.Poller ReactorServer.Net.Poller.EpollPoller ReactorServer.Net.Registration
open ReactorServer.Net.Server ReactorServer.Net.Server.TcpServer

/-- How the program is compiled. -/
inductive Build
  | debug
  | ndebug
  deriving DecidableEq, Repr

/-- `assert(p)` at the place `site`, where `p` only looks. -/
def asserted (b : Build) (site : Site) (p : Prop) [Decidable p] : Except Fault Unit :=
  match b with
  | .debug => assert site p
  | .ndebug => .ok ()

/-! ### The poller -/

section Poller
variable {κ : Type} [DecidableEq κ]

/-- `channels_[fd]` in a message.  It would make an entry without a channel where there is none. -/
def mention (fd : ℤ) (p : EpollPoller κ) : Except Fault (EpollPoller κ) :=
  if p.channels[fd]? = none then .error .outOfBounds else .ok p

/-- `EpollPoller::updateChannel`. -/
def updateChannel (b : Build) (c : κ) (p : EpollPoller κ) : Except Fault (EpollPoller κ) := do
  let index := (p.chan c).status
  let fd := (p.chan c).fd
  if index = .CNew ∨ index = .CDeleted then
    let p ← if index = .CNew then do
        asserted b .updateChannel (p.channels[fd]? = none)
        pure { p with channels := p.channels.insert fd c }
      else do
        asserted b .updateChannel (p.channels[fd]? ≠ none)
        asserted b .updateChannel (p.channels[fd]? = some c)
        pure p
    mention fd ((p.setStatus .CAdded c).update .add c)
  else do
    asserted b .updateChannel (p.channels[fd]? ≠ none)
    -- `assert(channels_[fd] = channel)`
    let p := match b with
      | .debug => { p with channels := p.channels.insert fd c }
      | .ndebug => p
    asserted b .updateChannel ((p.chan c).status = .CAdded)
    if (p.chan c).isNonEvent then
      mention fd ((p.update .del c).setStatus .CDeleted c)
    else
      mention fd (p.update .mod c)

/-- `EpollPoller::removeChannel`; the `erase` is a statement of its own. -/
def removeChannel (b : Build) (c : κ) (p : EpollPoller κ) : Except Fault (EpollPoller κ) := do
  let fd := (p.chan c).fd
  let index := (p.chan c).status
  asserted b .removeChannel (p.chan c).isNonEvent
  asserted b .removeChannel (p.channels[fd]? ≠ none)
  asserted b .removeChannel (p.channels[fd]? = some c)
  asserted b .removeChannel (index = .CAdded ∨ index = .CDeleted)
  let p := { p with channels := p.channels.erase fd }
  let p := if index = .CAdded then p.update .del c else p
  pure (p.setStatus .CNew c)

def channelUpdate (b : Build) (c : κ) (p : EpollPoller κ) : Except Fault (EpollPoller κ) :=
  updateChannel b c (p.modifyChan (fun ch => { ch with addToLoop := true }) c)

def setEvents (b : Build) (f : Mask → Mask) (c : κ) (p : EpollPoller κ) :
    Except Fault (EpollPoller κ) :=
  channelUpdate b c (p.modifyChan (fun ch => { ch with events := f ch.events }) c)

def remove (b : Build) (c : κ) (p : EpollPoller κ) : Except Fault (EpollPoller κ) := do
  asserted b .channelRemove (p.chan c).isNonEvent
  removeChannel b c (p.modifyChan (fun ch => { ch with addToLoop := false }) c)

/-- The operations of `Channel` that reach the poller. -/
def operate (b : Build) : Op → κ → EpollPoller κ → Except Fault (EpollPoller κ)
  | .enableRead => setEvents b (· ||| CReadEvent)
  | .disableRead => setEvents b (· &&& ~~~CReadEvent)
  | .enableWrite => setEvents b (· ||| CWriteEvent)
  | .disableWrite => setEvents b (· &&& CWriteEvent)
  | .disableAll => setEvents b fun _ => CNoneEvent
  | .remove => remove b

variable {p q : EpollPoller κ} {c : κ}

/-- With its assertions `updateChannel` is the one that has been verified. -/
theorem updateChannel_debug (c : κ) (p : EpollPoller κ) :
    updateChannel .debug c p = EpollPoller.updateChannel c p := by
  cases hst : (p.chan c).status with
  | CNew =>
    by_cases hfree : p.channels[(p.chan c).fd]? = none
    · simp [updateChannel, EpollPoller.updateChannel, asserted, assert, hst, hfree, mention, setStatus,
        modifyChan, EpollPoller.update]
    · simp [updateChannel, EpollPoller.updateChannel, asserted, assert, hst, hfree]
  | CDeleted =>
    by_cases hown : p.channels[(p.chan c).fd]? = some c
    · have hmem : (p.chan c).fd ∈ p.channels := by
        rw [Std.ExtTreeMap.mem_iff_isSome_getElem?, hown]
        rfl
      simp [updateChannel, EpollPoller.updateChannel, asserted, assert, hst, hmem, mention, setStatus,
        modifyChan, EpollPoller.update]
    · by_cases hnone : p.channels[(p.chan c).fd]? = none
      · simp [updateChannel, EpollPoller.updateChannel, asserted, assert, hst, hnone]
      · simp [updateChannel, EpollPoller.updateChannel, asserted, assert, hst, hown, hnone]
  | CAdded =>
    by_cases hnone : p.channels[(p.chan c).fd]? = none
    · simp [updateChannel, EpollPoller.updateChannel, asserted, assert, hst, hnone]
    · simp [updateChannel, EpollPoller.updateChannel, asserted, assert, hst, hnone, mention, setStatus,
        modifyChan, EpollPoller.update]

theorem setEvents_debug (f : Mask → Mask) (c : κ) (p : EpollPoller κ) :
    setEvents .debug f c p = EpollPoller.setEvents f c p := updateChannel_debug _ _

theorem operate_debug (op : Op) (c : κ) (p : EpollPoller κ) :
    operate .debug op c p = op.run c p := by
  cases op with
  | enableRead => exact setEvents_debug (· ||| CReadEvent) c p
  | disableRead => exact setEvents_debug (· &&& ~~~CReadEvent) c p
  | enableWrite => exact setEvents_debug (· ||| CWriteEvent) c p
  | disableWrite => exact setEvents_debug (· &&& CWriteEvent) c p
  | disableAll => exact setEvents_debug (fun _ => CNoneEvent) c p
  | remove => rfl

/-- The assertions of `updateChannel` do nothing where a channel that has been added is in the
map. -/
theorem updateChannel_ndebug
    (hm : (p.chan c).status ≠ .CNew → p.channels[(p.chan c).fd]? = some c)
    (h : EpollPoller.updateChannel c p = .ok q) : updateChannel .ndebug c p = .ok q := by
  rw [← updateChannel_debug] at h
  cases hst : (p.chan c).status with
  | CNew =>
    by_cases hfree : p.channels[(p.chan c).fd]? = none
    · simpa [updateChannel, asserted, assert, hst, hfree] using h
    · simp [updateChannel, asserted, assert, hst, hfree] at h
  | CDeleted =>
    have hown := hm (by simp [hst])
    simpa [updateChannel, asserted, assert, hst, hown] using h
  | CAdded =>
    have hown := hm (by simp [hst])
    simpa [updateChannel, asserted, assert, hst, hown, insert_same hown] using h

theorem setEvents_ndebug (hp : Registered p) (f : Mask → Mask)
    (h : EpollPoller.setEvents f c p = .ok q) : setEvents .ndebug f c p = .ok q := by
  refine updateChannel_ndebug ?_ h
  intro hst
  simp only [modifyChan, Function.update_self] at hst ⊢
  exact hp.mapped c hst

theorem remove_ndebug (h : EpollPoller.remove c p = .ok q) : remove .ndebug c p = .ok q := by
  obtain ⟨⟨⟩, -, h⟩ := bind_eq_ok.mp h
  obtain ⟨⟨⟩, -, h⟩ := bind_eq_ok.mp h
  obtain ⟨⟨⟩, -, h⟩ := bind_eq_ok.mp h
  obtain ⟨⟨⟩, -, h⟩ := bind_eq_ok.mp h
  obtain ⟨⟨⟩, -, h⟩ := bind_eq_ok.mp h
  exact h

/-- **The build without assertions does to the channels what the other does.** -/
theorem operate_ndebug (hp : Registered p) {op : Op} (h : op.run c p = .ok q) :
    operate .ndebug op c p = .ok q := by
  cases op with
  | enableRead => exact setEvents_ndebug hp (· ||| CReadEvent) h
  | disableRead => exact setEvents_ndebug hp (· &&& ~~~CReadEvent) h
  | enableWrite => exact setEvents_ndebug hp (· ||| CWriteEvent) h
  | disableWrite => exact setEvents_ndebug hp (· &&& CWriteEvent) h
  | disableAll => exact setEvents_ndebug hp (fun _ => CNoneEvent) h
  | remove => exact remove_ndebug h

end Poller

/-! ### The server and its pollers -/

/-- The server, the pollers of its loops, and the channel objects of its connections. -/
structure Process (κ : Type) where
  server : TcpServer
  pollers : ℕ → EpollPoller κ
  channel : ℕ → κ

namespace Process

variable {κ : Type} [DecidableEq κ]

/-- A started server; `fd l c` is the descriptor of the channel `c` of the loop `l`. -/
def new (name : String) (numLoops : ℕ) (fd : ℕ → κ → ℤ) (channel : ℕ → κ) : Process κ where
  server := .new name numLoops
  pollers := fun l => .new (fd l)
  channel := channel

/-- An operation of a channel of the loop `l`. -/
def onPoller (b : Build) (l : ℕ) (op : Op) (c : κ) (s : Process κ) : Except Fault (Process κ) := do
  let p ← operate b op c (s.pollers l)
  pure { s with pollers := Function.update s.pollers l p }

/-- A part of the server changes that no assertion looks at. -/
def onServer (f : TcpServer → TcpServer) (s : Process κ) : Process κ := { s with server := f s.server }

/-- `TcpConnection::connectionEstablished`. -/
def connectionEstablished (b : Build) (c : ℕ) (s : Process κ) : Except Fault (Process κ) := do
  let k ← s.server.get c
  asserted b .connectionEstablished (k.state = .CConnecting)
  (s.onServer fun v =>
    { v.setState .CConnected c with established := v.established ++ [c] }).onPoller b k.loop
      .enableRead (s.channel c)

/-- `TcpConnection::connectionDestroyed`. -/
def connectionDestroyed (b : Build) (c : ℕ) (s : Process κ) : Except Fault (Process κ) := do
  let k ← s.server.get c
  let s ← if k.state = .CConnected then
      (s.onServer fun v => v.setState .CDisconnected c).onPoller b k.loop .disableAll (s.channel c)
    else pure s
  let s ← s.onPoller b k.loop .remove (s.channel c)
  pure (s.onServer fun v => { v with destroyed := v.destroyed ++ [c] })

/-- `TcpServer::removeConnectionInLoop`. -/
def removeConnectionInLoop (b : Build) (c : ℕ) (s : Process κ) : Except Fault (Process κ) := do
  let k ← s.server.get c
  -- `assert(connections_.erase(conn->getName()) == 1)`
  let s ← match b with
    | .debug => do
      assert .removeConnectionInLoop (k.name ∈ s.server.connections)
      pure (s.onServer fun v => { v with connections := v.connections.erase k.name })
    | .ndebug => pure s
  pure (s.onServer fun v =>
    { v with removed := v.removed ++ [c] }.queueInLoop k.loop (.connectionDestroyed c))

/-- `func()`. -/
def invoke (b : Build) : Functor → Process κ → Except Fault (Process κ)
  | .connectionEstablished c => connectionEstablished b c
  | .removeConnectionInLoop c => removeConnectionInLoop b c
  | .connectionDestroyed c => connectionDestroyed b c

/-- `runInLoop` of the loop `l`, in the thread of the loop `caller`. -/
def runInLoop (b : Build) (caller l : ℕ) (f : Functor) (s : Process κ) : Except Fault (Process κ) :=
  if caller = l then invoke b f s else .ok (s.onServer fun v => v.queueInLoop l f)

/-- `TcpServer::newConnection`. -/
def newConnection (b : Build) (s : Process κ) : Except Fault (Process κ) := do
  let (ioLoop, next) ← s.server.getNextLoop
  let name := connName s.server.name s.server.nextConnId
  let c := s.server.conns.length
  (s.onServer fun v => { v with
    next := next, nextConnId := wrap (v.nextConnId + 1)
    conns := v.conns ++ [Conn.mk name ioLoop .CConnecting]
    connections := v.connections.insert name c }).runInLoop b 0 ioLoop (.connectionEstablished c)

/-- `TcpConnection::handleClose`. -/
def handleClose (b : Build) (c : ℕ) (s : Process κ) : Except Fault (Process κ) := do
  let k ← s.server.get c
  asserted b .handleClose (k.state = .CConnected ∨ k.state = .CConnecting)
  let s ← (s.onServer fun v => v.setState .CDisconnected c).onPoller b k.loop .disableAll
    (s.channel c)
  s.runInLoop b k.loop 0 (.removeConnectionInLoop c)

end Process

open Process

/-- A step of the server, or an operation of any channel of a loop. -/
inductive Step (κ : Type)
  | server (a : Act)
  | channel (l : ℕ) (op : Op) (c : κ)

section Machine
variable {κ : Type} [DecidableEq κ]

def execute (b : Build) (s : Process κ) : Step κ → Except Fault (Process κ)
  | .server .accept => s.newConnection b
  | .server (.swap l) =>
    .ok (s.onServer fun v => { v with loops := Function.update v.loops l (v.loops l).swap })
  | .server (.exec l) =>
    match (s.server.loops l).functors with
    | [] => .error .outOfBounds
    | f :: _ => invoke b f (s.onServer fun v =>
        { v with loops := Function.update v.loops l (v.loops l).advance })
  | .server (.close c) => s.handleClose b c
  | .server (.shutdown c) => do
    let v ← s.server.shutdown c
    pure { s with server := v }
  | .channel l op c => s.onPoller b l op c

/-- The runs of a build. -/
def program (b : Build) : Machine (Process κ) (Step κ) Fault where
  enabled s
    | .server a => enabled s.server a
    | .channel l _ _ => l ≤ s.server.numLoops
  step := execute b

instance (b : Build) (s : Process κ) : ∀ a, Decidable ((program b).enabled s a)
  | .server a => inferInstanceAs (Decidable (enabled s.server a))
  | .channel _ _ _ => inferInstanceAs (Decidable (_ ≤ _))

/-- The step does not run `removeConnectionInLoop`: neither as the next functor of its loop, nor from
`handleClose` in the base loop. -/
def Keeps (s : Process κ) : Step κ → Prop
  | .server (.exec l) =>
    ∀ f ∈ (s.server.loops l).functors.head?, f ≠ .removeConnectionInLoop f.conn
  | .server (.close c) => ∀ k ∈ s.server.conns[c]?, k.loop ≠ 0
  | _ => True

instance (s : Process κ) : ∀ a, Decidable (Keeps s a)
  | .server .accept => inferInstanceAs (Decidable True)
  | .server (.swap _) => inferInstanceAs (Decidable True)
  | .server (.exec l) => inferInstanceAs (Decidable (∀ f ∈ (s.server.loops l).functors.head?, _))
  | .server (.close c) => inferInstanceAs (Decidable (∀ k ∈ s.server.conns[c]?, _))
  | .server (.shutdown _) => inferInstanceAs (Decidable True)
  | .channel _ _ _ => inferInstanceAs (Decidable True)

/-- `connections_` is the same in both, and so is `channels_` of every loop. -/
structure Agree (s x : Process κ) : Prop where
  connections : x.server.connections = s.server.connections
  channels : ∀ l, (x.pollers l).channels = (s.pollers l).channels

/-! ### The server in it -/

variable {s t x : Process κ} {a : Step κ} {c l : ℕ}

theorem onPoller_server {b : Build} {op : Op} {ch : κ} (h : s.onPoller b l op ch = .ok t) :
    t.server = s.server := by
  obtain ⟨p, -, h⟩ := bind_eq_ok.mp h
  obtain rfl := Except.ok.inj h
  rfl

theorem invoke_server {f : Functor} (h : invoke .debug f s = .ok t) :
    s.server.invoke f = .ok t.server := by
  cases f with
  | connectionEstablished c =>
    obtain ⟨k, hk, h⟩ := bind_eq_ok.mp h
    obtain ⟨⟨⟩, hstate, h⟩ := bind_eq_ok.mp h
    rw [onPoller_server h]
    exact bind_eq_ok.mpr ⟨k, hk, bind_eq_ok.mpr ⟨(), hstate, rfl⟩⟩
  | removeConnectionInLoop c =>
    obtain ⟨k, hk, h⟩ := bind_eq_ok.mp h
    obtain ⟨⟨⟩, hmem, h⟩ := bind_eq_ok.mp h
    obtain rfl := Except.ok.inj h
    exact bind_eq_ok.mpr ⟨k, hk, bind_eq_ok.mpr ⟨(), hmem, rfl⟩⟩
  | connectionDestroyed c =>
    obtain ⟨k, hk, h⟩ := bind_eq_ok.mp h
    refine bind_eq_ok.mpr ⟨k, hk, ?_⟩
    split_ifs at h ⊢ with hst
    · obtain ⟨s1, hdisable, h⟩ := bind_eq_ok.mp h
      obtain ⟨s2, hremove, h⟩ := bind_eq_ok.mp h
      obtain rfl := Except.ok.inj h
      show _ = Except.ok { s2.server with destroyed := s2.server.destroyed ++ [c] }
      rw [onPoller_server hremove, onPoller_server hdisable]
      rfl
    · obtain ⟨s1, hskip, h⟩ := bind_eq_ok.mp h
      obtain rfl := Except.ok.inj hskip
      obtain ⟨s2, hremove, h⟩ := bind_eq_ok.mp h
      obtain rfl := Except.ok.inj h
      show _ = Except.ok { s2.server with destroyed := s2.server.destroyed ++ [c] }
      rw [onPoller_server hremove]
      rfl

theorem runInLoop_server {caller : ℕ} {f : Functor} (h : s.runInLoop .debug caller l f = .ok t) :
    s.server.runInLoop caller l f = .ok t.server := by
  unfold Process.runInLoop at h
  unfold TcpServer.runInLoop
  split_ifs at h ⊢ with hio
  · exact invoke_server h
  · obtain rfl := Except.ok.inj h
    rfl

/-- With its assertions the program makes the steps of the server. -/
theorem execute_server {a : Act} (h : execute .debug s (.server a) = .ok t) :
    step s.server a = .ok t.server := by
  cases a with
  | accept =>
    obtain ⟨⟨ioLoop, next⟩, hloop, h⟩ := bind_eq_ok.mp h
    exact bind_eq_ok.mpr ⟨_, hloop, runInLoop_server h⟩
  | swap l =>
    obtain rfl := Except.ok.inj h
    rfl
  | exec l =>
    cases hf : (s.server.loops l).functors with
    | nil => simp only [execute, hf, reduceCtorEq] at h
    | cons f fs =>
      simp only [execute, hf] at h
      simp only [step, hf]
      exact invoke_server h
  | close c =>
    obtain ⟨k, hk, h⟩ := bind_eq_ok.mp h
    obtain ⟨⟨⟩, hstate, h⟩ := bind_eq_ok.mp h
    obtain ⟨s1, hdisable, h⟩ := bind_eq_ok.mp h
    refine bind_eq_ok.mpr ⟨k, hk, bind_eq_ok.mpr ⟨(), hstate, ?_⟩⟩
    have hrun := runInLoop_server h
    rw [onPoller_server hdisable] at hrun
    exact hrun
  | shutdown c =>
    obtain ⟨v, hv, h⟩ := bind_eq_ok.mp h
    obtain rfl := Except.ok.inj h
    exact hv

/-- The steps of the server in a run. -/
def acts (as : List (Step κ)) : List Act := as.filterMap fun
  | .server a => some a
  | .channel _ _ _ => none

/-- **What has been proved of the runs of the server holds of the program's.** -/
theorem run_server {as : List (Step κ)} (h : Run (program .debug) s as t) :
    Run serverMachine s.server (acts as) t.server := by
  induction h with
  | nil s => exact .nil _
  | @cons s t u a as he hs _ ih =>
    cases a with
    | server a => exact .cons he (execute_server hs) ih
    | channel l op c =>
      rw [← onPoller_server hs]
      exact ih

/-! ### The two builds side by side -/

/-- Another map. -/
def Process.remap (m : Std.ExtTreeMap String ℕ) (s : Process κ) : Process κ :=
  s.onServer fun v => { v with connections := m }

/-- The build without assertions makes the step from `s` to `t` as well, with whatever map it begins:
this goes through `g`. -/
structure Mirrors (F : Build → Process κ → Except Fault (Process κ))
    (g : Std.ExtTreeMap String ℕ → Std.ExtTreeMap String ℕ) (s t : Process κ) : Prop where
  registered : ∀ l, Registered (t.pollers l)
  mirror : ∀ m, F .ndebug (s.remap m) = .ok (t.remap (g m))

theorem onPoller_mirrors {op : Op} {ch : κ} (h : s.onPoller .debug l op ch = .ok t)
    (hs : ∀ l, Registered (s.pollers l)) : Mirrors (fun b s => s.onPoller b l op ch) id s t := by
  obtain ⟨p, hp, h⟩ := bind_eq_ok.mp h
  obtain rfl := Except.ok.inj h
  rw [operate_debug] at hp
  refine ⟨fun l' => ?_, fun m => ?_⟩
  · show Registered (Function.update s.pollers l p l')
    by_cases hl : l' = l
    · rw [hl, Function.update_self]
      exact ((hs l).run hp).1
    · rw [Function.update_of_ne hl]
      exact hs l'
  · show (operate .ndebug op ch (s.pollers l) >>= _) = _
    rw [operate_ndebug (hs l) hp]
    rfl

theorem connectionEstablished_mirrors (h : s.connectionEstablished .debug c = .ok t)
    (hs : ∀ l, Registered (s.pollers l)) :
    Mirrors (fun b s => s.connectionEstablished b c) id s t ∧
      t.server.connections = s.server.connections := by
  obtain ⟨k, hk, h⟩ := bind_eq_ok.mp h
  obtain ⟨⟨⟩, -, h⟩ := bind_eq_ok.mp h
  have h1 := onPoller_mirrors h hs
  refine ⟨⟨h1.registered, fun m => ?_⟩, by rw [onPoller_server h]; rfl⟩
  have hget : (s.remap m).server.get c = .ok k := hk
  unfold Process.connectionEstablished
  rw [hget]
  exact h1.mirror m

theorem connectionDestroyed_mirrors (h : s.connectionDestroyed .debug c = .ok t)
    (hs : ∀ l, Registered (s.pollers l)) :
    Mirrors (fun b s => s.connectionDestroyed b c) id s t ∧
      t.server.connections = s.server.connections := by
  obtain ⟨k, hk, h⟩ := bind_eq_ok.mp h
  have hget : ∀ m, (s.remap m).server.get c = .ok k := fun _ => hk
  -- removing the channel, after it may have been disabled
  have hrest : ∀ s1 : Process κ, (∀ l, Registered (s1.pollers l)) →
      s1.server.connections = s.server.connections →
      (s1.onPoller .debug k.loop .remove (s1.channel c) >>= fun s => pure
        (s.onServer fun v => { v with destroyed := v.destroyed ++ [c] })) = .ok t →
      (∀ l, Registered (t.pollers l)) ∧ t.server.connections = s.server.connections ∧
        ∀ m, ((s1.remap m).onPoller .ndebug k.loop .remove (s1.channel c) >>= fun s => pure
          (s.onServer fun v => { v with destroyed := v.destroyed ++ [c] })) = .ok (t.remap m) := by
    intro s1 hs1 hmap h
    obtain ⟨s2, hremove, h⟩ := bind_eq_ok.mp h
    obtain rfl := Except.ok.inj h
    have h1 := onPoller_mirrors hremove hs1
    refine ⟨h1.registered, ?_, fun m => ?_⟩
    · show s2.server.connections = _
      rw [onPoller_server hremove, hmap]
    · rw [h1.mirror m]
      rfl
  split_ifs at h with hst
  · obtain ⟨s1, hdisable, h⟩ := bind_eq_ok.mp h
    have h1 := onPoller_mirrors hdisable hs
    obtain ⟨h3, h4, h5⟩ := hrest s1 h1.registered (by rw [onPoller_server hdisable]; rfl) h
    refine ⟨⟨h3, fun m => ?_⟩, h4⟩
    show (s.remap m).connectionDestroyed .ndebug c = _
    unfold Process.connectionDestroyed
    rw [hget, ok_bind, if_pos hst]
    exact bind_eq_ok.mpr ⟨_, h1.mirror m, h5 m⟩
  · obtain ⟨h3, h4, h5⟩ := hrest s hs rfl h
    refine ⟨⟨h3, fun m => ?_⟩, h4⟩
    show (s.remap m).connectionDestroyed .ndebug c = _
    unfold Process.connectionDestroyed
    rw [hget, ok_bind, if_neg hst]
    exact h5 m

omit [DecidableEq κ] in
theorem removeConnectionInLoop_mirrors (h : s.removeConnectionInLoop .debug c = .ok t)
    (hs : ∀ l, Registered (s.pollers l)) :
    Mirrors (fun b s => s.removeConnectionInLoop b c) id s t ∧
      t.server.connections ≠ s.server.connections := by
  obtain ⟨k, hk, h⟩ := bind_eq_ok.mp h
  obtain ⟨⟨⟩, hmem, h⟩ := bind_eq_ok.mp h
  obtain rfl := Except.ok.inj h
  refine ⟨⟨hs, fun m => ?_⟩, fun heq => ?_⟩
  · have hget : (s.remap m).server.get c = .ok k := hk
    show (s.remap m).removeConnectionInLoop .ndebug c = _
    unfold Process.removeConnectionInLoop
    rw [hget]
    rfl
  · unfold assert at hmem
    split_ifs at hmem with hin
    have heq' : s.server.connections.erase k.name = s.server.connections := heq
    rw [← heq', Std.ExtTreeMap.mem_erase] at hin
    exact hin.1 Std.ReflCmp.compare_self

theorem invoke_mirrors {f : Functor} (h : invoke .debug f s = .ok t)
    (hs : ∀ l, Registered (s.pollers l)) :
    Mirrors (fun b s => invoke b f s) id s t ∧
      (t.server.connections = s.server.connections ↔ f ≠ .removeConnectionInLoop f.conn) := by
  cases f with
  | connectionEstablished c =>
    obtain ⟨h1, h2⟩ := connectionEstablished_mirrors h hs
    exact ⟨h1, iff_of_true h2 nofun⟩
  | connectionDestroyed c =>
    obtain ⟨h1, h2⟩ := connectionDestroyed_mirrors h hs
    exact ⟨h1, iff_of_true h2 nofun⟩
  | removeConnectionInLoop c =>
    obtain ⟨h1, h2⟩ := removeConnectionInLoop_mirrors h hs
    exact ⟨h1, iff_of_false h2 fun hne => hne rfl⟩

theorem runInLoop_mirrors {caller : ℕ} {f : Functor} (h : s.runInLoop .debug caller l f = .ok t)
    (hs : ∀ l, Registered (s.pollers l)) :
    Mirrors (fun b s => s.runInLoop b caller l f) id s t ∧
      (t.server.connections = s.server.connections ↔
        (caller = l → f ≠ .removeConnectionInLoop f.conn)) := by
  unfold Process.runInLoop at h ⊢
  split_ifs at h ⊢ with hio
  · obtain ⟨h1, h2⟩ := invoke_mirrors h hs
    exact ⟨h1, h2.trans (imp_iff_right hio).symm⟩
  · obtain rfl := Except.ok.inj h
    exact ⟨⟨hs, fun _ => rfl⟩, iff_of_true rfl fun h' => absurd h' hio⟩

theorem newConnection_mirrors (h : s.newConnection .debug = .ok t)
    (hs : ∀ l, Registered (s.pollers l)) :
    ∃ g, Mirrors (fun b s => s.newConnection b) g s t ∧
      t.server.connections = g s.server.connections := by
  obtain ⟨⟨ioLoop, next⟩, hloop, h⟩ := bind_eq_ok.mp h
  have hget : ∀ m, (s.remap m).server.getNextLoop = .ok (ioLoop, next) := fun _ => hloop
  obtain ⟨h1, h2⟩ := runInLoop_mirrors h hs
  refine ⟨fun m => m.insert (connName s.server.name s.server.nextConnId) s.server.conns.length,
    ⟨h1.registered, fun m => ?_⟩, by rw [h2.mpr fun _ => nofun]; rfl⟩
  exact bind_eq_ok.mpr ⟨_, hget m, h1.mirror _⟩

theorem handleClose_mirrors (h : s.handleClose .debug c = .ok t)
    (hs : ∀ l, Registered (s.pollers l)) :
    Mirrors (fun b s => s.handleClose b c) id s t ∧
      (t.server.connections = s.server.connections ↔ ∀ k ∈ s.server.conns[c]?, k.loop ≠ 0) := by
  obtain ⟨k, hk, h⟩ := bind_eq_ok.mp h
  obtain ⟨⟨⟩, -, h⟩ := bind_eq_ok.mp h
  obtain ⟨s1, hdisable, h⟩ := bind_eq_ok.mp h
  have h1 := onPoller_mirrors hdisable hs
  have hget : ∀ m, (s.remap m).server.get c = .ok k := fun _ => hk
  have hconn : s.server.conns[c]? = some k := by
    unfold TcpServer.get at hk
    split at hk
    · rw [← Except.ok.inj hk]
      assumption
    · cases hk
  have hmap : s1.server.connections = s.server.connections := by
    rw [onPoller_server hdisable]
    rfl
  obtain ⟨h3, h4⟩ := runInLoop_mirrors h h1.registered
  refine ⟨⟨h3.registered, fun m => ?_⟩, ?_⟩
  · show (s.remap m).handleClose .ndebug c = _
    refine bind_eq_ok.mpr ⟨_, hget m, bind_eq_ok.mpr ⟨(), rfl, ?_⟩⟩
    exact bind_eq_ok.mpr ⟨_, h1.mirror m, h3.mirror m⟩
  · rw [← hmap, h4, hconn]
    constructor
    · intro hne k' hk' hio
      rw [← Option.some.inj hk'] at hio
      exact hne hio rfl
    · intro hne hio
      exact absurd hio (hne k rfl)

theorem execute_mirrors (h : execute .debug s a = .ok t) (hs : ∀ l, Registered (s.pollers l)) :
    ∃ g, Mirrors (fun b s => execute b s a) g s t ∧
      (t.server.connections = g s.server.connections ↔ Keeps s a) := by
  cases a with
  | channel l op c =>
    exact ⟨id, onPoller_mirrors h hs, iff_of_true (by rw [onPoller_server h]; rfl) trivial⟩
  | server a =>
    cases a with
    | accept =>
      obtain ⟨g, h1, h2⟩ := newConnection_mirrors h hs
      exact ⟨g, h1, iff_of_true h2 trivial⟩
    | swap l =>
      obtain rfl := Except.ok.inj h
      exact ⟨id, ⟨hs, fun _ => rfl⟩, iff_of_true rfl trivial⟩
    | exec l =>
      cases hf : (s.server.loops l).functors with
      | nil => simp only [execute, hf, reduceCtorEq] at h
      | cons f fs =>
        simp only [execute, hf] at h
        obtain ⟨h1, h2⟩ := invoke_mirrors h hs
        refine ⟨id, ⟨h1.registered, fun m => ?_⟩, h2.trans ?_⟩
        · have hf' : ((s.remap m).server.loops l).functors = f :: fs := hf
          simp only [execute, hf']
          exact h1.mirror m
        · simp only [Keeps, hf, List.head?_cons, Option.mem_some_iff, forall_eq']
    | close c =>
      obtain ⟨h1, h2⟩ := handleClose_mirrors h hs
      exact ⟨id, h1, h2⟩
    | shutdown c =>
      obtain ⟨v, hv, h⟩ := bind_eq_ok.mp h
      obtain rfl := Except.ok.inj h
      obtain ⟨k, hk, hv⟩ := bind_eq_ok.mp hv
      obtain rfl := Except.ok.inj hv
      have hget : ∀ m, (s.remap m).server.get c = .ok k := fun _ => hk
      refine ⟨id, ⟨hs, fun m => ?_⟩, iff_of_true ?_ trivial⟩
      · refine bind_eq_ok.mpr ⟨_, bind_eq_ok.mpr ⟨_, hget m, rfl⟩, ?_⟩
        split_ifs <;> rfl
      · show (if _ then _ else _ : TcpServer).connections = _
        split_ifs <;> rfl

/-! ### Whole runs -/

variable {as : List (Step κ)}

/-- Without assertions the program goes through the same run, the map of connections apart: so its
channels are the same at every step. -/
theorem follows_remap (h : Run (program .debug) s as t) (hs : ∀ l, Registered (s.pollers l)) :
    Follows (program .debug) (execute .ndebug) (fun s x => ∃ m, x = s.remap m) s s as := by
  refine Follows.of_step (I := fun s x => (∀ l, Registered (s.pollers l)) ∧ ∃ m, x = s.remap m)
    (fun s x h => h.2) ?_ h ⟨hs, s.server.connections, rfl⟩
  rintro s _ a t ⟨hs, m, rfl⟩ - hstep
  obtain ⟨g, hg, -⟩ := execute_mirrors hstep hs
  exact ⟨t.remap (g m), hg.mirror m, hg.registered, g m, rfl⟩

/-- **Assertions may be left out of the runs that remove nothing.**  Without assertions
`connections_` and `channels_` are the same after every step of a run if and only if no step of the
run executes `removeConnectionInLoop`. -/
theorem asserts_iff {name : String} {n : ℕ} {fd : ℕ → κ → ℤ} {channel : ℕ → κ}
    (h : Run (program .debug) (Process.new name n fd channel) as t) :
    Follows (program .debug) (execute .ndebug) Agree (Process.new name n fd channel)
        (Process.new name n fd channel) as ↔
      Run (restrict (program .debug) Keeps) (Process.new name n fd channel) as t := by
  refine follows_iff (I := fun s x => (∀ l, Registered (s.pollers l)) ∧ x = s) ?_ ?_ ?_ h
    ⟨fun l => registered_new (fd l), rfl⟩
  · rintro _ s ⟨-, rfl⟩
    exact ⟨rfl, fun _ => rfl⟩
  · rintro _ s a t ⟨hs, rfl⟩ - hstep hkeeps
    obtain ⟨g, hg, hmap⟩ := execute_mirrors hstep hs
    refine ⟨t, ?_, hg.registered, rfl⟩
    have hsame : execute .ndebug s a = .ok (t.remap (g s.server.connections)) := hg.mirror _
    rw [hsame, ← hmap.mpr hkeeps]
    rfl
  · rintro _ s a t ⟨hs, rfl⟩ - hstep hkeeps y hy hagree
    obtain ⟨g, hg, hmap⟩ := execute_mirrors hstep hs
    have hsame : execute .ndebug s a = .ok (t.remap (g s.server.connections)) := hg.mirror _
    rw [hsame] at hy
    obtain rfl := Except.ok.inj hy
    exact hkeeps (hmap.mp hagree.connections.symm)

end Machine

theorem asserts_establish :
    Follows (program .debug) (execute .ndebug) Agree (Process.new "ws" 1 (fun _ c => c) id : Process ℕ)
      (Process.new "ws" 1 (fun _ c => c) id)
      [.server .accept, .server (.swap 1), .server (.exec 1), .channel 1 .enableWrite 0,
        .server (.shutdown 0)] := by
  have h : Run (program .debug) (Process.new "ws" 1 (fun _ c => c) id : Process ℕ)
      [.server .accept, .server (.swap 1), .server (.exec 1), .channel 1 .enableWrite 0,
        .server (.shutdown 0)] _ := run_iff_exec.mpr rfl
  exact (asserts_iff h).mpr (run_iff_exec.mpr rfl)

/-- The base loop serves the connection itself.  Closed, it stays in `connections_` when there are
no assertions. -/
theorem not_asserts_free : ∃ t, Run (program .debug) (Process.new "ws" 0 (fun _ c => c) id : Process ℕ)
      [.server .accept, .server (.close 0)] t ∧
    ¬Follows (program .debug) (execute .ndebug) Agree
      (Process.new "ws" 0 (fun _ c => c) id : Process ℕ) (Process.new "ws" 0 (fun _ c => c) id)
      [.server .accept, .server (.close 0)] := by
  have h : Run (program .debug) (Process.new "ws" 0 (fun _ c => c) id : Process ℕ)
      [.server .accept, .server (.close 0)] _ := run_iff_exec.mpr rfl
  refine ⟨_, h, fun hf => ?_⟩
  obtain ⟨y, hy, hagree⟩ := hf _ [] _ rfl h
  obtain rfl := Except.ok.inj hy
  have hsize : (1 : ℕ) = 0 := congrArg (fun m => m.size) hagree.connections
  omega

end ReactorServer.Net.Assertions
