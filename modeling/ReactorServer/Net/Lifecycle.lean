import ReactorServer.Net.Dispatch
import Mathlib.Data.List.Count

/-!
# The life of a connection

The assertions on the path of a connection sit in three classes and rest on one another: the channel
may be removed only when it has no events left and is registered, and the connection may be closed
only once, and only by its peer.  A run is `Careful` when `EPOLLHUP` is not handled after a `shutdown`
or a second time, no `write` of `handleWrite` returns `0`, and reading is not switched on again after
the close.  Where `state_` stands follows from these calls and events (`Witnessed`), and `Orderly` is
what holds besides between two steps of the loop thread.
-/

namespace ReactorServer.Net.Lifecycle

open ReactorServer.Cpp ReactorServer.Lib.Runs ReactorServer.Lib.Triples
open ReactorServer.Net.Poller ReactorServer.Net.Poller.EpollPoller ReactorServer.Net.Registration
open ReactorServer.Net.Connection ReactorServer.Net.Connection.TcpConnection
open ReactorServer.Net.Dispatch

variable {κ : Type} {s t : TcpConnection κ} {d : Served κ} {f : Mask → Mask}

/-- `state_` stays or moves on. -/
def Forward (st st' : State) : Prop :=
  st' = st ∨ (st = .CConnecting ∧ st' = .CConnected) ∨ (st = .CConnected ∧ st' = .CDisconnecting) ∨
    (st = .CConnected ∧ st' = .CDisconnected) ∨ (st = .CDisconnecting ∧ st' = .CDisconnected)

/-- The calls and events so far. -/
structure Past where
  /-- `shutdown` has been called while the connection was connected -/
  asked : Bool
  /-- `EPOLLHUP` has been handled -/
  hungUp : Bool
  deriving DecidableEq, Repr

/-- The close handler is the next to be called. -/
def hangsUp (d : Served κ) : Bool := d.todo.head? = some .close

def Past.note (d : Served κ) (x : Past) : Act → Past
  | .call .shutdown _ => { x with asked := x.asked || decide (d.conn.state = .CConnected) }
  | .handle _ _ => { x with hungUp := x.hungUp || hangsUp d }
  | _ => x

/-- The connection's machine, which takes note of the calls and events. -/
def lifeMachine (κ : Type) [DecidableEq κ] : Machine (Past × Served κ) Act Fault where
  enabled x := enabled x.2
  step x a := do
    let d ← step x.2 a
    .ok (x.1.note x.2 a, d)

instance [DecidableEq κ] (x : Past × Served κ) (a : Act) : Decidable ((lifeMachine κ).enabled x a) :=
  inferInstanceAs (Decidable (enabled x.2 a))

/-- Nothing has happened yet. -/
def born (p : EpollPoller κ) (c : κ) (w b : Bool) : Past × Served κ := (⟨false, false⟩, start p c w b)

/-- The steps of the loop thread that keep away from the places where it goes wrong. -/
def Careful (x : Past × Served κ) : Act → Prop
  | .post _ => False
  | .call .startRead _ => x.2.conn.state = .CDisconnected → x.2.conn.reading = true
  | .handle _ drains =>
    (hangsUp x.2 = true → x.1.asked = false ∧ x.1.hungUp = false) ∧
    (x.2.todo.head? = some .write → .count 0 ∉ drains)
  | _ => True

/-! ### The invariant -/

/-- How far the removal of a closed connection has got: on its way to the base loop, on its way back
as `connectionDestroyed`, or done. -/
def Leaving (s : TcpConnection κ) : Prop :=
  (s.removal = true ∧ s.mapped = true ∧ s.pending.count .connectionDestroyed = 0 ∧
    s.destroyed = false) ∨
  (s.removal = false ∧ s.pending.count .connectionDestroyed = 1 ∧ s.destroyed = false) ∨
  (s.removal = false ∧ s.pending.count .connectionDestroyed = 0 ∧ s.destroyed = true)

/-- **What holds between two steps.** -/
structure Orderly (s : TcpConnection κ) : Prop extends Sound s where
  opened : s.state ≠ .CDisconnected → s.mapped = true ∧ s.removal = false ∧
    s.pending.count .connectionDestroyed = 0 ∧ s.destroyed = false
  closed : s.state = .CDisconnected → s.chan.isNonEvent ∧ Leaving s
  known : s.state ≠ .CConnecting → s.destroyed = false → s.chan.status ≠ .CNew
  queue : ∀ g ∈ s.pending, g = .writeComplete ∨ g = .connectionDestroyed

theorem orderly_start {p : EpollPoller κ} {c : κ} (hp : Vacant p c) (w b : Bool) :
    Orderly (start p c w b).conn where
  toSound := sound_start hp w b
  opened := fun _ => ⟨rfl, rfl, rfl, rfl⟩
  closed := nofun
  known := fun h => absurd rfl h
  queue := fun _ hg => absurd hg List.not_mem_nil

theorem Orderly.congr (h : Orderly s) (hp : t.poller = s.poller) (hc : t.channel = s.channel)
    (hst : t.state = s.state) (hm : t.mapped = s.mapped) (hr : t.removal = s.removal)
    (hd : t.destroyed = s.destroyed)
    (hpend : t.pending = s.pending ∨ t.pending = s.pending ++ [.writeComplete]) : Orderly t := by
  have hchan : t.chan = s.chan := by unfold TcpConnection.chan; rw [hp, hc]
  have hcount : t.pending.count .connectionDestroyed = s.pending.count .connectionDestroyed := by
    rcases hpend with h | h <;> rw [h]
    simp
  exact
    { registered := hp ▸ h.registered
      free := by rw [hp, hc]; exact h.free
      nonEvent := by rw [hchan]; exact h.nonEvent
      opened := by rw [hst, hm, hr, hcount, hd]; exact h.opened
      closed := by rw [hst, hchan, Leaving, hm, hr, hcount, hd]; exact h.closed
      known := by rw [hst, hd, hchan]; exact h.known
      queue := by
        intro g hg
        rcases hpend with h' | h' <;> rw [h'] at hg
        · exact h.queue g hg
        · rcases List.mem_append.mp hg with hg | hg
          · exact h.queue g hg
          · exact Or.inl (List.mem_singleton.mp hg) }

variable [DecidableEq κ]

theorem Orderly.place (h : Orderly s)
    (hf : s.state = .CDisconnected → f CNoneEvent = CNoneEvent) : Orderly (place f s) where
  toSound := h.toSound.place f
  opened := h.opened
  closed := by
    intro hst
    obtain ⟨he, hl⟩ := h.closed hst
    refine ⟨?_, hl⟩
    rw [chan_place]
    show f s.chan.events = CNoneEvent
    rw [show s.chan.events = CNoneEvent from he]
    exact hf hst
  known := fun _ _ => place_status
  queue := h.queue

/-! ### What a step does -/

/-- The connection is in order, with `state_` at `st`. -/
def Lands (st : State) (t : TcpConnection κ) : Prop := Orderly t ∧ t.state = st

theorem sendInLoop_orderly (h : Orderly s) (hst : s.state = .CConnected) (buf : Payload) :
    Ends NoAssertion (Lands s.state) (s.sendInLoop buf) := by
  refine (sendInLoop_spec h.toSound buf).mono (fun _ => OutputFault.noAssertion) fun t ht => ?_
  have hlife := ht.life
  have hplace : Orderly (Dispatch.place (· ||| CWriteEvent) s) :=
    h.place fun h' => by rw [hst] at h'; cases h'
  refine ⟨?_, hlife.state⟩
  rcases ht.poller with hp | hp
  · exact h.congr hp hlife.channel hlife.state hlife.mapped hlife.removal hlife.destroyed ht.pending
  · exact hplace.congr hp hlife.channel hlife.state hlife.mapped hlife.removal hlife.destroyed
      ht.pending

theorem startReadInLoop_orderly (h : Orderly s)
    (hr : s.state = .CDisconnected → s.reading = true) :
    Ends NoAssertion (Lands s.state) s.startReadInLoop := by
  unfold TcpConnection.startReadInLoop
  split_ifs with hc
  · have hst : s.state ≠ .CDisconnected := fun hst => hc.1 (hr hst)
    have h1 : Orderly { Dispatch.place (· ||| CReadEvent) s with reading := true } :=
      (h.place fun h' => absurd h' hst).congr rfl rfl rfl rfl rfl rfl (Or.inl rfl)
    rw [enableRead, onChannel_setEvents h.toSound]
    exact ⟨h1, rfl⟩
  · exact ⟨h, rfl⟩

theorem stopReadInLoop_orderly (h : Orderly s) : Ends NoAssertion (Lands s.state) s.stopReadInLoop := by
  unfold TcpConnection.stopReadInLoop
  split_ifs with hc
  · have h1 : Orderly { Dispatch.place (· &&& ~~~CReadEvent) s with reading := false } :=
      (h.place fun _ => by decide).congr rfl rfl rfl rfl rfl rfl (Or.inl rfl)
    rw [disableRead, onChannel_setEvents h.toSound]
    exact ⟨h1, rfl⟩
  · exact ⟨h, rfl⟩

theorem handleClose_orderly (h : Orderly s) (hst : s.state = .CConnected) :
    Ends NoAssertion (Lands .CDisconnected) (s.handleClose observer) := by
  obtain ⟨hm, hr, hc, hd⟩ := h.opened (by rw [hst]; nofun)
  rw [handleClose_eq h.toSound]
  refine (assert_spec fun hn => absurd (Or.inl hst) hn).bind fun _ _ => ?_
  unfold TcpConnection.closeCB
  split_ifs
  · refine (assert_spec fun hn => absurd hm hn).bind fun _ _ => ⟨?_, rfl⟩
    exact
      { toSound := ⟨h.toSound.closed.registered, h.toSound.closed.free, h.toSound.closed.nonEvent⟩
        opened := fun hn => absurd rfl hn
        closed := fun _ => ⟨closed_nonEvent, Or.inr (Or.inl ⟨hr, by
          show (s.pending ++ [Functor.connectionDestroyed]).count .connectionDestroyed = 1
          rw [List.count_append, hc]; rfl, hd⟩)⟩
        known := fun _ _ => place_status (s := s.setState .CDisconnected)
        queue := fun g hg => (List.mem_append.mp hg).elim (h.queue g) fun hg =>
          Or.inr (List.mem_singleton.mp hg) }
  · refine ⟨?_, rfl⟩
    exact
      { toSound := ⟨h.toSound.closed.registered, h.toSound.closed.free, h.toSound.closed.nonEvent⟩
        opened := fun hn => absurd rfl hn
        closed := fun _ => ⟨closed_nonEvent, Or.inl ⟨rfl, hm, hc, hd⟩⟩
        known := fun _ _ => place_status (s := s.setState .CDisconnected)
        queue := h.queue }

theorem connectionEstablished_orderly (h : Orderly s) (hst : s.state = .CConnecting) :
    Ends NoAssertion (Lands .CConnected) (s.connectionEstablished observer) := by
  have hst' : s.state ≠ .CDisconnected := by rw [hst]; nofun
  refine (assert_spec fun hn => absurd hst hn).bind fun _ _ => ?_
  rw [enableRead, onChannel_setEvents (h.toSound.setState _)]
  have h1 : Orderly (Dispatch.place (· ||| CReadEvent) (s.setState .CConnected)) :=
    { toSound := (h.toSound.setState _).place _
      opened := fun _ => h.opened hst'
      closed := nofun
      known := fun _ _ => place_status
      queue := h.queue }
  have h2 : Orderly ((Dispatch.place (· ||| CReadEvent) (s.setState .CConnected)).setContext .new) :=
    h1.congr rfl rfl rfl rfl rfl rfl (Or.inl rfl)
  exact ⟨h2, rfl⟩

/-- The destruction queued by the removal finds the channel without events and registered. -/
theorem connectionDestroyed_orderly (hs : Sound s) (hst : s.state = .CDisconnected)
    (he : s.chan.isNonEvent) (hnew : s.chan.status ≠ .CNew) (hr : s.removal = false)
    (hc : s.pending.count .connectionDestroyed = 0)
    (hq : ∀ g ∈ s.pending, g = .writeComplete ∨ g = .connectionDestroyed) :
    Ends NoAssertion (Lands s.state) (s.connectionDestroyed observer) := by
  rw [connectionDestroyed_eq hs, if_neg (by rw [hst]; nofun)]
  refine Ends.bind (onChannel_remove_spec hs (fun hn => absurd he hn)
    fun hn => absurd hn hnew) ?_
  rintro t ⟨-, -, ht⟩
  have h1 : Orderly (unplace s) :=
    { toSound := hs.unplace he hnew
      opened := fun hn => absurd hst hn
      closed := fun _ => ⟨unplace_events.trans he, Or.inr (Or.inr ⟨hr, hc, rfl⟩)⟩
      known := nofun
      queue := hq }
  show Lands s.state { t with destroyed := true }
  rw [ht]
  exact ⟨h1, rfl⟩

theorem sendCompleted_orderly (h : Orderly s) (hst : s.state ≠ .CDisconnected) :
    Ends NoAssertion (Lands s.state) s.sendCompleted := by
  refine (sendCompleted_spec h.toSound).imp fun t ht => ?_
  obtain ⟨hlife, hp, hpend⟩ := ht
  have h1 : Orderly (Dispatch.place (· &&& CWriteEvent) s) := h.place fun h' => absurd h' hst
  exact ⟨h1.congr hp hlife.channel hlife.state hlife.mapped hlife.removal hlife.destroyed hpend,
    hlife.state⟩

theorem writeLoop_orderly (drains : List WriteResult) : ∀ (toSend haveSent : ℤ)
    (s : TcpConnection κ), Orderly s → s.state ≠ .CDisconnected → .count 0 ∉ drains →
    Ends NoAssertion (Lands s.state) (s.writeLoop observer drains toSend haveSent) := by
  induction drains with
  | nil => intro _ _ s _ _ _; exact nofun
  | cons r rs ih =>
    intro toSend haveSent s h hst hz
    have hz' : .count 0 ∉ rs := fun hm => hz (List.mem_cons_of_mem _ hm)
    cases r with
    | again =>
      unfold TcpConnection.writeLoop
      split_ifs
      · exact ih _ _ s h hst hz'
      · rw [enableWrite, onChannel_setEvents h.toSound]
        exact ih _ _ (Dispatch.place (· ||| CWriteEvent) s) (h.place fun h' => absurd h' hst) hst hz'
    | reset => exact ⟨h, rfl⟩
    | error => exact ⟨h, rfl⟩
    | count n =>
      have hpos : 0 < n := by
        rcases Nat.eq_zero_or_pos n with rfl | hn
        · exact absurd List.mem_cons_self hz
        · exact hn
      have h1 : Orderly { s with accepted := s.accepted ++ s.backlog n } :=
        h.congr rfl rfl rfl rfl rfl rfl (Or.inl rfl)
      unfold TcpConnection.writeLoop
      split_ifs
      · exact nofun
      · exact sendCompleted_orderly h1 hst
      · exact ih _ _ _ h1 hst hz'

theorem handleWrite_orderly (h : Orderly s) {drains : List WriteResult} (hz : .count 0 ∉ drains) :
    Ends NoAssertion (Lands s.state) (s.handleWrite observer drains) := by
  unfold TcpConnection.handleWrite
  split_ifs with hw
  · have hst : s.state ≠ .CDisconnected := fun hst => by
      refine hw ?_
      rw [show s.chan.events = CNoneEvent from (h.closed hst).1]
      simp [CNoneEvent]
    exact writeLoop_orderly drains _ _ s h hst hz
  · exact ⟨h, rfl⟩

omit [DecidableEq κ] in
theorem readLoop_orderly (reads : List ReadResult) : ∀ s : TcpConnection κ, Orderly s →
    Ends NoAssertion (fun x => Lands s.state x.2) (s.readLoop reads) := by
  induction reads with
  | nil => intro s _; exact nofun
  | cons r rs ih =>
    intro s h
    cases r with
    | again =>
      unfold TcpConnection.readLoop
      split_ifs
      · exact ⟨h, rfl⟩
      · exact nofun
    | error => exact ⟨h, rfl⟩
    | bytes b =>
      unfold TcpConnection.readLoop
      split_ifs
      · exact ⟨h, rfl⟩
      · exact ih { s with readBuf := s.readBuf ++ b }
          (h.congr rfl rfl rfl rfl rfl rfl (Or.inl rfl))
      · exact nofun

omit [DecidableEq κ] in
theorem handleRead_orderly (h : Orderly s) (reads : List ReadResult) :
    Ends NoAssertion (Lands s.state) (s.handleRead observer reads) := by
  refine (readLoop_orderly reads s h).bind ?_
  rintro ⟨again, t⟩ ht
  dsimp only at ht ⊢
  split_ifs
  · cases t.context with
    | none => exact nofun
    | some c => exact ⟨ht.1.congr rfl rfl rfl rfl rfl rfl (Or.inl rfl), ht.2⟩
  · exact ht

/-- `state_` after a call. -/
def called (st : State) : Call → State
  | .shutdown => if st = .CConnected then .CDisconnecting else st
  | _ => st

theorem call_orderly (h : Orderly s) {k : Call}
    (hk : k = .startRead → s.state = .CDisconnected → s.reading = true) :
    Ends NoAssertion (Lands (called s.state k)) (k.run true observer s) := by
  cases k with
  | send buf =>
    have h1 : Orderly { s with passed := s.passed ++ [buf.bytes] } :=
      h.congr rfl rfl rfl rfl rfl rfl (Or.inl rfl)
    unfold Call.run TcpConnection.send
    dsimp only
    split_ifs with hst
    · exact sendInLoop_orderly h1 hst buf
    · exact ⟨h1, rfl⟩
  | shutdown =>
    show Ends NoAssertion (Lands (called s.state .shutdown)) (s.shutdown true observer)
    unfold TcpConnection.shutdown called
    split_ifs with hst
    · have hst' : s.state ≠ .CDisconnected := by rw [hst]; nofun
      refine ⟨?_, rfl⟩
      exact
        { toSound := ⟨h.registered, h.free, h.nonEvent⟩
          opened := fun _ => h.opened hst'
          closed := nofun
          known := fun _ => h.known (by rw [hst]; nofun)
          queue := h.queue }
    · exact ⟨h, rfl⟩
  | startRead => exact startReadInLoop_orderly h (hk rfl)
  | stopRead => exact stopReadInLoop_orderly h

theorem exec_orderly (h : Orderly s) {g : Functor} {gs : List Functor} (hg : s.pending = g :: gs)
    (hd : s.destroyed = false) (ws : List WriteResult) :
    Ends NoAssertion (Lands s.state) (invoke observer g { s with pending := gs, writes := ws }) := by
  have hqueue : ∀ x ∈ gs, x = .writeComplete ∨ x = .connectionDestroyed := fun x hx =>
    h.queue x (hg ▸ List.mem_cons_of_mem _ hx)
  rcases h.queue g (hg ▸ List.mem_cons_self) with rfl | rfl
  · have hc : gs.count .connectionDestroyed = s.pending.count .connectionDestroyed := by
      rw [hg]; simp
    refine ⟨?_, rfl⟩
    exact
      { toSound := ⟨h.registered, h.free, h.nonEvent⟩
        opened := by rw [hc]; exact h.opened
        closed := by rw [Leaving, hc]; exact h.closed
        known := h.known
        queue := hqueue }
  · have hc : s.pending.count .connectionDestroyed = gs.count .connectionDestroyed + 1 := by
      rw [hg]; simp
    have hst : s.state = .CDisconnected := by
      by_contra hst
      have := (h.opened hst).2.2.1
      omega
    obtain ⟨he, hl⟩ := h.closed hst
    obtain ⟨hr, hone⟩ : s.removal = false ∧ gs.count .connectionDestroyed = 0 := by
      rcases hl with ⟨-, -, h0, -⟩ | ⟨hr, h1, -⟩ | ⟨-, h0, -⟩
      · omega
      · exact ⟨hr, by omega⟩
      · omega
    exact connectionDestroyed_orderly (s := { s with pending := gs, writes := ws })
      ⟨h.registered, h.free, h.nonEvent⟩ hst he (h.known (by rw [hst]; nofun) hd) hr hone hqueue

theorem handler_orderly (h : Orderly s) (reads : List ReadResult) (drains : List WriteResult)
    {g : Handler} (hclose : g = .close → s.state = .CConnected)
    (hwrite : g = .write → .count 0 ∉ drains) :
    Ends NoAssertion (Lands (if g = .close then .CDisconnected else s.state))
      (g.run observer reads drains s) := by
  cases g with
  | close => exact handleClose_orderly h (hclose rfl)
  | error => exact ⟨h, rfl⟩
  | read => exact handleRead_orderly h reads
  | write => exact handleWrite_orderly h (hwrite rfl)

omit [DecidableEq κ] in
theorem removed_orderly (h : Orderly s) (hr : s.removal = true) :
    Ends NoAssertion (Lands s.state) ({ s with removal := false }.removeConnectionInLoop) := by
  have hst : s.state = .CDisconnected := by
    by_contra hst
    have := (h.opened hst).2.1
    rw [hr] at this; cases this
  obtain ⟨he, hl⟩ := h.closed hst
  rcases hl with ⟨-, hm, hc, hd⟩ | ⟨hr', -⟩ | ⟨hr', -⟩
  · refine (assert_spec fun hn => absurd hm hn).bind fun _ _ => ⟨?_, rfl⟩
    exact
      { toSound := ⟨h.registered, h.free, h.nonEvent⟩
        opened := fun hn => absurd hst hn
        closed := fun _ => ⟨he, Or.inr (Or.inl ⟨rfl, by
          show (s.pending ++ [Functor.connectionDestroyed]).count .connectionDestroyed = 1
          rw [List.count_append, hc]; rfl, hd⟩)⟩
        known := h.known
        queue := fun g hg => (List.mem_append.mp hg).elim (h.queue g) fun hg =>
          Or.inr (List.mem_singleton.mp hg) }
  · rw [hr] at hr'; cases hr'
  · rw [hr] at hr'; cases hr'

/-- `state_` after a step. -/
def reached (d : Served κ) : Act → State
  | .established => .CConnected
  | .call k _ => called d.conn.state k
  | .handle _ _ => if hangsUp d = true then .CDisconnected else d.conn.state
  | _ => d.conn.state

/-- **One step**, where `EPOLLHUP` is handled while the connection is connected. -/
theorem step_orderly {x : Past × Served κ} (h : Orderly x.2.conn) {a : Act} (he : enabled x.2 a)
    (ha : Careful x a) (hclose : ∀ reads drains, a = .handle reads drains → hangsUp x.2 = true →
      x.2.conn.state = .CConnected) :
    Ends NoAssertion (fun d' => Lands (reached x.2 a) d'.conn) (step x.2 a) := by
  have hlift : ∀ {e : Served κ} {st : State} {y : Except Fault (TcpConnection κ)},
      Ends NoAssertion (Lands st) y → Ends NoAssertion (fun d' => Lands st d'.conn) (lift e y) :=
    fun hy => hy.bind fun _ ht => ht
  cases a with
  | established => exact hlift (connectionEstablished_orderly h he)
  | call k ws =>
    have h1 : Orderly { x.2.conn with writes := ws } :=
      h.congr rfl rfl rfl rfl rfl rfl (Or.inl rfl)
    exact hlift (call_orderly h1 fun hk => by subst hk; exact ha)
  | post k => exact absurd ha id
  | exec ws =>
    obtain ⟨g, gs, hg⟩ := List.exists_cons_of_ne_nil he.2.2
    unfold step
    rw [hg]
    exact hlift (exec_orderly h hg he.1.2 ws)
  | event rev => exact ⟨h, rfl⟩
  | handle reads drains =>
    obtain ⟨g, gs, hg⟩ := List.exists_cons_of_ne_nil he.2
    have hwrite := ha.2
    have hup : hangsUp x.2 = true ↔ g = .close := by
      unfold hangsUp
      rw [hg, decide_eq_true_iff]
      exact Option.some_inj
    have hrun := handler_orderly h reads drains (g := g)
      (fun hc => hclose reads drains rfl (hup.mpr hc))
      fun hw => hwrite (by rw [hg, hw]; rfl)
    unfold step reached
    rw [hg]
    simp only [hup]
    exact hlift hrun
  | removed => exact hlift (removed_orderly h he)

/-! ### Where `state_` stands -/

/-- **The state follows from the calls and events.** -/
structure Witnessed (x : Past × Served κ) : Prop where
  orderly : Orderly x.2.conn
  asked : x.2.conn.state = .CDisconnecting → x.1.asked = true
  hungUp : x.2.conn.state = .CDisconnected → x.1.hungUp = true

omit [DecidableEq κ] in
theorem Witnessed.connected {x : Past × Served κ} (h : Witnessed x) (halive : Alive x.2.conn)
    (hasked : x.1.asked = false) (hhungUp : x.1.hungUp = false) : x.2.conn.state = .CConnected := by
  cases hst : x.2.conn.state with
  | CConnected => rfl
  | CConnecting => exact absurd hst halive.1
  | CDisconnecting => rw [h.asked hst] at hasked; cases hasked
  | CDisconnected => rw [h.hungUp hst] at hhungUp; cases hhungUp

omit [DecidableEq κ] in
theorem note_mono (x : Past) (d : Served κ) (a : Act) :
    (x.asked = true → (x.note d a).asked = true) ∧ (x.hungUp = true → (x.note d a).hungUp = true) := by
  cases a with
  | call k ws =>
    cases k with
    | shutdown => exact ⟨fun h => by simp [Past.note, h], id⟩
    | _ => exact ⟨id, id⟩
  | handle reads drains => exact ⟨id, fun h => by simp [Past.note, h]⟩
  | _ => exact ⟨id, id⟩

/-- `state_` moves forward, and only what is noted ends the connection. -/
theorem reached_spec {x : Past × Served κ} {a : Act} (he : enabled x.2 a)
    (hclose : ∀ reads drains, a = .handle reads drains → hangsUp x.2 = true →
      x.2.conn.state = .CConnected) :
    Forward x.2.conn.state (reached x.2 a) ∧
    (reached x.2 a = .CDisconnecting → x.2.conn.state = .CDisconnecting ∨
      (x.1.note x.2 a).asked = true) ∧
    (reached x.2 a = .CDisconnected → x.2.conn.state = .CDisconnected ∨
      (x.1.note x.2 a).hungUp = true) := by
  cases a with
  | established => exact ⟨Or.inr (Or.inl ⟨he, rfl⟩), nofun, nofun⟩
  | call k ws =>
    cases k with
    | shutdown =>
      by_cases hst : x.2.conn.state = .CConnected
      · have hr : reached x.2 (.call .shutdown ws) = .CDisconnecting := if_pos hst
        rw [hr]
        exact ⟨Or.inr (Or.inr (Or.inl ⟨hst, rfl⟩)),
          fun _ => Or.inr (by simp [Past.note, hst]), nofun⟩
      · have hr : reached x.2 (.call .shutdown ws) = x.2.conn.state := if_neg hst
        rw [hr]
        exact ⟨Or.inl rfl, Or.inl, Or.inl⟩
    | _ => exact ⟨Or.inl rfl, Or.inl, Or.inl⟩
  | handle reads drains =>
    by_cases hup : hangsUp x.2 = true
    · have hr : reached x.2 (.handle reads drains) = .CDisconnected := if_pos hup
      rw [hr]
      exact ⟨Or.inr (Or.inr (Or.inr (Or.inl ⟨hclose reads drains rfl hup, rfl⟩))), nofun,
        fun _ => Or.inr (by simp [Past.note, hup])⟩
    · have hr : reached x.2 (.handle reads drains) = x.2.conn.state := if_neg hup
      rw [hr]
      exact ⟨Or.inl rfl, Or.inl, Or.inl⟩
  | _ => exact ⟨Or.inl rfl, Or.inl, Or.inl⟩

/-- **One careful step.** -/
theorem step_witnessed {x : Past × Served κ} (h : Witnessed x) {a : Act} (he : enabled x.2 a)
    (ha : Careful x a) :
    Ends NoAssertion (fun d' => Witnessed (x.1.note x.2 a, d') ∧
      Forward x.2.conn.state d'.conn.state) (step x.2 a) := by
  have hclose : ∀ reads drains, a = .handle reads drains → hangsUp x.2 = true →
      x.2.conn.state = .CConnected := by
    rintro reads drains rfl hup
    obtain ⟨hasked, hhungUp⟩ := ha.1 hup
    exact h.connected he.1 hasked hhungUp
  obtain ⟨hforward, hasked, hhungUp⟩ := reached_spec he hclose
  obtain ⟨hasked', hhungUp'⟩ := note_mono x.1 x.2 a
  refine (step_orderly h.orderly he ha hclose).imp fun d' hd => ?_
  obtain ⟨ho, hst⟩ : Lands _ _ := hd
  exact ⟨⟨ho, fun hd => (hasked (hst ▸ hd)).elim (fun hd => hasked' (h.asked hd)) id,
    fun hd => (hhungUp (hst ▸ hd)).elim (fun hd => hhungUp' (h.hungUp hd)) id⟩, hst ▸ hforward⟩

/-! ### Runs -/

variable {p : EpollPoller κ} {c : κ} {w b : Bool} {as : List Act} {x : Past × Served κ}

omit [DecidableEq κ] in
theorem witnessed_born (hp : Vacant p c) : Witnessed (born p c w b) where
  orderly := orderly_start hp w b
  asked := nofun
  hungUp := nofun

/-- **The life of a connection.**  In a careful run of the loop thread no assertion on the
connection's path fails, and `state_` only moves forward. -/
theorem lifecycle (hp : Vacant p c)
    (h : Run (restrict (lifeMachine κ) Careful) (born p c w b) as x) {a : Act}
    (he : enabled x.2 a) (ha : Careful x a) :
    (∀ site, step x.2 a ≠ .error (.assertion site)) ∧
    ∀ d', step x.2 a = .ok d' → Forward x.2.conn.state d'.conn.state := by
  have hx : Witnessed x := by
    refine h.invariant (I := Witnessed) ?_ (witnessed_born hp)
    intro x a x' hx he hstep
    obtain ⟨d', hd', heq⟩ := bind_eq_ok.mp hstep
    cases heq
    exact ((step_witnessed hx he.1 he.2).of_ok hd').1
  have hstep := step_witnessed hx he ha
  exact ⟨fun site hs => hstep.of_error hs site rfl, fun d' hs => (hstep.of_ok hs).2⟩

/-- The peer hangs up, and the connection is destroyed. -/
theorem lifecycle_hangup : ∃ x : Past × Served Unit,
    Run (restrict (lifeMachine Unit) Careful) (born (EpollPoller.new fun _ => 5) () false true)
      [.established, .event EPOLLHUP, .handle [] []] x ∧
    (∀ site, step x.2 (.exec []) ≠ .error (.assertion site)) ∧
    ∀ d', step x.2 (.exec []) = .ok d' → Forward x.2.conn.state d'.conn.state := by
  have h : Run (restrict (lifeMachine Unit) Careful)
      (born (EpollPoller.new fun _ => 5) () false true)
      [.established, .event EPOLLHUP, .handle [] []] _ :=
    .cons ⟨rfl, trivial⟩ rfl (.cons ⟨by decide, trivial⟩ rfl
      (.cons ⟨by decide, fun _ => ⟨rfl, rfl⟩, nofun⟩ rfl (.nil _)))
  exact ⟨_, h, lifecycle (vacant_new _ _) h (by decide) trivial⟩

/-- **A hang-up after `shutdown`** fails the assertion of `handleClose`. -/
theorem hangup_after_shutdown : ∃ d : Served Unit,
    Run (dispatchMachine Unit) (start (EpollPoller.new fun _ => 5) () false true)
      [.established, .call .shutdown [], .event EPOLLHUP] d ∧
    enabled d (.handle [] []) ∧ step d (.handle [] []) = .error (.assertion .handleClose) :=
  ⟨_, run_iff_exec.mpr rfl, by decide, rfl⟩

end ReactorServer.Net.Lifecycle
