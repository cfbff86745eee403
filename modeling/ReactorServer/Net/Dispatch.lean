import ReactorServer.Lib.Triples
import ReactorServer.Net.Connection
import ReactorServer.Net.Registration

/-!
# The runs of one connection

`dispatchMachine` is a connection with everything that can happen to it: its loop establishes it,
takes an event of its channel from `epoll_wait`, calls the handlers the event asks for one by one,
and calls the functors queued for it; any code in the loop thread, a callback of the connection
included, and any other thread call `send`, `shutdown`, `startRead` and `stopRead`.  A callback does
nothing by itself here: the calls it makes are steps of their own.

The second half says what each operation does to a connection whose poller is in order (`Sound`).
-/

namespace ReactorServer.Net.Dispatch

open ReactorServer.Cpp ReactorServer.Lib.Runs ReactorServer.Lib.Triples
open ReactorServer.Net.Poller ReactorServer.Net.Poller.EpollPoller ReactorServer.Net.Registration
open ReactorServer.Net.Connection ReactorServer.Net.Connection.TcpConnection

variable {κ : Type} [DecidableEq κ]

/-! ### The machine -/

/-- The calls that may come at any time. -/
inductive Call
  | send (buf : Payload)
  | shutdown
  | startRead
  | stopRead
  deriving DecidableEq, Repr

def Call.run (inLoop : Bool) (cb : Callbacks κ) : Call → TcpConnection κ →
    Except Fault (TcpConnection κ)
  | .send buf => TcpConnection.send inLoop cb buf
  | .shutdown => TcpConnection.shutdown inLoop cb
  | .startRead => TcpConnection.startRead inLoop cb
  | .stopRead => TcpConnection.stopRead inLoop cb

/-- The callbacks: `onConnection`, and a message callback whose calls are steps of their own. -/
def observer : Callbacks κ := ⟨onConnection, .ok⟩

/-- A connection, with the handlers of the current event that are still to be called. -/
structure Served (κ : Type) where
  conn : TcpConnection κ
  todo : List Handler

inductive Act
  /-- the loop runs `connectionEstablished` -/
  | established
  /-- a call in the loop thread; a `send` writes at once -/
  | call (k : Call) (writes : List WriteResult)
  /-- a call in another thread -/
  | post (k : Call)
  /-- the loop calls the next functor -/
  | exec (writes : List WriteResult)
  /-- `epoll_wait` reports the channel -/
  | event (rcvEvents : Mask)
  /-- the loop calls the next handler -/
  | handle (reads : List ReadResult) (drains : List WriteResult)
  /-- the base loop runs `removeConnectionInLoop` -/
  | removed
  deriving DecidableEq, Repr

/-- The kernel may report these events: it has the channel, with these events or not counting
`EPOLLERR` and `EPOLLHUP`, which it always reports. -/
def Reported (s : TcpConnection κ) (rcvEvents : Mask) : Prop :=
  (s.poller.kernel s.chan.fd).any (fun entry => entry.1 = s.channel ∧
    rcvEvents &&& ~~~(entry.2 ||| EPOLLERR ||| EPOLLHUP) = 0)

instance (s : TcpConnection κ) (rcvEvents : Mask) : Decidable (Reported s rcvEvents) :=
  inferInstanceAs (Decidable (_ = true))

/-- Between `connectionEstablished` and the end of `connectionDestroyed`. -/
def Alive (s : TcpConnection κ) : Prop := s.state ≠ .CConnecting ∧ s.destroyed = false

instance (s : TcpConnection κ) : Decidable (Alive s) := by unfold Alive; infer_instance

def enabled (d : Served κ) : Act → Prop
  | .established => d.conn.state = .CConnecting
  | .call _ _ => Alive d.conn
  | .post _ => Alive d.conn
  | .exec _ => Alive d.conn ∧ d.todo = [] ∧ d.conn.pending ≠ []
  | .event rcvEvents => Alive d.conn ∧ d.todo = [] ∧ Reported d.conn rcvEvents
  | .handle _ _ => Alive d.conn ∧ d.todo ≠ []
  | .removed => d.conn.removal = true

instance (d : Served κ) : ∀ a, Decidable (enabled d a)
  | .established => inferInstanceAs (Decidable (_ = _))
  | .call _ _ => inferInstanceAs (Decidable (Alive _))
  | .post _ => inferInstanceAs (Decidable (Alive _))
  | .exec _ => inferInstanceAs (Decidable (_ ∧ _ ∧ _))
  | .event _ => inferInstanceAs (Decidable (_ ∧ _ ∧ _))
  | .handle _ _ => inferInstanceAs (Decidable (_ ∧ _))
  | .removed => inferInstanceAs (Decidable (_ = _))

/-- Change the connection only. -/
def lift (d : Served κ) (x : Except Fault (TcpConnection κ)) : Except Fault (Served κ) :=
  x >>= fun s => .ok { d with conn := s }

def step (d : Served κ) : Act → Except Fault (Served κ)
  | .established => lift d (d.conn.connectionEstablished observer)
  | .call k writes => lift d (k.run true observer { d.conn with writes := writes })
  | .post k => lift d (k.run false observer d.conn)
  | .exec writes =>
    match d.conn.pending with
    | [] => .error .outOfBounds
    | f :: fs => lift d (invoke observer f { d.conn with pending := fs, writes := writes })
  | .event rcvEvents => .ok { d with todo := handlers rcvEvents }
  | .handle reads drains =>
    match d.todo with
    | [] => .error .outOfBounds
    | h :: hs => lift { d with todo := hs } (h.run observer reads drains d.conn)
  | .removed => lift d ({ d.conn with removal := false }.removeConnectionInLoop)

def dispatchMachine (κ : Type) [DecidableEq κ] : Machine (Served κ) Act Fault where
  enabled := enabled
  step := step

instance (d : Served κ) (a : Act) : Decidable ((dispatchMachine κ).enabled d a) :=
  inferInstanceAs (Decidable (enabled d a))

/-- The connection as `newConnection` makes it, for a channel whose descriptor is not in use. -/
def start (poller : EpollPoller κ) (channel : κ) (writeCompleteCB inBaseLoop : Bool) : Served κ :=
  ⟨.new poller channel writeCompleteCB inBaseLoop, []⟩

/-- The poller is in order, the channel is new, and its descriptor is not in use. -/
structure Vacant (p : EpollPoller κ) (c : κ) : Prop where
  registered : Registered p
  new : p.chan c = .new (p.chan c).fd
  free : p.channels[(p.chan c).fd]? = none

omit [DecidableEq κ] in
theorem vacant_new (fd : κ → ℤ) (c : κ) : Vacant (EpollPoller.new fd) c :=
  ⟨registered_new fd, rfl, by simp [EpollPoller.new]⟩

/-! ### The channel of a connection -/

/-- The poller is in order and has room for the channel; only an added channel has events. -/
structure Sound (s : TcpConnection κ) : Prop where
  registered : Registered s.poller
  free : Free s.poller s.channel
  nonEvent : s.chan.status ≠ .CAdded → s.chan.isNonEvent

omit [DecidableEq κ] in
theorem sound_start {p : EpollPoller κ} {c : κ} (hp : Vacant p c) (w b : Bool) :
    Sound (start p c w b).conn where
  registered := hp.registered
  free := fun _ => hp.free
  nonEvent := by
    intro _
    show (p.chan c).events = CNoneEvent
    rw [hp.new]; rfl

/-- The connection after the events of its channel have been changed. -/
def place (f : Mask → Mask) (s : TcpConnection κ) : TcpConnection κ :=
  { s with poller := placed f s.channel s.poller }

variable {s s' : TcpConnection κ} {f : Mask → Mask}

@[simp] theorem chan_place : (place f s).chan = interested f s.chan := by
  simp [TcpConnection.chan, place, placed]

theorem onChannel_setEvents (h : Sound s) (f : Mask → Mask) :
    s.onChannel (setEvents f) = .ok (place f s) := by
  simp only [onChannel, setEvents_eq h.registered, if_pos h.free, ok_bind]
  rfl

theorem free_placed {p : EpollPoller κ} {c : κ} (f : Mask → Mask) : Free (placed f c p) c := by
  intro h
  simp only [placed, Function.update_self, interested] at h
  exact absurd h (nextStatus_ne_new _ _)

omit [DecidableEq κ] in
theorem Sound.setState (h : Sound s) (st : State) : Sound (s.setState st) :=
  ⟨h.registered, h.free, h.nonEvent⟩

theorem Sound.place (h : Sound s) (f : Mask → Mask) : Sound (place f s) where
  registered := h.registered.placed h.free f
  free := free_placed f
  nonEvent := by
    intro hst
    rw [chan_place] at hst ⊢
    simp only [interested, nextStatus] at hst
    split_ifs at hst with h'
    · exact h'.2
    · exact absurd rfl hst

/-- The status of a channel that has been touched is not `CNew`. -/
theorem place_status : (place f s).chan.status ≠ .CNew := by
  rw [chan_place]; exact nextStatus_ne_new _ _

/-- The connection after `connectionDestroyed` has removed its channel. -/
def unplace (s : TcpConnection κ) : TcpConnection κ :=
  { s with poller := dropped s.channel s.poller, destroyed := true }

theorem unplace_events : (unplace s).chan.events = s.chan.events := by
  simp [TcpConnection.chan, unplace, dropped]

theorem onChannel_remove_spec (h : Sound s) {E : Fault → Prop}
    (hE : ¬s.chan.isNonEvent → E (.assertion .channelRemove))
    (hE' : s.chan.status = .CNew → E (.assertion .removeChannel)) :
    Ends E (fun t => s.chan.isNonEvent ∧ s.chan.status ≠ .CNew ∧ { t with destroyed := true } =
      unplace s) (s.onChannel remove) := by
  simp only [onChannel, remove_eq h.registered]
  by_cases he : s.chan.isNonEvent
  · have he' : ¬¬(s.poller.chan s.channel).isNonEvent := not_not_intro he
    rw [if_neg he']
    by_cases hst : s.chan.status = .CNew
    · rw [if_pos (show (s.poller.chan s.channel).status = .CNew from hst)]
      exact hE' hst
    · rw [if_neg (show ¬(s.poller.chan s.channel).status = .CNew from hst)]
      exact ⟨he, hst, rfl⟩
  · have he' : ¬(s.poller.chan s.channel).isNonEvent := he
    rw [if_pos he']
    exact hE he

theorem Sound.unplace (h : Sound s) (he : s.chan.isNonEvent) (hst : s.chan.status ≠ .CNew) :
    Sound (unplace s) where
  registered := h.registered.dropped hst
  free := by
    intro _
    simp [Dispatch.unplace, dropped]
  nonEvent := by
    intro _
    simpa [Dispatch.unplace, dropped, TcpConnection.chan, Channel.isNonEvent] using he

/-! ### Interest in writing -/

theorem isWriting_of_same {ev ev' : Mask} (h : ev' &&& CWriteEvent = ev &&& CWriteEvent)
    {ch ch' : Channel} (hc : ch.events = ev) (hc' : ch'.events = ev') :
    ch'.isWriting ↔ ch.isWriting := by
  unfold Channel.isWriting
  rw [hc, hc', h]

/-- A change of events that leaves `EPOLLOUT` alone. -/
def KeepsWrite (f : Mask → Mask) : Prop := ∀ ev, f ev &&& CWriteEvent = ev &&& CWriteEvent

theorem keepsWrite_enableRead : KeepsWrite (· ||| CReadEvent) := by
  intro ev
  rw [BitVec.and_or_distrib_right, show CReadEvent &&& CWriteEvent = 0#32 by decide, BitVec.or_zero]

theorem keepsWrite_disableRead : KeepsWrite (· &&& ~~~CReadEvent) := by
  intro ev
  rw [BitVec.and_assoc, show ~~~CReadEvent &&& CWriteEvent = CWriteEvent by decide]

/-- `disableWrite` is one of them: it clears every event but `EPOLLOUT`. -/
theorem keepsWrite_disableWrite : KeepsWrite (· &&& CWriteEvent) := by
  intro ev
  rw [BitVec.and_assoc, BitVec.and_self]

theorem place_isWriting (hf : KeepsWrite f) : (place f s).chan.isWriting ↔ s.chan.isWriting := by
  rw [chan_place]
  exact isWriting_of_same (hf s.chan.events) rfl rfl

theorem enableWrite_isWriting : (place (· ||| CWriteEvent) s).chan.isWriting := by
  rw [chan_place]
  show (s.chan.events ||| CWriteEvent) &&& CWriteEvent ≠ 0
  intro h
  have := congrArg (fun m : Mask => m.getLsbD 2) h
  simp [CWriteEvent, EPOLLOUT] at this

/-! ### What the operations do -/

/-- Not a failed `assert`. -/
def NoAssertion (e : Fault) : Prop := ∀ site, e ≠ .assertion site

/-- A response is larger than the code can hold, or the `write` is not one it can have. -/
def OutputFault (e : Fault) : Prop := e = .overrun ∨ e = .overflow ∨ e = .starved

theorem OutputFault.noAssertion {e : Fault} (h : OutputFault e) : NoAssertion e := by
  intro site hsite
  rw [hsite] at h
  rcases h with h | h | h <;> cases h

theorem assert_spec {E : Fault → Prop} {site : Site} {b : Prop} [Decidable b]
    (h : ¬b → E (.assertion site)) : Ends E (fun _ => b) (assert site b) := by
  unfold assert
  split_ifs with hb
  · exact hb
  · exact h hb

/-- The `write` of a new payload of length `len` leaves something to be sent later. -/
def WriteResult.short (len : ℤ) : WriteResult → Bool
  | .count n => (n : ℤ) < len
  | .reset => false
  | .again => true
  | .error => true

/-- Output does not touch the life of the connection. -/
structure SameLife (s s' : TcpConnection κ) : Prop where
  channel : s'.channel = s.channel
  state : s'.state = s.state
  reading : s'.reading = s.reading
  inBaseLoop : s'.inBaseLoop = s.inBaseLoop
  mapped : s'.mapped = s.mapped
  removal : s'.removal = s.removal
  destroyed : s'.destroyed = s.destroyed

/-- **What `sendInLoop` does**: where the channel is writing the payload joins the backlog;
otherwise it is written, and the channel starts writing if the kernel does not take it all. -/
structure Sent (buf : Payload) (s s' : TcpConnection κ) : Prop where
  life : SameLife s s'
  pending : s'.pending = s.pending ∨ s'.pending = s.pending ++ [.writeComplete]
  output :
    (s.chan.isWriting ∧ s'.poller = s.poller ∧ s'.calls = s.calls ∧ s.writeIdx ≤ s'.writeIdx) ∨
    ∃ r, ¬s.chan.isWriting ∧
      s'.calls = s.calls ++ [.direct s.state s.writeIdx buf.len r] ∧
      ((WriteResult.short buf.len r = false ∧ s'.poller = s.poller ∧ s'.writeIdx = s.writeIdx) ∨
        (WriteResult.short buf.len r = true ∧ s'.poller = placed (· ||| CWriteEvent) s.channel s.poller ∧
          s.writeIdx ≤ s'.writeIdx))

omit [DecidableEq κ] in
theorem save_spec {buf : Payload} {n : ℤ} (hn : n ≤ buf.len) (s : TcpConnection κ) :
    Ends OutputFault (fun s' => ∃ m i, s' = { s with writeBuf := m, writeIdx := i } ∧
      s.writeIdx ≤ i) (s.save buf n) := by
  unfold TcpConnection.save
  dsimp only
  split
  · exact Or.inl rfl
  · split
    · exact Or.inr (Or.inl rfl)
    · exact ⟨_, _, rfl, by omega⟩

theorem trySend_spec (h : Sound s) (buf : Payload) :
    Ends OutputFault (fun x : ℤ × Bool × TcpConnection κ =>
      SameLife s x.2.2 ∧ Sound x.2.2 ∧ x.1 ≤ buf.len ∧ x.2.2.writeIdx = s.writeIdx ∧
      (x.2.2.pending = s.pending ∨ x.2.2.pending = s.pending ++ [.writeComplete]) ∧
      ((s.chan.isWriting ∧ x.2.1 = false ∧ x.2.2.poller = s.poller ∧ x.2.2.calls = s.calls) ∨
        ∃ r, ¬s.chan.isWriting ∧
          x.2.2.calls = s.calls ++ [.direct s.state s.writeIdx buf.len r] ∧
          (WriteResult.short buf.len r = true ↔ x.2.1 = false ∧ x.1 < buf.len) ∧
          (x.2.2.poller = s.poller ∨
            x.2.2.poller = placed (· ||| CWriteEvent) s.channel s.poller ∧
              WriteResult.short buf.len r = true))) (s.trySend buf) := by
  have hlen : (0 : ℤ) ≤ buf.len := Int.natCast_nonneg _
  unfold TcpConnection.trySend
  by_cases hw : s.chan.isWriting
  · rw [if_pos hw]
    exact ⟨⟨rfl, rfl, rfl, rfl, rfl, rfl, rfl⟩, h, hlen, rfl, Or.inl rfl, Or.inl ⟨hw, rfl, rfl, rfl⟩⟩
  · rw [if_neg hw]
    unfold writeDirect
    cases hws : s.writes with
    | nil => exact Or.inr (Or.inr rfl)
    | cons r ws =>
      have h1 : Sound { s with
          writes := ws, calls := s.calls ++ [.direct s.state s.writeIdx buf.len r] } :=
        ⟨h.registered, h.free, h.nonEvent⟩
      cases r with
      | count n =>
        dsimp only
        by_cases hn : n ≤ buf.bytes.length
        · have hn' : (n : ℤ) ≤ buf.len := Int.ofNat_le.mpr hn
          have hshort : WriteResult.short buf.len (.count n) = true ↔ (n : ℤ) < buf.len := by
            simp [WriteResult.short]
          rw [if_pos hn]
          simp only [ok_bind]
          split_ifs
          · exact ⟨⟨rfl, rfl, rfl, rfl, rfl, rfl, rfl⟩, ⟨h.registered, h.free, h.nonEvent⟩, hn', rfl,
              Or.inr rfl, Or.inr ⟨_, hw, rfl, by rw [hshort]; simp, Or.inl rfl⟩⟩
          · exact ⟨⟨rfl, rfl, rfl, rfl, rfl, rfl, rfl⟩, ⟨h.registered, h.free, h.nonEvent⟩, hn', rfl,
              Or.inl rfl, Or.inr ⟨_, hw, rfl, by rw [hshort]; simp, Or.inl rfl⟩⟩
        · rw [if_neg hn]
          exact Or.inr (Or.inr rfl)
      | again =>
        simp only [ok_bind, enableWrite, onChannel_setEvents h1, pure_eq_ok, ends_ok]
        exact ⟨⟨rfl, rfl, rfl, rfl, rfl, rfl, rfl⟩, h1.place _, by omega, rfl, Or.inl rfl,
          Or.inr ⟨_, hw, rfl, by simp [WriteResult.short]; omega, Or.inr ⟨rfl, rfl⟩⟩⟩
      | reset =>
        exact ⟨⟨rfl, rfl, rfl, rfl, rfl, rfl, rfl⟩, h1, by omega, rfl, Or.inl rfl,
          Or.inr ⟨_, hw, rfl, by simp [WriteResult.short], Or.inl rfl⟩⟩
      | error =>
        exact ⟨⟨rfl, rfl, rfl, rfl, rfl, rfl, rfl⟩, h1, by omega, rfl, Or.inl rfl,
          Or.inr ⟨_, hw, rfl, by simp [WriteResult.short]; omega, Or.inl rfl⟩⟩

theorem sendInLoop_spec (h : Sound s) (buf : Payload) :
    Ends OutputFault (Sent buf s) (s.sendInLoop buf) := by
  unfold TcpConnection.sendInLoop
  refine (trySend_spec h buf).bind ?_
  rintro ⟨n, faultError, t⟩ ⟨hlife, ht, hn, hidx, hpend, hout⟩
  dsimp only at hlife ht hn hidx hpend hout ⊢
  by_cases hsave : ¬faultError = true ∧ n < buf.len
  · rw [if_pos hsave]
    refine (save_spec hn t).bind ?_
    rintro u ⟨m, i, rfl, hi⟩
    rw [hidx] at hi
    have hchan : ({ t with writeBuf := m, writeIdx := i } : TcpConnection κ).chan = t.chan := rfl
    rw [hchan]
    by_cases hw : t.chan.isWriting
    · rw [if_pos hw]
      refine ⟨⟨hlife.1, hlife.2, hlife.3, hlife.4, hlife.5, hlife.6, hlife.7⟩, hpend, ?_⟩
      rcases hout with ⟨hs, -, hp, hc⟩ | ⟨r, hs, hc, hshort, hp⟩
      · exact Or.inl ⟨hs, hp, hc, hi⟩
      · refine Or.inr ⟨r, hs, hc, Or.inr ⟨?_, ?_, hi⟩⟩
        · exact hshort.mpr ⟨by simpa using hsave.1, hsave.2⟩
        · rcases hp with hp | hp
          · -- the channel was not writing and nothing has changed it
            rw [TcpConnection.chan, hp, hlife.channel] at hw
            exact absurd hw hs
          · exact hp.1
    · rw [if_neg hw]
      have hu : Sound { t with writeBuf := m, writeIdx := i } := ⟨ht.registered, ht.free, ht.nonEvent⟩
      rw [show TcpConnection.onChannel enableWrite { t with writeBuf := m, writeIdx := i } = _ from
        onChannel_setEvents hu _]
      refine ⟨⟨hlife.1, hlife.2, hlife.3, hlife.4, hlife.5, hlife.6, hlife.7⟩, hpend, ?_⟩
      rcases hout with ⟨hs, -, hp, hc⟩ | ⟨r, hs, hc, hshort, hp⟩
      · rw [TcpConnection.chan, hp, hlife.channel] at hw
        exact absurd hs hw
      · refine Or.inr ⟨r, hs, hc, Or.inr ⟨hshort.mpr ⟨by simpa using hsave.1, hsave.2⟩, ?_, hi⟩⟩
        rcases hp with hp | hp
        · show placed _ t.channel t.poller = _
          rw [hp, hlife.channel]
        · refine absurd ?_ hw
          rw [TcpConnection.chan, hp.1, hlife.channel]
          exact enableWrite_isWriting (s := s)
  · rw [if_neg hsave]
    refine ⟨⟨hlife.1, hlife.2, hlife.3, hlife.4, hlife.5, hlife.6, hlife.7⟩, hpend, ?_⟩
    rcases hout with ⟨hs, hf, hp, hc⟩ | ⟨r, hs, hc, hshort, hp⟩
    · exact Or.inl ⟨hs, hp, hc, hidx.ge⟩
    · have hno : ¬WriteResult.short buf.len r = true := fun hr => by
        obtain ⟨h1, h2⟩ := hshort.mp hr
        exact hsave ⟨by simp [h1], h2⟩
      refine Or.inr ⟨r, hs, hc, Or.inl ⟨by simpa using hno, ?_, hidx⟩⟩
      rcases hp with hp | hp
      · exact hp
      · exact absurd hp.2 hno

omit [DecidableEq κ] in
theorem Sound.congr (h : Sound s) (hp : s'.poller = s.poller) (hc : s'.channel = s.channel) :
    Sound s' := by
  have hchan : s'.chan = s.chan := by unfold TcpConnection.chan; rw [hp, hc]
  exact ⟨hp ▸ h.registered, by rw [hp, hc]; exact h.free, by rw [hchan]; exact h.nonEvent⟩

/-- Sending leaves the channel alone or makes it write. -/
theorem Sent.poller {buf : Payload} (hs : Sent buf s s') :
    s'.poller = s.poller ∨ s'.poller = (place (· ||| CWriteEvent) s).poller := by
  rcases hs.output with ⟨-, hp, -⟩ | ⟨r, -, -, ⟨-, hp, -⟩ | ⟨-, hp, -⟩⟩
  · exact Or.inl hp
  · exact Or.inl hp
  · exact Or.inr hp

theorem Sent.sound {buf : Payload} (hs : Sent buf s s') (h : Sound s) : Sound s' := by
  rcases hs.poller with hp | hp
  · exact h.congr hp hs.life.channel
  · exact (h.place _).congr hp hs.life.channel

/-- The connection after it has been closed, when its callbacks are called. -/
def closed (s : TcpConnection κ) : TcpConnection κ :=
  place (fun _ => CNoneEvent) (s.setState .CDisconnected)

theorem Sound.closed (h : Sound s) : Sound (closed s) := (h.setState _).place _

theorem closed_nonEvent : (closed s).chan.isNonEvent := by
  rw [closed, chan_place]; rfl

theorem onChannel_disableAll (h : Sound s) :
    (s.setState .CDisconnected).onChannel disableAll = .ok (closed s) :=
  onChannel_setEvents (h.setState _) _

theorem onConnection_closed : (closed s).onConnection = .ok (closed s) := if_neg nofun

theorem handleClose_eq (h : Sound s) : s.handleClose observer = (do
    assert .handleClose (s.state = .CConnected ∨ s.state = .CConnecting)
    (closed s).closeCB) := by
  unfold TcpConnection.handleClose
  rw [onChannel_disableAll h]
  simp only [ok_bind, observer, onConnection_closed]

theorem connectionDestroyed_eq (h : Sound s) : s.connectionDestroyed observer = (do
    let t ← (if s.state = .CConnected then closed s else s).onChannel remove
    pure { t with destroyed := true }) := by
  unfold TcpConnection.connectionDestroyed
  rw [onChannel_disableAll h]
  simp only [ok_bind, observer, onConnection_closed]
  split_ifs <;> rfl

/-- The end of a drain, as far as the life of the connection goes. -/
theorem sendCompleted_spec (h : Sound s) {E : Fault → Prop} :
    Ends E (fun t => SameLife s t ∧ t.poller = placed (· &&& CWriteEvent) s.channel s.poller ∧
      (t.pending = s.pending ∨ t.pending = s.pending ++ [.writeComplete])) s.sendCompleted := by
  unfold TcpConnection.sendCompleted
  rw [disableWrite, onChannel_setEvents h]
  dsimp only [ok_bind]
  split_ifs
  · exact ⟨⟨rfl, rfl, rfl, rfl, rfl, rfl, rfl⟩, rfl, Or.inr rfl⟩
  · exact ⟨⟨rfl, rfl, rfl, rfl, rfl, rfl, rfl⟩, rfl, Or.inr rfl⟩
  · exact ⟨⟨rfl, rfl, rfl, rfl, rfl, rfl, rfl⟩, rfl, Or.inl rfl⟩
  · exact ⟨⟨rfl, rfl, rfl, rfl, rfl, rfl, rfl⟩, rfl, Or.inl rfl⟩

end ReactorServer.Net.Dispatch
