import ReactorServer.Net.Output

/-!
# What is left of a connection

A connection whose peer is gone is to leave the server's map and the poller, and its descriptor is
to be closed.  `handleClose` leaves the descriptor to the destructor, and the destructor has nothing
but its assertion: no run closes it.  The rest depends on how the server learns that the peer is
gone: after `EPOLLHUP` map and poller are left, whereas a `read` that returns `0` has no effect at
all (`never_reclaimed`).
-/

namespace ReactorServer.Net.Reclaim

open ReactorServer.Cpp ReactorServer.Lib.Runs ReactorServer.Lib.Triples
open ReactorServer.Net.Poller ReactorServer.Net.Poller.EpollPoller ReactorServer.Net.Registration
open ReactorServer.Net.Connection ReactorServer.Net.Connection.TcpConnection
open ReactorServer.Net.Dispatch
open ReactorServer.Net.Output (Any lift_ends)

variable {κ : Type} {s t u : TcpConnection κ}

/-! ### The connection and its owners -/

/-- A connection with its descriptor. -/
structure Owned (κ : Type) extends Served κ where
  /-- a `read` has returned `0` -/
  eof : Bool
  /-- `EPOLLHUP` has been handled -/
  hup : Bool
  /-- `~TcpConnection` has run -/
  destructed : Bool
  /-- the descriptors that `::close` has been called for -/
  closed : List ℤ

/-- No `shared_ptr` to the connection is left: neither in the map nor in a functor, nor on the stack
of a handler. -/
def Unowned (d : Served κ) : Prop :=
  d.conn.mapped = false ∧ d.conn.removal = false ∧ .connectionDestroyed ∉ d.conn.pending ∧
    .writeComplete ∉ d.conn.pending ∧ d.todo = []

instance (d : Served κ) : Decidable (Unowned d) := inferInstanceAs (Decidable (_ ∧ _))

inductive Act
  | conn (a : Dispatch.Act)
  /-- the last owner is gone -/
  | destruct
  deriving DecidableEq

/-- A `read` of `handleRead` returns `0`. -/
def readsZero : List ReadResult → Bool
  | .bytes b :: rs => b = [] || readsZero rs
  | _ => false

variable [DecidableEq κ]

def enabled (d : Owned κ) : Act → Prop
  | .conn a => Dispatch.enabled d.toServed a ∧ d.destructed = false
  | .destruct => Unowned d.toServed ∧ d.destructed = false

instance (d : Owned κ) : ∀ a, Decidable (enabled d a)
  | .conn _ => inferInstanceAs (Decidable (_ ∧ _))
  | .destruct => inferInstanceAs (Decidable (_ ∧ _))

def step (d : Owned κ) : Act → Except Fault (Owned κ)
  | .conn a => do
    let e ← Dispatch.step d.toServed a
    let next := d.todo.head?
    match a with
    | .handle reads _ => pure { d with
        toServed := e
        -- `else if (byteRead == 0) return;`
        eof := d.eof || (next = some .read && readsZero reads)
        -- "we don't close fd, leave it to dtor"
        hup := d.hup || next = some .close }
    | _ => pure { d with toServed := e }
  -- `assert(state_ == CDisconnected)` and no more; the assertion holds (`unowned_disconnected`)
  | .destruct => .ok { d with destructed := true }

def reclaimMachine (κ : Type) [DecidableEq κ] : Machine (Owned κ) Act Fault where
  enabled := enabled
  step := step

instance (d : Owned κ) (a : Act) : Decidable ((reclaimMachine κ).enabled d a) :=
  inferInstanceAs (Decidable (enabled d a))

/-- A connection as `newConnection` makes it. -/
def accepted (p : EpollPoller κ) (c : κ) (w b : Bool) : Owned κ :=
  ⟨start p c w b, false, false, false, []⟩

/-- The poller's map has the channel. -/
def InPoller (s : TcpConnection κ) : Prop := s.poller.channels[s.chan.fd]? = some s.channel

/-- The server and the poller have forgotten the connection. -/
def Released (s : TcpConnection κ) : Prop := s.mapped = false ∧ ¬InPoller s

/-- They have not. -/
def Held (s : TcpConnection κ) : Prop := s.mapped = true ∧ InPoller s

/-- Nothing is left of the connection, and its descriptor has been closed once. -/
def Reclaimed (d : Owned κ) : Prop := Released d.conn ∧ d.closed.count d.conn.chan.fd = 1

/-- All handlers and functors have run, and so has the destructor where nobody owns the connection. -/
structure Settled (d : Owned κ) : Prop where
  todo : d.todo = []
  pending : d.conn.pending = []
  removal : d.conn.removal = false
  destructed : Unowned d.toServed → d.destructed = true

/-! ### Steps that do not close the connection -/

omit [DecidableEq κ] in
theorem inPoller_iff (h : Sound s) : InPoller s ↔ s.chan.status ≠ .CNew :=
  ⟨fun hm => (h.registered.owner _ _ hm).2, h.registered.mapped s.channel⟩

/-- What such a step leaves alone. -/
structure Goes (s t : TcpConnection κ) : Prop where
  sound : Sound t
  status : s.chan.status ≠ .CNew → t.chan.status ≠ .CNew
  connecting : t.state = .CConnecting ↔ s.state = .CConnecting
  disconnected : t.state = .CDisconnected ↔ s.state = .CDisconnected
  mapped : t.mapped = s.mapped
  removal : t.removal = s.removal
  destroyed : t.destroyed = s.destroyed
  pending : .connectionDestroyed ∈ t.pending ↔ .connectionDestroyed ∈ s.pending

omit [DecidableEq κ] in
theorem Goes.trans (h : Goes s t) (h' : Goes t u) : Goes s u where
  sound := h'.sound
  status := fun hs => h'.status (h.status hs)
  connecting := h'.connecting.trans h.connecting
  disconnected := h'.disconnected.trans h.disconnected
  mapped := h'.mapped.trans h.mapped
  removal := h'.removal.trans h.removal
  destroyed := h'.destroyed.trans h.destroyed
  pending := h'.pending.trans h.pending

omit [DecidableEq κ] in
/-- Only these fields matter. -/
theorem goes (h : Sound s) (hp : t.poller = s.poller) (hc : t.channel = s.channel)
    (hst : t.state = s.state) (hm : t.mapped = s.mapped) (hr : t.removal = s.removal)
    (hd : t.destroyed = s.destroyed)
    (hpend : .connectionDestroyed ∈ t.pending ↔ .connectionDestroyed ∈ s.pending) : Goes s t where
  sound := h.congr hp hc
  status := by
    unfold TcpConnection.chan
    rw [hp, hc]
    exact id
  connecting := by rw [hst]
  disconnected := by rw [hst]
  mapped := hm
  removal := hr
  destroyed := hd
  pending := hpend

omit [DecidableEq κ] in
theorem goes_self (h : Sound s) : Goes s s := goes h rfl rfl rfl rfl rfl rfl Iff.rfl

theorem goes_place (h : Sound s) (f : Mask → Mask) : Goes s (place f s) where
  sound := h.place f
  status := fun _ => place_status
  connecting := Iff.rfl
  disconnected := Iff.rfl
  mapped := rfl
  removal := rfl
  destroyed := rfl
  pending := Iff.rfl

omit [DecidableEq κ] in
theorem goes_queue (h : Sound s) {g : Functor} (hg : g ≠ .connectionDestroyed) :
    Goes s (s.queue g) := by
  refine goes h rfl rfl rfl rfl rfl rfl ?_
  unfold TcpConnection.queue
  rw [List.mem_append, List.mem_singleton]
  exact or_iff_left (Ne.symm hg)

theorem sendInLoop_goes (h : Sound s) (buf : Payload) : Ends Any (Goes s) (s.sendInLoop buf) := by
  refine (sendInLoop_spec h buf).mono (fun _ _ => trivial) fun t ht => ?_
  have hlife := ht.life
  have hpend : .connectionDestroyed ∈ t.pending ↔ .connectionDestroyed ∈ s.pending := by
    rcases ht.pending with hp | hp
    · rw [hp]
    · rw [hp, List.mem_append, List.mem_singleton]
      exact or_iff_left nofun
  rcases ht.poller with hp | hp
  · exact goes h hp hlife.channel hlife.state hlife.mapped hlife.removal hlife.destroyed hpend
  · exact (goes_place h (· ||| CWriteEvent)).trans (goes (h.place _) hp hlife.channel hlife.state
      hlife.mapped hlife.removal hlife.destroyed hpend)

theorem startReadInLoop_goes (h : Sound s) : Ends Any (Goes s) s.startReadInLoop := by
  unfold TcpConnection.startReadInLoop
  split_ifs
  · rw [enableRead, onChannel_setEvents h]
    exact (goes_place h _).trans (goes (h.place _) rfl rfl rfl rfl rfl rfl Iff.rfl)
  · exact goes_self h

theorem stopReadInLoop_goes (h : Sound s) : Ends Any (Goes s) s.stopReadInLoop := by
  unfold TcpConnection.stopReadInLoop
  split_ifs
  · rw [disableRead, onChannel_setEvents h]
    exact (goes_place h _).trans (goes (h.place _) rfl rfl rfl rfl rfl rfl Iff.rfl)
  · exact goes_self h

theorem invoke_goes (h : Sound s) {g : Functor} (hg : g ≠ .connectionDestroyed) :
    Ends Any (Goes s) (invoke observer g s) := by
  cases g with
  | sendInLoop buf => exact sendInLoop_goes h buf
  | shutdownInLoop => exact goes h rfl rfl rfl rfl rfl rfl Iff.rfl
  | startReadInLoop => exact startReadInLoop_goes h
  | stopReadInLoop => exact stopReadInLoop_goes h
  | writeComplete => exact goes_self h
  | connectionDestroyed => exact absurd rfl hg

theorem runInLoop_goes (h : Sound s) (inLoop : Bool) {g : Functor}
    (hg : g ≠ .connectionDestroyed) : Ends Any (Goes s) (s.runInLoop inLoop observer g) := by
  unfold TcpConnection.runInLoop
  split_ifs
  · exact invoke_goes h hg
  · exact goes_queue h hg

theorem call_goes (h : Sound s) (inLoop : Bool) (k : Call) :
    Ends Any (Goes s) (k.run inLoop observer s) := by
  cases k with
  | send buf =>
    have h1 : Goes s { s with passed := s.passed ++ [buf.bytes] } :=
      goes h rfl rfl rfl rfl rfl rfl Iff.rfl
    unfold Call.run TcpConnection.send
    dsimp only
    split_ifs
    · exact (runInLoop_goes (g := .sendInLoop buf) h1.sound inLoop nofun).imp fun t ht => h1.trans ht
    · exact h1
  | shutdown =>
    show Ends Any (Goes s) (s.shutdown inLoop observer)
    unfold TcpConnection.shutdown
    split_ifs with hst
    · have h1 : Goes s (s.setState .CDisconnecting) :=
        ⟨h.setState _, id, by simp [TcpConnection.setState, hst], by simp [TcpConnection.setState, hst],
          rfl, rfl, rfl, Iff.rfl⟩
      exact (runInLoop_goes (g := .shutdownInLoop) h1.sound inLoop nofun).imp fun t ht => h1.trans ht
    · exact goes_self h
  | startRead => exact runInLoop_goes h inLoop nofun
  | stopRead => exact runInLoop_goes h inLoop nofun

omit [DecidableEq κ] in
theorem readLoop_goes (reads : List ReadResult) : ∀ s : TcpConnection κ, Sound s →
    Ends Any (fun x => Goes s x.2) (s.readLoop reads) := by
  induction reads with
  | nil => exact fun _ _ => trivial
  | cons r rs ih =>
    intro s h
    cases r with
    | again =>
      unfold TcpConnection.readLoop
      split_ifs
      · exact goes_self h
      · trivial
    | error => exact goes_self h
    | bytes b =>
      unfold TcpConnection.readLoop
      split_ifs
      · exact goes_self h
      · have h1 : Goes s { s with readBuf := s.readBuf ++ b } :=
          goes h rfl rfl rfl rfl rfl rfl Iff.rfl
        exact (ih _ h1.sound).imp fun x hx => h1.trans hx
      · trivial

omit [DecidableEq κ] in
theorem handleRead_goes (h : Sound s) (reads : List ReadResult) :
    Ends Any (Goes s) (s.handleRead observer reads) := by
  refine (readLoop_goes reads s h).bind ?_
  rintro ⟨again, t⟩ ht
  dsimp only at ht ⊢
  split_ifs
  · cases t.context with
    | none => trivial
    | some c => exact ht.trans (goes ht.sound rfl rfl rfl rfl rfl rfl Iff.rfl)
  · exact ht

theorem sendCompleted_goes (h : Sound s) : Ends Any (Goes s) s.sendCompleted := by
  refine (sendCompleted_spec h).imp fun t ht => ?_
  obtain ⟨hlife, hp, hpend⟩ := ht
  refine (goes_place h (· &&& CWriteEvent)).trans (goes (h.place _) hp hlife.channel hlife.state
    hlife.mapped hlife.removal hlife.destroyed ?_)
  rcases hpend with hpend | hpend
  · rw [hpend]
    exact Iff.rfl
  · rw [hpend, List.mem_append, List.mem_singleton]
    exact or_iff_left nofun

/-! ### Closing and destroying -/

/-- **Where the connection is**: in the map until it has been closed and the base loop has heard of
it, and in the poller until it has been destroyed. -/
structure Tracked (s : TcpConnection κ) : Prop extends Sound s where
  mapped : s.mapped = true ↔ (s.state = .CDisconnected → s.removal = true)
  opened : s.state ≠ .CDisconnected →
    s.removal = false ∧ .connectionDestroyed ∉ s.pending ∧ s.destroyed = false
  leaving : s.state = .CDisconnected →
    s.removal = true ∨ .connectionDestroyed ∈ s.pending ∨ s.destroyed = true
  once : s.removal = true → .connectionDestroyed ∉ s.pending ∧ s.destroyed = false
  added : s.state ≠ .CConnecting → s.destroyed = false → s.chan.status ≠ .CNew
  removed : s.destroyed = true → s.chan.status = .CNew

omit [DecidableEq κ] in
theorem tracked_start {p : EpollPoller κ} {c : κ} (hp : Vacant p c) (w b : Bool) :
    Tracked (start p c w b).conn where
  toSound := sound_start hp w b
  mapped := iff_of_true rfl nofun
  opened := fun _ => ⟨rfl, List.not_mem_nil, rfl⟩
  leaving := nofun
  once := nofun
  added := fun h => absurd rfl h
  removed := nofun

omit [DecidableEq κ] in
theorem Tracked.goes (h : Tracked s) (hd : s.destroyed = false) (g : Goes s t) : Tracked t where
  toSound := g.sound
  mapped := by
    rw [g.mapped, g.disconnected, g.removal]
    exact h.mapped
  opened := by
    rw [Ne, g.disconnected, g.removal, g.pending, g.destroyed]
    exact h.opened
  leaving := by
    rw [g.disconnected, g.removal, g.pending, g.destroyed]
    exact h.leaving
  once := by
    rw [g.removal, g.pending, g.destroyed]
    exact h.once
  added := by
    intro h1 h2
    exact g.status (h.added (fun hst => h1 (g.connecting.mpr hst)) hd)
  removed := by
    rw [g.destroyed, hd]
    exact nofun

/-- The step keeps track of the connection, and neither reopens nor forgets it. -/
structure Stays (s t : TcpConnection κ) : Prop where
  tracked : Tracked t
  disconnected : s.state = .CDisconnected → t.state = .CDisconnected
  connecting : t.state = .CConnecting → s.state = .CConnecting

omit [DecidableEq κ] in
theorem Tracked.stays (h : Tracked s) (hd : s.destroyed = false) (g : Goes s t) : Stays s t :=
  ⟨h.goes hd g, g.disconnected.mpr, g.connecting.mp⟩

omit [DecidableEq κ] in
theorem Stays.after (h : Stays t u) (g : Goes s t) : Stays s u :=
  ⟨h.tracked, fun hst => h.disconnected (g.disconnected.mpr hst),
    fun hst => g.connecting.mp (h.connecting hst)⟩

omit [DecidableEq κ] in
theorem Tracked.stays_self (h : Tracked s) : Stays s s := ⟨h, id, id⟩

omit [DecidableEq κ] in
theorem Tracked.stays_closed (h : Tracked t) (hst : t.state = .CDisconnected) : Stays s t :=
  ⟨h, fun _ => hst, fun h' => by
    rw [hst] at h'
    cases h'⟩

omit [DecidableEq κ] in
/-- The base loop forgets the connection, and its destruction is queued. -/
theorem removeConnectionInLoop_tracked (h : Sound s) (hst : s.state = .CDisconnected)
    (hr : s.removal = false) (hd : s.destroyed = false) (ha : s.chan.status ≠ .CNew) :
    Ends Any (fun t => Tracked t ∧ t.state = .CDisconnected ∧ t.destroyed = false)
      s.removeConnectionInLoop := by
  refine (assert_spec fun _ => trivial).bind fun _ _ => ⟨?_, hst, hd⟩
  exact
    { toSound := h.congr rfl rfl
      mapped := iff_of_false nofun fun h' => Bool.false_ne_true (hr.symm.trans (h' hst))
      opened := fun hn => absurd hst hn
      leaving := fun _ => Or.inr (Or.inl (List.mem_append_right _ (List.mem_singleton.mpr rfl)))
      once := fun h' => absurd (hr.symm.trans h') Bool.false_ne_true
      added := fun _ _ => ha
      removed := fun h' => absurd (hd.symm.trans h') Bool.false_ne_true }

theorem handleClose_tracked (h : Tracked s) (hd : s.destroyed = false) :
    Ends Any (fun t => Tracked t ∧ t.state = .CDisconnected ∧ t.destroyed = false)
      (s.handleClose observer) := by
  rw [handleClose_eq h.toSound]
  refine (assert_spec fun _ => trivial).bind fun _ hst => ?_
  have hst' : s.state ≠ .CDisconnected := by
    rcases hst with hst | hst
    · rw [hst]
      nofun
    · rw [hst]
      nofun
  obtain ⟨hr, hp, -⟩ := h.opened hst'
  have hm : s.mapped = true := h.mapped.mpr fun h' => absurd h' hst'
  have hstatus : (closed s).chan.status ≠ .CNew := place_status (s := s.setState .CDisconnected)
  unfold TcpConnection.closeCB
  split_ifs
  · exact removeConnectionInLoop_tracked h.toSound.closed rfl hr hd hstatus
  · refine ⟨?_, rfl, hd⟩
    exact
      { toSound := h.toSound.closed.congr rfl rfl
        mapped := iff_of_true hm fun _ => rfl
        opened := fun hn => absurd rfl hn
        leaving := fun _ => Or.inl rfl
        once := fun _ => ⟨hp, hd⟩
        added := fun _ _ => hstatus
        removed := fun h' => absurd (hd.symm.trans h') Bool.false_ne_true }

omit [DecidableEq κ] in
theorem Tracked.disconnected (h : Tracked s)
    (hs : s.removal = true ∨ .connectionDestroyed ∈ s.pending ∨ s.destroyed = true) :
    s.state = .CDisconnected := by
  by_contra hst
  obtain ⟨h1, h2, h3⟩ := h.opened hst
  rcases hs with hs | hs | hs
  · exact Bool.false_ne_true (h1.symm.trans hs)
  · exact h2 hs
  · exact Bool.false_ne_true (h3.symm.trans hs)

omit [DecidableEq κ] in
theorem removed_tracked (h : Tracked s) (hr : s.removal = true) :
    Ends Any (Stays s) ({ s with removal := false }.removeConnectionInLoop) := by
  have hst := h.disconnected (Or.inl hr)
  have hd := (h.once hr).2
  have ha : s.chan.status ≠ .CNew := h.added (by rw [hst]; nofun) hd
  exact (removeConnectionInLoop_tracked (s := { s with removal := false })
    (h.toSound.congr rfl rfl) hst rfl hd ha).imp fun t ht => ht.1.stays_closed ht.2.1

/-- The destruction takes the channel out of the poller. -/
theorem connectionDestroyed_tracked {gs : List Functor} {ws : List WriteResult} (h : Tracked s)
    (hp : s.pending = .connectionDestroyed :: gs) :
    Ends Any (Stays s) ({ s with pending := gs, writes := ws }.connectionDestroyed observer) := by
  have hmem : .connectionDestroyed ∈ s.pending := hp ▸ List.mem_cons_self
  have hst := h.disconnected (Or.inr (Or.inl hmem))
  have hr : s.removal = false := by
    by_contra hr
    exact (h.once (Bool.eq_true_of_not_eq_false hr)).1 hmem
  let s' : TcpConnection κ := { s with pending := gs, writes := ws }
  have hs' : Sound s' := h.toSound.congr rfl rfl
  rw [connectionDestroyed_eq hs', if_neg (by rw [show s'.state = _ from hst]; nofun)]
  refine Ends.bind (onChannel_remove_spec hs' (fun _ => trivial) fun _ => trivial) ?_
  rintro t ⟨he, hnew, ht⟩
  show Stays s { t with destroyed := true }
  rw [ht]
  refine ⟨?_, id, id⟩
  have hm : s.mapped = true ↔ (s.state = .CDisconnected → s.removal = true) := h.mapped
  exact
    { toSound := hs'.unplace he hnew
      mapped := hm
      opened := fun hn => absurd hst hn
      leaving := fun _ => Or.inr (Or.inr rfl)
      once := fun h' => absurd (hr.symm.trans h') Bool.false_ne_true
      added := nofun
      removed := fun _ => by simp [unplace, dropped, TcpConnection.chan] }

theorem connectionEstablished_tracked (h : Tracked s) (hst : s.state = .CConnecting) :
    Ends Any (Stays s) (s.connectionEstablished observer) := by
  have hst' : s.state ≠ .CDisconnected := by
    rw [hst]
    decide
  have hconnected : State.CConnected ≠ .CDisconnected := by decide
  obtain ⟨hr, hp, hd⟩ := h.opened hst'
  have hm : s.mapped = true := h.mapped.mpr fun h' => absurd h' hst'
  refine (assert_spec fun hn => absurd hst hn).bind fun _ _ => ?_
  rw [enableRead, onChannel_setEvents (h.toSound.setState _)]
  show Stays s ((place (· ||| CReadEvent) (s.setState .CConnected)).setContext .new)
  refine ⟨?_, fun h' => absurd h' hst', fun _ => hst⟩
  exact
    { toSound := ((h.toSound.setState _).place _).congr rfl rfl
      mapped := iff_of_true hm fun h' => absurd h' hconnected
      opened := fun _ => ⟨hr, hp, hd⟩
      leaving := fun h' => absurd h' hconnected
      once := fun _ => ⟨hp, hd⟩
      added := fun _ _ => place_status (s := s.setState .CConnected)
      removed := fun h' => absurd (hd.symm.trans h') Bool.false_ne_true }

/-- The loop of `handleWrite` closes the connection where a `write` returns `0`, and goes on. -/
theorem writeLoop_tracked (drains : List WriteResult) : ∀ (toSend haveSent : ℤ)
    (s : TcpConnection κ), Tracked s → s.destroyed = false →
    Ends Any (Stays s) (s.writeLoop observer drains toSend haveSent) := by
  induction drains with
  | nil => exact fun _ _ _ _ _ => trivial
  | cons r rs ih =>
    intro toSend haveSent s h hd
    cases r with
    | again =>
      unfold TcpConnection.writeLoop
      split_ifs
      · exact ih _ _ s h hd
      · rw [enableWrite, onChannel_setEvents h.toSound]
        have hplace := goes_place h.toSound (· ||| CWriteEvent)
        exact (ih _ _ _ (h.goes hd hplace) hd).imp fun u hu => hu.after hplace
    | reset => exact h.stays_self
    | error => exact h.stays_self
    | count n =>
      have h1 : Goes s { s with accepted := s.accepted ++ s.backlog n } :=
        goes h.toSound rfl rfl rfl rfl rfl rfl Iff.rfl
      unfold TcpConnection.writeLoop
      split_ifs
      · trivial
      · exact (sendCompleted_goes h1.sound).imp fun t ht => h.stays hd (h1.trans ht)
      · exact (ih _ _ _ (h.goes hd h1) hd).imp fun u hu => hu.after h1
      · refine (handleClose_tracked h hd).bind ?_
        rintro t ⟨ht, hst, hd'⟩
        exact (ih _ _ t ht hd').imp fun u hu => hu.tracked.stays_closed (hu.disconnected hst)

theorem handler_tracked (h : Tracked s) (hd : s.destroyed = false) (reads : List ReadResult)
    (drains : List WriteResult) (g : Handler) :
    Ends Any (fun t => Stays s t ∧ (g = .close → t.state = .CDisconnected))
      (g.run observer reads drains s) := by
  cases g with
  | close =>
    exact (handleClose_tracked h hd).imp fun t ht => ⟨ht.1.stays_closed ht.2.1, fun _ => ht.2.1⟩
  | error => exact ⟨h.stays_self, nofun⟩
  | read => exact (handleRead_goes h.toSound reads).imp fun t ht => ⟨h.stays hd ht, nofun⟩
  | write =>
    show Ends Any _ (s.handleWrite observer drains)
    unfold TcpConnection.handleWrite
    split_ifs
    · exact (writeLoop_tracked drains _ _ s h hd).imp fun t ht => ⟨ht, nofun⟩
    · exact ⟨h.stays_self, nofun⟩

/-- The next functor is called. -/
theorem exec_tracked {g : Functor} {gs : List Functor} (h : Tracked s) (hd : s.destroyed = false)
    (hp : s.pending = g :: gs) (ws : List WriteResult) :
    Ends Any (Stays s) (invoke observer g { s with pending := gs, writes := ws }) := by
  by_cases hg : g = .connectionDestroyed
  · rw [hg] at hp ⊢
    exact connectionDestroyed_tracked h hp
  · have h1 : Goes s { s with pending := gs, writes := ws } := by
      refine goes h.toSound rfl rfl rfl rfl rfl rfl ?_
      rw [hp, List.mem_cons]
      exact (or_iff_right (Ne.symm hg)).symm
    exact (invoke_goes h1.sound hg).imp fun t ht => h.stays hd (h1.trans ht)

/-- The handler that a step calls, if it calls one. -/
def called (d : Served κ) : Dispatch.Act → Option Handler
  | .handle _ _ => d.todo.head?
  | _ => none

/-- **One step** of the loops and of the threads. -/
theorem conn_tracked {d : Served κ} {a : Dispatch.Act} (h : Tracked d.conn)
    (he : Dispatch.enabled d a) :
    Ends Any (fun e => Stays d.conn e.conn ∧
      (called d a = some .close → e.conn.state = .CDisconnected)) (Dispatch.step d a) := by
  have hlift : ∀ {e : Served κ} {x : Except Fault (TcpConnection κ)}, called d a = none →
      Ends Any (Stays d.conn) x → Ends Any (fun e => Stays d.conn e.conn ∧
        (called d a = some .close → e.conn.state = .CDisconnected)) (lift e x) := fun hc hx =>
    hx.bind fun _ ht => ⟨ht, fun h' => by
      rw [hc] at h'
      cases h'⟩
  cases a with
  | established => exact hlift rfl (connectionEstablished_tracked h he)
  | call k ws =>
    have h1 : Goes d.conn { d.conn with writes := ws } :=
      goes h.toSound rfl rfl rfl rfl rfl rfl Iff.rfl
    exact hlift rfl ((call_goes h1.sound true k).imp fun t ht => h.stays he.2 (h1.trans ht))
  | post k => exact hlift rfl ((call_goes h.toSound false k).imp fun t ht => h.stays he.2 ht)
  | exec ws =>
    obtain ⟨g, gs, hg⟩ := List.exists_cons_of_ne_nil he.2.2
    unfold Dispatch.step
    rw [hg]
    exact hlift rfl (exec_tracked h he.1.2 hg ws)
  | event rev => exact ⟨h.stays_self, nofun⟩
  | handle reads drains =>
    obtain ⟨g, gs, hg⟩ := List.exists_cons_of_ne_nil he.2
    have hcalled : called d (.handle reads drains) = some g := by
      rw [called, hg]
      rfl
    rw [hcalled]
    unfold Dispatch.step
    rw [hg]
    exact (handler_tracked h he.1.2 reads drains g).bind fun t ht =>
      ⟨ht.1, fun hc => ht.2 (Option.some.inj hc)⟩
  | removed => exact hlift rfl (removed_tracked h he)

/-! ### Runs -/

/-- **What holds in every run**: the connection is tracked, it has been established before anything
is read, it is closed once `EPOLLHUP` has been handled, and its descriptor is open. -/
structure Traced (d : Owned κ) : Prop where
  tracked : Tracked d.conn
  eof : d.eof = true → d.conn.state ≠ .CConnecting
  hup : d.hup = true → d.conn.state = .CDisconnected
  closed : d.closed = []

theorem step_traced {d e : Owned κ} {a : Act} (h : Traced d) (he : enabled d a)
    (hstep : step d a = .ok e) : Traced e := by
  cases a with
  | destruct =>
    cases hstep
    exact ⟨h.tracked, h.eof, h.hup, h.closed⟩
  | conn a =>
    obtain ⟨f, hf, hstep⟩ := bind_eq_ok.mp hstep
    obtain ⟨hstays, hclose⟩ := (conn_tracked h.tracked he.1).of_ok hf
    have heof : d.eof = true → f.conn.state ≠ .CConnecting := fun h1 h2 =>
      h.eof h1 (hstays.connecting h2)
    dsimp only at hstep
    split at hstep
    · cases hstep
      refine ⟨hstays.tracked, fun _ h2 => he.1.1.1 (hstays.connecting h2), fun hh => ?_, h.closed⟩
      rcases Bool.or_eq_true_iff.mp hh with hh | hh
      · exact hstays.disconnected (h.hup hh)
      · exact hclose (of_decide_eq_true hh)
    · cases hstep
      exact ⟨hstays.tracked, heof, fun hh => hstays.disconnected (h.hup hh), h.closed⟩

omit [DecidableEq κ] in
/-- The assertion of the destructor holds. -/
theorem unowned_disconnected {d : Served κ} (h : Tracked d.conn) (hd : Unowned d) :
    d.conn.state = .CDisconnected := by
  by_contra hst
  have hm := h.mapped.mpr fun h' => absurd h' hst
  exact Bool.false_ne_true (hd.1.symm.trans hm)

variable {p : EpollPoller κ} {c : κ} {w b : Bool} {as : List Act} {d : Owned κ}

omit [DecidableEq κ] in
theorem released_of_closed (h : Tracked d.conn) (hdone : Settled d)
    (hst : d.conn.state = .CDisconnected) : Released d.conn := by
  refine ⟨?_, fun hin => ?_⟩
  · by_contra hm
    have := h.mapped.mp (Bool.eq_true_of_not_eq_false hm) hst
    exact Bool.false_ne_true (hdone.removal.symm.trans this)
  · rw [inPoller_iff h.toSound] at hin
    rcases h.leaving hst with hr | hp | hd
    · exact Bool.false_ne_true (hdone.removal.symm.trans hr)
    · rw [hdone.pending] at hp
      exact List.not_mem_nil hp
    · exact hin (h.removed hd)

omit [DecidableEq κ] in
theorem held_of_open (h : Tracked d.conn) (hst : d.conn.state ≠ .CDisconnected)
    (hst' : d.conn.state ≠ .CConnecting) : Held d.conn :=
  ⟨h.mapped.mpr fun h' => absurd h' hst,
    (inPoller_iff h.toSound).mpr (h.added hst' (h.opened hst).2.2)⟩

theorem traced_run (hp : Vacant p c) (h : Run (reclaimMachine κ) (accepted p c w b) as d) :
    Traced d :=
  h.invariant (fun _ _ _ hd he hstep => step_traced hd he hstep)
    ⟨tracked_start hp w b, nofun, nofun, rfl⟩

/-- **No connection is reclaimed.**  In every run, when the peer is gone and all handlers and
functors have run, the descriptor is still open.  If `EPOLLHUP` has been handled, server and poller
have forgotten the connection; if only a `read` has returned `0`, they have not, unless a `write` has
closed the connection. -/
theorem never_reclaimed (hp : Vacant p c) (h : Run (reclaimMachine κ) (accepted p c w b) as d)
    (hgone : d.eof = true ∨ d.hup = true) (hdone : Settled d) :
    ¬Reclaimed d ∧ d.closed = [] ∧
    ((d.hup = true ∧ Released d.conn) ∨
      (d.eof = true ∧ (d.conn.state ≠ .CDisconnected → Held d.conn))) := by
  have hd := traced_run hp h
  refine ⟨fun hr => ?_, hd.closed, ?_⟩
  · have hcount := hr.2
    rw [hd.closed, List.count_nil] at hcount
    omega
  · rcases hgone with he | hh
    · exact Or.inr ⟨he, fun hst => held_of_open hd.tracked hst (hd.eof he)⟩
    · exact Or.inl ⟨hh, released_of_closed hd.tracked hdone (hd.hup hh)⟩

/-- The peer hangs up, the connection is destroyed, and its destructor runs. -/
theorem never_reclaimed_hangup : ∃ d : Owned Unit,
    Run (reclaimMachine Unit) (accepted (.new fun _ => 5) () false true)
      [.conn .established, .conn (.event EPOLLHUP), .conn (.handle [] []), .conn (.exec []),
        .destruct] d ∧
    d.hup = true ∧ ¬Reclaimed d ∧ d.closed = [] := by
  have hrun : ∃ d : Owned Unit,
      Run (reclaimMachine Unit) (accepted (.new fun _ => 5) () false true)
        [.conn .established, .conn (.event EPOLLHUP), .conn (.handle [] []), .conn (.exec []),
          .destruct] d ∧ d.hup = true ∧ Settled d :=
    ⟨_, run_iff_exec.mpr rfl, rfl, rfl, rfl, rfl, fun _ => rfl⟩
  obtain ⟨d, h, hhup, hdone⟩ := hrun
  obtain ⟨h1, h2, -⟩ := never_reclaimed (vacant_new _ _) h (Or.inr hhup) hdone
  exact ⟨d, h, hhup, h1, h2⟩

/-- **A peer that closes its side**: the `read` returns `0`, and nothing happens. -/
theorem held_after_eof : ∃ d : Owned Unit,
    Run (reclaimMachine Unit) (accepted (.new fun _ => 5) () false true)
      [.conn .established, .conn (.event EPOLLIN), .conn (.handle [.bytes []] [])] d ∧
    d.eof = true ∧ Settled d ∧ Held d.conn ∧ d.closed = [] ∧ ¬Reclaimed d := by
  have hrun : ∃ d : Owned Unit,
      Run (reclaimMachine Unit) (accepted (.new fun _ => 5) () false true)
        [.conn .established, .conn (.event EPOLLIN), .conn (.handle [.bytes []] [])] d ∧
      d.eof = true ∧ Settled d ∧ d.conn.mapped = true ∧ d.closed = [] ∧
      d.conn.state = .CConnected :=
    ⟨_, run_iff_exec.mpr rfl, rfl, ⟨rfl, rfl, rfl, fun h => nomatch h.1⟩, rfl, rfl, rfl⟩
  obtain ⟨d, h, heof, hdone, hm, hclosed, hst⟩ := hrun
  have hheld : Held d.conn :=
    held_of_open (traced_run (vacant_new _ _) h).tracked (by rw [hst]; nofun) (by rw [hst]; nofun)
  exact ⟨d, h, heof, hdone, hheld, hclosed, fun hr => hr.1.2 hheld.2⟩

end ReactorServer.Net.Reclaim
