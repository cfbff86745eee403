import ReactorServer.Net.Dispatch
import Mathlib.Data.List.TakeWhile

/-!
# The backlog

What `sendInLoop` cannot write at once is kept in `writeBuf_` and sent by `handleWrite`.  Three
things must stay in step for it to be sent at all, and in order: the counter `writeIdx_`, the event
mask of the channel and the poller.  `Buffered` is the invariant that keeps them so, up to the
moment the connection is closed; it also knows what that depends on, since no operation takes
`EPOLLOUT` out of the mask again: the channel is writing from the first short write on.
-/

namespace ReactorServer.Net.Output

open ReactorServer.Cpp ReactorServer.Lib.Runs ReactorServer.Lib.Triples
open ReactorServer.Net.Poller ReactorServer.Net.Poller.EpollPoller ReactorServer.Net.Registration
open ReactorServer.Net.Connection ReactorServer.Net.Connection.TcpConnection
open ReactorServer.Net.Dispatch

variable {κ : Type} {s t : TcpConnection κ} {d : Served κ} {f : Mask → Mask}

/-! ### The calls of the loop -/

/-- A `write` that leaves something to be sent later. -/
def isShort : Syscall → Bool
  | .direct _ _ len r => WriteResult.short len r
  | .shutdown .. => false

/-- The place of `shutdownInLoop`. -/
def isShutdown : Syscall → Bool
  | .direct .. => false
  | .shutdown .. => true

/-- `::shutdown(fd, SHUT_WR)` is called. -/
def isIssued : Syscall → Bool
  | .direct .. => false
  | .shutdown _ _ issued => issued

/-- The call is made on the socket, with that state and that backlog. -/
def Made (e : Syscall) (st : State) (backlog : ℤ) : Prop :=
  (∃ len r, e = .direct st backlog len r) ∨ e = .shutdown st backlog true

/-! ### The invariant -/

/-- **The invariant of the backlog.** -/
structure Buffered (s : TcpConnection κ) : Prop extends Sound s where
  idx : 0 ≤ s.writeIdx
  writing : s.state ≠ .CDisconnected → 0 < s.writeIdx → s.chan.isWriting
  short : s.state ≠ .CDisconnected → (s.chan.isWriting ↔ ∃ e ∈ s.calls, isShort e = true)
  made : ∀ e ∈ s.calls, ∀ st backlog, Made e st backlog → st ≠ .CDisconnected → backlog = 0
  issued : s.state ≠ .CDisconnected → ∀ pre st backlog i post,
    s.calls = pre ++ .shutdown st backlog i :: post → (i = true ↔ ∀ e ∈ pre, isShort e = false)

theorem buffered_start {p : EpollPoller κ} {c : κ} (hp : Vacant p c) (w b : Bool) :
    Buffered (start p c w b).conn where
  toSound := sound_start hp w b
  idx := le_refl 0
  writing := fun _ h => absurd h (lt_irrefl 0)
  short := by
    intro _
    constructor
    · intro h
      refine absurd ?_ h
      show (p.chan c).events &&& CWriteEvent = 0
      rw [hp.new]
      simp [Channel.new, CNoneEvent]
    · rintro ⟨e, he, -⟩
      exact absurd he List.not_mem_nil
  made := fun e he => absurd he List.not_mem_nil
  issued := by
    intro _ pre st backlog i post h
    exact absurd h.symm (by simp [start, TcpConnection.new])

theorem Buffered.congr (h : Buffered s) (hp : t.poller = s.poller) (hc : t.channel = s.channel)
    (hst : t.state = s.state) (hi : t.writeIdx = s.writeIdx) (hcalls : t.calls = s.calls) :
    Buffered t := by
  have hchan : t.chan = s.chan := by unfold TcpConnection.chan; rw [hp, hc]
  exact
    { toSound := h.toSound.congr hp hc
      idx := by rw [hi]; exact h.idx
      writing := by rw [hst, hi, hchan]; exact h.writing
      short := by rw [hst, hchan, hcalls]; exact h.short
      made := by rw [hcalls]; exact h.made
      issued := by rw [hst, hcalls]; exact h.issued }

theorem Buffered.close (h : Buffered s) {t : TcpConnection κ} (ht : Sound t)
    (hst : t.state = .CDisconnected) (hi : t.writeIdx = s.writeIdx) (hcalls : t.calls = s.calls) :
    Buffered t where
  toSound := ht
  idx := hi ▸ h.idx
  writing := fun h' => absurd hst h'
  short := fun h' => absurd hst h'
  made := hcalls ▸ h.made
  issued := fun h' => absurd hst h'

/-- What has been issued stays as it was when another call is recorded. -/
theorem issued_snoc {calls : List Syscall} {e : Syscall}
    (h : ∀ pre st backlog i post, calls = pre ++ .shutdown st backlog i :: post →
      (i = true ↔ ∀ e ∈ pre, isShort e = false))
    (he : ∀ st backlog i, e = .shutdown st backlog i →
      (i = true ↔ ∀ e ∈ calls, isShort e = false)) :
    ∀ pre st backlog i post, calls ++ [e] = pre ++ .shutdown st backlog i :: post →
      (i = true ↔ ∀ e ∈ pre, isShort e = false) := by
  intro pre st backlog i post hsplit
  rcases List.eq_nil_or_concat post with rfl | ⟨post', e', rfl⟩
  · obtain ⟨rfl, h1⟩ := List.append_inj' hsplit rfl
    exact he st backlog i (List.singleton_inj.mp h1)
  · rw [List.concat_eq_append, ← List.cons_append, ← List.append_assoc] at hsplit
    obtain ⟨h1, -⟩ := List.append_inj' hsplit rfl
    exact h pre st backlog i post' h1

theorem Buffered.noBacklog (h : Buffered s) (hw : ¬s.chan.isWriting)
    (hst : s.state ≠ .CDisconnected) : s.writeIdx = 0 := by
  have := h.idx
  by_contra hne
  exact hw (h.writing hst (by omega))

theorem Buffered.made_direct (h : Buffered s) (hw : ¬s.chan.isWriting) (len : ℤ)
    (r : WriteResult) :
    ∀ e ∈ s.calls ++ [.direct s.state s.writeIdx len r], ∀ st backlog, Made e st backlog →
      st ≠ .CDisconnected → backlog = 0 := by
  intro e he st backlog hm hst
  rcases List.mem_append.mp he with he | he
  · exact h.made e he st backlog hm hst
  · obtain rfl := List.mem_singleton.mp he
    rcases hm with ⟨_, _, hm⟩ | hm
    · injection hm with h1 h2
      rw [← h2]
      exact h.noBacklog hw (h1 ▸ hst)
    · cases hm

theorem Buffered.shutdownInLoop (h : Buffered s) : Buffered s.shutdownInLoop where
  toSound := ⟨h.registered, h.free, h.nonEvent⟩
  idx := h.idx
  writing := h.writing
  short := by
    intro hst
    show s.chan.isWriting ↔ _
    rw [h.short hst]
    simp [TcpConnection.shutdownInLoop, isShort]
  made := by
    intro e he st backlog hm hst
    rcases List.mem_append.mp he with he | he
    · exact h.made e he st backlog hm hst
    · obtain rfl := List.mem_singleton.mp he
      rcases hm with ⟨_, _, hm⟩ | hm
      · cases hm
      · injection hm with h1 h2 h3
        have hw : ¬s.chan.isWriting := of_decide_eq_true h3
        rw [← h2]
        exact h.noBacklog hw (h1 ▸ hst)
  issued := by
    intro hst
    refine issued_snoc (h.issued hst) ?_
    intro st backlog i he
    injection he with h1 h2 h3
    rw [← h3, decide_eq_true_iff, h.short hst]
    simp

variable [DecidableEq κ]

theorem Buffered.place (h : Buffered s) (hf : KeepsWrite f) : Buffered (place f s) where
  toSound := h.toSound.place f
  idx := h.idx
  writing := fun hst hi => (place_isWriting hf).mpr (h.writing hst hi)
  short := fun hst => (place_isWriting hf).trans (h.short hst)
  made := h.made
  issued := h.issued

/-- The payload that is sent joins the backlog, or there is none. -/
theorem Buffered.sent {buf : Payload} (h : Buffered s) (hs : Sent buf s t) : Buffered t := by
  have hsound : Sound t := hs.sound h.toSound
  obtain ⟨hlife, -, hout⟩ := hs
  have hidx := h.idx
  rcases hout with ⟨hw, hp, hc, hi⟩ | ⟨r, hw, hc, hout⟩
  · have hchan : t.chan = s.chan := by unfold TcpConnection.chan; rw [hp, hlife.channel]
    exact
      { toSound := hsound
        idx := by omega
        writing := fun _ _ => by rw [hchan]; exact hw
        short := by rw [hlife.state, hchan, hc]; exact h.short
        made := by rw [hc]; exact h.made
        issued := by rw [hlife.state, hc]; exact h.issued }
  · have hissued : t.state ≠ .CDisconnected → ∀ pre st backlog i post,
        t.calls = pre ++ .shutdown st backlog i :: post →
        (i = true ↔ ∀ e ∈ pre, isShort e = false) := by
      rw [hlife.state, hc]
      intro hst
      refine issued_snoc (h.issued hst) ?_
      intro st backlog i he
      cases he
    have hcalls : (∃ e ∈ t.calls, isShort e = true) ↔
        (∃ e ∈ s.calls, isShort e = true) ∨ WriteResult.short buf.len r = true := by
      rw [hc]
      simp [isShort, or_and_right, exists_or]
    have hmade := hc ▸ h.made_direct hw buf.len r
    rcases hout with ⟨hr, hp, hi⟩ | ⟨hr, hp, hi⟩
    · have hchan : t.chan = s.chan := by unfold TcpConnection.chan; rw [hp, hlife.channel]
      exact
        { toSound := hsound
          idx := by omega
          writing := by rw [hlife.state, hi, hchan]; exact h.writing
          short := by
            rw [hlife.state, hchan, hcalls, hr]
            intro hst
            rw [h.short hst]; simp
          made := hmade
          issued := hissued }
    · have hchan : t.chan = (Dispatch.place (· ||| CWriteEvent) s).chan := by
        unfold TcpConnection.chan; rw [hp, hlife.channel]; rfl
      have hwt : t.chan.isWriting := by rw [hchan]; exact enableWrite_isWriting
      exact
        { toSound := hsound
          idx := by omega
          writing := fun _ _ => hwt
          short := fun _ => by rw [hcalls, hr]; simp [hwt]
          made := hmade
          issued := hissued }

/-! ### Every operation keeps it -/

/-- Any failure. -/
def Any (_ : Fault) : Prop := True

theorem sendInLoop_buffered (h : Buffered s) (buf : Payload) :
    Ends Any Buffered (s.sendInLoop buf) :=
  (sendInLoop_spec h.toSound buf).mono (fun _ _ => trivial) fun _ => h.sent

theorem startReadInLoop_buffered (h : Buffered s) : Ends Any Buffered s.startReadInLoop := by
  unfold TcpConnection.startReadInLoop
  split_ifs
  · rw [enableRead, onChannel_setEvents h.toSound]
    exact (h.place keepsWrite_enableRead).congr rfl rfl rfl rfl rfl
  · exact h

theorem stopReadInLoop_buffered (h : Buffered s) : Ends Any Buffered s.stopReadInLoop := by
  unfold TcpConnection.stopReadInLoop
  split_ifs
  · rw [disableRead, onChannel_setEvents h.toSound]
    exact (h.place keepsWrite_disableRead).congr rfl rfl rfl rfl rfl
  · exact h

omit [DecidableEq κ] in
theorem onConnection_buffered (h : Buffered s) : Ends Any Buffered s.onConnection := by
  unfold TcpConnection.onConnection
  split_ifs
  · exact h.congr rfl rfl rfl rfl rfl
  · exact h

theorem Buffered.closed (h : Buffered s) : Buffered (closed s) :=
  h.close h.toSound.closed rfl rfl rfl

omit [DecidableEq κ] in
/-- What is done to the connection in the server's map does not matter here, nor to the state. -/
theorem removeConnectionInLoop_buffered (h : Buffered s) :
    Ends Any (fun t => Buffered t ∧ t.state = s.state) s.removeConnectionInLoop :=
  (assert_spec fun _ => trivial).bind fun _ _ => ⟨h.congr rfl rfl rfl rfl rfl, rfl⟩

theorem handleClose_buffered (h : Buffered s) :
    Ends Any (fun t => Buffered t ∧ t.state = .CDisconnected) (s.handleClose observer) := by
  rw [handleClose_eq h.toSound]
  refine (assert_spec fun _ => trivial).bind fun _ _ => ?_
  unfold TcpConnection.closeCB
  split_ifs
  · exact removeConnectionInLoop_buffered h.closed
  · exact ⟨h.closed.congr rfl rfl rfl rfl rfl, rfl⟩

theorem connectionEstablished_buffered (h : Buffered s) :
    Ends Any Buffered (s.connectionEstablished observer) := by
  refine (assert_spec fun _ => trivial).bind fun _ hst => ?_
  have hst' : s.state ≠ .CDisconnected := by rw [hst]; nofun
  have h1 : Buffered (s.setState .CConnected) :=
    { toSound := h.toSound.setState _, idx := h.idx
      writing := fun _ => h.writing hst'
      short := fun _ => h.short hst'
      made := h.made
      issued := fun _ => h.issued hst' }
  rw [enableRead, onChannel_setEvents h1.toSound]
  exact onConnection_buffered (h1.place keepsWrite_enableRead)

theorem Buffered.unplace (h : Buffered s) (he : s.chan.isNonEvent) (hst : s.chan.status ≠ .CNew) :
    Buffered (unplace s) := by
  have hw : (Dispatch.unplace s).chan.isWriting ↔ s.chan.isWriting :=
    isWriting_of_same rfl rfl unplace_events
  exact
    { toSound := h.toSound.unplace he hst, idx := h.idx
      writing := fun h1 h2 => hw.mpr (h.writing h1 h2)
      short := fun h1 => hw.trans (h.short h1)
      made := h.made
      issued := h.issued }

theorem remove_buffered (h : Buffered s) :
    Ends Any (fun t => Buffered { t with destroyed := true }) (s.onChannel remove) :=
  (onChannel_remove_spec h.toSound (fun _ => trivial) fun _ => trivial).imp fun t ht => by
    obtain ⟨he, hst, ht⟩ := ht
    rw [ht]
    exact h.unplace he hst

theorem connectionDestroyed_buffered (h : Buffered s) :
    Ends Any Buffered (s.connectionDestroyed observer) := by
  rw [connectionDestroyed_eq h.toSound]
  split_ifs
  · exact (remove_buffered h.closed).bind fun v hv => hv
  · exact (remove_buffered h).bind fun v hv => hv

theorem invoke_buffered (h : Buffered s) (g : Functor) : Ends Any Buffered (invoke observer g s) := by
  cases g with
  | sendInLoop buf => exact sendInLoop_buffered h buf
  | shutdownInLoop => exact h.shutdownInLoop
  | startReadInLoop => exact startReadInLoop_buffered h
  | stopReadInLoop => exact stopReadInLoop_buffered h
  | writeComplete => exact h
  | connectionDestroyed => exact connectionDestroyed_buffered h

theorem runInLoop_buffered (h : Buffered s) (inLoop : Bool) (g : Functor) :
    Ends Any Buffered (s.runInLoop inLoop observer g) := by
  unfold TcpConnection.runInLoop
  split_ifs
  · exact invoke_buffered h g
  · exact h.congr rfl rfl rfl rfl rfl

theorem call_buffered (h : Buffered s) (inLoop : Bool) (k : Call) :
    Ends Any Buffered (k.run inLoop observer s) := by
  cases k with
  | send buf =>
    have h1 : Buffered { s with passed := s.passed ++ [buf.bytes] } := h.congr rfl rfl rfl rfl rfl
    unfold Call.run TcpConnection.send
    dsimp only
    split_ifs
    · exact runInLoop_buffered h1 inLoop _
    · exact h1
  | shutdown =>
    show Ends Any Buffered (s.shutdown inLoop observer)
    unfold TcpConnection.shutdown
    split_ifs with hst
    · have hst' : s.state ≠ .CDisconnected := by rw [hst]; nofun
      refine runInLoop_buffered ?_ inLoop _
      exact
        { toSound := h.toSound.setState _, idx := h.idx
          writing := fun _ => h.writing hst'
          short := fun _ => h.short hst'
          made := h.made
          issued := fun _ => h.issued hst' }
    · exact h
  | startRead => exact runInLoop_buffered h inLoop _
  | stopRead => exact runInLoop_buffered h inLoop _

omit [DecidableEq κ] in
/-- The loop of `handleRead` fills the buffer and touches nothing else. -/
theorem readLoop_buffered (reads : List ReadResult) : ∀ s : TcpConnection κ, Buffered s →
    Ends Any (fun x => Buffered x.2) (s.readLoop reads) := by
  induction reads with
  | nil => intro s _; trivial
  | cons r rs ih =>
    intro s h
    cases r with
    | again =>
      unfold TcpConnection.readLoop
      split_ifs
      · exact h
      · trivial
    | error => exact h
    | bytes b =>
      unfold TcpConnection.readLoop
      split_ifs
      · exact h
      · exact ih _ (h.congr rfl rfl rfl rfl rfl)
      · trivial

omit [DecidableEq κ] in
theorem handleRead_buffered (h : Buffered s) (reads : List ReadResult) :
    Ends Any Buffered (s.handleRead observer reads) := by
  refine (readLoop_buffered reads s h).bind ?_
  rintro ⟨again, t⟩ ht
  dsimp only at ht ⊢
  split_ifs
  · cases t.context with
    | none => trivial
    | some c => exact ht.congr rfl rfl rfl rfl rfl
  · exact ht

/-- The end of a drain: the counter is reset, and the channel goes on writing. -/
theorem sendCompleted_buffered (h : Buffered s) : Ends Any Buffered s.sendCompleted := by
  unfold TcpConnection.sendCompleted
  rw [disableWrite, onChannel_setEvents h.toSound]
  have h1 : Buffered (if (place (· &&& CWriteEvent) s).writeCompleteCB then
      (place (· &&& CWriteEvent) s).queue .writeComplete else place (· &&& CWriteEvent) s) := by
    split_ifs
    · exact (h.place keepsWrite_disableWrite).congr rfl rfl rfl rfl rfl
    · exact h.place keepsWrite_disableWrite
  have h2 : ∀ t : TcpConnection κ, Buffered t →
      Buffered (if t.state = .CDisconnecting then t.shutdownInLoop else t) := by
    intro t ht
    split_ifs
    · exact ht.shutdownInLoop
    · exact ht
  have h3 := h2 _ h1
  exact
    { toSound := ⟨h3.registered, h3.free, h3.nonEvent⟩, idx := le_refl 0
      writing := fun _ h0 => absurd h0 (lt_irrefl 0)
      short := h3.short
      made := h3.made
      issued := h3.issued }

/-- While the loop of `handleWrite` goes on the channel is writing, or the connection is closed. -/
theorem writeLoop_buffered (drains : List WriteResult) : ∀ (toSend haveSent : ℤ)
    (s : TcpConnection κ), Buffered s → (s.state ≠ .CDisconnected → s.chan.isWriting) →
    Ends Any Buffered (s.writeLoop observer drains toSend haveSent) := by
  induction drains with
  | nil => intro _ _ s _ _; trivial
  | cons r rs ih =>
    intro toSend haveSent s h hw
    cases r with
    | again =>
      unfold TcpConnection.writeLoop
      split_ifs with hwr
      · exact ih _ _ s h hw
      · rw [enableWrite, onChannel_setEvents h.toSound]
        have hst : s.state = .CDisconnected := by
          by_contra hst
          exact hwr (hw hst)
        exact ih _ _ _ (h.close (h.toSound.place _) hst rfl rfl) fun _ => enableWrite_isWriting
    | reset => exact h
    | error => exact h
    | count n =>
      have h1 : Buffered { s with accepted := s.accepted ++ s.backlog n } :=
        h.congr rfl rfl rfl rfl rfl
      unfold TcpConnection.writeLoop
      split_ifs
      · trivial
      · exact sendCompleted_buffered h1
      · exact ih _ _ _ h1 hw
      · refine (handleClose_buffered h).bind ?_
        rintro t ⟨ht, hst⟩
        exact ih _ _ t ht fun hst' => absurd hst hst'

theorem handleWrite_buffered (h : Buffered s) (drains : List WriteResult) :
    Ends Any Buffered (s.handleWrite observer drains) := by
  unfold TcpConnection.handleWrite
  split_ifs with hw
  · exact writeLoop_buffered drains _ _ s h fun _ => hw
  · exact h

theorem handler_buffered (h : Buffered s) (reads : List ReadResult) (drains : List WriteResult)
    (g : Handler) : Ends Any Buffered (g.run observer reads drains s) := by
  cases g with
  | close => exact (handleClose_buffered h).imp fun t ht => ht.1
  | error => exact h
  | read => exact handleRead_buffered h reads
  | write => exact handleWrite_buffered h drains

omit [DecidableEq κ] in
theorem lift_ends {E : Fault → Prop} {I : TcpConnection κ → Prop} {x : Except Fault (TcpConnection κ)}
    (h : Ends E I x) : Ends E (fun d => I d.conn) (lift d x) :=
  h.bind fun _ ht => ht

theorem step_buffered (h : Buffered d.conn) (a : Act) :
    Ends Any (fun d => Buffered d.conn) (step d a) := by
  cases a with
  | established => exact lift_ends (connectionEstablished_buffered h)
  | call k ws =>
    have h1 : Buffered { d.conn with writes := ws } := h.congr rfl rfl rfl rfl rfl
    exact lift_ends (call_buffered h1 true k)
  | post k => exact lift_ends (call_buffered h false k)
  | exec ws =>
    unfold step
    cases d.conn.pending with
    | nil => trivial
    | cons g gs =>
      have h1 : Buffered { d.conn with pending := gs, writes := ws } := h.congr rfl rfl rfl rfl rfl
      exact lift_ends (invoke_buffered h1 g)
  | event rev => exact h
  | handle reads drains =>
    unfold step
    cases d.todo with
    | nil => trivial
    | cons g gs => exact lift_ends (handler_buffered h reads drains g)
  | removed =>
    have h1 : Buffered { d.conn with removal := false } := h.congr rfl rfl rfl rfl rfl
    exact lift_ends ((removeConnectionInLoop_buffered h1).imp fun t ht => ht.1)

variable {p : EpollPoller κ} {c : κ} {w b : Bool} {as : List Act}

theorem buffered_run (hp : Vacant p c) (h : Run (dispatchMachine κ) (start p c w b) as d) :
    Buffered d.conn :=
  run_ends (I := fun d => Buffered d.conn) (fun _ a hd _ => step_buffered hd a) h
    (buffered_start hp w b)

/-! ### What follows -/

/-- **No stalled and no overtaken output.**  Until the connection is closed, a backlog is a backlog
the poller knows of: the channel is writing and registered with `EPOLLOUT`.  A new payload is
written only where there is no backlog, and so is the end of the stream. -/
theorem output_registered (hp : Vacant p c)
    (h : Run (dispatchMachine κ) (start p c w b) as d) :
    (d.conn.state ≠ .CDisconnected → 0 < d.conn.writeIdx →
      d.conn.chan.isWriting ∧ d.conn.chan.status = .CAdded ∧
      d.conn.poller.channels[d.conn.chan.fd]? = some d.conn.channel ∧
      ∃ mask, d.conn.poller.kernel d.conn.chan.fd = some (d.conn.channel, mask) ∧
        mask &&& EPOLLOUT ≠ 0) ∧
    (∀ st backlog len r, .direct st backlog len r ∈ d.conn.calls → st ≠ .CDisconnected →
      backlog = 0) ∧
    (∀ st backlog, .shutdown st backlog true ∈ d.conn.calls → st ≠ .CDisconnected →
      backlog = 0) := by
  have hd := buffered_run hp h
  refine ⟨fun hst hi => ?_, fun st backlog len r hm => hd.made _ hm _ _ (Or.inl ⟨len, r, rfl⟩),
    fun st backlog hm => hd.made _ hm _ _ (Or.inr rfl)⟩
  have hw := hd.writing hst hi
  have hadded : d.conn.chan.status = .CAdded := by
    by_contra hne
    have he : d.conn.chan.events = CNoneEvent := hd.nonEvent hne
    refine hw ?_
    rw [he]
    simp [CNoneEvent]
  have hnew : (d.conn.poller.chan d.conn.channel).status ≠ .CNew := by
    rw [show (d.conn.poller.chan d.conn.channel).status = .CAdded from hadded]
    exact nofun
  refine ⟨hw, hadded, hd.registered.mapped _ hnew, _, hd.registered.kernel_of_added hadded, ?_⟩
  show (EPOLLET ||| d.conn.chan.events) &&& CWriteEvent ≠ 0
  rw [BitVec.and_or_distrib_right, show EPOLLET &&& CWriteEvent = 0#32 by decide, BitVec.zero_or]
  exact hw

/-- The half-close is due: the connection is being closed from this side, `shutdownInLoop` has run,
no handler is to be called and nothing is waiting to be written. -/
structure Closing (d : Served κ) : Prop where
  state : d.conn.state = .CDisconnecting
  ran : ∃ e ∈ d.conn.calls, isShutdown e = true
  idle : d.todo = []
  drained : d.conn.writeIdx = 0

theorem mem_of_mem_takeWhile {α : Type} {q : α → Bool} {x e : α} (hx : q x = false) {post : List α} :
    ∀ {pre : List α}, e ∈ (pre ++ x :: post).takeWhile q → e ∈ pre := by
  intro pre
  induction pre with
  | nil => intro h; simp [hx] at h
  | cons y pre ih =>
    intro h
    by_cases hy : q y = true
    · rw [List.cons_append, List.takeWhile_cons_of_pos hy] at h
      rcases List.mem_cons.mp h with rfl | h
      · exact List.mem_cons_self
      · exact List.mem_cons_of_mem _ (ih h)
    · rw [List.cons_append, List.takeWhile_cons_of_neg hy] at h
      exact absurd h List.not_mem_nil

/-- **When a server-side close completes.**  Where the half-close is due, it has been issued exactly
if every payload written to the socket before `shutdownInLoop` ran was taken whole by the kernel, or
failed with `EPIPE` or `ECONNRESET`. -/
theorem shutdown_issued_iff (hp : Vacant p c)
    (h : Run (dispatchMachine κ) (start p c w b) as d) (hc : Closing d) :
    (∃ e ∈ d.conn.calls, isIssued e = true) ↔
      ∀ e ∈ d.conn.calls.takeWhile (fun e => !isShutdown e), isShort e = false := by
  have hissued := (buffered_run hp h).issued (by rw [hc.state]; nofun)
  constructor
  · rintro ⟨x, hm, hx⟩ e he
    obtain ⟨pre, post, hcalls⟩ := List.append_of_mem hm
    cases x with
    | direct st backlog len r => cases hx
    | shutdown st backlog i =>
      rw [hcalls] at he
      exact (hissued pre st backlog i post hcalls).mp hx e (mem_of_mem_takeWhile rfl he)
  · intro hshort
    -- the first place of `shutdownInLoop`
    have hsplit := List.takeWhile_append_dropWhile (p := fun e => !isShutdown e) (l := d.conn.calls)
    cases hdrop : d.conn.calls.dropWhile fun e => !isShutdown e with
    | nil =>
      obtain ⟨e, he, hsh⟩ := hc.ran
      have := List.dropWhile_eq_nil_iff.mp hdrop e he
      simp [hsh] at this
    | cons x post =>
      have hx := List.head?_dropWhile_not (fun e => !isShutdown e) d.conn.calls
      rw [hdrop] at hsplit hx
      cases x with
      | direct st backlog len r => simp [isShutdown] at hx
      | shutdown st backlog i =>
        have hi := (hissued _ st backlog i post hsplit.symm).mpr hshort
        exact ⟨.shutdown st backlog i, hsplit ▸ List.mem_append_right _ List.mem_cons_self, hi⟩

/-! ### Runs on descriptor `5` -/

theorem output_registered_short : ∃ d : Served Unit,
    Run (dispatchMachine Unit) (start (EpollPoller.new fun _ => 5) () false true)
      [.established, .call (.send ⟨0, [1, 2, 3]⟩) [.count 1]] d ∧
    d.conn.writeIdx = 2 ∧ d.conn.chan.status = .CAdded := by
  have h : Run (dispatchMachine Unit) (start (EpollPoller.new fun _ => 5) () false true)
      [.established, .call (.send ⟨0, [1, 2, 3]⟩) [.count 1]] _ := run_iff_exec.mpr rfl
  exact ⟨_, h, rfl, ((output_registered (vacant_new _ _) h).1 nofun (by decide)).2.1⟩

theorem shutdown_issued_whole : ∃ d : Served Unit,
    Run (dispatchMachine Unit) (start (EpollPoller.new fun _ => 5) () false true)
      [.established, .call (.send ⟨0, [1, 2, 3]⟩) [.count 3], .call .shutdown []] d ∧
    Closing d ∧ ∃ e ∈ d.conn.calls, isIssued e = true := by
  have h : Run (dispatchMachine Unit) (start (EpollPoller.new fun _ => 5) () false true)
      [.established, .call (.send ⟨0, [1, 2, 3]⟩) [.count 3], .call .shutdown []] _ :=
    run_iff_exec.mpr rfl
  refine ⟨_, h, ?hc, (shutdown_issued_iff (vacant_new _ _) h ?hc).mpr (by decide)⟩
  exact ⟨rfl, ⟨.shutdown .CDisconnecting 0 true, by decide, rfl⟩, rfl, rfl⟩

/-- **A half-close that is never issued**: one of two bytes is written, the close is asked for, and
the next event drains the other byte. -/
theorem shutdown_not_issued : ∃ d : Served Unit,
    Run (dispatchMachine Unit) (start (EpollPoller.new fun _ => 5) () false true)
      [.established, .call (.send ⟨0, [1, 2]⟩) [.count 1], .call .shutdown [], .event EPOLLOUT,
        .handle [] [.count 1]] d ∧
    Closing d ∧ ¬∃ e ∈ d.conn.calls, isIssued e = true :=
  ⟨_, run_iff_exec.mpr rfl,
    ⟨rfl, ⟨.shutdown .CDisconnecting 1 false, by decide, rfl⟩, rfl, rfl⟩, by decide⟩

end ReactorServer.Net.Output
