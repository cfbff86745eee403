import ReactorServer.Net.Output
import ReactorServer.Net.Transfer

/-!
# The output of a connection

What a connection sends over a whole run: the bytes the kernel has taken, and behind them the
backlog, are the payloads `sendInLoop` has been called with, one after another, whole and in this
order; and it is called with every payload that `send` has admitted, those of the loop thread at
once and those of the other threads in the order in which they were queued (`output_stream`).

This holds of the runs in which every `write` behaves as `carries_iff` and `drains_iff` ask and no
payload is written to a connection that has been closed (`Orderly`).  What is told apart there for one call is put together here by the invariant of the
backlog: a payload is written at once only where nothing is waiting in front of it.
-/

namespace ReactorServer.Net.Stream

open ReactorServer.Cpp ReactorServer.Lib.Runs ReactorServer.Lib.Triples
open ReactorServer.Net.Poller ReactorServer.Net.Poller.EpollPoller
open ReactorServer.Net.Connection ReactorServer.Net.Connection.TcpConnection
open ReactorServer.Net.Dispatch ReactorServer.Net.Output ReactorServer.Net.Transfer

/-! ### The machine -/

/-- A payload, and whether `send` was called in the loop thread. -/
abbrev Message := Bool × Bytes

/-- A connection with the payloads that `send` has admitted and those that `sendInLoop` has been
called with. -/
structure Tracked (κ : Type) where
  served : Served κ
  admitted : List Message
  sent : List Message

variable {κ : Type} [DecidableEq κ]

/-- The payloads `send` admits in this step. -/
def admits (d : Served κ) : Act → List Message
  | .call (.send buf) _ => if d.conn.state = .CConnected then [(true, buf.bytes)] else []
  | .post (.send buf) => if d.conn.state = .CConnected then [(false, buf.bytes)] else []
  | _ => []

/-- The payloads `sendInLoop` is called with in this step. -/
def sends (d : Served κ) : Act → List Message
  | .call (.send buf) _ => if d.conn.state = .CConnected then [(true, buf.bytes)] else []
  | .exec _ =>
    match d.conn.pending with
    | .sendInLoop buf :: _ => [(false, buf.bytes)]
    | _ => []
  | _ => []

def trackMachine (κ : Type) [DecidableEq κ] : Machine (Tracked κ) Act Fault where
  enabled t a := (dispatchMachine κ).enabled t.served a
  step t a := do
    let d ← (dispatchMachine κ).step t.served a
    pure ⟨d, t.admitted ++ admits t.served a, t.sent ++ sends t.served a⟩

instance (t : Tracked κ) (a : Act) : Decidable ((trackMachine κ).enabled t a) :=
  inferInstanceAs (Decidable ((dispatchMachine κ).enabled t.served a))

def begin (poller : EpollPoller κ) (channel : κ) (writeCompleteCB inBaseLoop : Bool) : Tracked κ :=
  ⟨start poller channel writeCompleteCB inBaseLoop, [], []⟩

/-! ### Orderly runs -/

/-- The connection is not `CDisconnected`, as a queued `sendInLoop` may find it; the kernel answers the
`write` with what it has taken, and `strcpy` copies the rest whole.  `buf` is what the memory holds
when it is written: a payload is queued with its bytes here and by its address in the code, so its
memory must be left as it was at the call of `send`. -/
def Whole (s : TcpConnection κ) (buf : Payload) (writes : List WriteResult) : Prop :=
  s.state ≠ .CDisconnected ∧ ∃ r, writes = [r] ∧ Answers buf r ∧
    (progress s r = buf.len ∨ 0 ≤ progress s r ∧ progress s r < buf.len ∧
      Fits 1 s (buf.bytes.drop (progress s r).toNat))

/-- The backlog goes out in one `write`, or stays. -/
def Drained (s : TcpConnection κ) (drains : List WriteResult) : Prop :=
  s.writeIdx ≠ 0 ∧ ∃ n r, drains = List.replicate n .again ++ [r] ∧
    (r = .count s.writeIdx.toNat ∨ r = .reset ∨ r = .error)

def Orderly (d : Served κ) : Act → Prop
  | .call (.send buf) writes => d.conn.state = .CConnected → Whole d.conn buf writes
  | .exec writes => ∀ buf fs, d.conn.pending = .sendInLoop buf :: fs → Whole d.conn buf writes
  | .handle _ drains => ∀ hs, d.todo = .write :: hs → d.conn.chan.isWriting → Drained d.conn drains
  | _ => True

def orderlyMachine (κ : Type) [DecidableEq κ] : Machine (Tracked κ) Act Fault :=
  restrict (trackMachine κ) fun t a => Orderly t.served a

variable {s t u : TcpConnection κ} {d : Served κ} {buf : Payload}

/-! ### What is on its way -/

/-- The bytes the kernel has taken, and the backlog. -/
def stream (s : TcpConnection κ) : Bytes := s.accepted ++ buffered s

/-- The payloads queued. -/
def waiting : Functor → Option Message
  | .sendInLoop buf => some (false, buf.bytes)
  | _ => none

/-- An operation that has nothing to do with the output. -/
structure Silent (s t : TcpConnection κ) : Prop where
  accepted : t.accepted = s.accepted
  writeBuf : t.writeBuf = s.writeBuf
  writeIdx : t.writeIdx = s.writeIdx
  pending : t.pending.filterMap waiting = s.pending.filterMap waiting

omit [DecidableEq κ] in
theorem Silent.refl (s : TcpConnection κ) : Silent s s := ⟨rfl, rfl, rfl, rfl⟩

omit [DecidableEq κ] in
theorem Silent.trans (h : Silent s t) (h' : Silent t u) : Silent s u :=
  ⟨h'.accepted.trans h.accepted, h'.writeBuf.trans h.writeBuf, h'.writeIdx.trans h.writeIdx,
    h'.pending.trans h.pending⟩

omit [DecidableEq κ] in
theorem Silent.stream (h : Silent s t) : stream t = stream s := by
  unfold Stream.stream Transfer.buffered TcpConnection.backlog
  rw [h.accepted, h.writeBuf, h.writeIdx]

omit [DecidableEq κ] in
theorem silent_queue {f : Functor} (hf : waiting f = none) (s : TcpConnection κ) :
    Silent s (s.queue f) := by
  refine ⟨rfl, rfl, rfl, ?_⟩
  show (s.pending ++ [f]).filterMap waiting = _
  rw [List.filterMap_append, List.filterMap_cons_none hf]
  exact List.append_nil _

omit [DecidableEq κ] in
theorem silent_setState (st : State) (s : TcpConnection κ) : Silent s (s.setState st) :=
  ⟨rfl, rfl, rfl, rfl⟩

omit [DecidableEq κ] in
theorem onChannel_silent {op : κ → EpollPoller κ → Except Fault (EpollPoller κ)} :
    Ends Any (Silent s) (s.onChannel op) := by
  unfold TcpConnection.onChannel
  cases op s.channel s.poller with
  | error f => trivial
  | ok p => exact ⟨rfl, rfl, rfl, rfl⟩

theorem startReadInLoop_silent : Ends Any (Silent s) s.startReadInLoop := by
  unfold TcpConnection.startReadInLoop
  split_ifs
  · exact onChannel_silent.bind fun t ht => ⟨ht.accepted, ht.writeBuf, ht.writeIdx, ht.pending⟩
  · exact Silent.refl s

theorem stopReadInLoop_silent : Ends Any (Silent s) s.stopReadInLoop := by
  unfold TcpConnection.stopReadInLoop
  split_ifs
  · exact onChannel_silent.bind fun t ht => ⟨ht.accepted, ht.writeBuf, ht.writeIdx, ht.pending⟩
  · exact Silent.refl s

omit [DecidableEq κ] in
theorem onConnection_silent : Ends Any (Silent s) s.onConnection := by
  unfold TcpConnection.onConnection
  split_ifs
  · exact ⟨rfl, rfl, rfl, rfl⟩
  · exact Silent.refl s

theorem connectionEstablished_silent : Ends Any (Silent s) (s.connectionEstablished observer) := by
  refine (assert_spec fun _ => trivial).bind fun _ _ => ?_
  refine onChannel_silent.bind fun t ht => onConnection_silent.imp fun u hu => ?_
  exact ((silent_setState _ s).trans ht).trans hu

omit [DecidableEq κ] in
theorem removeConnectionInLoop_silent : Ends Any (Silent s) s.removeConnectionInLoop :=
  (assert_spec fun _ => trivial).bind fun _ _ => by
    have h : Silent s { s with mapped := false } := ⟨rfl, rfl, rfl, rfl⟩
    exact h.trans (silent_queue rfl _)

theorem handleClose_silent : Ends Any (Silent s) (s.handleClose observer) := by
  refine (assert_spec fun _ => trivial).bind fun _ _ => ?_
  refine onChannel_silent.bind fun t ht => onConnection_silent.bind fun u hu => ?_
  have hsu : Silent s u := ((silent_setState _ s).trans ht).trans hu
  unfold TcpConnection.closeCB
  split_ifs
  · exact removeConnectionInLoop_silent.imp fun v hv => hsu.trans hv
  · exact hsu.trans ⟨rfl, rfl, rfl, rfl⟩

theorem connectionDestroyed_silent : Ends Any (Silent s) (s.connectionDestroyed observer) := by
  unfold TcpConnection.connectionDestroyed
  dsimp only
  split_ifs
  · refine onChannel_silent.bind fun t ht => onConnection_silent.bind fun u hu => ?_
    have hu' : Silent s u := ((silent_setState _ s).trans ht).trans hu
    exact onChannel_silent.bind fun v hv => (hu'.trans hv).trans ⟨rfl, rfl, rfl, rfl⟩
  · exact onChannel_silent.bind fun v hv => hv.trans ⟨rfl, rfl, rfl, rfl⟩

omit [DecidableEq κ] in
theorem readLoop_silent (reads : List ReadResult) : ∀ s : TcpConnection κ,
    Ends Any (fun x => Silent s x.2) (s.readLoop reads) := by
  induction reads with
  | nil => intro s; trivial
  | cons r rs ih =>
    intro s
    cases r with
    | again =>
      unfold TcpConnection.readLoop
      split_ifs
      · exact Silent.refl s
      · trivial
    | error => exact Silent.refl s
    | bytes b =>
      unfold TcpConnection.readLoop
      split_ifs
      · exact Silent.refl s
      · have h : Silent s { s with readBuf := s.readBuf ++ b } := ⟨rfl, rfl, rfl, rfl⟩
        exact (ih _).imp fun x hx => h.trans hx
      · trivial

omit [DecidableEq κ] in
theorem handleRead_silent (reads : List ReadResult) :
    Ends Any (Silent s) (s.handleRead observer reads) := by
  refine (readLoop_silent reads s).bind ?_
  rintro ⟨again, t⟩ ht
  dsimp only at ht ⊢
  split_ifs
  · cases t.context with
    | none => trivial
    | some c => exact ht.trans ⟨rfl, rfl, rfl, rfl⟩
  · exact ht

/-! ### What is sent -/

omit [DecidableEq κ] in
/-- An empty backlog, or one that the payload joins. -/
theorem buffered_direct (h : Buffered s) (hst : s.state ≠ .CDisconnected) {r : WriteResult}
    (hn : 0 < progress s r) : buffered s = [] := by
  have hw : ¬s.chan.isWriting := by
    intro hw
    unfold progress at hn
    rw [if_pos hw] at hn
    exact lt_irrefl _ hn
  rw [buffered, h.noBacklog hw hst]
  rfl

omit [DecidableEq κ] in
theorem backlog_stored (s : TcpConnection κ) (n : ℕ) : s.backlog n = stored s.writeBuf 0 n := by
  unfold TcpConnection.backlog Transfer.stored
  simp only [Nat.zero_add]

omit [DecidableEq κ] in
/-- Only these fields matter. -/
theorem Whole.congr {writes : List WriteResult} (h : Whole s buf writes)
    (hp : t.poller = s.poller) (hc : t.channel = s.channel) (hst : t.state = s.state)
    (hb : t.writeBuf = s.writeBuf) (hi : t.writeIdx = s.writeIdx) : Whole t buf writes := by
  obtain ⟨h1, r, h2, h3, h4⟩ := h
  have hchan : t.chan = s.chan := by unfold TcpConnection.chan; rw [hp, hc]
  have hprogress : progress t r = progress s r := by unfold progress; rw [hchan]
  refine ⟨by rw [hst]; exact h1, r, h2, h3, ?_⟩
  rw [hprogress]
  refine h4.imp id fun h5 => ⟨h5.1, h5.2.1, ?_⟩
  obtain ⟨f1, f2, f3, f4⟩ := h5.2.2
  exact ⟨f1, by rw [hi]; exact f2, by rw [hi]; exact f3, by rw [hb, hi]; exact f4⟩

/-- **What `sendInLoop` adds**: the payload. -/
theorem sendInLoop_stream (h : Buffered s) {writes : List WriteResult} (hw : Whole s buf writes) :
    ∃ t, sendInLoop buf { s with writes := writes } = .ok t ∧ stream t = stream s ++ buf.bytes := by
  obtain ⟨hst, r, rfl, hr, hn⟩ := hw
  have hidx := h.idx
  have hsound := h.toSound
  by_cases hwhole : progress s r = buf.len
  · obtain ⟨t, ht, hbuf, hwi, hacc⟩ := sendInLoop_whole hsound hr hwhole
    refine ⟨t, ht, ?_⟩
    have hback : buffered t = buffered s := by
      rw [buffered, buffered, backlog, backlog, hbuf, hwi]
    rw [stream, stream, hback, hacc]
    by_cases hempty : buf.bytes = []
    · rw [hempty, List.append_nil, List.append_nil]
    · have hpos : 0 < progress s r := by
        rw [hwhole]
        exact Int.natCast_pos.mpr (List.length_pos_iff.mpr hempty)
      rw [buffered_direct h hst hpos, List.append_nil, List.append_nil]
  · obtain ⟨h0, hlt, hfits⟩ := hn.resolve_left hwhole
    have hlen : buf.len = buf.bytes.length := rfl
    have hroom := hfits.room
    have hcopied := hfits.copied
    rw [List.length_drop] at hroom
    rw [← cstrAt_drop buf h0] at hcopied
    have hsize : (WRITE_BUFFER_SIZE : ℤ) ≤ INT_MAX := by decide
    obtain ⟨t, ht, hbuf, hwi, hacc⟩ := sendInLoop_save hsound hr hlt hcopied (by omega)
    refine ⟨t, ht, ?_⟩
    have hback : buffered t = buffered s ++ buf.bytes.drop (progress s r).toNat := by
      have hcount : t.writeIdx.toNat =
          s.writeIdx.toNat + (buf.bytes.drop (progress s r).toNat).length := by
        rw [hwi, List.length_drop]
        omega
      have hbefore : stored t.writeBuf 0 s.writeIdx.toNat = stored s.writeBuf 0 s.writeIdx.toNat := by
        refine List.map_congr_left fun j hj => ?_
        rw [hbuf, poke_before _ (by simpa using hj)]
      rw [buffered, buffered, backlog_stored, backlog_stored, hcount, stored_add, hbefore, hbuf,
        Nat.zero_add, cstrAt_drop buf h0, (stored_copy _ _ _).mpr hfits.behind]
    have hsplit := List.take_append_drop (progress s r).toNat buf.bytes
    rw [stream, stream, hback, hacc]
    by_cases hnone : progress s r = 0
    · rw [hnone, Int.toNat_zero, List.take_zero, List.drop_zero, List.append_nil, List.append_assoc]
    · have hpos : 0 < progress s r := by omega
      rw [buffered_direct h hst hpos, List.nil_append, List.append_nil, List.append_assoc, hsplit]

omit [DecidableEq κ] in
/-- Write-completions are not payloads. -/
theorem waiting_of_pending (h : t.pending = s.pending ∨ t.pending = s.pending ++ [.writeComplete]) :
    t.pending.filterMap waiting = s.pending.filterMap waiting := by
  rcases h with h | h
  · rw [h]
  · rw [h]
    exact (silent_queue rfl s).pending

/-- A drain moves the backlog to the kernel and touches neither what has been read nor the life of
the connection. -/
structure Moved (s t : TcpConnection κ) : Prop where
  bytes : stream t = stream s
  pending : t.pending = s.pending ∨ t.pending = s.pending ++ [.writeComplete]
  state : t.state = s.state
  removal : t.removal = s.removal
  destroyed : t.destroyed = s.destroyed
  readBuf : t.readBuf = s.readBuf
  context : t.context = s.context

omit [DecidableEq κ] in
theorem Moved.refl (s : TcpConnection κ) : Moved s s :=
  ⟨rfl, Or.inl rfl, rfl, rfl, rfl, rfl, rfl⟩

theorem sendCompleted_moved (h : Sound s) (n : ℕ) (hn : s.writeIdx.toNat = n) :
    ∃ t, TcpConnection.sendCompleted { s with accepted := s.accepted ++ s.backlog n } = .ok t ∧
      Moved s t := by
  have hs : Sound { s with accepted := s.accepted ++ s.backlog n } :=
    ⟨h.registered, h.free, h.nonEvent⟩
  have hbytes : ∀ t : TcpConnection κ, t.accepted = s.accepted ++ s.backlog n → t.writeIdx = 0 →
      stream t = stream s := by
    intro t hacc hidx
    have hempty : buffered t = [] := by
      rw [buffered, hidx]
      rfl
    rw [stream, stream, hempty, List.append_nil, hacc, buffered, hn]
  unfold TcpConnection.sendCompleted
  rw [disableWrite, onChannel_setEvents hs, ok_bind]
  dsimp only
  split_ifs
  · exact ⟨_, rfl, hbytes _ rfl rfl, Or.inr rfl, rfl, rfl, rfl, rfl, rfl⟩
  · exact ⟨_, rfl, hbytes _ rfl rfl, Or.inr rfl, rfl, rfl, rfl, rfl, rfl⟩
  · exact ⟨_, rfl, hbytes _ rfl rfl, Or.inl rfl, rfl, rfl, rfl, rfl, rfl⟩
  · exact ⟨_, rfl, hbytes _ rfl rfl, Or.inl rfl, rfl, rfl, rfl, rfl, rfl⟩

/-- **What `handleWrite` moves**: nothing, or the whole backlog to the kernel. -/
theorem handleWrite_moved (h : Sound s) {drains : List WriteResult}
    (hd : s.chan.isWriting → 0 ≤ s.writeIdx ∧ Drained s drains) :
    ∃ t, (∀ cb, s.handleWrite cb drains = .ok t) ∧ Moved s t := by
  by_cases hw : s.chan.isWriting
  · obtain ⟨hidx, hne, n, r, rfl, hr⟩ := hd hw
    have hloop : ∀ cb, s.handleWrite cb (List.replicate n .again ++ [r]) =
        s.writeLoop cb [r] s.writeIdx 0 := by
      intro cb
      unfold TcpConnection.handleWrite
      rw [if_pos hw, writeLoop_again hw]
    rcases hr with rfl | rfl | rfl
    · obtain ⟨t, ht, hmoved⟩ := sendCompleted_moved h s.writeIdx.toNat rfl
      refine ⟨t, fun cb => ?_, hmoved⟩
      rw [hloop, TcpConnection.writeLoop, if_neg (by omega), if_pos (by omega)]
      dsimp only
      rw [if_pos (by omega)]
      exact ht
    · exact ⟨s, fun cb => by rw [hloop]; rfl, Moved.refl s⟩
    · exact ⟨s, fun cb => by rw [hloop]; rfl, Moved.refl s⟩
  · refine ⟨s, fun cb => ?_, Moved.refl s⟩
    unfold TcpConnection.handleWrite
    rw [if_neg hw]

/-! ### One step -/

/-- The messages of one kind. -/
def ofKind (inLoop : Bool) (l : List Message) : List Message := l.filter (·.1 = inLoop)

omit [DecidableEq κ] in
theorem ofKind_append (b : Bool) (l m : List Message) : ofKind b (l ++ m) = ofKind b l ++ ofKind b m :=
  List.filter_append ..

/-- **The invariant of the output.** -/
structure Streamed (t : Tracked κ) : Prop where
  buffered : Buffered t.served.conn
  bytes : stream t.served.conn = (t.sent.map Prod.snd).flatten
  inLoop : ofKind true t.sent = ofKind true t.admitted
  queued : ofKind false t.sent ++ t.served.conn.pending.filterMap waiting = ofKind false t.admitted

/-- What a step does to the stream and to the messages that are waiting. -/
structure Adds (s : TcpConnection κ) (adm sent : List Message) (t : TcpConnection κ) : Prop where
  bytes : stream t = stream s ++ (sent.map Prod.snd).flatten
  inLoop : ofKind true sent = ofKind true adm
  queued : ofKind false sent ++ t.pending.filterMap waiting =
    s.pending.filterMap waiting ++ ofKind false adm

omit [DecidableEq κ] in
theorem Silent.adds (h : Silent s t) : Adds s [] [] t where
  bytes := by
    rw [h.stream]
    exact (List.append_nil _).symm
  inLoop := rfl
  queued := by
    rw [h.pending]
    exact (List.append_nil _).symm

/-- A payload that is sent at once. -/
theorem send_adds (h : Buffered s) {writes : List WriteResult} (hw : Whole s buf writes) :
    Ends Any (Adds s [(true, buf.bytes)] [(true, buf.bytes)])
      (sendInLoop buf { s with writes := writes }) := by
  have hsound : Sound { s with writes := writes } := h.toSound.congr rfl rfl
  obtain ⟨t, ht, hstream⟩ := sendInLoop_stream h hw
  have hsent := (sendInLoop_spec hsound buf).of_ok ht
  rw [ht]
  refine ⟨?_, rfl, ?_⟩
  · rw [hstream]
    simp
  · rw [waiting_of_pending hsent.pending]
    simp [ofKind]

theorem call_adds (h : Buffered d.conn) (k : Call) (writes : List WriteResult)
    (hk : Orderly d (.call k writes)) :
    Ends Any (Adds d.conn (admits d (.call k writes)) (sends d (.call k writes)))
      (k.run true observer { d.conn with writes := writes }) := by
  cases k with
  | send buf =>
    unfold Call.run TcpConnection.send
    dsimp only
    by_cases hst : d.conn.state = .CConnected
    · rw [if_pos hst]
      have hs : Buffered { d.conn with passed := d.conn.passed ++ [buf.bytes] } :=
        h.congr rfl rfl rfl rfl rfl
      have hadds := send_adds hs ((hk hst).congr rfl rfl rfl rfl rfl)
      simp only [admits, sends, if_pos hst]
      exact hadds.imp fun t ht => ⟨ht.bytes, ht.inLoop, ht.queued⟩
    · rw [if_neg hst]
      simp only [admits, sends, if_neg hst]
      exact Silent.adds ⟨rfl, rfl, rfl, rfl⟩
  | shutdown =>
    show Ends Any _ (TcpConnection.shutdown true observer _)
    unfold TcpConnection.shutdown
    split_ifs
    · exact Silent.adds ⟨rfl, rfl, rfl, rfl⟩
    · exact Silent.adds ⟨rfl, rfl, rfl, rfl⟩
  | startRead =>
    exact (startReadInLoop_silent (s := { d.conn with writes := writes })).imp fun t ht =>
      Silent.adds ⟨ht.accepted, ht.writeBuf, ht.writeIdx, ht.pending⟩
  | stopRead =>
    exact (stopReadInLoop_silent (s := { d.conn with writes := writes })).imp fun t ht =>
      Silent.adds ⟨ht.accepted, ht.writeBuf, ht.writeIdx, ht.pending⟩

theorem post_adds (k : Call) :
    Ends Any (Adds d.conn (admits d (.post k)) (sends d (.post k)))
      (k.run false observer d.conn) := by
  cases k with
  | send buf =>
    unfold Call.run TcpConnection.send
    dsimp only
    by_cases hst : d.conn.state = .CConnected
    · rw [if_pos hst]
      simp only [admits, sends, if_pos hst]
      refine ⟨(List.append_nil _).symm, rfl, ?_⟩
      show (d.conn.pending ++ [Functor.sendInLoop buf]).filterMap waiting = _
      rw [List.filterMap_append]
      rfl
    · rw [if_neg hst]
      simp only [admits, sends, if_neg hst]
      exact Silent.adds ⟨rfl, rfl, rfl, rfl⟩
  | shutdown =>
    show Ends Any _ (TcpConnection.shutdown false observer d.conn)
    unfold TcpConnection.shutdown
    split_ifs
    · exact ((silent_setState _ d.conn).trans (silent_queue rfl _)).adds
    · exact (Silent.refl d.conn).adds
  | startRead => exact (silent_queue rfl d.conn).adds
  | stopRead => exact (silent_queue rfl d.conn).adds

theorem exec_adds (h : Buffered d.conn) (writes : List WriteResult)
    (hk : Orderly d (.exec writes)) {g : Functor} {gs : List Functor}
    (hpend : d.conn.pending = g :: gs) :
    Ends Any (Adds d.conn (admits d (.exec writes)) (sends d (.exec writes)))
      (invoke observer g { d.conn with pending := gs, writes := writes }) := by
  have hsends : sends d (.exec writes) = (waiting g).toList := by
    simp only [sends, hpend]
    cases g <;> rfl
  rw [hsends]
  have hsilent : waiting g = none →
      Silent d.conn { d.conn with pending := gs, writes := writes } := fun hg =>
    ⟨rfl, rfl, rfl, by rw [hpend, List.filterMap_cons_none hg]⟩
  cases g with
  | sendInLoop buf =>
    have hs : Buffered { d.conn with pending := gs } := h.congr rfl rfl rfl rfl rfl
    have hw := (hk buf gs hpend).congr (t := { d.conn with pending := gs }) rfl rfl rfl rfl rfl
    have hsound : Sound { d.conn with pending := gs, writes := writes } := h.toSound.congr rfl rfl
    obtain ⟨t, ht, hstream⟩ := sendInLoop_stream hs hw
    have hsent := waiting_of_pending ((sendInLoop_spec hsound buf).of_ok ht).pending
    show Ends Any _ (sendInLoop buf { d.conn with pending := gs, writes := writes })
    rw [ht]
    refine ⟨?_, rfl, ?_⟩
    · rw [hstream]
      show _ = _ ++ [buf.bytes].flatten
      rw [List.flatten_singleton]
      rfl
    · rw [hsent, hpend]
      exact (List.append_nil _).symm
  | shutdownInLoop =>
    have hcalls : Silent d.conn { d.conn with pending := gs, writes := writes }.shutdownInLoop :=
      (hsilent rfl).trans ⟨rfl, rfl, rfl, rfl⟩
    exact hcalls.adds
  | startReadInLoop => exact startReadInLoop_silent.imp fun t ht => ((hsilent rfl).trans ht).adds
  | stopReadInLoop => exact stopReadInLoop_silent.imp fun t ht => ((hsilent rfl).trans ht).adds
  | writeComplete => exact (hsilent rfl).adds
  | connectionDestroyed =>
    exact connectionDestroyed_silent.imp fun t ht => ((hsilent rfl).trans ht).adds

theorem handle_adds (h : Buffered d.conn) (reads : List ReadResult) (drains : List WriteResult)
    (hk : Orderly d (.handle reads drains)) {g : Handler} {gs : List Handler}
    (htodo : d.todo = g :: gs) :
    Ends Any (Adds d.conn [] []) (g.run observer reads drains d.conn) := by
  cases g with
  | close => exact handleClose_silent.imp fun t ht => ht.adds
  | error => exact (Silent.refl d.conn).adds
  | read => exact (handleRead_silent reads).imp fun t ht => ht.adds
  | write =>
    obtain ⟨t, ht, hmoved⟩ := handleWrite_moved h.toSound fun hw => ⟨h.idx, hk gs htodo hw⟩
    show Ends Any _ (d.conn.handleWrite observer drains)
    rw [ht]
    exact ⟨by rw [hmoved.bytes]; exact (List.append_nil _).symm, rfl,
      by rw [waiting_of_pending hmoved.pending]; exact (List.append_nil _).symm⟩

/-- **What one step does to the output.** -/
theorem step_adds (h : Buffered d.conn) (a : Act) (hk : Orderly d a) :
    Ends Any (fun e => Adds d.conn (admits d a) (sends d a) e.conn) (step d a) := by
  cases a with
  | established => exact lift_ends (connectionEstablished_silent.imp fun t ht => ht.adds)
  | call k writes => exact lift_ends (call_adds h k writes hk)
  | post k => exact lift_ends (post_adds k)
  | exec writes =>
    unfold step
    cases hpend : d.conn.pending with
    | nil => trivial
    | cons g gs => exact lift_ends (exec_adds h writes hk hpend)
  | event rcvEvents => exact (Silent.refl d.conn).adds
  | handle reads drains =>
    unfold step
    cases htodo : d.todo with
    | nil => trivial
    | cons g gs => exact lift_ends (handle_adds h reads drains hk htodo)
  | removed =>
    have hs : Silent d.conn { d.conn with removal := false } := ⟨rfl, rfl, rfl, rfl⟩
    exact lift_ends (removeConnectionInLoop_silent.imp fun t ht => (hs.trans ht).adds)

/-! ### Runs -/

omit [DecidableEq κ] in
theorem Streamed.step {x : Tracked κ} (h : Streamed x) {a : Act} {e : Served κ}
    (hs : Buffered e.conn) (ha : Adds x.served.conn (admits x.served a) (sends x.served a) e.conn) :
    Streamed ⟨e, x.admitted ++ admits x.served a, x.sent ++ sends x.served a⟩ where
  buffered := hs
  bytes := by
    rw [List.map_append, List.flatten_append, ← h.bytes]
    exact ha.bytes
  inLoop := by rw [ofKind_append, ofKind_append, h.inLoop, ha.inLoop]
  queued := by
    rw [ofKind_append, ofKind_append, List.append_assoc, ha.queued, ← List.append_assoc, h.queued]

variable {p : EpollPoller κ} {c : κ} {w b : Bool} {as : List Act} {x : Tracked κ}

theorem streamed_run (hp : Vacant p c) (h : Run (orderlyMachine κ) (begin p c w b) as x) :
    Streamed x := by
  refine run_ends (E := Any) ?_ h ⟨buffered_start hp w b, rfl, rfl, rfl⟩
  rintro x a hx ⟨-, hk⟩
  have hboth : Ends Any (fun e => Buffered e.conn ∧
      Adds x.served.conn (admits x.served a) (sends x.served a) e.conn) (step x.served a) := by
    have h1 := step_buffered hx.buffered a
    have h2 := step_adds hx.buffered a hk
    cases hstep : step x.served a with
    | ok e => exact ⟨h1.of_ok hstep, h2.of_ok hstep⟩
    | error f => trivial
  exact hboth.bind fun e he => hx.step he.1 he.2

/-- **The output of a connection.**  In every orderly run the kernel has got, and the backlog holds
behind it, the payloads that `sendInLoop` has been called with, whole and in order.  Those of the
loop thread are the payloads it has admitted, in order; those of the other threads and the payloads
still queued are the ones these have admitted, in order. -/
theorem output_stream (hp : Vacant p c) (h : Run (orderlyMachine κ) (begin p c w b) as x) :
    x.served.conn.accepted ++ buffered x.served.conn = (x.sent.map Prod.snd).flatten ∧
    ofKind true x.sent = ofKind true x.admitted ∧
    ofKind false x.sent ++ x.served.conn.pending.filterMap waiting = ofKind false x.admitted := by
  have hx := streamed_run hp h
  exact ⟨hx.bytes, hx.inLoop, hx.queued⟩

/-- The loop thread sends first what another thread has queued behind: three bytes, of which the
kernel takes one at once and the others when it has room. -/
theorem output_stream_drained : ∃ x : Tracked Unit,
    Run (orderlyMachine Unit) (begin (EpollPoller.new fun _ => 5) () false true)
      [.established, .post (.send ⟨0, [1, 2, 3]⟩), .call (.send ⟨0, [4]⟩) [.count 1],
        .exec [.count 1], .event EPOLLOUT, .handle [] [.again, .count 2]] x ∧
    x.served.conn.accepted = [4, 1, 2, 3] ∧ x.sent = [(true, [4]), (false, [1, 2, 3])] ∧
    x.served.conn.accepted ++ buffered x.served.conn = (x.sent.map Prod.snd).flatten := by
  have h : ∃ x : Tracked Unit, Run (orderlyMachine Unit)
      (begin (EpollPoller.new fun _ => 5) () false true)
      [.established, .post (.send ⟨0, [1, 2, 3]⟩), .call (.send ⟨0, [4]⟩) [.count 1],
        .exec [.count 1], .event EPOLLOUT, .handle [] [.again, .count 2]] x ∧
      x.served.conn.accepted = [4, 1, 2, 3] ∧ x.sent = [(true, [4]), (false, [1, 2, 3])] := by
    refine ⟨_, .cons ⟨by decide, trivial⟩ rfl (.cons ⟨by decide, trivial⟩ rfl
      (.cons ⟨by decide, fun _ => ?whole⟩ rfl (.cons ⟨by decide, ?part⟩ rfl
        (.cons ⟨by decide, trivial⟩ rfl (.cons ⟨by decide, ?drain⟩ rfl (.nil _)))))), rfl, rfl⟩
    case whole => exact ⟨nofun, .count 1, rfl, Or.inr ⟨1, by decide, rfl⟩, Or.inl (by decide)⟩
    case part =>
      rintro buf fs ⟨⟩
      refine ⟨nofun, .count 1, rfl, Or.inr ⟨1, by decide, rfl⟩, Or.inr ⟨by decide, by decide, ?_⟩⟩
      exact ⟨Or.inr (by decide), by decide, by decide, rfl⟩
    case drain =>
      rintro hs ⟨⟩ -
      exact ⟨by decide, 1, .count 2, rfl, Or.inl rfl⟩
  obtain ⟨x, hx, hacc, hsent⟩ := h
  exact ⟨x, hx, hacc, hsent, (output_stream (vacant_new _ _) hx).1⟩

end ReactorServer.Net.Stream
