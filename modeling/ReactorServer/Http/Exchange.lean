import ReactorServer.Http.Answer
import ReactorServer.Net.Dispatch

/-!
# One read event

`event` is a read event of an HTTP connection: `handleRead` reads what has come, `onMessage` parses
it and answers.  A connection is `Clean` when it has nothing in its read buffer; then it answers the
head the event begins with (`event_answered`) or fails (`event_failed`).  A connection that is being
shut down keeps in its buffer what the parser has left there; no request line is found in that
again (`event_dirty`).
-/

namespace ReactorServer.Http.Exchange

open ReactorServer.Cpp ReactorServer.Lib.Runs ReactorServer.Lib.Triples
open ReactorServer.Http.Request ReactorServer.Http.Response ReactorServer.Http.Context
open ReactorServer.Http.Server ReactorServer.Http.Parsing ReactorServer.Http.Answer
open ReactorServer.Net.Connection ReactorServer.Net.Dispatch

variable {κ : Type} [DecidableEq κ] {s t : TcpConnection κ} {host : Host} {q : Head} {u : Bytes}
  {bursts : List Bytes}

/-! ### Reading -/

/-- What the `read`s of an event return when the bytes come in these bursts and the buffer has so
much room: a `read` into a full buffer asks for no bytes and returns 0. -/
def answers : ℕ → List Bytes → List ReadResult
  | room, [] => if room = 0 then [.bytes []] else [.again]
  | room, b :: bs =>
    if room = 0 then [.bytes []]
    else if b.length ≤ room then .bytes b :: answers (room - b.length) bs
    else [.bytes (b.take room), .bytes []]

/-- A read event. -/
def event (host : Host) (bursts : List Bytes) (s : TcpConnection κ) :
    Except Fault (TcpConnection κ) :=
  s.handleRead (httpServer host) (answers (READ_BUFFER_SIZE - s.readBuf.length) bursts)

/-- Read events, one after another. -/
def serve (host : Host) : List (List Bytes) → TcpConnection κ → Except Fault (TcpConnection κ)
  | [], s => .ok s
  | e :: es, s => do
    let s ← event host e s
    serve host es s

omit [DecidableEq κ] in
theorem readLoop_fits (hne : ∀ b ∈ bursts, b ≠ [])
    (h : s.readBuf.length + bursts.flatten.length < READ_BUFFER_SIZE) :
    s.readLoop (answers (READ_BUFFER_SIZE - s.readBuf.length) bursts) =
      .ok (true, { s with readBuf := s.readBuf ++ bursts.flatten }) := by
  induction bursts generalizing s with
  | nil =>
    simp only [List.flatten_nil, List.length_nil, Nat.add_zero] at h
    rw [answers, if_neg (by omega), TcpConnection.readLoop, if_pos h]
    simp
  | cons b bs ih =>
    have hb := hne b List.mem_cons_self
    simp only [List.flatten_cons, List.length_append] at h
    rw [answers, if_neg (by omega), if_pos (by omega), TcpConnection.readLoop, if_neg hb,
      if_pos (by omega)]
    have := ih (s := { s with readBuf := s.readBuf ++ b })
      (fun b' hb' => hne b' (List.mem_cons_of_mem _ hb'))
      (by simp only [List.length_append]; omega)
    simp only [List.length_append, ← Nat.sub_sub] at this
    rw [this]
    simp

omit [DecidableEq κ] in
theorem readLoop_full (hne : ∀ b ∈ bursts, b ≠ [])
    (h : READ_BUFFER_SIZE ≤ s.readBuf.length + bursts.flatten.length) :
    ∃ full, READ_BUFFER_SIZE ≤ full.length ∧
      s.readLoop (answers (READ_BUFFER_SIZE - s.readBuf.length) bursts) =
        .ok (false, { s with readBuf := full }) := by
  induction bursts generalizing s with
  | nil =>
    simp only [List.flatten_nil, List.length_nil, Nat.add_zero] at h
    rw [answers, if_pos (by omega)]
    exact ⟨s.readBuf, h, rfl⟩
  | cons b bs ih =>
    have hb := hne b List.mem_cons_self
    simp only [List.flatten_cons, List.length_append] at h
    rw [answers]
    by_cases h0 : READ_BUFFER_SIZE - s.readBuf.length = 0
    · rw [if_pos h0]
      exact ⟨s.readBuf, by omega, rfl⟩
    · rw [if_neg h0]
      by_cases hfit : b.length ≤ READ_BUFFER_SIZE - s.readBuf.length
      · rw [if_pos hfit, TcpConnection.readLoop, if_neg hb, if_pos (by omega)]
        have := ih (s := { s with readBuf := s.readBuf ++ b })
          (fun b' hb' => hne b' (List.mem_cons_of_mem _ hb'))
          (by simp only [List.length_append]; omega)
        simpa only [List.length_append, ← Nat.sub_sub] using this
      · have hlen : (b.take (READ_BUFFER_SIZE - s.readBuf.length)).length =
            READ_BUFFER_SIZE - s.readBuf.length := by rw [List.length_take]; omega
        have hne' : b.take (READ_BUFFER_SIZE - s.readBuf.length) ≠ [] := by
          intro h'
          rw [h'] at hlen
          exact h0 hlen.symm
        rw [if_neg hfit, TcpConnection.readLoop, if_neg hne', if_pos (by omega),
          TcpConnection.readLoop, if_pos rfl]
        exact ⟨_, by rw [List.length_append]; omega, rfl⟩

theorem event_fits {c : HttpContext} (hne : ∀ b ∈ bursts, b ≠ [])
    (h : s.readBuf.length + bursts.flatten.length < READ_BUFFER_SIZE) (hc : s.context = some c) :
    event host bursts s = onMessage host { s with
      readBuf := s.readBuf ++ bursts.flatten
      context := some (c.setBuffer (s.readBuf ++ bursts.flatten)) } := by
  unfold event TcpConnection.handleRead
  rw [readLoop_fits hne h]
  simp only [ok_bind, if_true, hc]
  rfl

theorem event_full (host : Host) (hne : ∀ b ∈ bursts, b ≠ [])
    (h : READ_BUFFER_SIZE ≤ s.readBuf.length + bursts.flatten.length) :
    ∃ full, READ_BUFFER_SIZE ≤ full.length ∧
      event host bursts s = .ok { s with readBuf := full } := by
  obtain ⟨full, h1, h2⟩ := readLoop_full hne h
  refine ⟨full, h1, ?_⟩
  unfold event TcpConnection.handleRead
  rw [h2]
  rfl

/-! ### Answering -/

/-- The bytes begin with the head `q`, which has a `Connection` header, and no header follows. -/
structure Found (q : Head) (u : Bytes) : Prop where
  wf : q.WF
  split : ∃ v, u = q.lines ++ v ∧ Ended v
  connection : (connection q).isSome = true

/-- What an event does to a connection that answers. -/
structure Answered (host : Host) (q : Head) (s t : TcpConnection κ) : Prop where
  passed : t.passed = s.passed ++ [respond host q]
  context : t.context = some .new
  sound : Sound t
  connected : s.state = .CConnected → t.readBuf = [] ∧
    t.state = if closesAfter q then .CDisconnecting else .CConnected
  disconnecting : s.state = .CDisconnecting → t.state = .CDisconnecting ∧
    q.requestLine ++ [NUL, NUL] <+: t.readBuf

/-! ### Sending a response -/

/-- Nothing but output has been touched. -/
def Kept (s t : TcpConnection κ) : Prop := t.passed = s.passed ∧ t.context = s.context

/-- Any failure. -/
def Any (_ : Fault) : Prop := True

omit [DecidableEq κ] in
theorem onChannel_kept {op : κ → Net.Poller.EpollPoller κ → Except Fault (Net.Poller.EpollPoller κ)} :
    Ends Any (Kept s) (s.onChannel op) := by
  refine Ends.bind (Q := fun _ => True) ?_ fun p _ => ⟨rfl, rfl⟩
  cases op s.channel s.poller <;> trivial

theorem trySend_kept (buf : Payload) : Ends Any (fun x => Kept s x.2.2) (s.trySend buf) := by
  unfold TcpConnection.trySend
  split_ifs
  · exact ⟨rfl, rfl⟩
  · refine Ends.bind (Q := fun x => Kept s x.2) ?_ ?_
    · unfold TcpConnection.writeDirect
      cases s.writes with
      | nil => trivial
      | cons r ws =>
        cases r with
        | count n =>
          dsimp only
          split_ifs
          · exact ⟨rfl, rfl⟩
          · trivial
        | again => exact ⟨rfl, rfl⟩
        | reset => exact ⟨rfl, rfl⟩
        | error => exact ⟨rfl, rfl⟩
    · rintro ⟨r, t⟩ ht
      cases r with
      | count n =>
        dsimp only
        split_ifs
        · exact ht
        · exact ht
      | again => exact onChannel_kept.bind fun t' ht' => ⟨ht'.1.trans ht.1, ht'.2.trans ht.2⟩
      | reset => exact ht
      | error => exact ht

theorem sendInLoop_kept (buf : Payload) :
    Ends Any (fun t => t.readBuf = [] ∧ Kept s t) (s.sendInLoop buf) := by
  unfold TcpConnection.sendInLoop
  refine (trySend_kept buf).bind ?_
  rintro ⟨n, faultError, t⟩ ht
  dsimp only at ht ⊢
  by_cases hsave : ¬faultError = true ∧ n < buf.len
  · rw [if_pos hsave]
    refine Ends.bind (Q := Kept t) ?_ fun t' ht' => ?_
    · unfold TcpConnection.save
      dsimp only
      split
      · trivial
      · split
        · trivial
        · exact ⟨rfl, rfl⟩
    · have hkept : Kept s t' := ⟨ht'.1.trans ht.1, ht'.2.trans ht.2⟩
      by_cases hw : t'.chan.isWriting
      · rw [if_pos hw]
        exact ⟨rfl, hkept⟩
      · rw [if_neg hw]
        refine onChannel_kept.bind fun t'' ht'' => ?_
        exact ⟨rfl, ht''.1.trans hkept.1, ht''.2.trans hkept.2⟩
  · rw [if_neg hsave]
    exact ⟨rfl, ht⟩

theorem send_connected {buf : Payload} (h : Sound s) (hst : s.state = .CConnected) :
    Ends OutputFault (fun t => Sound t ∧ t.state = .CConnected ∧ t.readBuf = [] ∧
      t.passed = s.passed ++ [buf.bytes] ∧ t.context = s.context) (s.send true quiet buf) := by
  let s' : TcpConnection κ := { s with passed := s.passed ++ [buf.bytes] }
  have hs' : Sound s' := h.congr rfl rfl
  unfold TcpConnection.send
  simp only [if_pos hst]
  have hsend : Ends OutputFault (fun t => Sent buf s' t ∧ t.readBuf = [] ∧ Kept s' t)
      (s'.sendInLoop buf) := by
    have h1 := sendInLoop_spec hs' buf
    have h2 := sendInLoop_kept (s := s') buf
    cases hx : s'.sendInLoop buf with
    | ok t => exact ⟨h1.of_ok hx, h2.of_ok hx⟩
    | error e => exact h1.of_error hx
  refine hsend.imp fun t ht => ?_
  exact ⟨ht.1.sound hs', ht.1.life.state.trans hst, ht.2.1, ht.2.2.1, ht.2.2.2⟩

/-- One that is being shut down drops the response and keeps what it has read. -/
theorem send_disconnecting {buf : Payload} (hst : s.state = .CDisconnecting) :
    s.send true quiet buf = .ok { s with passed := s.passed ++ [buf.bytes] } := by
  unfold TcpConnection.send
  exact if_neg (show ¬s.state = .CConnected by rw [hst]; nofun)

theorem onRequest_spec (h : Sound s) (hst : s.state = .CConnected ∨ s.state = .CDisconnecting)
    (hconn : (connection q).isSome = true)
    (hbuf : s.state = .CDisconnecting → q.requestLine ++ [NUL, NUL] <+: s.readBuf) :
    Ends OutputFault (fun t => Answered host q s (t.setContext .new)) (onRequest host q.request s) := by
  obtain ⟨v, hv⟩ := Option.isSome_iff_exists.mp hconn
  have hget : q.request.getHeader (ascii "Connection") = .ok v := by
    unfold HttpRequest.getHeader
    rw [show q.request.headers[ascii "Connection"]? = some v from hv]
  have hcl : closes v q.request.version = closesAfter q := by
    unfold closesAfter
    rw [hv]
    rfl
  have hresp : (defaultHttpCB host q.request (.new (closesAfter q))).toString = respond host q := rfl
  have hclose : (defaultHttpCB host q.request (.new (closesAfter q))).closeConnection =
      closesAfter q := by rw [defaultHttpCB_eq rfl]
  unfold onRequest
  rw [hget, ok_bind, hcl]
  simp only [hresp, hclose]
  split
  · exact Or.inr (Or.inl rfl)
  · rcases hst with hst | hst
    · refine (send_connected h hst).bind fun t ht => ?_
      obtain ⟨h1, h2, h3, h4, h5⟩ := ht
      have hno : s.state ≠ .CDisconnecting := by rw [hst]; nofun
      split_ifs with hc
      · unfold TcpConnection.shutdown
        rw [if_pos h2]
        exact ⟨h4, rfl, h1.congr rfl rfl, fun _ => ⟨h3, (if_pos hc).symm⟩, fun h' => absurd h' hno⟩
      · exact ⟨h4, rfl, h1.congr rfl rfl, fun _ => ⟨h3, h2.trans (if_neg hc).symm⟩,
          fun h' => absurd h' hno⟩
    · rw [send_disconnecting hst, ok_bind]
      have hno : s.state ≠ .CConnected := by rw [hst]; nofun
      have hans : Answered host q s
          (({ s with passed := s.passed ++ [respond host q] } : TcpConnection κ).setContext .new) :=
        ⟨rfl, rfl, h.congr rfl rfl, fun h' => absurd h' hno, fun _ => ⟨hst, hbuf hst⟩⟩
      split_ifs
      · unfold TcpConnection.shutdown
        rw [if_neg hno]
        exact hans
      · exact hans

/-! ### The three outcomes of an event -/

/-- A connection that has answered whatever it has read. -/
structure Clean (s : TcpConnection κ) : Prop where
  state : s.state = .CConnected ∨ s.state = .CDisconnecting
  readBuf : s.readBuf = []
  context : s.context = some .new
  sound : Sound s

omit [DecidableEq κ] in
theorem Answered.clean (h : Answered host q s t) (hst : s.state = .CConnected) : Clean t where
  state := by
    rw [(h.connected hst).2]
    split_ifs
    · exact Or.inr rfl
    · exact Or.inl rfl
  readBuf := (h.connected hst).1
  context := h.context
  sound := h.sound

theorem onMessage_answered (h : Sound s) (hst : s.state = .CConnected ∨ s.state = .CDisconnecting)
    (hf : Found q u) : Ends OutputFault (Answered host q s)
      (onMessage host { s with readBuf := u, context := some (.setBuffer u .new) }) := by
  obtain ⟨v, rfl, hended⟩ := hf.split
  obtain ⟨c, hparse, hreq, hbuf⟩ := parseRequest_ended hf.wf hended
  unfold onMessage
  simp only [hparse, ok_bind, hreq]
  let s' : TcpConnection κ := { s with readBuf := c.buf, context := some c }
  refine (onRequest_spec (s := s') (h.congr rfl rfl) hst hf.connection fun _ => hbuf).bind ?_
  intro t ht
  exact ⟨ht.passed, ht.context, ht.sound, ht.connected, ht.disconnecting⟩

/-- **An event that begins with a head is answered.** -/
theorem event_answered (h : Clean s) (hne : ∀ b ∈ bursts, b ≠ [])
    (hlt : bursts.flatten.length < READ_BUFFER_SIZE) (hf : Found q bursts.flatten) :
    Ends OutputFault (Answered host q s) (event host bursts s) := by
  rw [event_fits hne (by rw [h.readBuf, List.length_nil]; omega) h.context, h.readBuf, List.nil_append]
  exact onMessage_answered h.sound h.state hf

/-- Without a head there is no `Connection` header to look at, or the parser does not return. -/
theorem onMessage_failed (host : Host) (hno : ∀ q, ¬Found q u) : ∃ e,
    onMessage host { s with readBuf := u, context := some (.setBuffer u .new) } = .error e ∧
      ¬OutputFault e := by
  have hout : ¬OutputFault .outOfBounds := by
    rintro (h | h | h) <;> cases h
  have hhang : ¬OutputFault .hang := by
    rintro (h | h | h) <;> cases h
  have hget : ∀ r : HttpRequest, r.headers[ascii "Connection"]? = none →
      onRequest host r = fun _ : TcpConnection κ => .error .outOfBounds := by
    intro r hr
    funext s
    unfold onRequest HttpRequest.getHeader
    rw [hr]
    rfl
  unfold onMessage
  rcases parseRequest_cases u with ⟨q, v, hwf, hu, hended, c, hparse, hreq, -⟩ |
    ⟨code, c, hparse, -, hheaders⟩ | ⟨q, v, -, -, -, hparse⟩
  · have hconn : q.request.headers[ascii "Connection"]? = none := by
      by_contra h
      exact hno q ⟨hwf, ⟨v, hu, hended⟩, Option.isSome_iff_ne_none.mpr h⟩
    simp only [hparse, ok_bind, hreq, hget _ hconn, error_bind]
    exact ⟨_, rfl, hout⟩
  · have hconn : c.request.headers[ascii "Connection"]? = none := by rw [hheaders]; rfl
    simp only [hparse, ok_bind, hget _ hconn, error_bind]
    exact ⟨_, rfl, hout⟩
  · simp only [hparse, error_bind]
    exact ⟨_, rfl, hhang⟩

theorem event_failed (host : Host) (h : Clean s) (hne : ∀ b ∈ bursts, b ≠ [])
    (hlt : bursts.flatten.length < READ_BUFFER_SIZE) (hno : ∀ q, ¬Found q bursts.flatten) :
    ∃ e, event host bursts s = .error e ∧ ¬OutputFault e := by
  rw [event_fits hne (by rw [h.readBuf, List.length_nil]; omega) h.context, h.readBuf, List.nil_append]
  exact onMessage_failed host hno

theorem word_unique {M M' A A' : Bytes} (hM : SP ∉ M) (hM' : SP ∉ M')
    (h : M ++ SP :: A = M' ++ SP :: A') : M = M' ∧ A = A' := by
  have hlen : M.length = M'.length := by
    rw [← idxOf_append hM A, h, idxOf_append hM' A']
  obtain ⟨h1, h2⟩ := List.append_inj h hlen
  exact ⟨h1, (List.cons.inj h2).2⟩

/-- No head begins with a request line whose end has been overwritten. -/
theorem not_found_dirty (hq : q.WF) (h : q.requestLine ++ [NUL, NUL] <+: u) (q' : Head) :
    ¬Found q' u := by
  rintro ⟨hq', ⟨v, hu, -⟩, -⟩
  obtain ⟨x, hx⟩ := h
  have heq : q.requestLine ++ [NUL, NUL] ++ x = q'.lines ++ v := hx.trans hu
  simp only [Head.lines, Head.requestLine, List.append_assoc, List.cons_append] at heq
  obtain ⟨-, heq⟩ := word_unique hq.method hq'.method heq
  obtain ⟨-, heq⟩ := word_unique hq.target hq'.target heq
  obtain ⟨-, heq⟩ := List.append_inj heq (hq.length.trans hq'.length.symm)
  injection heq with h1
  exact absurd h1 (by decide)

/-- **Nothing good comes of a buffer the parser has been through**: the event fails, or it does not
fit and is never answered. -/
theorem event_dirty (host : Host) (hq : q.WF) (h : q.requestLine ++ [NUL, NUL] <+: s.readBuf)
    (hc : s.context = some .new) (hne : ∀ b ∈ bursts, b ≠ []) :
    (∃ e, event host bursts s = .error e ∧ ¬OutputFault e) ∨
      ∃ full, READ_BUFFER_SIZE ≤ full.length ∧ event host bursts s = .ok { s with readBuf := full } := by
  by_cases hlt : s.readBuf.length + bursts.flatten.length < READ_BUFFER_SIZE
  · left
    rw [event_fits hne hlt hc]
    exact onMessage_failed host (not_found_dirty hq (h.trans (List.prefix_append _ _)))
  · exact Or.inr (event_full host hne (not_lt.mp hlt))

/-! ### What runs of events pass on -/

/-- The events are well formed. -/
def Bursts (evs : List (List Bytes)) : Prop :=
  (∀ e ∈ evs, ∀ b ∈ e, b ≠ []) ∧ ∀ e ∈ evs, e.flatten.length < READ_BUFFER_SIZE

theorem bursts_cons {e : List Bytes} {es : List (List Bytes)} (h : Bursts (e :: es)) :
    (∀ b ∈ e, b ≠ []) ∧ e.flatten.length < READ_BUFFER_SIZE ∧ Bursts es :=
  ⟨h.1 e List.mem_cons_self, h.2 e List.mem_cons_self,
    fun e' he' => h.1 e' (List.mem_cons_of_mem _ he'),
    fun e' he' => h.2 e' (List.mem_cons_of_mem _ he')⟩

variable {es : List (List Bytes)}

theorem serve_cons_ok {e : List Bytes} (h : serve host (e :: es) s = .ok t) :
    ∃ s', event host e s = .ok s' ∧ serve host es s' = .ok t := bind_eq_ok.mp h

theorem serve_full (hb : Bursts es) (hfull : READ_BUFFER_SIZE ≤ s.readBuf.length)
    (h : serve host es s = .ok t) : t.passed = s.passed := by
  induction es generalizing s with
  | nil => rw [← Except.ok.inj h]
  | cons e es ih =>
    obtain ⟨hne, -, hb'⟩ := bursts_cons hb
    obtain ⟨s', h1, h2⟩ := serve_cons_ok h
    obtain ⟨full, h3, h4⟩ := event_full host hne (Nat.le_add_right_of_le hfull)
    rw [h4] at h1
    obtain rfl := Except.ok.inj h1
    exact ih (s := { s with readBuf := full }) hb' h3 h2

theorem serve_dirty (hb : Bursts es) (hq : q.WF) (hd : q.requestLine ++ [NUL, NUL] <+: s.readBuf)
    (hc : s.context = some .new) (h : serve host es s = .ok t) : t.passed = s.passed := by
  cases es with
  | nil => rw [← Except.ok.inj h]
  | cons e es =>
    obtain ⟨hne, -, hb'⟩ := bursts_cons hb
    obtain ⟨s', h1, h2⟩ := serve_cons_ok h
    rcases event_dirty host hq hd hc hne with ⟨f, hf, -⟩ | ⟨full, hfull, hf⟩
    · rw [hf] at h1
      cases h1
    · rw [hf] at h1
      obtain rfl := Except.ok.inj h1
      exact serve_full (s := { s with readBuf := full }) hb' hfull h2

theorem event_ok {e : List Bytes} {s' : TcpConnection κ} (h : Clean s) (hne : ∀ b ∈ e, b ≠ [])
    (hlt : e.flatten.length < READ_BUFFER_SIZE) (hok : event host e s = .ok s') :
    ∃ q, Found q e.flatten := by
  by_contra hno
  obtain ⟨f, hf, -⟩ := event_failed host h hne hlt (not_exists.mp hno)
  rw [hf] at hok
  cases hok

theorem serve_grows (hb : Bursts es) (hc : Clean s) (h : serve host es s = .ok t) :
    s.passed <+: t.passed := by
  induction es generalizing s with
  | nil => rw [← Except.ok.inj h]
  | cons e es ih =>
    obtain ⟨hne, hlt, hb'⟩ := bursts_cons hb
    obtain ⟨s', h1, h2⟩ := serve_cons_ok h
    obtain ⟨q, hq⟩ := event_ok hc hne hlt h1
    have hans := (event_answered hc hne hlt hq).of_ok h1
    have hpre : s.passed <+: s'.passed := by
      rw [hans.passed]
      exact List.prefix_append _ _
    rcases hc.state with hs | hs
    · exact hpre.trans (ih hb' (hans.clean hs) h2)
    · rw [serve_dirty hb' hq.wf (hans.disconnecting hs).2 hans.context h2]
      exact hpre

/-! ### Runs in which every response fits -/

/-- The next `n` writes fail for good, so that nothing is buffered. -/
structure Quiet (n : ℕ) (s : TcpConnection κ) : Prop where
  writing : ¬s.chan.isWriting
  enough : n ≤ s.writes.length
  reset : ∀ w ∈ s.writes, w = .reset

theorem sendInLoop_quiet {n : ℕ} (h : Quiet (n + 1) s) (buf : Payload) :
    ∃ t, s.sendInLoop buf = .ok t ∧ Quiet n t := by
  have henough := h.enough
  cases hws : s.writes with
  | nil =>
    rw [hws, List.length_nil] at henough
    omega
  | cons w ws =>
    have hreset := h.reset
    rw [hws] at henough hreset
    obtain rfl := hreset w List.mem_cons_self
    let s' : TcpConnection κ := { s with
      writes := ws, calls := s.calls ++ [.direct s.state s.writeIdx buf.len .reset] }
    have htry : s.trySend buf = .ok (-1, true, s') := by
      unfold TcpConnection.trySend TcpConnection.writeDirect
      rw [if_neg h.writing, hws]
      rfl
    refine ⟨{ s' with readBuf := [] }, ?_, h.writing, Nat.le_of_succ_le_succ henough, ?_⟩
    · unfold TcpConnection.sendInLoop
      rw [htry, ok_bind]
      exact if_neg (by simp)
    · exact fun w hw => hreset w (List.mem_cons_of_mem _ hw)

theorem onRequest_quiet {n : ℕ} (hhost : Tiny host) (h : Quiet (n + 1) s) (hq : q.WF) :
    Ends (fun e => ¬OutputFault e) (Quiet n) (onRequest host q.request s) := by
  unfold onRequest
  refine Ends.bind (Q := fun v => closes v q.request.version = closesAfter q) ?_ fun v hv => ?_
  · unfold HttpRequest.getHeader
    cases hget : q.request.headers[ascii "Connection"]? with
    | none => rintro (h' | h' | h') <;> cases h'
    | some v =>
      show closes v q.request.version = closesAfter q
      unfold closesAfter Answer.connection
      rw [hget]
      rfl
  · rw [hv]
    have hlen := length_respond hhost hq.length
    have hresp : (defaultHttpCB host q.request (.new (closesAfter q))).toString = respond host q :=
      rfl
    simp only [hresp, not_lt.mpr hlen, if_false]
    have hsend : ∃ t : TcpConnection κ, s.send true quiet ⟨host.front, respond host q⟩ = .ok t ∧
        Quiet n t := by
      have h' : Quiet (n + 1) { s with passed := s.passed ++ [respond host q] } :=
        ⟨h.writing, h.enough, h.reset⟩
      unfold TcpConnection.send
      dsimp only
      split_ifs
      · exact sendInLoop_quiet h' _
      · exact ⟨_, rfl, h.writing, Nat.le_of_succ_le h.enough, h.reset⟩
    obtain ⟨t, ht, hquiet⟩ := hsend
    simp only [pure_eq_ok, ok_bind, ht]
    split_ifs
    · unfold TcpConnection.shutdown
      split_ifs
      · exact ⟨hquiet.writing, hquiet.enough, hquiet.reset⟩
      · exact hquiet
    · exact hquiet

theorem event_quiet {n : ℕ} (hhost : Tiny host) (hc : s.context = some .new) (h : Quiet (n + 1) s)
    (hne : ∀ b ∈ bursts, b ≠ []) : Ends (fun e => ¬OutputFault e)
      (fun t => t.context = some .new ∧ Quiet n t) (event host bursts s) := by
  by_cases hlt : s.readBuf.length + bursts.flatten.length < READ_BUFFER_SIZE
  · rw [event_fits hne hlt hc]
    by_cases hf : ∃ q, Found q (s.readBuf ++ bursts.flatten)
    · obtain ⟨q, hf⟩ := hf
      obtain ⟨v, hu, hended⟩ := hf.split
      obtain ⟨c, hparse, hreq, -⟩ := parseRequest_ended hf.wf hended
      unfold onMessage
      simp only [hu, hparse, ok_bind, hreq]
      let s' : TcpConnection κ := { s with readBuf := c.buf, context := some c }
      refine (onRequest_quiet (s := s') hhost ⟨h.writing, h.enough, h.reset⟩ hf.wf).bind ?_
      intro t ht
      exact ⟨rfl, ht.writing, ht.enough, ht.reset⟩
    · obtain ⟨e, he, hno⟩ := onMessage_failed (s := s) host (not_exists.mp hf)
      rw [he]
      exact hno
  · obtain ⟨full, -, hfull⟩ := event_full host hne (not_lt.mp hlt)
    rw [hfull]
    exact ⟨hc, h.writing, Nat.le_of_succ_le h.enough, h.reset⟩

/-- **Such a run does not fail for want of room.** -/
theorem serve_quiet (hhost : Tiny host) (hb : Bursts es) (hc : s.context = some .new)
    (h : Quiet es.length s) : Ends (fun e => ¬OutputFault e) (fun _ => True) (serve host es s) := by
  induction es generalizing s with
  | nil => trivial
  | cons e es ih =>
    obtain ⟨hne, -, hb'⟩ := bursts_cons hb
    exact (event_quiet hhost hc h hne).bind fun t ht => ih hb' ht.1 ht.2

end ReactorServer.Http.Exchange
