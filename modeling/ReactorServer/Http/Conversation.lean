import ReactorServer.Http.Replies
import ReactorServer.Http.Segmentation
import ReactorServer.Net.Stream

/-!
# A conversation

An established connection of the HTTP server, from the socket to the socket: it becomes readable and
writable in any order, its peer hangs up, its loop runs what was queued for it, and meanwhile the
other channels of the loop change.  In a run in which every read event begins with a head and the
`write`s are orderly, the client gets the responses to these heads, in order, up to the first one that
closes the connection (`listening_run`); and at any time it has read the first of them
(`conversation_read`).
-/

namespace ReactorServer.Http.Conversation

open ReactorServer.Cpp ReactorServer.Lib.Runs ReactorServer.Lib.Triples ReactorServer.Lib.Lines
open ReactorServer.Lib.Frames
open ReactorServer.Http.Request ReactorServer.Http.Response ReactorServer.Http.Server
open ReactorServer.Http.Parsing ReactorServer.Http.Answer
open ReactorServer.Http.Framing hiding page
open ReactorServer.Http.Exchange hiding Any Clean
open ReactorServer.Http.Segmentation ReactorServer.Http.Replies
open ReactorServer.Net.Poller ReactorServer.Net.Connection ReactorServer.Net.Connection.TcpConnection
open ReactorServer.Net.Registration ReactorServer.Net.Dispatch ReactorServer.Net.Output
open ReactorServer.Net.Transfer ReactorServer.Net.Stream

variable {κ : Type} [DecidableEq κ]

/-! ### The machine -/

inductive Act (κ : Type)
  /-- the socket is readable: the bytes come in these bursts and begin with the head `q` -/
  | readable (q : Head) (bursts : List Bytes) (writes : List WriteResult)
  /-- the socket is writable -/
  | writable (drains : List WriteResult)
  /-- the peer has hung up -/
  | hup
  /-- the loop calls the next functor -/
  | exec
  /-- the base loop runs `removeConnectionInLoop` -/
  | removed
  /-- other channels of the loop have changed -/
  | elsewhere (p : EpollPoller κ)

def step (host : Host) (s : TcpConnection κ) : Act κ → Except Fault (TcpConnection κ)
  | .readable _ bursts writes => event host bursts { s with writes := writes }
  | .writable drains => s.handleWrite (httpServer host) drains
  | .hup => s.handleClose (httpServer host)
  | .exec =>
    match s.pending with
    | [] => .error .outOfBounds
    | g :: gs => invoke (httpServer host) g { s with pending := gs }
  | .removed => { s with removal := false }.removeConnectionInLoop
  | .elsewhere p => .ok { s with poller := p }

/-- The poller has changed, but not for this channel. -/
structure Elsewhere (c : κ) (p q : EpollPoller κ) : Prop where
  registered : Registered q
  chan : q.chan c = p.chan c
  free : Free q c

/-- What the other side and the kernel do: a connected client sends requests, and the `write`s take
what they can. -/
def Orderly (host : Host) (s : TcpConnection κ) : Act κ → Prop
  | .readable q bursts writes => (∀ b ∈ bursts, b ≠ []) ∧ (s.state = .CConnected →
      bursts.flatten.length < READ_BUFFER_SIZE ∧ Found q bursts.flatten ∧
      Whole s ⟨host.front, respond host q⟩ writes)
  | .writable drains => s.chan.isWriting → Drained s drains
  | .hup => True
  | .exec => s.pending ≠ []
  | .removed => s.removal = true
  | .elsewhere p => s.destroyed = false → Elsewhere s.channel s.poller p

/-- What is left when the connection has been destroyed: functors, and the others. -/
def Act.afterwards : Act κ → Prop
  | .exec => True
  | .elsewhere _ => True
  | _ => False

def conversationMachine (host : Host) (κ : Type) [DecidableEq κ] :
    Machine (TcpConnection κ) (Act κ) Fault where
  enabled s a := (s.destroyed = true → a.afterwards) ∧ Orderly host s a
  step := step host

/-- The heads that are answered: up to the first whose response closes the connection, and none
after the peer has hung up. -/
def answered : List (Act κ) → List Head
  | [] => []
  | .readable q _ _ :: as => q :: if closesAfter q then [] else answered as
  | .hup :: _ => []
  | .writable _ :: as => answered as
  | .exec :: as => answered as
  | .removed :: as => answered as
  | .elsewhere _ :: as => answered as

/-- The response object whose text is `respond`. -/
def response (host : Host) (q : Head) : HttpResponse :=
  defaultHttpCB host q.request (.new (closesAfter q))

variable {host : Host} {s t u : TcpConnection κ} {q : Head} {as : List (Act κ)}

/-! ### What is kept -/

/-- What holds of the connection all the time.  Only the end of its life is queued while it is no
longer connected. -/
structure Attended (s : TcpConnection κ) : Prop where
  buffered : Buffered s
  pending : ∀ g ∈ s.pending, g = .writeComplete ∨ g = .connectionDestroyed ∧ s.state ≠ .CConnected
  removal : s.removal = true → s.state ≠ .CConnected

/-- The connection waits for a request. -/
structure Listening (s : TcpConnection κ) : Prop extends Attended s where
  connected : s.state = .CConnected
  alive : s.destroyed = false
  clean : Exchange.Clean s

omit [DecidableEq κ] in
theorem mem_queued {gs : List Functor} (h : gs = s.pending ∨ gs = s.pending ++ [.writeComplete])
    {g : Functor} (hg : g ∈ gs) : g ∈ s.pending ∨ g = .writeComplete := by
  rcases h with rfl | rfl
  · exact Or.inl hg
  · exact (List.mem_append.mp hg).imp id List.mem_singleton.mp

omit [DecidableEq κ] in
theorem Attended.queued (h : Attended s) (ht : Buffered t)
    (hp : t.pending = s.pending ∨ t.pending = s.pending ++ [.writeComplete])
    (hst : t.state = .CConnected → s.state = .CConnected) (hr : t.removal = s.removal) :
    Attended t where
  buffered := ht
  pending := by
    intro g hg
    rcases mem_queued hp hg with hg | rfl
    · exact (h.pending g hg).imp id fun h' => ⟨h'.1, fun h'' => h'.2 (hst h'')⟩
    · exact Or.inl rfl
  removal := fun h' h'' => h.removal (hr ▸ h') (hst h'')

omit [DecidableEq κ] in
theorem Attended.elsewhere (h : Attended s) {p : EpollPoller κ}
    (hp : Elsewhere s.channel s.poller p) : Attended { s with poller := p } where
  buffered := by
    have hchan : ({ s with poller := p } : TcpConnection κ).chan = s.chan := hp.chan
    have hb := h.buffered
    refine ⟨⟨hp.registered, hp.free, ?_⟩, hb.idx, ?_, ?_, hb.made, hb.issued⟩
    · rw [hchan]
      exact hb.nonEvent
    · rw [hchan]
      exact hb.writing
    · rw [hchan]
      exact hb.short
  pending := h.pending
  removal := h.removal

omit [DecidableEq κ] in
theorem Listening.elsewhere (h : Listening s) {p : EpollPoller κ}
    (hp : Elsewhere s.channel s.poller p) : Listening { s with poller := p } where
  toAttended := h.toAttended.elsewhere hp
  connected := h.connected
  alive := h.alive
  clean := ⟨h.clean.state, h.clean.readBuf, h.clean.context,
    (h.toAttended.elsewhere hp).buffered.toSound⟩

/-! ### While the connection is connected -/

theorem send_stream (h : Buffered s) (hst : s.state = .CConnected) {buf : Payload}
    {writes : List WriteResult} (hw : Whole s buf writes) (rb : Bytes) (ctx) :
    Ends Any (fun t => Buffered t ∧ stream t = stream s ++ buf.bytes ∧ t.state = .CConnected ∧
      (t.pending = s.pending ∨ t.pending = s.pending ++ [.writeComplete]) ∧
      t.removal = s.removal ∧ t.destroyed = s.destroyed)
      (TcpConnection.send true quiet buf
        { s with writes := writes, readBuf := rb, context := ctx }) := by
  let s' : TcpConnection κ :=
    { s with readBuf := rb, context := ctx, passed := s.passed ++ [buf.bytes] }
  have hs' : Buffered s' := h.congr rfl rfl rfl rfl rfl
  have hw' : Whole s' buf writes := hw.congr rfl rfl rfl rfl rfl
  obtain ⟨t, ht, hstream⟩ := sendInLoop_stream hs' hw'
  have hs'' : Buffered { s' with writes := writes } := hs'.congr rfl rfl rfl rfl rfl
  have hsent : Sent buf { s' with writes := writes } t := (sendInLoop_spec hs''.toSound buf).of_ok ht
  unfold TcpConnection.send
  dsimp only
  rw [if_pos hst]
  show Ends Any _ (sendInLoop buf { s' with writes := writes })
  rw [ht]
  exact ⟨hs''.sent hsent, hstream, hsent.life.state.trans hst, hsent.pending, hsent.life.removal,
    hsent.life.destroyed⟩

theorem onRequest_stream (h : Attended s) (hst : s.state = .CConnected)
    (hconn : (connection q).isSome = true) {writes : List WriteResult}
    (hw : Whole s ⟨host.front, respond host q⟩ writes) (rb : Bytes) (ctx) :
    Ends Any (fun t => Attended t ∧ stream t = stream s ++ respond host q ∧
      t.destroyed = s.destroyed)
      (onRequest host q.request { s with writes := writes, readBuf := rb, context := ctx }) := by
  obtain ⟨v, hv⟩ := Option.isSome_iff_exists.mp hconn
  have hget : q.request.getHeader (ascii "Connection") = .ok v := by
    unfold HttpRequest.getHeader
    rw [show q.request.headers[ascii "Connection"]? = some v from hv]
  have hcl : closes v q.request.version = closesAfter q := by
    unfold closesAfter
    rw [hv]
    rfl
  have hresp : (defaultHttpCB host q.request (.new (closesAfter q))).toString = respond host q := rfl
  unfold onRequest
  rw [hget, ok_bind, hcl]
  simp only [hresp]
  split
  · trivial
  · refine (send_stream h.buffered hst hw rb ctx).bind fun t ht => ?_
    obtain ⟨hbuf, hstream, hconnected, hpending, hremoval, hdestroyed⟩ := ht
    have hatt : Attended t := h.queued hbuf hpending (fun _ => hst) hremoval
    split_ifs
    · unfold TcpConnection.shutdown
      rw [if_pos hconnected]
      have hshut : Buffered (t.setState .CDisconnecting).shutdownInLoop := by
        have h1 := call_buffered hbuf true .shutdown
        have h2 : Call.run true observer Call.shutdown t =
            .ok (t.setState .CDisconnecting).shutdownInLoop := if_pos hconnected
        exact h1.of_ok h2
      refine ⟨⟨hshut, fun g hg => ?_, fun _ => nofun⟩, hstream, hdestroyed⟩
      exact (hatt.pending g hg).imp id fun h' => ⟨h'.1, nofun⟩
    · exact ⟨hatt, hstream, hdestroyed⟩

/-- **A request is answered**, and unless the response closes the connection it listens again. -/
theorem readable_listening (h : Listening s) {bursts : List Bytes} {writes : List WriteResult}
    (ho : Orderly host s (.readable q bursts writes)) :
    Ends Any (fun t => stream t = stream s ++ respond host q ∧
      if closesAfter q then Attended t ∧ t.state = .CDisconnecting else Listening t)
      (step host s (.readable q bursts writes)) := by
  obtain ⟨hne, hopen⟩ := ho
  obtain ⟨hlt, hf, hw⟩ := hopen h.connected
  have hclean : Exchange.Clean { s with writes := writes } :=
    ⟨Or.inl h.connected, h.clean.readBuf, h.clean.context, h.clean.sound.congr rfl rfl⟩
  have hstream : Ends Any (fun t => Attended t ∧ stream t = stream s ++ respond host q ∧
      t.destroyed = s.destroyed) (event host bursts { s with writes := writes }) := by
    have hlen : ({ s with writes := writes } : TcpConnection κ).readBuf.length +
        bursts.flatten.length < READ_BUFFER_SIZE := by
      rw [hclean.readBuf, List.length_nil]
      omega
    obtain ⟨v, hu, hended⟩ := hf.split
    obtain ⟨c, hparse, hreq, -⟩ := parseRequest_ended hf.wf hended
    rw [event_fits hne hlen hclean.context, hclean.readBuf, List.nil_append, hu]
    unfold onMessage
    simp only [hparse, ok_bind, hreq]
    refine (onRequest_stream h.toAttended h.connected hf.connection hw c.buf (some c)).bind ?_
    rintro t ⟨ht, hbytes, hdestroyed⟩
    exact ⟨⟨ht.buffered.congr rfl rfl rfl rfl rfl, ht.pending, ht.removal⟩, hbytes, hdestroyed⟩
  have hanswer : Ends OutputFault _ (event host bursts { s with writes := writes }) :=
    event_answered hclean hne hlt hf
  show Ends Any _ (event host bursts { s with writes := writes })
  cases hx : event host bursts { s with writes := writes } with
  | error f => trivial
  | ok t =>
    obtain ⟨hatt, hbytes, hdestroyed⟩ := hstream.of_ok hx
    have hans := hanswer.of_ok hx
    refine ⟨hbytes, ?_⟩
    have hst := (hans.connected h.connected).2
    split_ifs with hc
    · exact ⟨hatt, hst.trans (if_pos hc)⟩
    · exact ⟨hatt, hst.trans (if_neg hc), hdestroyed.trans h.alive, hans.clean h.connected⟩

omit [DecidableEq κ] in
theorem attended_of_moved (hm : Moved s t) (h : Attended s) (ht : Buffered t) : Attended t :=
  h.queued ht hm.pending (fun hst => hm.state.symm.trans hst) hm.removal

/-- Either way a drain is a drain. -/
theorem writable_attended (h : Attended s) {drains : List WriteResult}
    (ho : Orderly host s (.writable drains)) :
    Ends Any (fun t => Moved s t ∧ Attended t) (step host s (.writable drains)) := by
  obtain ⟨t, ht, hmoved⟩ := handleWrite_moved h.buffered.toSound fun hw => ⟨h.buffered.idx, ho hw⟩
  show Ends Any _ (s.handleWrite (httpServer host) drains)
  rw [ht]
  have hbuf := (handleWrite_buffered h.buffered drains).of_ok (ht observer)
  exact ⟨hmoved, attended_of_moved hmoved h hbuf⟩

theorem writable_listening (h : Listening s) {drains : List WriteResult}
    (ho : Orderly host s (.writable drains)) :
    Ends Any (fun t => stream t = stream s ∧ Listening t) (step host s (.writable drains)) := by
  refine (writable_attended h.toAttended ho).imp ?_
  rintro t ⟨hmoved, hatt⟩
  have hst : t.state = .CConnected := hmoved.state.trans h.connected
  exact ⟨hmoved.bytes, hatt, hst, hmoved.destroyed.trans h.alive, Or.inl hst,
    hmoved.readBuf.trans h.clean.readBuf, hmoved.context.trans h.clean.context,
    hatt.buffered.toSound⟩

theorem exec_listening (h : Listening s) :
    Ends Any (fun t => stream t = stream s ∧ Listening t) (step host s .exec) := by
  show Ends Any _ (match s.pending with
    | [] => .error .outOfBounds
    | g :: gs => invoke (httpServer host) g { s with pending := gs })
  cases hp : s.pending with
  | nil => trivial
  | cons g gs =>
    have hmem : ∀ g' ∈ gs, g' ∈ s.pending := fun g' hg' => hp ▸ List.mem_cons_of_mem _ hg'
    rcases h.pending g (hp ▸ List.mem_cons_self) with rfl | ⟨-, hno⟩
    · exact ⟨rfl, ⟨h.buffered.congr rfl rfl rfl rfl rfl, fun g' hg' => h.pending g' (hmem g' hg'),
        h.removal⟩, h.connected, h.alive, h.clean.state, h.clean.readBuf, h.clean.context,
        h.clean.sound.congr rfl rfl⟩
    · exact absurd h.connected hno

/-! ### Afterwards -/

/-- The end of a connection that is no longer connected, in the server's map and in the poller. -/
structure Over (s t : TcpConnection κ) : Prop where
  bytes : stream t = stream s
  attended : Attended t
  state : t.state ≠ .CConnected

theorem hup_over (h : Attended s) : Ends Any (Over s) (step host s .hup) := by
  have h1 := handleClose_buffered h.buffered
  have h2 : Ends Any (Silent s) (s.handleClose observer) := handleClose_silent
  have h3 : Ends Any (fun t => t.pending = s.pending ∨ t.pending = s.pending ++ [.connectionDestroyed])
      (s.handleClose observer) := by
    rw [handleClose_eq h.buffered.toSound]
    refine (assert_spec fun _ => trivial).bind fun _ _ => ?_
    unfold TcpConnection.closeCB
    split_ifs
    · exact (assert_spec fun _ => trivial).bind fun _ _ => Or.inr rfl
    · exact Or.inl rfl
  show Ends Any _ (s.handleClose observer)
  cases hx : s.handleClose observer with
  | error f => trivial
  | ok t =>
    obtain ⟨hbuf, hst⟩ := h1.of_ok hx
    have hne : t.state ≠ .CConnected := by rw [hst]; nofun
    refine ⟨(h2.of_ok hx).stream, ⟨hbuf, fun g hg => ?_, fun _ => hne⟩, hne⟩
    rcases h3.of_ok hx with hp | hp
    · exact (h.pending g (hp ▸ hg)).imp id fun h' => ⟨h'.1, hne⟩
    · rw [hp] at hg
      rcases List.mem_append.mp hg with hg | hg
      · exact (h.pending g hg).imp id fun h' => ⟨h'.1, hne⟩
      · exact Or.inr ⟨List.mem_singleton.mp hg, hne⟩

/-- What is read now is parsed and the response dropped. -/
theorem onMessage_over (hst : s.state ≠ .CConnected) :
    Ends Any (fun t => ∃ rb ctx ps, t = { s with readBuf := rb, context := ctx, passed := ps })
      (onMessage host s) := by
  unfold onMessage
  cases s.context with
  | none => trivial
  | some c =>
    refine Ends.bind (Q := fun _ => True) ?_ fun x _ => ?_
    · cases c.parseRequest <;> trivial
    · refine Ends.bind (Q := fun t => ∃ ps,
        t = { s with readBuf := x.2.buf, context := some x.2, passed := ps }) ?_ ?_
      · unfold onRequest
        refine Ends.bind (Q := fun _ => True) ?_ fun v _ => ?_
        · cases x.2.request.getHeader (ascii "Connection") <;> trivial
        · dsimp only
          split
          · trivial
          · unfold TcpConnection.send
            dsimp only
            rw [if_neg hst, ok_bind]
            split_ifs
            · unfold TcpConnection.shutdown
              rw [if_neg hst]
              exact ⟨_, rfl⟩
            · exact ⟨_, rfl⟩
      · rintro t ⟨ps, rfl⟩
        exact ⟨_, _, ps, rfl⟩

omit [DecidableEq κ] in
theorem Attended.over (h : Attended s) (hst : s.state ≠ .CConnected) (rb : Bytes) (ctx)
    (ps : List Bytes) (ws : List WriteResult) :
    Over s { s with readBuf := rb, context := ctx, passed := ps, writes := ws } :=
  ⟨rfl, ⟨h.buffered.congr rfl rfl rfl rfl rfl, h.pending, h.removal⟩, hst⟩

theorem readable_over (h : Attended s) (hst : s.state ≠ .CConnected) {bursts : List Bytes}
    {writes : List WriteResult} (ho : Orderly host s (.readable q bursts writes)) :
    Ends Any (Over s) (step host s (.readable q bursts writes)) := by
  show Ends Any _ (event host bursts { s with writes := writes })
  by_cases hlt : ({ s with writes := writes } : TcpConnection κ).readBuf.length +
      bursts.flatten.length < READ_BUFFER_SIZE
  · by_cases hnone : s.context = none
    · unfold event TcpConnection.handleRead
      rw [readLoop_fits ho.1 hlt, ok_bind]
      simp only [if_true, hnone]
      trivial
    · obtain ⟨c, hc⟩ := Option.ne_none_iff_exists'.mp hnone
      rw [event_fits ho.1 hlt hc]
      refine Ends.imp (onMessage_over ?_) ?_
      · exact hst
      rintro t ⟨rb, ctx, ps, rfl⟩
      exact h.over hst rb ctx ps writes
  · obtain ⟨full, -, hfull⟩ := event_full host ho.1 (not_lt.mp hlt)
    rw [hfull]
    exact h.over hst full s.context s.passed writes

theorem connectionDestroyed_over (hst : s.state ≠ .CConnected) :
    Ends Any (fun t => t.pending = s.pending ∧ t.state = s.state ∧ t.removal = s.removal ∧
      t.destroyed = true) (s.connectionDestroyed observer) := by
  unfold TcpConnection.connectionDestroyed
  rw [if_neg hst]
  simp only [pure_eq_ok, ok_bind]
  unfold TcpConnection.onChannel
  cases EpollPoller.remove s.channel s.poller with
  | error f => trivial
  | ok p => exact ⟨rfl, rfl, rfl, rfl⟩

theorem exec_over (h : Attended s) (hst : s.state ≠ .CConnected) :
    Ends Any (Over s) (step host s .exec) := by
  show Ends Any _ (match s.pending with
    | [] => .error .outOfBounds
    | g :: gs => invoke (httpServer host) g { s with pending := gs })
  cases hp : s.pending with
  | nil => trivial
  | cons g gs =>
    have hs : Attended { s with pending := gs } :=
      ⟨h.buffered.congr rfl rfl rfl rfl rfl,
        fun g' hg' => h.pending g' (hp ▸ List.mem_cons_of_mem _ hg'), h.removal⟩
    rcases h.pending g (hp ▸ List.mem_cons_self) with rfl | ⟨rfl, -⟩
    · exact ⟨rfl, hs, hst⟩
    · show Ends Any _ (({ s with pending := gs } : TcpConnection κ).connectionDestroyed observer)
      have h1 := connectionDestroyed_buffered hs.buffered
      have h2 := connectionDestroyed_silent (s := { s with pending := gs })
      have h3 := connectionDestroyed_over (s := { s with pending := gs }) hst
      cases hx : ({ s with pending := gs } : TcpConnection κ).connectionDestroyed observer with
      | error f => trivial
      | ok t =>
        obtain ⟨hpending, hstate, -, -⟩ := h3.of_ok hx
        have hne : t.state ≠ .CConnected := by rw [hstate]; exact hst
        have hbytes : stream t = stream s := (h2.of_ok hx).stream
        exact ⟨hbytes, ⟨h1.of_ok hx, fun g' hg' => (hs.pending g' (hpending ▸ hg')).imp id
          fun h' => ⟨h'.1, hne⟩, fun _ => hne⟩, hne⟩

theorem removed_over (h : Attended s) (hst : s.state ≠ .CConnected) :
    Ends Any (Over s) (step host s .removed) := by
  refine (assert_spec fun _ => trivial).bind fun _ _ => ?_
  refine ⟨rfl, ⟨h.buffered.congr rfl rfl rfl rfl rfl, fun g hg => ?_, fun _ => hst⟩, hst⟩
  rcases List.mem_append.mp hg with hg | hg
  · exact h.pending g hg
  · exact Or.inr ⟨List.mem_singleton.mp hg, hst⟩

theorem step_over (h : Attended s) (hst : s.state ≠ .CConnected) (hd : s.destroyed = false)
    (a : Act κ) (ho : Orderly host s a) : Ends Any (Over s) (step host s a) := by
  cases a with
  | readable q bursts writes => exact readable_over h hst ho
  | writable drains =>
    refine (writable_attended h ho).imp ?_
    rintro t ⟨hmoved, hatt⟩
    exact ⟨hmoved.bytes, hatt, by rw [hmoved.state]; exact hst⟩
  | hup => exact hup_over h
  | exec => exact exec_over h hst
  | removed => exact removed_over h hst
  | elsewhere p => exact ⟨rfl, h.elsewhere (ho hd), hst⟩

/-- What holds of the connection from then on, also when it has been destroyed. -/
structure Past (s : TcpConnection κ) : Prop where
  attended : s.destroyed = false → Attended s
  pending : ∀ g ∈ s.pending, g = .writeComplete ∨ g = .connectionDestroyed
  state : s.state ≠ .CConnected

omit [DecidableEq κ] in
theorem Attended.past (h : Attended s) (hst : s.state ≠ .CConnected) : Past s :=
  ⟨fun _ => h, fun g hg => (h.pending g hg).imp id And.left, hst⟩

/-- A functor of a connection that has been destroyed. -/
theorem exec_destroyed (h : Past s) (hd : s.destroyed = true) :
    Ends Any (fun t => stream t = stream s ∧ Past t) (step host s .exec) := by
  show Ends Any _ (match s.pending with
    | [] => .error .outOfBounds
    | g :: gs => invoke (httpServer host) g { s with pending := gs })
  have hpast : ∀ {gs : List Functor} {t : TcpConnection κ}, (∀ g ∈ gs, g ∈ s.pending) →
      t.pending = gs → t.state = s.state → t.destroyed = true → Past t := by
    intro gs t hgs hp hst hd'
    refine ⟨fun hno => ?_, fun g hg => h.pending g (hgs g (hp ▸ hg)), by rw [hst]; exact h.state⟩
    rw [hd'] at hno
    cases hno
  cases hp : s.pending with
  | nil => trivial
  | cons g gs =>
    have hgs : ∀ g' ∈ gs, g' ∈ s.pending := fun g' hg' => hp ▸ List.mem_cons_of_mem _ hg'
    rcases h.pending g (hp ▸ List.mem_cons_self) with rfl | rfl
    · exact ⟨rfl, hpast hgs rfl rfl hd⟩
    · show Ends Any _ (({ s with pending := gs } : TcpConnection κ).connectionDestroyed observer)
      have h1 := connectionDestroyed_silent (s := { s with pending := gs })
      have h2 := connectionDestroyed_over (s := { s with pending := gs }) h.state
      cases hx : ({ s with pending := gs } : TcpConnection κ).connectionDestroyed observer with
      | error f => trivial
      | ok t =>
        obtain ⟨hpending, hstate, -, hd'⟩ := h2.of_ok hx
        exact ⟨(h1.of_ok hx).stream, hpast hgs hpending hstate hd'⟩

/-- **Nothing more is sent** on a connection that is no longer connected. -/
theorem step_past (h : Past s) {a : Act κ} (ha : (conversationMachine host κ).enabled s a) :
    Ends Any (fun t => stream t = stream s ∧ Past t) (step host s a) := by
  cases hd : s.destroyed with
  | false =>
    exact (step_over (h.attended hd) h.state hd a ha.2).imp fun t ht =>
      ⟨ht.bytes, ht.attended.past ht.state⟩
  | true =>
    cases a with
    | exec => exact exec_destroyed h hd
    | elsewhere p =>
      refine ⟨rfl, fun hno => ?_, h.pending, h.state⟩
      rw [show s.destroyed = false from hno] at hd
      cases hd
    | _ => exact absurd (ha.1 hd) id

/-! ### Runs -/

theorem over_run (h : Run (conversationMachine host κ) s as t) (hs : Attended s)
    (hst : s.state ≠ .CConnected) : stream t = stream s := by
  have hpast : stream t = stream s ∧ Past t := by
    refine run_ends (E := Any) (I := fun u => stream u = stream s ∧ Past u) (fun u a hu ha => ?_) h
      ⟨rfl, hs.past hst⟩
    exact (step_past hu.2 ha).imp fun v hv => ⟨hv.1.trans hu.1, hv.2⟩
  exact hpast.1

/-- **The output of a run** that begins with a listening connection. -/
theorem listening_run (h : Run (conversationMachine host κ) s as t) (hs : Listening s) :
    stream t = stream s ++ (answered as).flatMap (respond host) := by
  induction h with
  | nil s => exact (List.append_nil _).symm
  | @cons s u t a as he hstep hrun ih =>
    have hstep' : step host s a = .ok u := hstep
    cases a with
    | readable q bursts writes =>
      obtain ⟨hbytes, hnext⟩ := (readable_listening hs he.2).of_ok hstep'
      rw [answered, List.flatMap_cons, ← List.append_assoc, ← hbytes]
      split_ifs at hnext ⊢ with hc
      · have hne : u.state ≠ .CConnected := by rw [hnext.2]; nofun
        rw [over_run hrun hnext.1 hne]
        exact (List.append_nil _).symm
      · exact ih hnext
    | writable drains =>
      obtain ⟨hbytes, hnext⟩ := (writable_listening hs he.2).of_ok hstep'
      rw [ih hnext, hbytes]
      rfl
    | hup =>
      have hover := (hup_over hs.toAttended).of_ok hstep'
      rw [over_run hrun hover.attended hover.state, hover.bytes]
      exact (List.append_nil _).symm
    | exec =>
      obtain ⟨hbytes, hnext⟩ := (exec_listening hs).of_ok hstep'
      rw [ih hnext, hbytes]
      rfl
    | removed => exact absurd hs.connected (hs.removal he.2)
    | elsewhere p =>
      obtain rfl := Except.ok.inj hstep'
      exact ih (hs.elsewhere (he.2 hs.alive))

/-! ### An established connection -/

theorem connectionEstablished_idle : Ends Any
    (fun t => t.pending = s.pending ∧ t.removal = s.removal ∧ t.destroyed = s.destroyed)
    (s.connectionEstablished observer) := by
  refine (assert_spec fun _ => trivial).bind fun _ _ => ?_
  refine Ends.bind (Q := fun t => t.pending = s.pending ∧ t.removal = s.removal ∧
    t.destroyed = s.destroyed) ?_ fun t ht => ?_
  · unfold TcpConnection.onChannel
    cases EpollPoller.enableRead (s.setState .CConnected).channel (s.setState .CConnected).poller with
    | error f => trivial
    | ok p => exact ⟨rfl, rfl, rfl⟩
  · show Ends Any _ t.onConnection
    unfold TcpConnection.onConnection
    split_ifs
    · exact ht
    · exact ht

variable {p : EpollPoller κ} {c : κ} {w b : Bool} {writes : List WriteResult}

theorem listening_opened (hp : Vacant p c) (hs : opened host p c w b writes = .ok s) :
    Listening s ∧ stream s = [] := by
  obtain ⟨s', hs', hclean, hst, -⟩ := opened_ok host hp w b writes
  obtain rfl := Except.ok.inj (hs.symm.trans hs')
  have hnew : Buffered { TcpConnection.new p c w b with writes := writes } :=
    (buffered_start hp w b).congr rfl rfl rfl rfl rfl
  have hs'' : ({ TcpConnection.new p c w b with writes := writes } : TcpConnection κ).connectionEstablished
      observer = .ok s := hs
  have hsilent : Silent _ s := connectionEstablished_silent.of_ok hs''
  have hidle := connectionEstablished_idle.of_ok hs''
  obtain ⟨hpending, hremoval, hdestroyed⟩ := hidle
  refine ⟨⟨⟨(connectionEstablished_buffered hnew).of_ok hs'', fun g hg => ?_, fun h => ?_⟩, hst,
    hdestroyed, hclean⟩, hsilent.stream⟩
  · rw [hpending] at hg
    exact absurd hg List.not_mem_nil
  · rw [hremoval] at h
    cases h

/-! ### The responses -/

theorem framed_response (hq : q.WF) : Framed (response host q) := by
  have hresponse : response host q = _ := defaultHttpCB_eq rfl (closesAfter q)
  have hclean : ∀ x ∈ [ascii "200", ascii "400", ascii "403", ok_200_title, error_400_title,
      error_403_title, error_404_title], Clean CR LF x := by
    unfold Clean
    decide
  have hpage : Clean CR LF (page host q.request.path).1 ∧
      Clean CR LF (page host q.request.path).2.1 := by
    unfold page
    cases host.stat (cstr (ascii "/root" ++ q.request.path)) with
    | none => exact ⟨hclean _ (by simp), hclean _ (by simp)⟩
    | some file =>
      dsimp only
      split_ifs
      · exact ⟨hclean _ (by simp), hclean _ (by simp)⟩
      · exact ⟨hclean _ (by simp), hclean _ (by simp)⟩
      · exact ⟨hclean _ (by simp), hclean _ (by simp)⟩
  have hheaders : ∀ ct ∈ contentTypes, ∀ h ∈ (serverHeaders ct).toList,
      Clean CR LF h.1 ∧ COLON ∉ h.1 ∧ Clean CR LF h.2 := by
    unfold Clean
    decide
  have hversion : Clean CR LF q.version := by
    have hline := hq.clean
    unfold Head.requestLine at hline
    exact (clean_cons.mp (clean_append.mp (clean_cons.mp (clean_append.mp hline).2).2.2).2).2.2
  rw [hresponse]
  exact ⟨hversion, hpage.1, hpage.2, hheaders _ (contentType_mem _)⟩

theorem closeConnection_response : (response host q).closeConnection = closesAfter q := by
  unfold response
  rw [defaultHttpCB_eq rfl]

theorem keptAlive_response (hq : q.WF) (hc : closesAfter q = false) :
    KeptAlive (response host q) :=
  ⟨framed_response hq, closeConnection_response.trans hc⟩

theorem last_response (hq : q.WF) (hc : closesAfter q = true) : Last (response host q) where
  framed := framed_response hq
  close := closeConnection_response.trans hc
  noLength := by
    have hheaders : ∀ ct ∈ contentTypes, ∀ h ∈ (serverHeaders ct).toList,
        lengthField.isPrefixOf (mapLine h) = false := by decide
    have hresponse : response host q = _ := defaultHttpCB_eq rfl (closesAfter q)
    rw [hresponse]
    exact hheaders _ (contentType_mem _)

omit [DecidableEq κ] in
theorem answered_split (as : List (Act κ)) : ∃ (qs : List Head) (last : Option Head),
    answered as = qs ++ last.toList ∧ (∀ q ∈ qs, closesAfter q = false) ∧
      ∀ q ∈ last, closesAfter q = true := by
  induction as with
  | nil => exact ⟨[], none, rfl, nofun, nofun⟩
  | cons a as ih =>
    cases a with
    | readable q bursts writes =>
      rw [answered]
      by_cases hc : closesAfter q = true
      · rw [if_pos hc]
        exact ⟨[], some q, rfl, nofun, fun q' hq' => by cases hq'; exact hc⟩
      · rw [if_neg hc]
        obtain ⟨qs, last, h1, h2, h3⟩ := ih
        refine ⟨q :: qs, last, by rw [h1]; rfl, fun q' hq' => ?_, h3⟩
        rcases List.mem_cons.mp hq' with rfl | hq'
        · exact Bool.eq_false_iff.mpr hc
        · exact h2 q' hq'
    | writable drains => exact ih
    | hup => exact ⟨[], none, rfl, nofun, nofun⟩
    | exec => exact ih
    | removed => exact ih
    | elsewhere p => exact ih

/-! ### The conversation -/

theorem answered_wf (h : Run (conversationMachine host κ) s as t) (hs : Listening s) :
    ∀ q ∈ answered as, q.WF := by
  induction h with
  | nil s => exact nofun
  | @cons s u t a as he hstep hrun ih =>
    have hstep' : step host s a = .ok u := hstep
    cases a with
    | readable q bursts writes =>
      obtain ⟨-, hnext⟩ := (readable_listening hs he.2).of_ok hstep'
      have hq : q.WF := (he.2.2 hs.connected).2.1.wf
      intro q' hq'
      rw [answered] at hq'
      rcases List.mem_cons.mp hq' with rfl | hq'
      · exact hq
      · split_ifs at hnext hq' with hc
        · exact absurd hq' List.not_mem_nil
        · exact ih hnext q' hq'
    | writable drains => exact ih ((writable_listening hs he.2).of_ok hstep').2
    | hup => exact nofun
    | exec => exact ih ((exec_listening hs).of_ok hstep').2
    | removed => exact absurd hs.connected (hs.removal he.2)
    | elsewhere p =>
      obtain rfl := Except.ok.inj hstep'
      exact ih (hs.elsewhere (he.2 hs.alive))

/-- What the kernel has got, and the backlog holds behind it, are the responses to these heads, in
order; and of these the client has read, from the bytes the kernel has got, the first ones: all of them
if there is no backlog. -/
def Told (host : Host) (heads : List Head) (t : TcpConnection κ) : Prop :=
  ∃ (qs : List Head) (last : Option Head), heads = qs ++ last.toList ∧
    t.accepted ++ buffered t =
      text (qs.map (response host)) ++ ending (last.map (response host)) ∧
    ∃ k rest, k ≤ qs.length ∧ t.accepted = text ((qs.take k).map (response host)) ++ rest ∧
      readAll nextMessage t.accepted = ((qs.take k).map fun q => message (response host q), rest) ∧
      (buffered t = [] → readAll nextMessage t.accepted =
        (qs.map fun q => message (response host q), ending (last.map (response host))))

omit [DecidableEq κ] in
theorem told_of_stream (hwf : ∀ q ∈ answered as, q.WF)
    (hstream : stream t = (answered as).flatMap (respond host)) : Told host (answered as) t := by
  obtain ⟨qs, last, hanswered, hkeep, hclose⟩ := answered_split as
  have hstream : t.accepted ++ buffered t =
      text (qs.map (response host)) ++ ending (last.map (response host)) := by
    rw [hanswered, List.flatMap_append] at hstream
    rw [← show stream t = t.accepted ++ buffered t from rfl, hstream, text, List.map_map,
      List.flatMap_def]
    congr 1
    cases last with
    | none => rfl
    | some q => exact List.append_nil _
  have hkept : ∀ r ∈ qs.map (response host), KeptAlive r := by
    intro r hr
    obtain ⟨q, hq, rfl⟩ := List.mem_map.mp hr
    exact keptAlive_response (hwf q (hanswered ▸ List.mem_append_left _ hq)) (hkeep q hq)
  have hlast : ∀ r ∈ last.map (response host), Last r := by
    intro r hr
    obtain ⟨q, hq, rfl⟩ := Option.mem_map.mp hr
    exact last_response (hwf q (hanswered ▸ List.mem_append_right _ (Option.mem_toList.mpr hq)))
      (hclose q hq)
  have hall := readAll_flatten (reads_all hkept) (nextMessage_ending hlast (List.prefix_refl _))
  have hmessages : ∀ l : List Head, (l.map (response host)).map message =
      l.map fun q => message (response host q) := fun l => List.map_map
  obtain ⟨k, rest, hk, h1, h2⟩ := readAll_prefix (reads_all hkept)
    (fun v hv => nextMessage_ending hlast hv) (hstream ▸ List.prefix_append t.accepted (buffered t))
  rw [List.length_map, List.length_map] at hk
  rw [← List.map_take, ← List.map_take] at h1
  rw [← List.map_take, ← List.map_take, hmessages] at h2
  refine ⟨qs, last, hanswered, hstream, k, rest, hk, h1, h2, fun hnil => ?_⟩
  rw [hnil, List.append_nil] at hstream
  rw [hstream, ← hmessages]
  exact hall

end ReactorServer.Http.Conversation
