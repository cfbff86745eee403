import ReactorServer.Http.Segmentation
import ReactorServer.Http.Reply

/-!
# The messages of a connection

`deliver` hands `onMessage` a buffer with one message.  Whatever messages a connection has been
handed before, it answers the next one as a connection does that has just been established
(`isolated`).  The reason is that the parser has been reset and reads the bytes of the message alone
(`deliver_ok`).
-/

namespace ReactorServer.Http.Isolation

open ReactorServer.Cpp ReactorServer.Lib.Runs ReactorServer.Lib.Triples
open ReactorServer.Http.Request ReactorServer.Http.Response ReactorServer.Http.Context
open ReactorServer.Http.Server ReactorServer.Http.Parsing ReactorServer.Http.Answer
open ReactorServer.Http.Exchange ReactorServer.Http.Segmentation ReactorServer.Http.Reply
open ReactorServer.Net.Poller ReactorServer.Net.Connection ReactorServer.Net.Dispatch

variable {κ : Type} [DecidableEq κ] {s t : TcpConnection κ} {host : Host} {m : Bytes}

/-! ### Messages -/

/-- `onMessage` finds the message in the read buffer, as `handleRead` leaves it. -/
def deliver (host : Host) (m : Bytes) (s : TcpConnection κ) : Except Fault (TcpConnection κ) :=
  match s.context with
  | none => .error .outOfBounds
  | some c => onMessage host { s with readBuf := m, context := some (c.setBuffer m) }

/-- What happens to a connection. -/
inductive Act (κ : Type)
  /-- a message arrives, and the files are those of the host -/
  | message (host : Host) (m : Bytes)
  /-- anything else that leaves the parser alone -/
  | other (t : TcpConnection κ)

/-- A connection that is handed messages while it is connected. -/
def conversation (κ : Type) [DecidableEq κ] : Machine (TcpConnection κ) (Act κ) Fault where
  enabled s
    | .message _ _ => s.state = .CConnected
    | .other t => t.context = s.context
  step s
    | .message host m => deliver host m s
    | .other t => .ok t

/-- An event whose bytes fit delivers them. -/
theorem event_deliver {bursts : List Bytes} (hne : ∀ b ∈ bursts, b ≠ []) (hc : s.context.isSome)
    (h : s.readBuf.length + bursts.flatten.length < READ_BUFFER_SIZE) :
    event host bursts s = deliver host (s.readBuf ++ bursts.flatten) s := by
  obtain ⟨c, hc⟩ := Option.isSome_iff_exists.mp hc
  rw [event_fits hne h hc, deliver, hc]

theorem passes_unique {req : HttpRequest} {data data' : Bytes} (h : Passes host req data)
    (h' : Passes host req data') : data = data' := by
  obtain ⟨connection, h1, rfl⟩ := h
  obtain ⟨connection', h2, rfl⟩ := h'
  rw [h1] at h2
  cases h2
  rfl

/-- **What a message does**, where it is processed: it passes the reply to the request that its
bytes are parsed to, and leaves a fresh parser. -/
theorem deliver_ok (hc : s.context = some .new) (h : deliver host m s = .ok t) :
    ∃ code c data, (HttpContext.new.setBuffer m).parseRequest = .ok (code, c) ∧
      Passes host c.request data ∧ ¬INT_MAX < data.length ∧ t.passed = s.passed ++ [data] ∧
      t.context = some .new ∧ (s.state = .CConnected → t.readBuf = []) := by
  unfold deliver at h
  rw [hc] at h
  obtain ⟨⟨code, c⟩, hparse, h⟩ := bind_eq_ok.mp h
  obtain ⟨t', hreq, h⟩ := bind_eq_ok.mp h
  obtain ⟨data, hdata, hlen, hpassed, hread⟩ := onRequest_ok hreq
  cases h
  exact ⟨code, c, data, hparse, hdata, hlen, hpassed, rfl, hread⟩

theorem send_quiet {n : ℕ} (h : Quiet (n + 1) s) (buf : Payload) :
    ∃ t, s.send true quiet buf = .ok t ∧ Quiet n t := by
  have h' : Quiet (n + 1) { s with passed := s.passed ++ [buf.bytes] } :=
    ⟨h.writing, h.enough, h.reset⟩
  unfold TcpConnection.send
  dsimp only
  split_ifs
  · exact sendInLoop_quiet h' buf
  · exact ⟨_, rfl, h.writing, Nat.le_of_succ_le h.enough, h.reset⟩

theorem shutdown_quiet {n : ℕ} (h : Quiet n s) : ∃ t, s.shutdown true quiet = .ok t ∧ Quiet n t := by
  unfold TcpConnection.shutdown
  split_ifs
  · exact ⟨_, rfl, h.writing, h.enough, h.reset⟩
  · exact ⟨_, rfl, h⟩

/-- A connection whose writes fail for good passes whatever fits. -/
theorem deliver_quiet {n : ℕ} {code : HttpCode} {c : HttpContext} {data : Bytes}
    (hc : s.context = some .new) (hq : Quiet (n + 1) s)
    (hparse : (HttpContext.new.setBuffer m).parseRequest = .ok (code, c))
    (hdata : Passes host c.request data) (hlen : ¬INT_MAX < data.length) :
    ∃ t, deliver host m s = .ok t ∧ Quiet n t := by
  obtain ⟨connection, hget, rfl⟩ := hdata
  let s' : TcpConnection κ := { s with readBuf := c.buf, context := some c }
  obtain ⟨t, hsend, ht⟩ := send_quiet (s := s') ⟨hq.writing, hq.enough, hq.reset⟩
    ⟨host.front, (answer host c.request connection).toString⟩
  obtain ⟨t', hshutdown, ht'⟩ := shutdown_quiet ht
  have hreq : ∃ u, onRequest host c.request s' = .ok u ∧ Quiet n u := by
    unfold onRequest
    rw [hget, ok_bind]
    dsimp only
    split
    · rename_i hlong
      exact absurd hlong hlen
    · show ∃ u, (s'.send true quiet ⟨host.front, (answer host c.request connection).toString⟩ >>= _) =
        .ok u ∧ Quiet n u
      rw [hsend, ok_bind]
      split_ifs
      · exact ⟨t', hshutdown, ht'⟩
      · exact ⟨t, rfl, ht⟩
  obtain ⟨u, hu, hquiet⟩ := hreq
  refine ⟨u.setContext c.reset, ?_, hquiet.writing, hquiet.enough, hquiet.reset⟩
  unfold deliver onMessage
  simp only [hc, hparse, ok_bind]
  show (onRequest host c.request s' >>= _) = _
  rw [hu]
  rfl

theorem opened_fresh {p : EpollPoller κ} {c : κ} {w b : Bool} {writes : List WriteResult}
    (h : opened host p c w b writes = .ok s) : s.context = some .new ∧ s.passed = [] := by
  unfold opened TcpConnection.connectionEstablished at h
  obtain ⟨-, -, h⟩ := bind_eq_ok.mp h
  obtain ⟨s', hchan, h⟩ := bind_eq_ok.mp h
  obtain ⟨p', -, hs'⟩ := bind_eq_ok.mp hchan
  cases hs'
  cases h
  exact ⟨rfl, rfl⟩

theorem conversation_fresh {as : List (Act κ)} (h : Run (conversation κ) s as t)
    (h0 : s.context = some .new) : t.context = some .new := by
  refine h.invariant (I := fun s => s.context = some .new) (fun s a t hs he hstep => ?_) h0
  rcases a with ⟨host, m⟩ | u
  · obtain ⟨-, -, -, -, -, -, -, hc, -⟩ := deliver_ok hs hstep
    exact hc
  · cases hstep
    exact he.trans hs

/-! ### No message leaves a trace -/

/-- **A message is answered as by a fresh connection.**  After any messages, processed without a
failure, the next one leaves a fresh parser and an empty read buffer, and what it passes to `send`
is what any new connection passes for this message alone; and there are new connections that pass
it. -/
theorem isolated {host₀ host : Host} {p₀ : EpollPoller κ} {c₀ : κ} {w₀ b₀ : Bool}
    {writes₀ : List WriteResult} {s t u : TcpConnection κ} {as : List (Act κ)} {m : Bytes}
    (hopened : opened host₀ p₀ c₀ w₀ b₀ writes₀ = .ok s) (hrun : Run (conversation κ) s as t)
    (hst : t.state = .CConnected) (hm : deliver host m t = .ok u) :
    u.context = some .new ∧ u.readBuf = [] ∧ ∃ data, u.passed = t.passed ++ [data] ∧
      ∀ (p : EpollPoller κ) (c : κ) (w b : Bool),
        (∀ writes f f', opened host p c w b writes = .ok f → deliver host m f = .ok f' →
          f'.passed = [data]) ∧
        (Vacant p c → ∃ writes f f', opened host p c w b writes = .ok f ∧
          deliver host m f = .ok f' ∧ f'.passed = [data]) := by
  have hc := conversation_fresh hrun (opened_fresh hopened).1
  obtain ⟨code, x, data, hparse, hdata, hlen, hpassed, hcontext, hread⟩ := deliver_ok hc hm
  refine ⟨hcontext, hread hst, data, hpassed, fun p c w b => ?_⟩
  have hfresh : ∀ writes f f', opened host p c w b writes = .ok f → deliver host m f = .ok f' →
      f'.passed = [data] := by
    intro writes f f' hf hf'
    obtain ⟨hfc, hfp⟩ := opened_fresh hf
    obtain ⟨code', x', data', hparse', hdata', -, hpassed', -⟩ := deliver_ok hfc hf'
    rw [hparse] at hparse'
    cases hparse'
    rw [hpassed', hfp, passes_unique hdata hdata']
    rfl
  refine ⟨hfresh, fun hp => ?_⟩
  obtain ⟨f, hf, hclean, -, -, hwrites, hwriting⟩ := opened_ok host hp w b [.reset]
  have hquiet : Quiet 1 f := by
    refine ⟨hwriting, by rw [hwrites]; exact le_rfl, fun r hr => ?_⟩
    rw [hwrites] at hr
    exact List.mem_singleton.mp hr
  obtain ⟨f', hf', -⟩ := deliver_quiet (n := 0) hclean.context hquiet hparse hdata hlen
  exact ⟨_, f, f', hf, hf', hfresh _ f f' hf hf'⟩

theorem isolated_get : ∃ s t u : TcpConnection Unit,
    opened nowhere (EpollPoller.new fun _ => 5) () false true [.reset, .reset] = .ok s ∧
    Run (conversation Unit) s [.message nowhere (get.render [])] t ∧
    deliver nowhere (get.render []) t = .ok u ∧ u.context = some .new ∧ u.readBuf = [] := by
  obtain ⟨s, hs, hclean, hst, -, hwrites, hwriting⟩ :=
    opened_ok nowhere (vacant_new (fun _ => 5) ()) false true [.reset, .reset]
  have hquiet : Quiet 2 s := by
    refine ⟨hwriting, by rw [hwrites]; exact le_rfl, fun r hr => ?_⟩
    rw [hwrites] at hr
    simpa using hr
  obtain ⟨x, hparse, hreq, -⟩ := parseRequest_ended isGet_get.wf (ended_emptyLine [])
  have hdata : Passes nowhere x.request (respond nowhere get) := by
    rw [hreq]
    exact ⟨ascii "Keep-Alive", rfl, rfl⟩
  have hlen : ¬INT_MAX < (respond nowhere get).length :=
    not_lt.mpr (length_respond tiny_nowhere isGet_get.wf.length)
  obtain ⟨t, ht, hquiet'⟩ := deliver_quiet hclean.context hquiet hparse hdata hlen
  have hans : Answered nowhere get s t := by
    refine (onMessage_answered hclean.sound hclean.state (found_render isGet_get)).of_ok (b := t) ?_
    rw [← ht, deliver, hclean.context]
    rfl
  have hst' : t.state = .CConnected := by
    rw [(hans.connected hst).2]
    rfl
  obtain ⟨u, hu, -⟩ := deliver_quiet (n := 0) hans.context hquiet' hparse hdata hlen
  have hrun : Run (conversation Unit) s [.message nowhere (get.render [])] t :=
    .cons hst ht (.nil t)
  obtain ⟨h1, h2, -⟩ := isolated hs hrun hst' hu
  exact ⟨s, t, u, hs, hrun, hu, h1, h2⟩

end ReactorServer.Http.Isolation
