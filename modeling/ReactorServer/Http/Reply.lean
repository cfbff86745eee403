import ReactorServer.Http.Framing
import ReactorServer.Http.Exchange

/-!
# The status line of a reply

A reply copies its version from the request object, and the parser fills that in only where it
finds a head.  `onRequest` looks for the `Connection` header first, and `getHeader` reads through
`headers_.end()` where there is none.  So a reply with a status line is sent to the buffers that
begin with a head that has the header (`wellFormed_iff`); whatever `getHeader` yields otherwise, the
text of the reply has a status line only for the buffers that begin with a head.
-/

namespace ReactorServer.Http.Reply

open ReactorServer.Cpp ReactorServer.Lib.Lines ReactorServer.Lib.Runs
open ReactorServer.Http.Request ReactorServer.Http.Response ReactorServer.Http.Context
open ReactorServer.Http.Server ReactorServer.Http.Parsing ReactorServer.Http.Answer
open ReactorServer.Http.Exchange (sendInLoop_kept)
open ReactorServer.Http.Framing (isDigit lines fixedLines mapLine status toString_eq)
open ReactorServer.Net.Connection

variable {κ : Type} [DecidableEq κ] {s t : TcpConnection κ} {host : Host} {req : HttpRequest}
  {q : Head} {u data connection : Bytes} {code : HttpCode} {c : HttpContext}

/-! ### Replies -/

/-- The response of `onRequest`, once the `Connection` header has been read. -/
def answer (host : Host) (req : HttpRequest) (connection : Bytes) : HttpResponse :=
  defaultHttpCB host req (.new (closes connection req.version))

/-- `onRequest` passes the bytes to `send`. -/
def Passes (host : Host) (req : HttpRequest) (data : Bytes) : Prop :=
  ∃ connection, req.getHeader (ascii "Connection") = .ok connection ∧
    data = (answer host req connection).toString

/-- `HTTP/1.`, a byte, a space, three digits, a space, a reason and the end of the line. -/
def BeginsWithStatusLine (data : Bytes) : Prop :=
  ∃ minor code reason rest,
    data = ascii "HTTP/1." ++ minor :: SP :: (code ++ SP :: (reason ++ CR :: LF :: rest)) ∧
    code.length = 3 ∧ (∀ b ∈ code, isDigit b = true) ∧ Clean CR LF reason

theorem send_ok {buf : Payload} (h : s.send true quiet buf = .ok t) :
    t.passed = s.passed ++ [buf.bytes] ∧ (s.state = .CConnected → t.readBuf = []) := by
  unfold TcpConnection.send at h
  dsimp only at h
  split_ifs at h with hst
  · obtain ⟨h1, h2, -⟩ := (sendInLoop_kept buf).of_ok h
    exact ⟨h2, fun _ => h1⟩
  · cases h
    exact ⟨rfl, fun hst' => absurd hst' hst⟩

theorem shutdown_ok (h : s.shutdown true quiet = .ok t) :
    t.passed = s.passed ∧ t.readBuf = s.readBuf := by
  unfold TcpConnection.shutdown at h
  split_ifs at h
  · cases h
    exact ⟨rfl, rfl⟩
  · cases h
    exact ⟨rfl, rfl⟩

theorem onRequest_ok (h : onRequest host req s = .ok t) :
    ∃ data, Passes host req data ∧ ¬INT_MAX < data.length ∧ t.passed = s.passed ++ [data] ∧
      (s.state = .CConnected → t.readBuf = []) := by
  unfold onRequest at h
  obtain ⟨connection, hget, h⟩ := bind_eq_ok.mp h
  dsimp only at h
  split at h
  · cases h
  · rename_i hlen
    obtain ⟨s', hsend, h⟩ := bind_eq_ok.mp h
    obtain ⟨hpassed, hread⟩ := send_ok hsend
    refine ⟨_, ⟨connection, hget, rfl⟩, hlen, ?_⟩
    split_ifs at h
    · obtain ⟨h1, h2⟩ := shutdown_ok h
      exact ⟨h1.trans hpassed, fun hst => h2.trans (hread hst)⟩
    · cases h
      exact ⟨hpassed, hread⟩

/-! ### Status lines -/

theorem toString_status (r : HttpResponse) : ∃ rest, r.toString =
    r.version ++ SP :: (r.responseCode ++ SP :: (r.responseMsg ++ CR :: LF :: rest)) := by
  rw [toString_eq, lines, block_cons]
  refine ⟨block CR LF (fixedLines r ++ r.headers.toList.map mapLine) ++ CR :: LF :: r.body, ?_⟩
  have hsp : ascii " " = [SP] := rfl
  simp [status, hsp]

theorem page_status (host : Host) (path : Bytes) : (page host path).1.length = 3 ∧
    (∀ b ∈ (page host path).1, isDigit b = true) ∧ Clean CR LF (page host path).2.1 := by
  have hcodes : ∀ code ∈ [ascii "400", ascii "403", ascii "200"],
      code.length = 3 ∧ code.all isDigit = true := by decide
  have hcode : ∀ code ∈ [ascii "400", ascii "403", ascii "200"],
      code.length = 3 ∧ ∀ b ∈ code, isDigit b = true := fun code h =>
    ⟨(hcodes code h).1, List.all_eq_true.mp (hcodes code h).2⟩
  have hmsg : ∀ msg ∈ [error_404_title, error_403_title, error_400_title, ok_200_title],
      Clean CR LF msg := by
    unfold Clean
    decide
  unfold page
  split
  · exact ⟨(hcode _ (by simp)).1, (hcode _ (by simp)).2, hmsg _ (by simp)⟩
  · split_ifs
    · exact ⟨(hcode _ (by simp)).1, (hcode _ (by simp)).2, hmsg _ (by simp)⟩
    · exact ⟨(hcode _ (by simp)).1, (hcode _ (by simp)).2, hmsg _ (by simp)⟩
    · exact ⟨(hcode _ (by simp)).1, (hcode _ (by simp)).2, hmsg _ (by simp)⟩

/-- A head is answered with a status line, whatever the files are. -/
theorem answer_head (hq : q.WF) (connection : Bytes) :
    BeginsWithStatusLine (answer host q.request connection).toString := by
  obtain ⟨rest, hrest⟩ := toString_status (answer host q.request connection)
  obtain ⟨h1, h2, h3⟩ := page_status host q.request.path
  have hversion : q.version = ascii "HTTP/1." ++ q.version.drop 7 := by
    rw [← hq.version, List.take_append_drop]
  obtain ⟨minor, hminor⟩ : ∃ minor, q.version.drop 7 = [minor] :=
    List.length_eq_one_iff.mp (by rw [List.length_drop, hq.length])
  have hans : answer host q.request connection =
      ⟨q.version, (page host q.request.path).1, (page host q.request.path).2.1,
        (page host q.request.path).2.2, serverHeaders (contentType q.request.path),
        closes connection q.version⟩ := defaultHttpCB_eq rfl _
  refine ⟨minor, _, _, rest, ?_, h1, h2, h3⟩
  rw [hrest, hans]
  dsimp only
  rw [hversion, hminor, List.append_assoc]
  rfl

theorem defaultHttpCB_version (host : Host) (req : HttpRequest) (r : HttpResponse) :
    (defaultHttpCB host req r).version = req.version := by
  unfold defaultHttpCB
  split_ifs
  · unfold processError
    dsimp only
    split <;> rfl
  · dsimp only
    split
    · rfl
    · split_ifs <;> rfl

theorem answer_noVersion (h : req.version = []) (connection : Bytes) :
    ¬BeginsWithStatusLine (answer host req connection).toString := by
  rintro ⟨minor, code, reason, rest, heq, -⟩
  obtain ⟨rest', h'⟩ := toString_status (answer host req connection)
  have hversion : (answer host req connection).version = [] :=
    (defaultHttpCB_version host req _).trans h
  rw [h', hversion] at heq
  exact absurd (List.cons.inj heq).1 (by decide)

/-! ### The buffers with a status line -/

/-- The buffer begins with a head, behind which there is no header line. -/
def BeginsWithHead (u : Bytes) (q : Head) : Prop := q.WF ∧ ∃ v, u = q.lines ++ v ∧ Ended v

/-- The request that is reported is that of a head, or has neither version nor headers. -/
theorem request_of_parse (h : (HttpContext.new.setBuffer u).parseRequest = .ok (code, c)) :
    (∃ q, BeginsWithHead u q ∧ c.request = q.request) ∨
      (c.request.version = [] ∧ c.request.headers = ∅ ∧ ∀ q, ¬BeginsWithHead u q) := by
  rcases parseRequest_cases u with ⟨q, v, hq, hu, hv, c', hparse, hreq, -⟩ |
    ⟨code', c', hparse, hversion, hheaders⟩ | ⟨q, v, -, -, -, hparse⟩
  · rw [hparse] at h
    cases h
    exact Or.inl ⟨q, ⟨hq, v, hu, hv⟩, hreq⟩
  · rw [hparse] at h
    cases h
    refine Or.inr ⟨hversion, hheaders, ?_⟩
    rintro q ⟨hq, v, rfl, hv⟩
    obtain ⟨c', h', hreq, -⟩ := parseRequest_ended hq hv
    rw [hparse] at h'
    cases h'
    rw [hreq] at hversion
    have hlength := hq.length
    rw [show q.version = [] from hversion] at hlength
    cases hlength
  · rw [hparse] at h
    cases h

/-- A reply with a status line is passed to `send`. -/
def WellFormed (host : Host) (req : HttpRequest) : Prop :=
  ∃ data, Passes host req data ∧ BeginsWithStatusLine data

theorem wellFormed_iff_connection (h : (HttpContext.new.setBuffer u).parseRequest = .ok (code, c)) :
    WellFormed host c.request ↔ ∃ q, BeginsWithHead u q ∧ (Answer.connection q).isSome = true := by
  constructor
  · rintro ⟨data, ⟨connection, hget, rfl⟩, hdata⟩
    rcases request_of_parse h with ⟨q, hq, hreq⟩ | ⟨hversion, -, -⟩
    · refine ⟨q, hq, ?_⟩
      rw [hreq] at hget
      unfold HttpRequest.getHeader at hget
      unfold Answer.connection
      split at hget
      · rename_i value hvalue
        rw [hvalue]
        rfl
      · cases hget
    · exact absurd hdata (answer_noVersion hversion _)
  · rintro ⟨q, ⟨hq, v, rfl, hv⟩, hconn⟩
    -- the request reported is that of `q`
    obtain ⟨c', h', hreq, -⟩ := parseRequest_ended hq hv
    rw [h'] at h
    cases h
    obtain ⟨connection, hconnection⟩ := Option.isSome_iff_exists.mp hconn
    rw [hreq]
    refine ⟨_, ⟨connection, ?_, rfl⟩, answer_head hq connection⟩
    unfold HttpRequest.getHeader
    rw [show q.request.headers[ascii "Connection"]? = some connection from hconnection]

theorem statusLine_iff_head (h : (HttpContext.new.setBuffer u).parseRequest = .ok (code, c))
    (connection : Bytes) : BeginsWithStatusLine (answer host c.request connection).toString ↔
      ∃ q, BeginsWithHead u q := by
  rcases request_of_parse h with ⟨q, hq, hreq⟩ | ⟨hversion, -, hno⟩
  · rw [hreq]
    exact ⟨fun _ => ⟨q, hq⟩, fun _ => answer_head hq.1 connection⟩
  · exact ⟨fun hs => absurd hs (answer_noVersion hversion connection),
      fun ⟨q, hq⟩ => absurd hq (hno q)⟩

/-- **The status line of a reply**, for every buffer the parser returns from.  A reply with a status
line is sent if and only if the buffer begins with a head that has a `Connection` header; whatever
the search for that header yields, the text has a status line if and only if the buffer begins with
a head; and nothing else is passed to `send`. -/
theorem wellFormed_iff (u : Bytes) (code : HttpCode) (c : HttpContext)
    (h : (HttpContext.new.setBuffer u).parseRequest = .ok (code, c)) (host : Host) :
    (WellFormed host c.request ↔ ∃ q, BeginsWithHead u q ∧ (Answer.connection q).isSome = true) ∧
    (∀ connection, BeginsWithStatusLine (answer host c.request connection).toString ↔
      ∃ q, BeginsWithHead u q) ∧
    ∀ s t : TcpConnection κ, onRequest host c.request s = .ok t →
      ∃ data, Passes host c.request data ∧ t.passed = s.passed ++ [data] := by
  refine ⟨wellFormed_iff_connection h, statusLine_iff_head h, fun s t hok => ?_⟩
  obtain ⟨data, hdata, -, hpassed, -⟩ := onRequest_ok hok
  exact ⟨data, hdata, hpassed⟩

theorem wellFormed_iff_plain : ∃ code c,
    (HttpContext.new.setBuffer (ascii "GET / HTTP/1.0\r\n\r\n")).parseRequest = .ok (code, c) ∧
    (WellFormed nowhere c.request ↔ ∃ q, BeginsWithHead (ascii "GET / HTTP/1.0\r\n\r\n") q ∧
      (Answer.connection q).isSome = true) ∧
    (∀ connection, BeginsWithStatusLine (answer nowhere c.request connection).toString ↔
      ∃ q, BeginsWithHead (ascii "GET / HTTP/1.0\r\n\r\n") q) ∧
    ∀ s t : TcpConnection Unit, onRequest nowhere c.request s = .ok t →
      ∃ data, Passes nowhere c.request data ∧ t.passed = s.passed ++ [data] :=
  ⟨_, _, rfl, wellFormed_iff _ _ _ rfl nowhere⟩

/-- **A line that is no request line** gets no reply with a status line: there is no header to look
at, and whatever it is taken to be the text begins with a space. -/
theorem reply_unversioned : ∃ c,
    (HttpContext.new.setBuffer (ascii "GET\r\n")).parseRequest = .ok (.BAD_REQUEST, c) ∧
    ∀ host, ¬WellFormed host c.request ∧
      c.request.getHeader (ascii "Connection") = .error .outOfBounds ∧
      ∀ connection, ¬BeginsWithStatusLine (answer host c.request connection).toString := by
  have hline : ∀ M T V, ¬IsRequestLine (ascii "GET") M T V := by
    intro M T V h
    have hspace : SP ∈ ascii "GET" := by
      rw [h.eq]
      simp
    exact absurd hspace (by decide)
  obtain ⟨c, hparse, hversion, hheaders⟩ := parseRequest_refused (l := ascii "GET")
    (by unfold Clean; decide) hline []
  refine ⟨c, hparse, fun host => ?_⟩
  have hget : c.request.getHeader (ascii "Connection") = .error .outOfBounds := by
    unfold HttpRequest.getHeader
    rw [hheaders]
    rfl
  refine ⟨?_, hget, answer_noVersion hversion⟩
  rintro ⟨data, ⟨connection, hconnection, -⟩, -⟩
  rw [hget] at hconnection
  cases hconnection

end ReactorServer.Http.Reply
