import ReactorServer.Conn.Writer
import ReactorServer.Lib.Runs

/-!
# Appending to the response

Every line of a response goes through `addResponse`: `vsnprintf` prints behind what there is, and
the index moves where the whole text has found room.  Here the index and the size are `int`s, and
what `vsnprintf` does is only known by its contract.  The two limits of `addResponse` differ by one,
but the index never reaches the lower of them (`appends_atomic`).  With a `vsnprintf` that prints as
much as it may, this is the `addResponse` of `Writer` (`addResponse_writer`).
-/

namespace ReactorServer.Conn.Appending

open ReactorServer.Cpp ReactorServer.Lib.Runs ReactorServer.Conn.Strings
open ReactorServer.Conn.Writer (WRITE_BUFFER_SIZE statusLine lengthLine lingerLine)
open ReactorServer.Conn.Writer.HttpConn (CRLF)
open ReactorServer.Conn.Parser (splice)

/-! ### Printing -/

/-- A call `vsnprintf(writeBuf + index, size, ..)`, whose format and arguments give `text`. -/
structure Print where
  index : ℤ
  size : ℤ
  text : Bytes
  deriving DecidableEq, Repr

namespace Print

/-- The size as a `size_t`. -/
def bound (c : Print) : ℕ := (c.size % 2 ^ 64).toNat

/-- The bytes that may be written are bytes of `writeBuf`. -/
def Inside (c : Print) : Prop := 0 ≤ c.index ∧ c.index + c.bound ≤ WRITE_BUFFER_SIZE

end Print

/-- What it leaves in the buffer, and what it returns. -/
structure Outcome where
  buf : Buffer
  len : ℤ

/-- **The contract of `vsnprintf`.**  It returns the length of the whole text and writes `size`
bytes at most; one of these is for the terminator, and the others are those of the text. -/
structure Contract (m : Buffer) (c : Print) (r : Outcome) : Prop where
  len : r.len = c.text.length
  outside : ∀ i : ℕ, ¬(c.index ≤ i ∧ i < c.index + c.bound) → r.buf i = m i
  text : ∀ (i k : ℕ) (hk : k < c.text.length), (i : ℤ) = c.index + k → k + 1 < c.bound →
    r.buf i = c.text[k]

/-- `HttpConn`, as far as it prints.  `prints` is the record of the calls of `vsnprintf`. -/
structure HttpConn where
  writeBuf : Buffer
  writeIdx : ℤ
  linger : Bool
  prints : List Print

namespace HttpConn

/-- `init`. -/
def init (s : HttpConn) : HttpConn where
  writeBuf := fun i => if i < WRITE_BUFFER_SIZE then NUL else s.writeBuf i
  writeIdx := 0
  linger := false
  prints := []

/-- The call of `vsnprintf` in `addResponse`. -/
def print (text : Bytes) (s : HttpConn) : Print :=
  ⟨s.writeIdx, WRITE_BUFFER_SIZE - 1 - s.writeIdx, text⟩

/-- `addResponse`, where `r` is what `vsnprintf` does if it is called. -/
def addResponse (text : Bytes) (r : Outcome) (s : HttpConn) : Bool × HttpConn :=
  if s.writeIdx ≥ WRITE_BUFFER_SIZE then (false, s)
  else
    let s := { s with writeBuf := r.buf, prints := s.prints ++ [s.print text] }
    let len := r.len
    if len ≥ WRITE_BUFFER_SIZE - 1 - s.writeIdx then (false, s)
    else (true, { s with writeIdx := s.writeIdx + len })

/-- The response so far. -/
def printed (s : HttpConn) : Bytes := (List.range s.writeIdx.toNat).map s.writeBuf

end HttpConn

open HttpConn

/-! ### The calls -/

/-- The members that append. -/
inductive Call
  | addStatusLine (status : ℤ) (title : Bytes)
  | addContentLength (len : ℤ)
  | addLinger
  | addBlankLine
  | addContent (content : Bytes)
  deriving DecidableEq, Repr

/-- The text of a call. -/
def Call.text (linger : Bool) : Call → Bytes
  | .addStatusLine status title => statusLine status title ++ CRLF
  | .addContentLength len => lengthLine len ++ CRLF
  | .addLinger => lingerLine linger ++ CRLF
  | .addBlankLine => CRLF
  | .addContent content => content

/-- The call prints its text. -/
def Call.run (c : Call) (r : Outcome) (s : HttpConn) : Bool × HttpConn :=
  s.addResponse (c.text s.linger) r

/-- A connection, with the record of the texts that were passed to `addResponse` and what it
returned. -/
structure Printer where
  conn : HttpConn
  log : List (Bytes × Bool)

/-- A call, and what `vsnprintf` does in it. -/
structure Act where
  call : Call
  outcome : Outcome

/-- Calls one after another, where `vsnprintf` keeps its contract. -/
def appends : Machine Printer Act Fault where
  enabled := fun p a =>
    Contract p.conn.writeBuf (p.conn.print (a.call.text p.conn.linger)) a.outcome
  step := fun p a =>
    let (ret, conn) := a.call.run a.outcome p.conn
    .ok ⟨conn, p.log ++ [(a.call.text p.conn.linger, ret)]⟩

/-- After `init`, and with what a request has made of `linger`. -/
def start (s : HttpConn) (linger : Bool) : Printer := ⟨{ s.init with linger := linger }, []⟩

/-- The texts of the calls that returned true. -/
def accepted (log : List (Bytes × Bool)) : Bytes := (log.filter (·.2)).flatMap (·.1)

variable {p q : Printer} {s t : HttpConn} {r : Outcome} {text : Bytes} {a : Act} {as : List Act}

/-! ### One call -/

/-- There is room for the terminator, and for a byte in front of it. -/
def Room (s : HttpConn) : Prop := 0 ≤ s.writeIdx ∧ s.writeIdx < WRITE_BUFFER_SIZE - 1

/-- The connection when `vsnprintf` has returned. -/
def scribbled (text : Bytes) (r : Outcome) (s : HttpConn) : HttpConn :=
  { s with writeBuf := r.buf, prints := s.prints ++ [s.print text] }

theorem Room.bound (h : Room s) (text : Bytes) :
    ((s.print text).bound : ℤ) = WRITE_BUFFER_SIZE - 1 - s.writeIdx := by
  obtain ⟨h1, h2⟩ := h
  show (((WRITE_BUFFER_SIZE - 1 - s.writeIdx) % 2 ^ 64).toNat : ℤ) = _
  unfold WRITE_BUFFER_SIZE at h2 ⊢
  omega

theorem Room.size (h : Room s) (text : Bytes) : 0 < (s.print text).size := by
  show 0 < WRITE_BUFFER_SIZE - 1 - s.writeIdx
  have := h.2
  omega

theorem Room.inside (h : Room s) (text : Bytes) : (s.print text).Inside := by
  have hbound := h.bound text
  refine ⟨h.1, ?_⟩
  show s.writeIdx + _ ≤ _
  omega

theorem addResponse_eq (h : Room s) (hr : Contract s.writeBuf (s.print text) r) :
    s.addResponse text r =
      if (text.length : ℤ) ≥ WRITE_BUFFER_SIZE - 1 - s.writeIdx then (false, scribbled text r s)
      else (true, { scribbled text r s with writeIdx := s.writeIdx + text.length }) := by
  have hlen : r.len = text.length := hr.len
  have hroom := h.2
  unfold HttpConn.addResponse
  rw [if_neg (by omega), ← hlen]
  rfl

theorem scribbled_behind (h : Room s) (hr : Contract s.writeBuf (s.print text) r) {i : ℕ}
    (hi : WRITE_BUFFER_SIZE ≤ i) : (scribbled text r s).writeBuf i = s.writeBuf i := by
  have hinside := (h.inside text).2
  exact hr.outside i (by omega)

theorem scribbled_before (hr : Contract s.writeBuf (s.print text) r) {i : ℕ}
    (hi : (i : ℤ) < s.writeIdx) : r.buf i = s.writeBuf i := by
  refine hr.outside i fun hin => ?_
  have : s.writeIdx ≤ i := hin.1
  omega

theorem printed_scribbled (hr : Contract s.writeBuf (s.print text) r) :
    printed (scribbled text r s) = printed s := by
  refine List.map_congr_left fun i hi => ?_
  have hlt : i < s.writeIdx.toNat := List.mem_range.mp hi
  exact scribbled_before hr (by omega)

/-- A text that found room is behind what has been printed before. -/
theorem printed_accepted (h : Room s) (hr : Contract s.writeBuf (s.print text) r)
    (hfit : (text.length : ℤ) < WRITE_BUFFER_SIZE - 1 - s.writeIdx) :
    printed { scribbled text r s with writeIdx := s.writeIdx + text.length } =
      printed s ++ text := by
  have h0 := h.1
  have hbound := h.bound text
  have hidx : (s.writeIdx + text.length).toNat = s.writeIdx.toNat + text.length := by omega
  show (List.range (s.writeIdx + text.length).toNat).map r.buf = _
  rw [hidx, List.range_add, List.map_append, List.map_map]
  congr 1
  · exact printed_scribbled hr
  · refine List.ext_getElem (by simp) fun k hk hk' => ?_
    rw [List.getElem_map, List.getElem_range]
    exact hr.text (s.writeIdx.toNat + k) k hk' (by show _ = s.writeIdx + (k : ℤ); omega) (by omega)

theorem refused_unchanged (h : Room s) (hr : Contract s.writeBuf (s.print text) r)
    (hret : s.addResponse text r = (false, t)) :
    t.writeIdx = s.writeIdx ∧ printed t = printed s := by
  rw [addResponse_eq h hr] at hret
  split_ifs at hret with hlong
  · obtain rfl : scribbled text r s = t := (Prod.mk.inj hret).2
    exact ⟨rfl, printed_scribbled hr⟩
  · cases (Prod.mk.inj hret).1

/-! ### Runs -/

/-- **The invariant**, where `m` is what has been in the memory of the buffer: the index leaves
room, every call of `vsnprintf` has had a positive size and has stayed in the buffer, and the
response is what has been accepted. -/
structure Bounded (m : Buffer) (p : Printer) : Prop where
  room : Room p.conn
  prints : ∀ c ∈ p.conn.prints, 0 < c.size ∧ c.Inside
  behind : ∀ i, WRITE_BUFFER_SIZE ≤ i → p.conn.writeBuf i = m i
  printed : printed p.conn = accepted p.log

theorem bounded_start (s : HttpConn) (linger : Bool) : Bounded s.writeBuf (start s linger) where
  room := ⟨Int.le_refl 0, show (0 : ℤ) < WRITE_BUFFER_SIZE - 1 by decide⟩
  prints := List.forall_mem_nil _
  behind := fun i hi => if_neg (Nat.not_lt.mpr hi)
  printed := rfl

theorem accepted_snoc (log : List (Bytes × Bool)) (text : Bytes) (ret : Bool) :
    accepted (log ++ [(text, ret)]) = accepted log ++ if ret then text else [] := by
  cases ret <;> simp [accepted]

theorem Bounded.prints_snoc {m : Buffer} (h : Bounded m p) (text : Bytes) :
    ∀ c ∈ p.conn.prints ++ [p.conn.print text], 0 < c.size ∧ c.Inside := by
  refine List.forall_mem_append.mpr ⟨h.prints, List.forall_mem_singleton.mpr ?_⟩
  exact ⟨h.room.size text, h.room.inside text⟩

/-- **One call**: its text is accepted and the index moves, not to the limit, or it is refused. -/
theorem step_bounded {m : Buffer} (h : Bounded m p) (hr : appends.enabled p a)
    (hs : appends.step p a = .ok q) : Bounded m q := by
  let text := a.call.text p.conn.linger
  have hstep : appends.step p a = .ok ⟨(p.conn.addResponse text a.outcome).2,
      p.log ++ [(text, (p.conn.addResponse text a.outcome).1)]⟩ := rfl
  rw [hstep, addResponse_eq h.room hr] at hs
  have hbehind : ∀ i, WRITE_BUFFER_SIZE ≤ i → a.outcome.buf i = m i := fun i hi =>
    (scribbled_behind h.room hr hi).trans (h.behind i hi)
  have hroom := h.room.1
  split_ifs at hs with hlong
  · obtain rfl := Except.ok.inj hs
    refine ⟨h.room, h.prints_snoc text, hbehind, ?_⟩
    rw [accepted_snoc, if_neg nofun, List.append_nil]
    exact (printed_scribbled hr).trans h.printed
  · obtain rfl := Except.ok.inj hs
    have hfit : (text.length : ℤ) < WRITE_BUFFER_SIZE - 1 - p.conn.writeIdx :=
      Int.not_le.mp hlong
    refine ⟨⟨?_, ?_⟩, h.prints_snoc text, hbehind, ?_⟩
    · show 0 ≤ p.conn.writeIdx + text.length
      omega
    · show p.conn.writeIdx + text.length < WRITE_BUFFER_SIZE - 1
      omega
    · rw [accepted_snoc, if_pos rfl, ← h.printed]
      exact printed_accepted h.room hr hfit

/-! ### As much as it may -/

/-- What `vsnprintf` does, if it prints as much of the text as it may. -/
def outcome (text : Bytes) (s : HttpConn) : Outcome :=
  ⟨Writer.HttpConn.vsnprintf s.writeBuf s.writeIdx.toNat (s.print text).bound text, text.length⟩

theorem contract_outcome (h : Room s) (text : Bytes) :
    Contract s.writeBuf (s.print text) (outcome text s) := by
  have h0 := h.1
  have hbound := h.bound text
  have hroom := h.2
  have hpos : (s.print text).bound ≠ 0 := by omega
  let chunk := text.take ((s.print text).bound - 1) ++ [NUL]
  have hchunk : chunk.length = min ((s.print text).bound - 1) text.length + 1 := by
    rw [List.length_append, List.length_take]
    rfl
  have hbuf : (outcome text s).buf = splice s.writeBuf s.writeIdx.toNat chunk := if_neg hpos
  refine ⟨rfl, fun i hi => ?_, fun i k hk hik hroom' => ?_⟩
  · have hi' : ¬(s.writeIdx ≤ i ∧ i < s.writeIdx + (s.print text).bound) := hi
    rw [hbuf]
    by_cases hlt : i < s.writeIdx.toNat
    · exact Calls.splice_of_lt hlt
    · exact Calls.splice_of_le (by omega)
  · have hik' : (i : ℤ) = s.writeIdx + k := hik
    have hk' : k < text.length := hk
    have hlt : k < (text.take ((s.print text).bound - 1)).length := by
      rw [List.length_take]
      omega
    obtain rfl : i = s.writeIdx.toNat + k := by omega
    rw [hbuf, Calls.splice_add (by omega), List.getElem_append_left hlt, List.getElem_take]
    rfl

/-- The two are the same connection. -/
structure Shows (s : HttpConn) (w : Writer.HttpConn) : Prop where
  writeBuf : s.writeBuf = w.writeBuf
  writeIdx : s.writeIdx = w.writeIdx
  linger : s.linger = w.linger

/-- The member of `Writer`. -/
def Call.member : Call → Writer.HttpConn → Bool × Writer.HttpConn
  | .addStatusLine status title => Writer.HttpConn.addStatusLine status title
  | .addContentLength len => Writer.HttpConn.addContentLength len
  | .addLinger => Writer.HttpConn.addLinger
  | .addBlankLine => Writer.HttpConn.addBlankLine
  | .addContent content => Writer.HttpConn.addContent content

theorem member_eq (c : Call) (w : Writer.HttpConn) :
    c.member w = w.addResponse (c.text w.linger) := by
  cases c <;> rfl

/-- **The call is the call of `Writer`.** -/
theorem addResponse_writer {w : Writer.HttpConn} (h : Room s) (hw : Shows s w) (c : Call) :
    (c.run (outcome (c.text s.linger) s) s).1 = (c.member w).1 ∧
      Shows (c.run (outcome (c.text s.linger) s) s).2 (c.member w).2 := by
  let text := c.text s.linger
  have hidx := hw.writeIdx
  have hroom := h.2
  have hbound : (s.print text).bound = WRITE_BUFFER_SIZE - 1 - w.writeIdx := by
    have := h.bound text
    omega
  have hbuf : (outcome text s).buf = Writer.HttpConn.vsnprintf w.writeBuf w.writeIdx
      (WRITE_BUFFER_SIZE - 1 - w.writeIdx) text := by
    unfold outcome
    rw [hbound, hidx, hw.writeBuf]
    rfl
  rw [member_eq, ← hw.linger]
  show (s.addResponse text (outcome text s)).1 = (w.addResponse text).1 ∧
    Shows (s.addResponse text (outcome text s)).2 (w.addResponse text).2
  rw [addResponse_eq h (contract_outcome h text)]
  unfold Writer.HttpConn.addResponse
  rw [if_neg (show ¬WRITE_BUFFER_SIZE ≤ w.writeIdx by omega)]
  dsimp only
  by_cases hlong : WRITE_BUFFER_SIZE - 1 - w.writeIdx ≤ text.length
  · rw [if_pos hlong, if_pos (by omega)]
    exact ⟨rfl, hbuf, hidx, hw.linger⟩
  · rw [if_neg hlong, if_neg (by omega)]
    exact ⟨rfl, hbuf, congrArg (· + (text.length : ℤ)) hidx, hw.linger⟩

theorem exists_run (s : HttpConn) (linger : Bool) (calls : List Call) :
    ∃ as p, as.map Act.call = calls ∧ Run appends (start s linger) as p := by
  suffices hall : ∀ p : Printer, Bounded s.writeBuf p →
      ∃ as q, as.map Act.call = calls ∧ Run appends p as q from hall _ (bounded_start s linger)
  induction calls with
  | nil => exact fun p _ => ⟨[], p, rfl, .nil p⟩
  | cons c calls ih =>
    intro p hp
    let a : Act := ⟨c, outcome (c.text p.conn.linger) p.conn⟩
    have hr : appends.enabled p a := contract_outcome hp.room _
    obtain ⟨as, q, rfl, hrun⟩ := ih _ (step_bounded hp hr rfl)
    exact ⟨a :: as, q, rfl, .cons hr rfl hrun⟩

/-! ### The response so far -/

/-- **Appending is atomic and bounded.**  Whatever is appended after `init`, the index leaves room,
`vsnprintf` writes into the buffer and nowhere else, the response is the concatenation of the texts
of the calls that returned true, and a call that returns false changes neither the index nor the
response. -/
theorem appends_atomic (s : HttpConn) (linger : Bool) (h : Run appends (start s linger) as p) :
    Bounded s.writeBuf p ∧
    ∀ a t, appends.enabled p a → a.call.run a.outcome p.conn = (false, t) →
      t.writeIdx = p.conn.writeIdx ∧ printed t = printed p.conn := by
  have hbounded : Bounded s.writeBuf p :=
    h.invariant (fun _ _ _ hp hr hs => step_bounded hp hr hs) (bounded_start s linger)
  exact ⟨hbounded, fun a t hr hret => refused_unchanged hbounded.room hr hret⟩

/-- A connection that has not been used. -/
def unused : HttpConn := ⟨fun _ => NUL, 0, false, []⟩

/-- A content that finds no room, between two lines. -/
def refusing : List Call :=
  [.addStatusLine 200 (ascii "OK"), .addContent (List.replicate WRITE_BUFFER_SIZE SP),
    .addBlankLine]

theorem appends_atomic_refusing : ∃ as p, as.map Act.call = refusing ∧
    Run appends (start unused false) as p ∧ Bounded unused.writeBuf p ∧
    ∀ a t, appends.enabled p a → a.call.run a.outcome p.conn = (false, t) →
      t.writeIdx = p.conn.writeIdx ∧ printed t = printed p.conn := by
  obtain ⟨as, p, hcalls, hrun⟩ := exists_run unused false refusing
  exact ⟨as, p, hcalls, hrun, appends_atomic unused false hrun⟩

end ReactorServer.Conn.Appending
