import ReactorServer.Http.Reply
import ReactorServer.Lib.LastWrite
import Mathlib.Data.List.DropRight

/-!
# Header lines and header look-up

A header line should be stored with its value trimmed on both sides.  The loop that trims the end
asks for less capacity and does not shorten the value, so a line is stored if and only if there is
nothing to trim there (`trimmed_iff`).

`getHeader` should be a total look-up.  The `if` that tests for the end of the map guards nothing,
so it returns if and only if the key has been added since the last `reset` (`getHeader_iff`), and
`onRequest` gets to its decision about closing if and only if the request has a `Connection` header.
-/

namespace ReactorServer.Http.Headers

open ReactorServer.Cpp ReactorServer.Lib.Lines ReactorServer.Lib.Runs ReactorServer.Lib.LastWrite
open ReactorServer.Http.Request ReactorServer.Http.Request.HttpRequest
open ReactorServer.Http.Context ReactorServer.Http.Context.HttpContext
open ReactorServer.Http.Parsing ReactorServer.Http.Server ReactorServer.Http.Reply
open ReactorServer.Net.Connection

variable {c c' : HttpContext} {r r' : HttpRequest} {name value key after : Bytes}

/-! ### Trimming -/

/-- The value without the white space at its two ends. -/
def trim (v : Bytes) : Bytes := (v.dropWhile isspace).rdropWhile isspace

/-- There is no white space to remove at the end, or there is nothing else. -/
def Trimmable (v : Bytes) : Prop :=
  (∀ b ∈ v, isspace b = true) ∨ v.getLast?.any isspace = false

instance (v : Bytes) : Decidable (Trimmable v) :=
  decidable_of_iff (v.all isspace = true ∨ v.getLast?.any isspace = false)
    (or_congr_left List.all_eq_true)

theorem getLast?_dropWhile {p : UInt8 → Bool} {v : Bytes} (h : v.dropWhile p ≠ []) :
    (v.dropWhile p).getLast? = v.getLast? := by
  conv_rhs => rw [← List.takeWhile_append_dropWhile (p := p) (l := v)]
  rw [List.getLast?_append, List.getLast?_eq_some_getLast h, Option.some_or]

theorem trimmable_iff {v : Bytes} :
    Trimmable v ↔ (v.dropWhile isspace).getLast?.any isspace = false := by
  by_cases h : v.dropWhile isspace = []
  · exact iff_of_true (Or.inl (List.dropWhile_eq_nil_iff.mp h)) (by rw [h]; rfl)
  · rw [getLast?_dropWhile h]
    exact ⟨fun hv => hv.resolve_left fun hall => h (List.dropWhile_eq_nil_iff.mpr hall), Or.inr⟩

theorem trim_eq {v : Bytes} (h : Trimmable v) : trim v = v.dropWhile isspace := by
  unfold trim
  rw [List.rdropWhile_eq_self_iff]
  intro hne hlast
  have := trimmable_iff.mp h
  rw [List.getLast?_eq_some_getLast hne] at this
  simp [hlast] at this

/-! ### A header line -/

/-- The call of `parseHeader` that the driver makes for the line `parseLine` has cut off. -/
def callParseHeader (c : HttpContext) : Except Fault (HttpCode × HttpContext) :=
  parseHeader c.getLine ((c.checkedIdx : ℤ) - c.startLine - 2) { c with startLine := c.checkedIdx }

/-- The line that `parseLine` has cut off. -/
def CutOff (c : HttpContext) (line : Bytes) : Prop :=
  range c.getLine ((c.checkedIdx : ℤ) - c.startLine - 2) = .ok line

/-- The value is stored under the name, and nothing else changes. -/
def storeHeader (name value : Bytes) (c : HttpContext) : HttpContext :=
  { c with
    startLine := c.checkedIdx
    request := { c.request with headers := c.request.headers.insert name value } }

/-- The scanner leaves a `NUL` behind the line, and the two cursors it has no use for alone. -/
structure Scanned (c c' : HttpContext) : Prop where
  startLine : c'.startLine = c.startLine
  checkState : c'.checkState = c.checkState
  two_le : 2 ≤ c'.checkedIdx
  nul : c'.buf[c'.checkedIdx - 2]? = some NUL

theorem write_ok {i : ℕ} {b : UInt8} (h : c.write i b = .ok c') :
    i < c.buf.length ∧ c' = { c with buf := c.buf.set i b } := by
  unfold HttpContext.write at h
  split_ifs at h with hi
  exact ⟨hi, (Except.ok.inj h).symm⟩

theorem scanned_of_write {d e : HttpContext} {i j k : ℕ} (hj : j = i + 1) (hk : k = i + 2)
    (h1 : c.write i NUL = .ok d) (h2 : d.write j NUL = .ok e) :
    Scanned c { e with checkedIdx := k } := by
  obtain ⟨hi, rfl⟩ := write_ok h1
  obtain ⟨-, rfl⟩ := write_ok h2
  subst hj hk
  refine ⟨rfl, rfl, Nat.le_add_left _ _, ?_⟩
  dsimp only
  rw [Nat.add_sub_cancel, List.getElem?_set_ne (by omega), List.getElem?_set_self hi]

theorem parseLineLoop_ok : ∀ (n : ℕ) (c : HttpContext),
    parseLineLoop n c = .ok (.LINE_OK, c') → Scanned c c' := by
  intro n
  induction n with
  | zero => intro c h; cases h
  | succ n ih =>
    intro c h
    rw [parseLineLoop] at h
    obtain ⟨tmp, -, h⟩ := bind_eq_ok.mp h
    dsimp only at h
    split_ifs at h with hCR hlast hLF hfirst
    · cases h
    · -- a `CR`: the next byte decides
      obtain ⟨next, -, h⟩ := bind_eq_ok.mp h
      split_ifs at h
      · obtain ⟨d, h1, h⟩ := bind_eq_ok.mp h
        obtain ⟨e, h2, h⟩ := bind_eq_ok.mp h
        cases h
        obtain ⟨-, rfl⟩ := write_ok h1
        obtain ⟨-, rfl⟩ := write_ok h2
        exact scanned_of_write rfl rfl h1 h2
      · cases h
    · -- an `LF`: the byte before decides
      obtain ⟨afterCr, -, h⟩ := bind_eq_ok.mp h
      split_ifs at h
      · obtain ⟨d, h1, h⟩ := bind_eq_ok.mp h
        obtain ⟨e, h2, h⟩ := bind_eq_ok.mp h
        cases h
        obtain ⟨-, rfl⟩ := write_ok h1
        obtain ⟨-, rfl⟩ := write_ok h2
        exact scanned_of_write (by dsimp only; omega) (by dsimp only; omega) h1 h2
      · cases h
    · cases h
    · have := ih _ h
      exact ⟨this.startLine, this.checkState, this.two_le, this.nul⟩

theorem parseRequestLoop_callParseHeader (hst : c.checkState = .CHECK_STATE_HEADER)
    (h : c.parseLine = .ok (.LINE_OK, c')) (n : ℕ) :
    parseRequestLoop (n + 1) .LINE_OK c = (do
      let (code, d) ← callParseHeader c'
      if code = .BAD_REQUEST then pure (d.finish .BAD_REQUEST)
      else parseRequestLoop n .LINE_OK d) := by
  have hst' := (parseLineLoop_ok _ _ h).checkState.trans hst
  rw [parseRequestLoop, if_neg (by simp [hst]), h]
  simp only [ok_bind, if_true]
  split
  · rename_i hc; rw [hst'] at hc; cases hc
  · rfl
  · rename_i hc; rw [hst'] at hc; cases hc

theorem CutOff.getLine {line : Bytes} (h : c.parseLine = .ok (.LINE_OK, c'))
    (hline : CutOff c' line) : ∃ m, c'.getLine = line ++ NUL :: m ∧
      (c'.checkedIdx : ℤ) - c'.startLine - 2 = line.length := by
  have hs := parseLineLoop_ok _ _ h
  have htwo := hs.two_le
  unfold CutOff HttpContext.range at hline
  split_ifs at hline with hle
  obtain ⟨hle, hlen⟩ := hle
  have htake := Except.ok.inj hline
  have hlength : line.length = ((c'.checkedIdx : ℤ) - c'.startLine - 2).toNat := by
    rw [← htake, List.length_take]
    omega
  have hnul : (c'.getLine.drop line.length)[0]? = some NUL := by
    have hpos : c'.startLine + line.length = c'.checkedIdx - 2 := by omega
    unfold HttpContext.getLine
    rw [List.drop_drop, List.getElem?_drop, Nat.add_zero, hpos, hs.nul]
  cases hrest : c'.getLine.drop line.length with
  | nil =>
    rw [hrest] at hnul
    cases hnul
  | cons b m =>
    rw [hrest] at hnul
    obtain rfl := Option.some.inj hnul
    refine ⟨m, ?_, by omega⟩
    rw [← hrest, hlength, ← htake, List.take_append_drop]

/-- **Header values are trimmed**, for every line `name:value` that the scanner cuts off, if and
only if the value is all white space or does not end in white space. -/
theorem trimmed_iff (h : c.parseLine = .ok (.LINE_OK, c'))
    (hline : CutOff c' (name ++ COLON :: value)) (hname : COLON ∉ name) :
    callParseHeader c' = .ok (.GET_REQUEST, storeHeader name (trim value) c') ↔
      Trimmable value := by
  obtain ⟨m, htext, hlen⟩ := hline.getLine h
  unfold callParseHeader
  rw [htext, hlen, parseHeader_colon hname, trimmable_iff]
  constructor
  · intro hok
    split_ifs at hok with hlast
    exact Bool.eq_false_iff.mpr hlast
  · intro hlast
    rw [trim_eq (trimmable_iff.mpr hlast), hlast]
    rfl

theorem trimmed_front : ∃ c', (new.setBuffer (ascii "Host: a b\r\n")).parseLine = .ok (.LINE_OK, c') ∧
    CutOff c' (ascii "Host" ++ COLON :: ascii " a b") ∧
    (callParseHeader c' = .ok (.GET_REQUEST, storeHeader (ascii "Host") (trim (ascii " a b")) c') ↔
      Trimmable (ascii " a b")) :=
  ⟨_, rfl, rfl, trimmed_iff (c := new.setBuffer (ascii "Host: a b\r\n")) rfl rfl (by decide)⟩

/-- **A blank at the end of the value keeps the parser.** -/
theorem not_trimmed : ∃ c', (new.setBuffer (ascii "Host:a \r\n")).parseLine = .ok (.LINE_OK, c') ∧
    CutOff c' (ascii "Host" ++ COLON :: ascii "a ") ∧ COLON ∉ ascii "Host" ∧
    trim (ascii "a ") = ascii "a" ∧ callParseHeader c' = .error .hang :=
  ⟨_, rfl, rfl, by decide, by decide, rfl⟩

/-! ### Look-up -/

/-- The calls that change the header map.  `addHeader` is given the line `key:value`, with a `NUL`
and the rest of the buffer behind it. -/
inductive Op
  | addHeader (key value after : Bytes)
  | reset
  deriving DecidableEq

def Op.run : Op → HttpRequest → Except Fault HttpRequest
  | .addHeader key value after, r => do
    let line := key ++ COLON :: value
    let (_, r) ← r.addHeader (line ++ NUL :: after) key.length line.length
    pure r
  | .reset, r => pure r.reset

/-- A request object, and values that do not end in white space. -/
def requestMachine : Machine HttpRequest Op Fault where
  enabled _
    | .addHeader _ value _ => value.getLast?.any isspace = false
    | .reset => True
  step r a := a.run r

/-- What a call does to the entry of `key`. -/
def Op.entry (key : Bytes) : Op → Option (Option Bytes)
  | .addHeader name value _ => if name = key then some (some (value.dropWhile isspace)) else none
  | .reset => some none

/-- What a look-up of `key` should return after `ops`. -/
def expected (key : Bytes) (ops : List Op) : Bytes :=
  ((lastWrite (Op.entry key) ops).getD none).getD []

/-- The key has been added, and no `reset` has come after. -/
def Added (key : Bytes) (ops : List Op) : Prop :=
  ∃ pre value after post, ops = pre ++ .addHeader key value after :: post ∧ .reset ∉ post

theorem addHeader_run (h : value.getLast?.any isspace = false) (r : HttpRequest) :
    Op.run (.addHeader name value after) r =
      .ok { r with headers := r.headers.insert name (value.dropWhile isspace) } := by
  have hlast := trimmable_iff.mp (Or.inr h)
  simp only [Op.run, addHeader_eq, hlast]
  rfl

theorem entry_step {a : Op} (he : requestMachine.enabled r a) (hs : requestMachine.step r a = .ok r')
    (key : Bytes) : r'.headers[key]? = (a.entry key).getD r.headers[key]? := by
  cases a with
  | addHeader name value after =>
    have hs' : Op.run (.addHeader name value after) r = .ok r' := hs
    rw [addHeader_run he] at hs'
    rw [← Except.ok.inj hs']
    simp only [Op.entry, Std.ExtTreeMap.getElem?_insert]
    by_cases hname : name = key
    · simp [hname]
    · simp [hname]
  | reset =>
    rw [← Except.ok.inj hs]
    rfl

theorem headers_run {ops : List Op} (h : Run requestMachine .new ops r) (key : Bytes) :
    r.headers[key]? = (lastWrite (Op.entry key) ops).getD none :=
  run_lastWrite (fun r : HttpRequest => r.headers[key]?)
    (fun _ _ _ he hs => entry_step he hs key) h

theorem entry_ne_none {a : Op} {v : Option Bytes} (h : a.entry key = some v) (ha : a ≠ .reset) :
    v.isSome = true := by
  cases a with
  | addHeader name value after =>
    simp only [Op.entry] at h
    split_ifs at h
    rw [← Option.some.inj h]
    rfl
  | reset => exact absurd rfl ha

theorem added_iff {ops : List Op} :
    Added key ops ↔ ((lastWrite (Op.entry key) ops).getD none).isSome = true := by
  constructor
  · rintro ⟨pre, value, after, post, rfl, hreset⟩
    cases hpost : lastWrite (Op.entry key) post with
    | none =>
      -- nothing has been done to the entry since
      have hentry : (Op.addHeader key value after).entry key =
          some (some (value.dropWhile isspace)) := if_pos rfl
      rw [lastWrite_of_split hentry (lastWrite_eq_none.mp hpost)]
      rfl
    | some v =>
      obtain ⟨pre', a, post', rfl, ha, -⟩ := lastWrite_eq_some.mp hpost
      have hv := entry_ne_none ha fun h => hreset (by rw [← h]; simp)
      rw [List.append_cons, lastWrite_append, hpost, Option.some_or, Option.getD_some]
      exact hv
  · intro h
    cases hlast : lastWrite (Op.entry key) ops with
    | none =>
      rw [hlast] at h
      cases h
    | some v =>
      obtain ⟨pre, a, post, rfl, ha, hpost⟩ := lastWrite_eq_some.mp hlast
      rw [hlast] at h
      cases a with
      | addHeader name value after =>
        simp only [Op.entry] at ha
        split_ifs at ha with hname
        subst hname
        exact ⟨pre, value, after, post, rfl, fun hreset => absurd (hpost _ hreset) (by simp [Op.entry])⟩
      | reset =>
        rw [← Option.some.inj ha] at h
        cases h

theorem getHeader_eq (key : Bytes) (r : HttpRequest) : r.getHeader key =
    if r.headers[key]?.isSome then .ok (r.headers[key]?.getD []) else .error .outOfBounds := by
  unfold HttpRequest.getHeader
  cases r.headers[key]? with
  | none => rfl
  | some value => rfl

/-- The look-up is right where it returns, and it returns where the key is in the map. -/
theorem getHeader_ok {v : Bytes} : r.getHeader key = .ok v ↔
    r.headers[key]?.isSome = true ∧ v = r.headers[key]?.getD [] := by
  rw [getHeader_eq]
  split_ifs with h
  · simp [h, eq_comm]
  · simp [h]

/-! ### The decision about closing -/

/-- What `onRequest` does first. -/
def decideClose (req : HttpRequest) : Except Fault Bool := do
  let connection ← req.getHeader (ascii "Connection")
  pure (closes connection req.version)

theorem onRequest_eq {κ : Type} [DecidableEq κ] (host : Host) (req : HttpRequest)
    (s : TcpConnection κ) : onRequest host req s = (do
      let close ← decideClose req
      let response := defaultHttpCB host req (.new close)
      let data := response.toString
      if INT_MAX < data.length then throw .overflow
      let s ← s.send true quiet ⟨host.front, data⟩
      if response.closeConnection then s.shutdown true quiet else pure s) := by
  unfold onRequest decideClose
  cases req.getHeader (ascii "Connection") with
  | error e => rfl
  | ok connection => rfl

theorem insertAll_isSome (key : Bytes) (hs : List Header) : ∀ m : Headers,
    (Header.insertAll hs m)[key]?.isSome = true ↔ m[key]?.isSome = true ∨ ∃ h ∈ hs, h.name = key := by
  induction hs with
  | nil => intro m; simp [Header.insertAll]
  | cons h hs ih =>
    intro m
    have hstep : Header.insertAll (h :: hs) m = Header.insertAll hs (m.insert h.name h.value) := rfl
    rw [hstep, ih, Std.ExtTreeMap.getElem?_insert]
    by_cases hname : h.name = key
    · simp [hname]
    · simp [hname]

/-- The parser returns a request with a `Connection` header for the buffers that begin with a head
that has one. -/
theorem connection_iff {u : Bytes} {code : HttpCode}
    (h : (new.setBuffer u).parseRequest = .ok (code, c)) :
    c.request.headers[ascii "Connection"]?.isSome = true ↔
      ∃ q, BeginsWithHead u q ∧ ∃ h ∈ q.headers, h.name = ascii "Connection" := by
  have hhas : ∀ q : Head, q.request.headers[ascii "Connection"]?.isSome = true ↔
      ∃ h ∈ q.headers, h.name = ascii "Connection" := by
    intro q
    have hall := insertAll_isSome (ascii "Connection") q.headers ∅
    rw [Std.ExtTreeMap.getElem?_empty] at hall
    exact hall.trans (or_iff_right Bool.false_ne_true)
  constructor
  · intro hconn
    rcases request_of_parse h with ⟨q, hhead, hreq⟩ | ⟨-, hheaders, -⟩
    · rw [hreq] at hconn
      exact ⟨q, hhead, (hhas q).mp hconn⟩
    · rw [hheaders, Std.ExtTreeMap.getElem?_empty] at hconn
      cases hconn
  · rintro ⟨q, ⟨hq, v, rfl, hv⟩, hconn⟩
    -- the request reported is that of `q`
    obtain ⟨d, hd, hreq, -⟩ := parseRequest_ended hq hv
    rw [hd] at h
    cases h
    rw [hreq]
    exact (hhas q).mpr hconn

/-- **Header look-up**, for every sequence of calls and for every request the parser returns.  A
look-up returns what it should if and only if the key has been added since the last `reset`;
`onRequest` comes to its decision about closing, from the value of the header, if and only if the
request was read from a head that has a `Connection` header. -/
theorem getHeader_iff {ops : List Op} {u : Bytes} {code : HttpCode}
    (h : Run requestMachine .new ops r) (hparse : (new.setBuffer u).parseRequest = .ok (code, c)) :
    (∀ key, r.getHeader key = .ok (expected key ops) ↔ Added key ops) ∧
    (decideClose c.request =
        .ok (closes (c.request.headers[ascii "Connection"]?.getD []) c.request.version) ↔
      ∃ q, BeginsWithHead u q ∧ ∃ h ∈ q.headers, h.name = ascii "Connection") := by
  refine ⟨fun key => ?_, ?_⟩
  · rw [getHeader_ok, headers_run h key, added_iff]
    exact and_iff_left rfl
  · rw [← connection_iff hparse]
    unfold decideClose
    constructor
    · intro hdecide
      obtain ⟨connection, hget, -⟩ := bind_eq_ok.mp hdecide
      exact (getHeader_ok.mp hget).1
    · intro hconn
      exact bind_eq_ok.mpr ⟨_, getHeader_ok.mpr ⟨hconn, rfl⟩, rfl⟩

/-- A key that is added, forgotten and added twice more. -/
def twice : List Op :=
  [.addHeader (ascii "a") (ascii " b") [], .reset, .addHeader (ascii "a") (ascii "c") [],
    .addHeader (ascii "a") (ascii "d") []]

theorem getHeader_iff_twice : ∃ r code c, Run requestMachine .new twice r ∧
    (new.setBuffer (ascii "GET / HTTP/1.0\r\nConnection: close\r\n\r\n")).parseRequest =
      .ok (code, c) ∧
    (∀ key, r.getHeader key = .ok (expected key twice) ↔ Added key twice) ∧
    (decideClose c.request =
        .ok (closes (c.request.headers[ascii "Connection"]?.getD []) c.request.version) ↔
      ∃ q, BeginsWithHead (ascii "GET / HTTP/1.0\r\nConnection: close\r\n\r\n") q ∧
        ∃ h ∈ q.headers, h.name = ascii "Connection") :=
  have hrun := .cons rfl rfl (.cons trivial rfl (.cons rfl rfl (.cons rfl rfl (.nil _))))
  ⟨_, _, _, hrun, rfl, getHeader_iff hrun rfl⟩

/-- **A key that is not in the map** is looked up through `headers_.end()`, and so is the
`Connection` header of a request that has none. -/
theorem getHeader_absent :
    expected (ascii "a") [] = [] ∧ HttpRequest.new.getHeader (ascii "a") = .error .outOfBounds ∧
    ∃ code c, (new.setBuffer (ascii "GET / HTTP/1.0\r\n\r\n")).parseRequest = .ok (code, c) ∧
      decideClose c.request = .error .outOfBounds :=
  ⟨rfl, rfl, _, _, rfl, rfl⟩

end ReactorServer.Http.Headers
