import ReactorServer.Http.Request

/-!
# The parser

`HttpContext` reads a buffer with two cursors: `checkedIdx` is where the line scanner stands,
`startLine` where the line it is looking for begins.  The scanner overwrites the two bytes that end
a line with `NUL`; the driver hands every complete line to the parser of its state.

`buf` is the memory `buf_` points to: the `readIdx` bytes the connection has received, and nothing
when the pointer is null.
-/

namespace ReactorServer.Http.Context

open ReactorServer.Cpp ReactorServer.Lib.Runs ReactorServer.Http.Request

/-- `enum LineStatus`. -/
inductive LineStatus
  | LINE_OK
  | LINE_BAD
  | LINE_OPEN
  deriving DecidableEq, Repr

/-- `enum CheckState`. -/
inductive CheckState
  | CHECK_STATE_REQUESTLINE
  | CHECK_STATE_HEADER
  | CHECK_STATE_CONTENT
  deriving DecidableEq, Repr

structure HttpContext where
  buf : Bytes
  readIdx : ℕ
  checkedIdx : ℕ
  startLine : ℕ
  httpCode : HttpCode
  checkState : CheckState
  request : HttpRequest

namespace HttpContext

/-- The constructor; it leaves `buf_` and `readIdx_` to `setBuffer`. -/
def new : HttpContext := ⟨[], 0, 0, 0, .NO_REQUEST, .CHECK_STATE_REQUESTLINE, .new⟩

def setBuffer (buf : Bytes) (c : HttpContext) : HttpContext :=
  { c with buf := buf, readIdx := buf.length }

/-- `buf_[i]`. -/
def read (c : HttpContext) (i : ℕ) : Except Fault UInt8 :=
  match c.buf[i]? with
  | some b => .ok b
  | none => .error .outOfBounds

/-- `buf_[i] = b`. -/
def write (c : HttpContext) (i : ℕ) (b : UInt8) : Except Fault HttpContext :=
  if i < c.buf.length then .ok { c with buf := c.buf.set i b } else .error .outOfBounds

/-- The memory the returned pointer designates. -/
def getLine (c : HttpContext) : Bytes := c.buf.drop c.startLine

/-- The loop of `parseLine`, with `n = readIdx_ - checkedIdx_` iterations left. -/
def parseLineLoop : ℕ → HttpContext → Except Fault (LineStatus × HttpContext)
  | 0, c => pure (.LINE_OPEN, c)
  | n + 1, c => do
    let tmp ← c.read c.checkedIdx
    if tmp = CR then
      if c.checkedIdx + 1 = c.readIdx then
        pure (.LINE_OPEN, c)
      else if (← c.read (c.checkedIdx + 1)) = LF then
        let c ← c.write c.checkedIdx NUL
        let c ← c.write (c.checkedIdx + 1) NUL
        pure (.LINE_OK, { c with checkedIdx := c.checkedIdx + 2 })
      else
        pure (.LINE_BAD, c)
    else if tmp = LF then
      let afterCr ← if 1 < c.checkedIdx then (· == CR) <$> c.read (c.checkedIdx - 1) else pure false
      if afterCr then
        let c ← c.write (c.checkedIdx - 1) NUL
        let c ← c.write c.checkedIdx NUL
        pure (.LINE_OK, { c with checkedIdx := c.checkedIdx + 1 })
      else
        pure (.LINE_BAD, c)
    else
      parseLineLoop n { c with checkedIdx := c.checkedIdx + 1 }

def parseLine (c : HttpContext) : Except Fault (LineStatus × HttpContext) :=
  parseLineLoop (c.readIdx - c.checkedIdx) c

/-- The bytes of `[text, text + len)`. -/
def range (text : Bytes) (len : ℤ) : Except Fault Bytes :=
  if 0 ≤ len ∧ len.toNat ≤ text.length then .ok (text.take len.toNat) else .error .outOfBounds

def parseRequestLine (text : Bytes) (len : ℤ) (c : HttpContext) :
    Except Fault (HttpCode × HttpContext) := do
  let line ← range text len
  let space := line.idxOf SP
  if space ≠ line.length then
    let (ok, r) := c.request.setMethod (line.take space)
    let c := { c with request := r }
    if ok then
      let rest := line.drop (space + 1)
      let space := rest.idxOf SP
      if space ≠ rest.length then
        let target := rest.take space
        let question := target.idxOf QUESTION
        let r := if question ≠ target.length then
            ((c.request.setPath (target.take question)).2.setQuery (target.drop question)).2
          else (c.request.setPath target).2
        let c := { c with request := r }
        let last := rest.drop (space + 1)
        if last.length = 8 ∧ last.take 7 = ascii "HTTP/1." then
          pure (.GET_REQUEST, { c with
            request := (c.request.setVersion last).2, checkState := .CHECK_STATE_HEADER })
        else pure (.BAD_REQUEST, c)
      else pure (.BAD_REQUEST, c)
    else pure (.BAD_REQUEST, c)
  else pure (.BAD_REQUEST, c)

def parseHeader (text : Bytes) (len : ℤ) (c : HttpContext) :
    Except Fault (HttpCode × HttpContext) := do
  let line ← range text len
  let colon := line.idxOf COLON
  if colon ≠ line.length then
    let (ok, r) ← c.request.addHeader text colon line.length
    pure (if ok then .GET_REQUEST else .BAD_REQUEST, { c with request := r })
  else
    pure (.GET_REQUEST, { c with checkState := .CHECK_STATE_CONTENT })

/-- `parseBody` reads neither its text nor the context. -/
def parseBody (_ : Bytes) (_ : ℤ) : HttpCode := .GET_REQUEST

/-- Set the request code and return it. -/
def finish (code : HttpCode) (c : HttpContext) : HttpCode × HttpContext :=
  (code, { c with request := c.request.setRequestCode code })

/-- The loop of `parseRequest`, for at most `n` iterations.  Every iteration but the last consumes a
line, so `parseRequest` allows more than there can be (`parseRequest_cases`). -/
def parseRequestLoop : ℕ → LineStatus → HttpContext → Except Fault (HttpCode × HttpContext)
  | 0, _, _ => .error .hang
  | n + 1, state, c => do
    let (state, c) ← if c.checkState = .CHECK_STATE_CONTENT ∧ state = .LINE_OK
      then pure (state, c) else c.parseLine
    if state = .LINE_OK then
      let text := c.getLine
      let le : ℤ := (c.checkedIdx : ℤ) - c.startLine - 2
      let c := { c with startLine := c.checkedIdx }
      match c.checkState with
      | .CHECK_STATE_REQUESTLINE =>
        let (code, c) ← c.parseRequestLine text le
        if code = .BAD_REQUEST then pure (c.finish .BAD_REQUEST) else parseRequestLoop n state c
      | .CHECK_STATE_HEADER =>
        let (code, c) ← c.parseHeader text le
        if code = .BAD_REQUEST then pure (c.finish .BAD_REQUEST) else parseRequestLoop n state c
      | .CHECK_STATE_CONTENT =>
        let code := parseBody text le
        if code = .BAD_REQUEST then pure (c.finish .BAD_REQUEST)
        else if code = .GET_REQUEST then pure (c.finish .GET_REQUEST)
        else parseRequestLoop n state c
    else pure (c.finish .GET_REQUEST)

/-- `parseRequest` does not look at its arguments: the buffer is the one of `setBuffer`. -/
def parseRequest (c : HttpContext) : Except Fault (HttpCode × HttpContext) :=
  parseRequestLoop (c.readIdx + 2) .LINE_OK c

def reset (_ : HttpContext) : HttpContext := new

end HttpContext

end ReactorServer.Http.Context
