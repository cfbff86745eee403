import ReactorServer.Conn.Strings

/-!
# The incremental parser

`HttpConn` keeps what it has received since `init` in `readBuf` and parses it as it comes in.
`processRead` is called after every `read`; it takes the complete lines one after another and hands
each of them to the parser of its state, and goes on where it stopped when it is called again.
Pointers into `readBuf` are indices.
-/

namespace ReactorServer.Conn.Parser

open ReactorServer.Cpp ReactorServer.Lib.Runs ReactorServer.Conn.Strings

/-! ### The connection -/

/-- `enum METHOD`. -/
inductive METHOD
  | GET
  | POST
  | HEAD
  | PUT
  | DELETE
  | TRACE
  | OPTIONS
  | CONNECT
  | PATCH
  deriving DecidableEq, Repr

/-- `enum CHECK_STATE`. -/
inductive CHECK_STATE
  | CHECK_STATE_REQUESTLINE
  | CHECK_STATE_HEADER
  | CHECK_STATE_CONTENT
  deriving DecidableEq, Repr

/-- `enum HTTP_CODE`. -/
inductive HTTP_CODE
  | NO_REQUEST
  | GET_REQUEST
  | BAD_REQUEST
  | NO_RESOURCE
  | FORBIDDEN_REQUEST
  | _REQUEST
  | FILE_REQUEST
  | INTERNAL_ERROR
  | CLOSED_CONNECTION
  deriving DecidableEq, Repr

/-- `enum LINE_STATUS`. -/
inductive LINE_STATUS
  | LINE_OK
  | LINE_BAD
  | LINE_OPEN
  deriving DecidableEq, Repr

/-- The members of `HttpConn` that the parsers of the lines set. -/
structure Head where
  checkState : CHECK_STATE
  method : METHOD
  url : Option ℕ
  version : Option ℕ
  host : Option ℕ
  contentLength : ℤ
  linger : Bool
  deriving DecidableEq, Repr

/-- `HttpConn`, as far as the parser uses it. -/
structure HttpConn extends Head where
  readBuf : Buffer
  readIdx : ℕ
  startLine : ℕ
  checkedIdx : ℕ

/-- `HttpConn::init`. -/
def init : HttpConn where
  checkState := .CHECK_STATE_REQUESTLINE
  method := .GET
  url := none
  version := none
  host := none
  contentLength := 0
  linger := false
  readBuf := fun _ => NUL
  readIdx := 0
  startLine := 0
  checkedIdx := 0

/-- The bytes `chunk` from the index `r` on. -/
def splice (m : Buffer) (r : ℕ) (chunk : Bytes) : Buffer :=
  fun i => if r ≤ i then chunk.getD (i - r) (m i) else m i

/-- What a `read` that returns true has done: the `recv`s have put these bytes into the buffer. -/
def read (chunk : Bytes) (s : HttpConn) : HttpConn :=
  { s with readBuf := splice s.readBuf s.readIdx chunk, readIdx := s.readIdx + chunk.length }

/-- `readBuf[i] = '\0'`. -/
def clearAt (i : ℤ) (s : HttpConn) : Except Fault HttpConn := do
  let m ← writeAt i NUL s.readBuf
  pure { s with readBuf := m }

/-! ### The line scanner -/

/-- The loop of `parseLine`, with `n = readIdx - checkedIdx` iterations left. -/
def parseLineLoop : ℕ → HttpConn → Except Fault (LINE_STATUS × HttpConn)
  | 0, s => pure (.LINE_OPEN, s)
  | n + 1, s => do
    let tmp ← readAt s.readBuf s.checkedIdx
    if tmp = CR then
      if s.checkedIdx + 1 = s.readIdx then pure (.LINE_OPEN, s)
      else if (← readAt s.readBuf (s.checkedIdx + 1 : ℕ)) = LF then
        let s ← clearAt s.checkedIdx s
        let s ← clearAt (s.checkedIdx + 1 : ℕ) s
        pure (.LINE_OK, { s with checkedIdx := s.checkedIdx + 2 })
      else pure (.LINE_BAD, s)
    else if tmp = LF then
      let afterCr ←
        if 1 < s.checkedIdx then (· == CR) <$> readAt s.readBuf (s.checkedIdx - 1 : ℕ)
        else pure false
      if afterCr then
        let s ← clearAt (s.checkedIdx - 1 : ℕ) s
        let s ← clearAt s.checkedIdx s
        pure (.LINE_OK, { s with checkedIdx := s.checkedIdx + 1 })
      else pure (.LINE_BAD, s)
    else parseLineLoop n { s with checkedIdx := s.checkedIdx + 1 }

def parseLine (s : HttpConn) : Except Fault (LINE_STATUS × HttpConn) :=
  parseLineLoop (s.readIdx - s.checkedIdx) s

/-! ### The parsers of the lines -/

/-- `" \t"`. -/
def blanks : Bytes := [SP, 9]

/-- The target without its scheme and host. -/
def skipHost (m : Buffer) (url : ℕ) : Except Fault (Option ℕ) := do
  if ← strncasecmp m url (ascii "http://") 7 then strchr m (url + 7) 47
  else pure (some url)

/-- The end of `parseRequestLine`, where the target begins at `url`. -/
def checkUrl (url : ℕ) (s : HttpConn) : Except Fault (HTTP_CODE × HttpConn) := do
  let url ← skipHost s.readBuf url
  let s := { s with url := url }
  match url with
  | none => pure (.BAD_REQUEST, s)
  | some url =>
    if (← readAt s.readBuf url) ≠ 47 then pure (.BAD_REQUEST, s)
    else pure (.NO_REQUEST, { s with checkState := .CHECK_STATE_HEADER })

def parseRequestLine (text : ℕ) (s : HttpConn) : Except Fault (HTTP_CODE × HttpConn) := do
  match ← strpbrk s.readBuf text blanks with
  | none => pure (.BAD_REQUEST, { s with url := none })
  | some url =>
    let s ← clearAt url s
    let url := url + 1
    let md := text
    if ← strcasecmp s.readBuf md (ascii "GET") then
      let s := { s with method := .GET }
      let url := url + (← strspn s.readBuf url blanks)
      let s := { s with url := some url }
      match ← strpbrk s.readBuf url blanks with
      | none => pure (.BAD_REQUEST, { s with version := none })
      | some version =>
        let s ← clearAt version s
        let version := version + 1
        let version := version + (← strspn s.readBuf version blanks)
        let s := { s with version := some version }
        if ← strcasecmp s.readBuf version (ascii "HTTP/1.1") then checkUrl url s
        else pure (.BAD_REQUEST, s)
    else pure (.BAD_REQUEST, { s with url := some url })

/-- What `parseHeaders` does with `text` when the name has been cut off. -/
def value (text : ℕ) (s : HttpConn) : Except Fault ℕ := do
  pure (text + (← strspn s.readBuf text blanks))

def parseHeaders (text : ℕ) (s : HttpConn) : Except Fault (HTTP_CODE × HttpConn) := do
  if (← readAt s.readBuf text) = NUL then
    if s.contentLength ≠ 0 then pure (.NO_REQUEST, { s with checkState := .CHECK_STATE_CONTENT })
    else pure (.GET_REQUEST, s)
  else if ← strncasecmp s.readBuf text (ascii "Connection:") 11 then
    let text ← value (text + 11) s
    if ← strcasecmp s.readBuf text (ascii "keep-alive") then
      pure (.NO_REQUEST, { s with linger := true })
    else pure (.NO_REQUEST, s)
  else if ← strncasecmp s.readBuf text (ascii "Content-Length:") 15 then
    let text ← value (text + 15) s
    let n ← atol s.readBuf text
    pure (.NO_REQUEST, { s with contentLength := truncate n })
  else if ← strncasecmp s.readBuf text (ascii "Host:") 5 then
    let text ← value (text + 5) s
    pure (.NO_REQUEST, { s with host := some text })
  else do
    -- the `printf` of the line
    let _ ← cstring s.readBuf text
    pure (.NO_REQUEST, s)

def parseContent (text : ℕ) (s : HttpConn) : Except Fault (HTTP_CODE × HttpConn) := do
  let received ← addInt s.contentLength s.checkedIdx
  if received ≤ s.readIdx then
    let s ← clearAt (text + s.contentLength) s
    pure (.GET_REQUEST, s)
  else pure (.NO_REQUEST, s)

/-! ### The file -/

/-- `docRoot`. -/
def docRoot : Bytes := ascii "/work"

/-- `FILENAME_LEN`. -/
def FILENAME_LEN : ℕ := 200

def S_IROTH : ℕ := 4
def S_IFMT : ℕ := 61440
def S_IFDIR : ℕ := 16384

/-- The file system: the `st_mode` of a path where `stat` succeeds.  A file that others may read and
that is not a directory can be opened and mapped. -/
abbrev Stat := Bytes → Option ℕ

/-- `readFile`: the root, and what `strncpy` has room for. -/
def readFile (url : Bytes) : Bytes := docRoot ++ url.take (FILENAME_LEN - docRoot.length - 1)

def doRequest (stat : Stat) (s : HttpConn) : Except Fault HTTP_CODE := do
  match s.url with
  | none => throw .outOfBounds
  | some url =>
    match stat (readFile (← cstring s.readBuf url)) with
    | none => pure .NO_REQUEST
    | some st_mode =>
      if st_mode &&& S_IROTH = 0 then pure .FORBIDDEN_REQUEST
      else if st_mode &&& S_IFMT = S_IFDIR then pure .BAD_REQUEST
      else pure .FILE_REQUEST

/-! ### The loop -/

/-- The condition of the loop, which holds when the status is `LINE_OK`. -/
def loopTest (status : LINE_STATUS) (s : HttpConn) : Except Fault (LINE_STATUS × HttpConn) :=
  if s.checkState = .CHECK_STATE_CONTENT ∧ status = .LINE_OK then pure (status, s)
  else parseLine s

/-- `startLine = checkedIdx`. -/
def nextLine (s : HttpConn) : HttpConn := { s with startLine := s.checkedIdx }

/-- The body of the loop: the code it returns, if it does, and the status. -/
def turn (stat : Stat) (s : HttpConn) :
    Except Fault (Option HTTP_CODE × LINE_STATUS × HttpConn) := do
  let text := s.startLine
  let s := nextLine s
  -- the `printf` of the line
  let _ ← cstring s.readBuf text
  match s.checkState with
  | .CHECK_STATE_REQUESTLINE =>
    let (ret, s) ← parseRequestLine text s
    if ret = .BAD_REQUEST then pure (some .BAD_REQUEST, .LINE_OK, s)
    else pure (none, .LINE_OK, s)
  | .CHECK_STATE_HEADER =>
    let (ret, s) ← parseHeaders text s
    if ret = .BAD_REQUEST then pure (some .BAD_REQUEST, .LINE_OK, s)
    else if ret = .GET_REQUEST then pure (some (← doRequest stat s), .LINE_OK, s)
    else pure (none, .LINE_OK, s)
  | .CHECK_STATE_CONTENT =>
    let (ret, s) ← parseContent text s
    if ret = .GET_REQUEST then pure (some (← doRequest stat s), .LINE_OK, s)
    else pure (none, .LINE_OPEN, s)

/-- The loop of `processRead`, with `n` turns allowed. -/
def processReadLoop (stat : Stat) :
    ℕ → LINE_STATUS → HttpConn → Except Fault (HTTP_CODE × HttpConn)
  | 0, _, _ => throw .hang
  | n + 1, status, s => do
    let (status, s) ← loopTest status s
    if status = .LINE_OK then
      let (ret, status, s) ← turn stat s
      match ret with
      | some code => pure (code, s)
      | none => processReadLoop stat n status s
    else pure (.NO_REQUEST, s)

/-- `processRead`: there are never more turns than this. -/
def processRead (stat : Stat) (s : HttpConn) : Except Fault (HTTP_CODE × HttpConn) :=
  processReadLoop stat (2 * (s.readIdx - s.checkedIdx) + 2) .LINE_OK s

end ReactorServer.Conn.Parser
