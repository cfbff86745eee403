import ReactorServer.Cpp
import ReactorServer.Lib.Runs
import Std.Data.ExtTreeMap

/-!
# The request object

What the parser has found so far: request code, method, path, query, version and header map.  The
setters take the half-open range of the buffer they copy, as a byte string; `addHeader` also reads
the byte at the end of its range, so it is given the memory from the beginning of the line on.
-/

namespace ReactorServer.Http.Request

open ReactorServer.Cpp ReactorServer.Lib.Runs

/-- `enum HttpCode`. -/
inductive HttpCode
  | NO_REQUEST
  | GET_REQUEST
  | BAD_REQUEST
  | NO_RESOURCE
  | FORBIDDEN_REQUEST
  | REQUEST
  | FILE_REQUEST
  | INTERNAL_ERROR
  | CLOSED_CONNECTION
  deriving DecidableEq, Repr

/-- `std::map<std::string, std::string>`. -/
abbrev Headers := Std.ExtTreeMap Bytes Bytes

structure HttpRequest where
  requestCode : HttpCode
  method : Bytes
  path : Bytes
  query : Bytes
  version : Bytes
  headers : Headers

namespace HttpRequest

/-- The constructor. -/
def new : HttpRequest := ⟨.NO_REQUEST, [], [], [], [], ∅⟩

def setMethod (m : Bytes) (r : HttpRequest) : Bool × HttpRequest :=
  (!m.isEmpty, { r with method := m })

def setPath (p : Bytes) (r : HttpRequest) : Bool × HttpRequest :=
  (!p.isEmpty, { r with path := p })

def setVersion (v : Bytes) (r : HttpRequest) : Bool × HttpRequest :=
  (!v.isEmpty, { r with version := v })

def setQuery (q : Bytes) (r : HttpRequest) : Bool × HttpRequest :=
  (!q.isEmpty, { r with query := q })

def setRequestCode (code : HttpCode) (r : HttpRequest) : HttpRequest :=
  { r with requestCode := code }

/-- How far `while (begin < end && isspace(*colon)) ++colon;` advances.  The first condition does
not change in the loop, so only the byte read can end it. -/
def skipSpaces : Bytes → Except Fault ℕ
  | [] => .error .outOfBounds
  | b :: m => if isspace b then (· + 1) <$> skipSpaces m else .ok 0

/-- `addHeader(begin, colon, end)` with `text` the memory from `begin` on, `colon` and `len` the
distances of `colon` and `end` from `begin`. -/
def addHeader (text : Bytes) (colon len : ℕ) (r : HttpRequest) :
    Except Fault (Bool × HttpRequest) := do
  let key := text.take colon
  let skipped ← if 0 < len then skipSpaces (text.drop (colon + 1)) else pure 0
  let first := colon + 1 + skipped
  -- `std::string value(colon, (size_t)(end - colon))`: a negative length throws
  if len < first then throw .exception
  let value := (text.take len).drop first
  -- `value.reserve(value.size() - 1)` does not shorten `value`
  if value.getLast?.any isspace then throw .hang
  pure (true, { r with headers := r.headers.insert key value })

/-- `getHeader`: the `if` guards nothing, so an absent key dereferences `headers_.end()`. -/
def getHeader (key : Bytes) (r : HttpRequest) : Except Fault Bytes :=
  match r.headers[key]? with
  | some value => .ok value
  | none => .error .outOfBounds

def reset (_ : HttpRequest) : HttpRequest := new

end HttpRequest

end ReactorServer.Http.Request
