import ReactorServer.Http.Response
import ReactorServer.Net.Connection

/-!
# The HTTP server

The callbacks `HttpServer` gives its connections: `onMessage` parses what has been received, answers
with what `defaultHttpCB` says, and resets the parser.
-/

namespace ReactorServer.Http.Server

open ReactorServer.Cpp ReactorServer.Lib.Runs
open ReactorServer.Http.Request ReactorServer.Http.Response ReactorServer.Http.Context
open ReactorServer.Net.Connection

/-- What `stat` tells of a file, and what the file holds. -/
structure File where
  /-- `st_mode & S_IROTH` -/
  othersMayRead : Bool
  /-- `S_ISDIR(st_mode)` -/
  directory : Bool
  content : Bytes
  deriving DecidableEq, Repr

/-- What surrounds the server: the files by their paths, and the byte in front of a response in
memory. -/
structure Host where
  stat : Bytes → Option File
  front : UInt8

/-- `s.find(t) != npos`, for a literal. -/
def mentions (t : String) (path : Bytes) : Bool := contains (ascii t) path

def processError (req : HttpRequest) (response : HttpResponse) : HttpResponse :=
  let r := ((((response.setCloseConnection true).setVersion req.version).addHeader
    (ascii "Server") (ascii "47.96.106.37:9000")).addHeader
    (ascii "Content-Type") (ascii "text/html charset=utf-8"))
  match req.requestCode with
  | .NO_REQUEST =>
    ((r.setResponseCode (ascii "400")).setResponseMsg error_404_title).setBody error_400_form
  | .BAD_REQUEST =>
    ((r.setResponseCode (ascii "404")).setResponseMsg error_404_title).setBody error_404_form
  | .INTERNAL_ERROR =>
    ((r.setResponseCode (ascii "500")).setResponseMsg error_500_title).setBody error_500_form
  | .NO_RESOURCE =>
    ((r.setResponseCode (ascii "403")).setResponseMsg error_403_title).setBody error_403_form
  | _ =>
    ((r.setResponseCode (ascii "404")).setResponseMsg error_404_title).setBody error_404_form

/-- The `Content-Type` for a path. -/
def contentType (path : Bytes) : Bytes :=
  if mentions "jpg" path then ascii "image/jpeg charset=utf-8"
  else if mentions "pdf" path then ascii "application/pdf"
  else ascii "text/html charset=utf-8"

/-- `defaultHttpCB`, the `httpCB_` of the constructor. -/
def defaultHttpCB (host : Host) (req : HttpRequest) (response : HttpResponse) : HttpResponse :=
  if req.requestCode ≠ .GET_REQUEST then processError req response
  else
    let r := ((response.setVersion req.version).addHeader
      (ascii "Server") (ascii "47.96.106.37:9000")).addHeader
      (ascii "Content-Type") (contentType req.path)
    match host.stat (cstr (ascii "/root" ++ req.path)) with
    | none =>
      ((r.setResponseCode (ascii "400")).setResponseMsg error_404_title).setBody error_404_form
    | some file =>
      if ¬file.othersMayRead then
        ((r.setResponseCode (ascii "403")).setResponseMsg error_403_title).setBody error_403_form
      else if file.directory then
        ((r.setResponseCode (ascii "400")).setResponseMsg error_400_title).setBody error_400_form
      else
        ((r.setResponseCode (ascii "200")).setResponseMsg ok_200_title).setBody file.content

variable {κ : Type} [DecidableEq κ]

/-- The callbacks a call of `onRequest` may reach: none. -/
def quiet : Callbacks κ := ⟨.ok, .ok⟩

/-- The server closes the connection after its response. -/
def closes (connection version : Bytes) : Bool :=
  connection = ascii "close" || (version = ascii "HTTP/1.0" && connection ≠ ascii "Keep-Alive")

def onRequest (host : Host) (req : HttpRequest) (s : TcpConnection κ) :
    Except Fault (TcpConnection κ) := do
  let connection ← req.getHeader (ascii "Connection")
  let response := defaultHttpCB host req (.new (closes connection req.version))
  let data := response.toString
  -- `(int)data.size()`
  if INT_MAX < data.length then throw .overflow
  let s ← s.send true quiet ⟨host.front, data⟩
  if response.closeConnection then s.shutdown true quiet else pure s

/-- `onMessage`: the parser works in `readBuf_` itself. -/
def onMessage (host : Host) (s : TcpConnection κ) : Except Fault (TcpConnection κ) := do
  match s.context with
  | none => throw .outOfBounds
  | some c =>
    let (_, c) ← c.parseRequest
    let s ← onRequest host c.request { s with readBuf := c.buf, context := some c }
    pure (s.setContext c.reset)

/-- The callbacks of the server's connections. -/
def httpServer (host : Host) : Callbacks κ := ⟨TcpConnection.onConnection, onMessage host⟩

end ReactorServer.Http.Server
