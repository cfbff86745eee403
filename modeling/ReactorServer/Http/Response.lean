import ReactorServer.Http.Request

/-!
# The response object

`HttpResponse` and its text, and the titles and pages of `class HTTP`.
-/

namespace ReactorServer.Http.Response

open ReactorServer.Cpp ReactorServer.Http.Request

/-! ### Titles and pages -/

def ok_200_title : Bytes := ascii "OK"
def error_400_title : Bytes := ascii "Bad Request"
def error_400_form : Bytes :=
  ascii "Your request has bad syntax or is inherently impossible to satisfy.\n"
def error_403_title : Bytes := ascii "Forbidden"
def error_403_form : Bytes := ascii "You do not have permission to get file from this server.\n"
def error_404_title : Bytes := ascii "Not Found"
def error_404_form : Bytes := ascii "The request file was not found on this server.\n"
def error_500_title : Bytes := ascii "Internal Error"
def error_500_form : Bytes := ascii "There was an unusual problem serving the request file.\n"

/-! ### The response -/

structure HttpResponse where
  version : Bytes
  responseCode : Bytes
  responseMsg : Bytes
  body : Bytes
  headers : Headers
  closeConnection : Bool

namespace HttpResponse

/-- The constructor. -/
def new (close : Bool) : HttpResponse := ⟨[], [], [], [], ∅, close⟩

def setCloseConnection (on : Bool) (r : HttpResponse) : HttpResponse :=
  { r with closeConnection := on }

def setBody (s : Bytes) (r : HttpResponse) : HttpResponse := { r with body := s }

def setVersion (v : Bytes) (r : HttpResponse) : HttpResponse := { r with version := v }

def setResponseMsg (m : Bytes) (r : HttpResponse) : HttpResponse := { r with responseMsg := m }

def setResponseCode (code : Bytes) (r : HttpResponse) : HttpResponse :=
  { r with responseCode := code }

def addHeader (key value : Bytes) (r : HttpResponse) : HttpResponse :=
  { r with headers := r.headers.insert key value }

def getBodySize (r : HttpResponse) : ℕ := r.body.length

def CRLF : Bytes := [CR, LF]

/-- What `toString` appends for one header. -/
def headerLine (h : Bytes × Bytes) : Bytes := h.1 ++ ascii ": " ++ h.2 ++ CRLF

/-- What `toString` appends before the headers. -/
def statusLine (r : HttpResponse) : Bytes :=
  r.version ++ ascii " " ++ r.responseCode ++ ascii " " ++ r.responseMsg ++ CRLF

def connectionLines (r : HttpResponse) : Bytes :=
  if r.closeConnection then ascii "Connection: close" ++ CRLF
  else ascii "Content-Length: " ++ ascii (toString r.getBodySize) ++ CRLF ++
    ascii "Connection: Keep-Alive" ++ CRLF

def toString (r : HttpResponse) : Bytes :=
  r.statusLine ++ r.connectionLines ++ r.headers.toList.flatMap headerLine ++ CRLF ++ r.body

end HttpResponse

end ReactorServer.Http.Response
