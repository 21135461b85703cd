import WebServer.Lib.OrdMap
import WebServer.Mymuduo.Buffer

namespace WebServer.Http

open WebServer.Lib WebServer.Mymuduo

inductive HttpStatusCode where
  | kUnknown | k200Ok | k301MovedPermanently | k400BadRequest | k404NotFound
  deriving DecidableEq

def HttpStatusCode.toNat : HttpStatusCode → Nat
  | .kUnknown => 0
  | .k200Ok => 200
  | .k301MovedPermanently => 301
  | .k400BadRequest => 400
  | .k404NotFound => 404

structure HttpResponse where
  headers : OrdMap Bytes Bytes
  statusCode : HttpStatusCode
  statusMessage : Bytes
  closeConnection : Bool
  body : Bytes
  deriving DecidableEq

namespace HttpResponse

def new (close : Bool) : HttpResponse where
  headers := .empty
  statusCode := .kUnknown
  statusMessage := []
  closeConnection := close
  body := []

def setStatusCode (r : HttpResponse) (code : HttpStatusCode) : HttpResponse :=
  { r with statusCode := code }

def setStatusMessage (r : HttpResponse) (message : Bytes) : HttpResponse :=
  { r with statusMessage := message }

def setCloseConnection (r : HttpResponse) (on : Bool) : HttpResponse :=
  { r with closeConnection := on }

def addHeader (r : HttpResponse) (key value : Bytes) : HttpResponse :=
  { r with headers := r.headers.insert key value }

def setContentType (r : HttpResponse) (contentType : Bytes) : HttpResponse :=
  r.addHeader (ascii "Content-Type") contentType

def setBody (r : HttpResponse) (body : Bytes) : HttpResponse := { r with body := body }

/-- What `snprintf` leaves in a `char buf[32]`, up to the terminating NUL. -/
def snprintf32 (text : Bytes) : Bytes := text.take 31

def decimal (n : Nat) : Bytes := ascii (toString n)

def statusLine (r : HttpResponse) : Bytes :=
  snprintf32 (ascii "HTTP/1.1 " ++ decimal r.statusCode.toNat ++ ascii " ") ++ r.statusMessage ++
    ascii "\r\n"

def connectionLines (r : HttpResponse) : Bytes :=
  if r.closeConnection then ascii "Connection: close\r\n"
  else
    snprintf32 (ascii "Content-Length: " ++ decimal r.body.length ++ ascii "\r\n") ++
      ascii "Connection: Keep-Alive\r\n"

def headerLines (r : HttpResponse) : Bytes :=
  (r.headers.entries.map fun h => h.1 ++ ascii ": " ++ h.2 ++ ascii "\r\n").flatten

/-- The bytes that `appendToBuffer` appends. -/
def bytes (r : HttpResponse) : Bytes :=
  r.statusLine ++ r.connectionLines ++ r.headerLines ++ ascii "\r\n" ++ r.body

def appendToBuffer (r : HttpResponse) (output : Buffer) : Buffer :=
  let output := output.append
    (snprintf32 (ascii "HTTP/1.1 " ++ decimal r.statusCode.toNat ++ ascii " "))
  let output := output.append r.statusMessage
  let output := output.append (ascii "\r\n")
  let output :=
    if r.closeConnection then output.append (ascii "Connection: close\r\n")
    else
      let output := output.append
        (snprintf32 (ascii "Content-Length: " ++ decimal r.body.length ++ ascii "\r\n"))
      output.append (ascii "Connection: Keep-Alive\r\n")
  let output := r.headers.entries.foldl (fun output header =>
    let output := output.append header.1
    let output := output.append (ascii ": ")
    let output := output.append header.2
    output.append (ascii "\r\n")) output
  let output := output.append (ascii "\r\n")
  output.append r.body

theorem peek_foldl_headers (hs : List (Bytes × Bytes)) (b : Buffer) :
    (hs.foldl (fun output header =>
        (((output.append header.1).append (ascii ": ")).append header.2).append (ascii "\r\n"))
      b).peek =
      b.peek ++ (hs.map fun h => h.1 ++ ascii ": " ++ h.2 ++ ascii "\r\n").flatten := by
  induction hs generalizing b with
  | nil => simp
  | cons h hs ih => simp [ih]

@[simp] theorem peek_appendToBuffer (r : HttpResponse) (b : Buffer) :
    (r.appendToBuffer b).peek = b.peek ++ r.bytes := by
  simp only [appendToBuffer, Buffer.peek_append, peek_foldl_headers, bytes, statusLine,
    connectionLines, headerLines]
  split <;> simp

end HttpResponse

end WebServer.Http
