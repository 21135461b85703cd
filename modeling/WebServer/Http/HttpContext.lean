import WebServer.Http.HttpRequest
import WebServer.Lib.Loop
import WebServer.Mymuduo.Buffer

namespace WebServer.Http

open WebServer.Lib WebServer.Mymuduo

inductive HttpRequestParseState where
  | kExpectRequestLine | kExpectHeaders | kExpectBody | kGotAll
  deriving DecidableEq

structure HttpContext where
  state : HttpRequestParseState
  request : HttpRequest
  deriving DecidableEq

def kSpace : UInt8 := 32
def kQuestion : UInt8 := 63
def kColon : UInt8 := 58

namespace HttpContext

def new : HttpContext := ⟨.kExpectRequestLine, .new⟩

def gotAll (c : HttpContext) : Bool := c.state = .kGotAll

/-- The request is swapped with a fresh one. -/
def reset (_ : HttpContext) : HttpContext := ⟨.kExpectRequestLine, .new⟩

/-- The part of `processRequestLine` behind the target: `version` is `[start, end)`. -/
def processVersion (r : HttpRequest) (version : Bytes) : Bool × HttpRequest :=
  if version.length = 8 ∧ version.take 7 = ascii "HTTP/1." then
    if version.getLast? = some 49 then (true, r.setVersion .kHttp11)
    else if version.getLast? = some 48 then (true, r.setVersion .kHttp10)
    else (false, r)
  else (false, r)

def processTarget (r : HttpRequest) (target : Bytes) : HttpRequest :=
  let question := target.idxOf kQuestion
  if question ≠ target.length then
    (r.setPath (target.take question)).setQuery (target.drop question)
  else r.setPath target

/-- `processRequestLine` on the bytes `[begin, end)`; `idxOf` is `std::find`. -/
def processRequestLine (r : HttpRequest) (line : Bytes) : Except Fault (Bool × HttpRequest) :=
  let space := line.idxOf kSpace
  if space ≠ line.length then
    (r.setMethod (line.take space)).map fun (known, r) =>
      if known then
        let start := line.drop (space + 1)
        let space := start.idxOf kSpace
        if space ≠ start.length then
          processVersion (processTarget r (start.take space)) (start.drop (space + 1))
        else (false, r)
      else (false, r)
  else .ok (false, r)

/-- The variables of `parseRequest`, with the context and the buffer it works on. -/
structure Parse where
  ok : Bool
  hasMore : Bool
  context : HttpContext
  buf : Buffer

def parseStep (receiveTime : Timestamp) (p : Parse) : Except Fault Parse :=
  match p.context.state with
  | .kExpectRequestLine =>
    match p.buf.findCRLF with
    | some crlf =>
      (processRequestLine p.context.request (p.buf.peek.take crlf)).map fun (ok, r) =>
        if ok then
          { p with
            ok := ok
            context := ⟨.kExpectHeaders, r.setReceiveTime receiveTime⟩
            buf := p.buf.retrieveUntil (crlf + 2) }
        else { p with ok := ok, hasMore := false, context := { p.context with request := r } }
    | none => .ok { p with hasMore := false }
  | .kExpectHeaders =>
    match p.buf.findCRLF with
    | some crlf =>
      let line := p.buf.peek.take crlf
      let colon := line.idxOf kColon
      if colon ≠ line.length then
        .ok { p with
          context := { p.context with request := p.context.request.addHeader line colon }
          buf := p.buf.retrieveUntil (crlf + 2) }
      else
        .ok { p with
          hasMore := false
          context := { p.context with state := .kGotAll }
          buf := p.buf.retrieveUntil (crlf + 2) }
    | none => .ok { p with hasMore := false }
  | .kExpectBody => .ok p
  | .kGotAll => .ok p

/-- `parseRequest`.  The fuel is enough whenever the loop ends at all. -/
def parseRequest (c : HttpContext) (buf : Buffer) (receiveTime : Timestamp) : Except Fault Parse :=
  whileLoop Parse.hasMore (parseStep receiveTime) .nontermination (buf.readableBytes + 2)
    ⟨true, true, c, buf⟩

end HttpContext

end WebServer.Http
