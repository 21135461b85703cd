import Mathlib.Data.List.DropRight
import WebServer.Lib.OrdMap
import WebServer.Mymuduo.Timestamp

namespace WebServer.Http

open WebServer.Lib WebServer.Mymuduo

inductive Method where
  | kInvalid | kGet | kPost | kHead | kPut | kDelete
  deriving DecidableEq

inductive Version where
  | kUnknown | kHttp10 | kHttp11
  deriving DecidableEq

/-- Why a call does not return: a failed `assert`, or a loop that never ends. -/
inductive Fault where
  | assertion | nontermination
  deriving DecidableEq

structure HttpRequest where
  method : Method
  version : Version
  path : Bytes
  query : Bytes
  receiveTime : Timestamp
  headers : OrdMap Bytes Bytes
  deriving DecidableEq

namespace HttpRequest

def new : HttpRequest where
  method := .kInvalid
  version := .kUnknown
  path := []
  query := []
  receiveTime := .invalid
  headers := .empty

def setVersion (r : HttpRequest) (v : Version) : HttpRequest := { r with version := v }

def methodOf (m : Bytes) : Method :=
  if m = ascii "GET" then .kGet
  else if m = ascii "POST" then .kPost
  else if m = ascii "HEAD" then .kHead
  else if m = ascii "PUT" then .kPut
  else if m = ascii "DELETE" then .kDelete
  else .kInvalid

def setMethod (r : HttpRequest) (m : Bytes) : Except Fault (Bool × HttpRequest) :=
  if r.method = .kInvalid then .ok (methodOf m ≠ .kInvalid, { r with method := methodOf m })
  else .error .assertion

def methodString : Method → Bytes
  | .kInvalid => ascii "UNKNOWN"
  | .kGet => ascii "GET"
  | .kPost => ascii "POST"
  | .kHead => ascii "HEAD"
  | .kPut => ascii "PUT"
  | .kDelete => ascii "DELETE"

def setPath (r : HttpRequest) (path : Bytes) : HttpRequest := { r with path := path }
def setQuery (r : HttpRequest) (query : Bytes) : HttpRequest := { r with query := query }

def setReceiveTime (r : HttpRequest) (t : Timestamp) : HttpRequest := { r with receiveTime := t }

/-- The value `addHeader` stores: whitespace is skipped at the front, then cut at the end. -/
def trim (value : Bytes) : Bytes := (value.dropWhile isspace).rdropWhile isspace

/-- `addHeader(start, colon, end)` for the line `[start, end)` and the offset of the colon. -/
def addHeader (r : HttpRequest) (line : Bytes) (colon : Nat) : HttpRequest :=
  { r with headers := r.headers.insert (line.take colon) (trim (line.drop (colon + 1))) }

def getHeader (r : HttpRequest) (field : Bytes) : Bytes := (r.headers.find field).getD []

theorem methodOf_methodString {m : Method} (h : m ≠ .kInvalid) : methodOf (methodString m) = m := by
  cases m <;> first | exact absurd rfl h | decide

theorem methodString_methodOf {m : Bytes} (h : methodOf m ≠ .kInvalid) :
    methodString (methodOf m) = m := by
  simp only [methodOf] at h ⊢
  split_ifs <;> simp_all [methodString]

end HttpRequest

end WebServer.Http
