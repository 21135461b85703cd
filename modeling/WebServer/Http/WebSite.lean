import WebServer.Http.Client
import WebServer.Mymuduo.Logger

namespace WebServer.Mymuduo

/-- `Timestamp::tostring`: the member is read as a number of seconds. -/
def Timestamp.tostring (localtime : Int → Tm) (t : Timestamp) : Bytes :=
  let tm_time := localtime t.microSecondsSinceEpoch
  (padded 32 4 (tm_time.tm_year + 1900) ++ ascii "/" ++ padded 48 2 (tm_time.tm_mon + 1) ++
    ascii "/" ++ padded 48 2 tm_time.tm_mday ++ ascii "   " ++ padded 48 2 tm_time.tm_hour ++
    ascii ":" ++ padded 48 2 tm_time.tm_min ++ ascii ":" ++ padded 48 2 tm_time.tm_sec).take 127

end WebServer.Mymuduo

namespace WebServer.Http

open WebServer.Lib WebServer.Mymuduo

namespace WebSite

def favicon : Bytes :=
  [137, 80, 78, 71, 13, 10, 26, 10, 0, 0, 0, 13, 73, 72, 68, 82, 0, 0, 0, 16, 0, 0, 0, 16, 8, 6, 0,
    0, 0, 31, 243, 255, 97, 0, 0, 0, 25, 116, 69, 88, 116, 83, 111, 102, 116, 119, 97, 114, 101, 0,
    65, 100, 111, 98, 101, 32, 73, 109, 97, 103, 101, 82, 101, 97, 100, 121, 113, 201, 101, 60, 0,
    0, 1, 205, 73, 68, 65, 84, 120, 218, 148, 147, 57, 72, 3, 65, 20, 134, 255, 93, 98, 167, 4, 82,
    196, 109, 34, 30, 160, 70, 36, 8, 22, 22, 118, 10, 54, 186, 74, 154, 128, 8, 65, 180, 113, 133,
    88, 137, 71, 176, 73, 169, 81, 36, 205, 166, 8, 164, 72, 99, 145, 66, 11, 175, 86, 193, 70,
    180, 21, 207, 34, 88, 152, 11, 84, 72, 138, 100, 147, 141, 251, 70, 103, 201, 26, 20, 125, 240,
    102, 118, 102, 223, 124, 239, 231, 103, 70, 168, 213, 106, 72, 36, 18, 42, 0, 5, 191, 71, 212,
    239, 247, 47, 54, 236, 18, 32, 30, 143, 215, 170, 213, 234, 175, 73, 53, 70, 170, 84, 95, 159,
    34, 65, 42, 149, 10, 131, 229, 114, 57, 100, 179, 89, 150, 153, 76, 6, 233, 116, 154, 37, 133,
    44, 203, 84, 167, 196, 98, 49, 181, 94, 0, 3, 104, 154, 198, 22, 130, 32, 88, 82, 20, 69, 54,
    83, 148, 203, 101, 120, 189, 94, 170, 85, 84, 35, 76, 192, 224, 226, 193, 143, 0, 158, 188, 9,
    65, 124, 62, 31, 131, 68, 34, 17, 213, 84, 64, 63, 56, 128, 119, 229, 51, 7, 184, 92, 46, 72,
    146, 4, 135, 195, 129, 64, 32, 64, 103, 152, 233, 54, 26, 166, 103, 21, 4, 227, 215, 200, 189,
    21, 225, 105, 183, 67, 171, 234, 120, 47, 106, 88, 146, 187, 24, 32, 159, 207, 51, 195, 184,
    233, 78, 167, 211, 108, 74, 0, 105, 54, 124, 142, 225, 254, 86, 132, 231, 60, 159, 114, 43, 58,
    66, 123, 55, 102, 119, 174, 142, 14, 243, 189, 82, 169, 100, 2, 66, 175, 133, 50, 102, 70, 186,
    12, 217, 159, 29, 154, 108, 34, 230, 199, 58, 44, 128, 239, 193, 21, 144, 7, 147, 162, 40, 160,
    83, 106, 177, 184, 223, 41, 53, 67, 14, 63, 88, 252, 152, 218, 121, 106, 80, 64, 0, 135, 174,
    27, 23, 66, 180, 58, 63, 190, 121, 199, 10, 38, 182, 238, 217, 154, 96, 20, 147, 219, 143, 13,
    10, 46, 233, 35, 149, 41, 88, 0, 39, 235, 110, 86, 112, 188, 214, 203, 214, 71, 171, 61, 108,
    125, 184, 210, 221, 160, 96, 131, 186, 239, 95, 164, 234, 204, 2, 78, 174, 94, 112, 26, 236,
    179, 64, 57, 172, 254, 242, 145, 137, 103, 145, 133, 33, 168, 135, 183, 88, 126, 126, 133, 187,
    205, 78, 78, 98, 116, 64, 250, 147, 137, 236, 30, 236, 134, 2, 72, 38, 147, 208, 117, 29, 127,
    9, 50, 149, 191, 31, 219, 215, 99, 138, 26, 247, 92, 193, 255, 34, 74, 195, 135, 0, 3, 0, 75,
    187, 248, 214, 42, 118, 152, 73, 0, 0, 0, 0, 73, 69, 78, 68, 174, 66, 96, 130]

/-- `onRequest`, without what it prints; `now` is `Timestamp::now()`. -/
def onRequest (localtime : Int → Tm) (now : Timestamp) : HttpCallback := fun req resp =>
  if req.path = ascii "/" then
    let resp := resp.setStatusCode .k200Ok
    let resp := resp.setStatusMessage (ascii "OK")
    let resp := resp.setContentType (ascii "text/html")
    let resp := resp.addHeader (ascii "Server") (ascii "Muduo")
    resp.setBody (ascii "<html><head><title>This is title</title></head>" ++
      ascii "<body><h1>Hello</h1>Now is " ++ now.tostring localtime ++ ascii "</body></html>")
  else if req.path = ascii "/favicon.ico" then
    let resp := resp.setStatusCode .k200Ok
    let resp := resp.setStatusMessage (ascii "OK")
    let resp := resp.setContentType (ascii "image/png")
    resp.setBody favicon
  else if req.path = ascii "/hello" then
    let resp := resp.setStatusCode .k200Ok
    let resp := resp.setStatusMessage (ascii "OK")
    let resp := resp.setContentType (ascii "text/plain")
    let resp := resp.addHeader (ascii "Server") (ascii "Muduo")
    resp.setBody (ascii "hello, world!\n")
  else
    let resp := resp.setStatusCode .k404NotFound
    let resp := resp.setStatusMessage (ascii "Not Found")
    resp.setCloseConnection true

variable (localtime : Int → Tm) (now : Timestamp)

set_option maxRecDepth 10000 in
theorem length_favicon : favicon.length = 555 := rfl

theorem length_tostring : (now.tostring localtime).length ≤ 127 := List.length_take_le _ _

theorem wellFramed_of_headers {r : HttpResponse} (hmessage : Free Buffer.kCRLF r.statusMessage)
    (hheaders : r.headers.entries.all (fun h => Free Buffer.kCRLF h.1 ∧ kColon ∉ h.1 ∧
      isField h = true ∧ Free Buffer.kCRLF h.2) = true)
    (hbody : r.body.length < 10 ^ 13) : WellFramed r := by
  have hall : ∀ h ∈ r.headers.entries, Free Buffer.kCRLF h.1 ∧ kColon ∉ h.1 ∧
      isField h = true ∧ Free Buffer.kCRLF h.2 := by simpa using hheaders
  exact ⟨hmessage, fun h hh => (hall h hh).1, fun h hh => (hall h hh).2.1,
    fun h hh => (hall h hh).2.2.1, fun h hh => (hall h hh).2.2.2, fun _ => hbody⟩

theorem wellFramed_respond (req : HttpRequest) :
    WellFramed (HttpServer.respond (onRequest localtime now) req) := by
  have hok : Free Buffer.kCRLF (ascii "OK") := by decide
  rw [HttpServer.respond, onRequest]
  split_ifs
  · refine wellFramed_of_headers hok rfl ?_
    have := length_tostring localtime now
    have hfront : (ascii "<html><head><title>This is title</title></head>" ++
      ascii "<body><h1>Hello</h1>Now is ").length = 74 := rfl
    have hback : (ascii "</body></html>").length = 14 := rfl
    rw [HttpResponse.setBody, List.length_append, List.length_append, hfront, hback]
    omega
  · refine wellFramed_of_headers hok rfl ?_
    rw [HttpResponse.setBody, length_favicon]
    decide
  · exact wellFramed_of_headers hok rfl
      (show (ascii "hello, world!\n").length < 10 ^ 13 by decide)
  · exact wellFramed_of_headers (show Free Buffer.kCRLF (ascii "Not Found") by decide) rfl
      (by simp [HttpResponse.setCloseConnection, HttpResponse.setStatusMessage,
        HttpResponse.setStatusCode, HttpResponse.new])

def hasPage (path : Bytes) : Bool :=
  path = ascii "/" ∨ path = ascii "/favicon.ico" ∨ path = ascii "/hello"

theorem closeConnection_respond (req : HttpRequest) :
    (HttpServer.respond (onRequest localtime now) req).closeConnection =
      (HttpServer.close req || !hasPage req.path) := by
  rw [HttpServer.respond, onRequest, hasPage]
  split_ifs with hroot hfavicon hhello
  · simp [hroot, HttpResponse.setBody, HttpResponse.addHeader, HttpResponse.setContentType,
      HttpResponse.setStatusMessage, HttpResponse.setStatusCode, HttpResponse.new]
  · simp [hfavicon, HttpResponse.setBody, HttpResponse.addHeader, HttpResponse.setContentType,
      HttpResponse.setStatusMessage, HttpResponse.setStatusCode, HttpResponse.new]
  · simp [hhello, HttpResponse.setBody, HttpResponse.addHeader, HttpResponse.setContentType,
      HttpResponse.setStatusMessage, HttpResponse.setStatusCode, HttpResponse.new]
  · simp [hroot, hfavicon, hhello, HttpResponse.setCloseConnection]

theorem statusCode_respond (req : HttpRequest) :
    (HttpServer.respond (onRequest localtime now) req).statusCode =
      if hasPage req.path then .k200Ok else .k404NotFound := by
  rw [HttpServer.respond, onRequest, hasPage]
  split_ifs <;> first | rfl | simp_all

def asksForPage (q : RequestText) : Bool :=
  hasPage (q.request .invalid).path && !HttpServer.close (q.request .invalid)

def page (q : RequestText) (x : Batch) : HttpResponse :=
  HttpServer.respond x.httpCallback (q.request x.time)

def served (xs : List Batch) : List (RequestText × Batch) := (xs.flatMap Batch.texts).zip xs

/-- The pages that a client has asked for before it asks for something else. -/
def pages (xs : List Batch) : List HttpResponse :=
  ((served xs).takeWhile fun p => asksForPage p.1).map fun p => page p.1 p.2

def Serves (xs : List Batch) : Prop := ∀ x ∈ xs, ∃ now, x.httpCallback = onRequest localtime now

variable {localtime} {xs : List Batch}

theorem Serves.closeConnection (h : Serves localtime xs) {p : RequestText × Batch}
    (hp : p ∈ served xs) : (page p.1 p.2).closeConnection = !asksForPage p.1 := by
  obtain ⟨now, hcallback⟩ := h p.2 (List.of_mem_zip hp).2
  rw [page, hcallback, closeConnection_respond, asksForPage, Bool.not_and, Bool.not_not,
    Bool.or_comm]
  rfl

theorem Serves.statusCode (h : Serves localtime xs) : ∀ r ∈ pages xs, r.statusCode = .k200Ok := by
  intro r hr
  obtain ⟨p, hp, rfl⟩ := List.mem_map.mp hr
  obtain ⟨now, hcallback⟩ := h p.2 (List.of_mem_zip ((List.takeWhile_prefix _).subset hp)).2
  have hasks := List.mem_takeWhile_imp hp
  simp only [asksForPage, Bool.and_eq_true] at hasks
  rw [page, hcallback, statusCode_respond]
  exact if_pos hasks.1

theorem replies_eq (xs : List Batch) :
    List.zipWith (fun q x => Batch.reply q x) (xs.flatMap Batch.texts) xs =
      ((served xs).map fun p => page p.1 p.2).map .response := by
  rw [served, List.map_map, List.map_zip_eq_zipWith]
  rfl

theorem Serves.kept_eq (h : Serves localtime xs) :
    Reply.kept (((served xs).map fun p => page p.1 p.2).map .response) = pages xs :=
  Reply.kept_map fun _ hp => h.closeConnection hp

theorem Serves.allFramed (h : Serves localtime xs) : AllFramed (xs.map Batch.arrived) := by
  refine allFramed_of_callbacks fun a ha req => ?_
  obtain ⟨x, hx, rfl⟩ := List.mem_map.mp ha
  obtain ⟨now, hcallback⟩ := h x hx
  rw [show x.arrived.httpCallback = _ from hcallback]
  exact wellFramed_respond localtime now req

def twoRequests (localtime : Int → Tm) : List Batch :=
  [⟨HttpServer.getRoot, [], .invalid, onRequest localtime ⟨0⟩⟩,
    ⟨HttpServer.getRoot, [], .invalid, onRequest localtime ⟨1⟩⟩]

theorem serves_twoRequests (localtime : Int → Tm) :
    Serves localtime (twoRequests localtime) := by
  intro x hx
  rcases List.mem_cons.mp hx with rfl | hx
  · exact ⟨⟨0⟩, rfl⟩
  · obtain rfl := List.mem_singleton.mp hx
    exact ⟨⟨1⟩, rfl⟩

def noTime : Int → Tm := fun _ => ⟨70, 0, 1, 0, 0, 0⟩

end WebSite

end WebServer.Http
