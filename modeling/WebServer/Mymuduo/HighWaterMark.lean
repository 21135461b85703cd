import WebServer.Mymuduo.OutputStream
import WebServer.Mymuduo.QueuedCallbacks

namespace WebServer.Mymuduo

open WebServer.Lib

def Functor.highWaterMark? : Functor → Option Nat
  | .highWaterMarkCallback size => some size
  | _ => none

/-- The sizes at which the readable bytes have come up to the mark from below it. -/
def crossings (mark : Nat) : List Nat → List Nat :=
  pairs fun before after => if before < mark ∧ mark ≤ after then [after] else []

namespace TcpConnection

/-- The sizes of the high-water functors that wait in the loop. -/
def notices (c : TcpConnection) : List Nat := c.loop.waiting.filterMap Functor.highWaterMark?

variable {c c' : TcpConnection} {data : Data} {result : Except Errno Nat}

theorem notices_of_adds {fs : List Functor} (h : Adds c fs c') :
    c'.notices = c.notices ++ fs.filterMap Functor.highWaterMark? := by
  rw [notices, notices, EventLoop.waiting, EventLoop.waiting, h.functors, h.pending,
    ← List.append_assoc, List.filterMap_append]

theorem filterMap_queuedWriteComplete (c : TcpConnection) :
    c.queuedWriteComplete.filterMap Functor.highWaterMark? = [] := by
  rw [queuedWriteComplete]
  split <;> rfl

theorem filterMap_queuedByWrite (c : TcpConnection) (result : Except Errno Nat) :
    (c.queuedByWrite result).filterMap Functor.highWaterMark? = [] := by
  rcases c.queuedByWrite_eq_or result with h | h
  · rw [h, filterMap_queuedWriteComplete]
  · rw [h, List.filterMap_nil]

theorem filterMap_queuedBySend (hfit : Fits data.bytes.length result) :
    (c.queuedBySend data result).filterMap Functor.highWaterMark? =
      if c.outputBuffer.readableBytes < c.highWaterMark ∧
          c.highWaterMark ≤ (c.sendInLoop data result).outputBuffer.readableBytes then
        [(c.sendInLoop data result).outputBuffer.readableBytes]
      else [] := by
  by_cases h : c.state = .kDisconnected
  · rw [queuedBySend, if_pos h, sendInLoop_disconnected h,
      if_neg fun hc => absurd hc.1 (Nat.not_lt.mpr hc.2)]
    rfl
  · have hdirect : (if c.writesDirectly ∧ c.leaves data result = [] then c.queuedWriteComplete
        else []).filterMap Functor.highWaterMark? = [] := by
      split
      · exact c.filterMap_queuedWriteComplete
      · rfl
    rw [queuedBySend, if_neg h, List.filterMap_append, hdirect, readableBytes_sendInLoop h hfit,
      queuedHighWaterMark, crosses]
    simp only [decide_eq_true_eq]
    split <;> rfl

theorem readableBytes_handleWrite_le (c : TcpConnection) (result : Except Errno Nat) :
    (c.handleWrite result).outputBuffer.readableBytes ≤ c.outputBuffer.readableBytes := by
  rw [readableBytes_handleWrite]
  split
  · exact Nat.sub_le _ _
  · exact Nat.le_refl _

end TcpConnection

namespace OutputStream

def size (s : OutputStream) : Nat := s.conn.outputBuffer.readableBytes

variable {s t : OutputStream}

theorem notices_of_step {l : Label} (h : step s l = some t) :
    t.conn.highWaterMark = s.conn.highWaterMark ∧
      t.conn.notices = s.conn.notices ++
        if s.size < s.conn.highWaterMark ∧ s.conn.highWaterMark ≤ t.size then [t.size] else [] := by
  cases l with
  | sendInLoop data result =>
    obtain ⟨hfit, hnext⟩ := Option.ite_none_right_eq_some.mp h
    obtain rfl := Option.some.inj hnext
    have hadds := s.conn.sendInLoop_adds hfit
    refine ⟨congrArg Prod.fst hadds.settings, ?_⟩
    rw [TcpConnection.notices_of_adds hadds, TcpConnection.filterMap_queuedBySend hfit]
    rfl
  | handleWrite result =>
    obtain ⟨-, hnext⟩ := Option.ite_none_right_eq_some.mp h
    obtain rfl := Option.some.inj hnext
    have hadds := s.conn.handleWrite_adds result
    have hle := s.conn.readableBytes_handleWrite_le result
    refine ⟨congrArg Prod.fst hadds.settings, ?_⟩
    rw [TcpConnection.notices_of_adds hadds, TcpConnection.filterMap_queuedByWrite, if_neg]
    simp only [size]
    omega

/-- In every run a high-water functor is queued for each append that takes the readable bytes up
to the mark or above it, with the size behind the append, and for nothing else. -/
theorem notices_eq_crossings (c : TcpConnection) {ls : List Label}
    (h : run step (start c) ls = some t) :
    t.conn.notices = c.notices ++ crossings c.highWaterMark (trace step size (start c) ls) := by
  refine run_collects (I := fun s => s.conn.highWaterMark = c.highWaterMark)
    (g := fun s => s.conn.notices) ?_ rfl h
  intro s l t hs ht
  obtain ⟨hmark, hnotices⟩ := notices_of_step ht
  rw [hs] at hmark hnotices
  exact ⟨hmark, hnotices⟩

def threeBytes : TcpConnection :=
  { TcpConnection.established false with highWaterMark := 3, highWaterMarkCallback := true }

def twoCrossings : List Label :=
  [.sendInLoop ⟨0, ascii "abcd"⟩ (.ok 2), .sendInLoop ⟨0, ascii "efg"⟩ (.ok 0),
    .sendInLoop ⟨0, ascii "h"⟩ (.ok 0), .handleWrite (.ok 4), .sendInLoop ⟨0, ascii "i"⟩ (.ok 0)]

theorem notices_eq_crossings_twoCrossings :
    ∃ t, run step (start threeBytes) twoCrossings = some t ∧ t.conn.notices = [5, 3] := by
  obtain ⟨t, ht⟩ : ∃ t, run step (start threeBytes) twoCrossings = some t :=
    Option.isSome_iff_exists.mp (by decide +kernel)
  refine ⟨t, ht, (notices_eq_crossings threeBytes ht).trans ?_⟩
  decide +kernel

end OutputStream

end WebServer.Mymuduo
