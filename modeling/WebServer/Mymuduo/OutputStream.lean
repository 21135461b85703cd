import WebServer.Lib.Run
import WebServer.Mymuduo.TcpConnection

namespace WebServer.Mymuduo

open WebServer.Lib

/-- A connection, with the bytes that its output owes to the calls of `sendInLoop`. -/
structure OutputStream where
  conn : TcpConnection
  due : Bytes

namespace OutputStream

inductive Label where
  | sendInLoop (data : Data) (result : Except Errno Nat)
  | handleWrite (result : Except Errno Nat)
  deriving DecidableEq

/-- What a call owes: nothing, when its direct write fails with `EPIPE` or `ECONNRESET`. -/
def owed (c : TcpConnection) (data : Data) (result : Except Errno Nat) : Bytes :=
  if c.writesDirectly ∧ TcpConnection.isFault result then [] else data.bytes

/-- A step with a result that the kernel can give. -/
def step (s : OutputStream) : Label → Option OutputStream
  | .sendInLoop data result =>
    if TcpConnection.Fits data.bytes.length result then
      some ⟨s.conn.sendInLoop data result, s.due ++ owed s.conn data result⟩
    else none
  | .handleWrite result =>
    if TcpConnection.Fits s.conn.outputBuffer.readableBytes result then
      some { s with conn := s.conn.handleWrite result }
    else none

def start (c : TcpConnection) : OutputStream := ⟨c, c.stream⟩

/-- What the kernel took, followed by what is left in `outputBuffer_`, is what is due. -/
def Intact (s : OutputStream) : Prop :=
  TcpConnection.kernelBytes s.conn.log ++ s.conn.outputBuffer.peek = s.due

/-- The step makes no direct write that fails. -/
def DirectWriteOk (s : OutputStream) : Label → Prop
  | .sendInLoop _ (.error _) => s.conn.writesDirectly = false
  | _ => True

variable {s t : OutputStream}

theorem step_sendInLoop (s : OutputStream) (data : Data) {result : Except Errno Nat}
    (h : TcpConnection.Fits data.bytes.length result) :
    step s (.sendInLoop data result) =
      some ⟨s.conn.sendInLoop data result, s.due ++ owed s.conn data result⟩ :=
  if_pos h

theorem step_state {i : Label} (hs : s.conn.state ≠ .kDisconnected) (h : step s i = some t) :
    t.conn.state ≠ .kDisconnected := by
  cases i with
  | sendInLoop data result =>
    simp only [step, Option.ite_none_right_eq_some, Option.some.injEq] at h
    obtain ⟨hfit, rfl⟩ := h
    rwa [(TcpConnection.sendInLoop_spec hs hfit).state]
  | handleWrite result =>
    simp only [step, Option.ite_none_right_eq_some, Option.some.injEq] at h
    obtain ⟨-, rfl⟩ := h
    rwa [TcpConnection.handleWrite_state]

theorem not_intact_of_error (hs : s.conn.state ≠ .kDisconnected) (hI : s.Intact) {data : Data}
    {e : Errno} (hw : s.conn.writesDirectly = true)
    (h : step s (.sendInLoop data (.error e)) = some t) : ¬ t.Intact := by
  simp only [step, Option.ite_none_right_eq_some, Option.some.injEq] at h
  obtain ⟨hfit, rfl⟩ := h
  have hstream := TcpConnection.sendInLoop_stream hs hfit
  simp only [TcpConnection.stream, hw] at hstream
  intro hbad
  -- one byte more than was passed on
  have hlen := congrArg List.length (hstream.symm.trans hbad)
  rw [hI] at hlen
  simp only [owed] at hlen
  split at hlen <;> simp at hlen

theorem step_intact {i : Label} (hs : s.conn.state ≠ .kDisconnected) (hI : s.Intact)
    (h : step s i = some t) : t.Intact ↔ DirectWriteOk s i := by
  cases i with
  | handleWrite result =>
    simp only [step, Option.ite_none_right_eq_some, Option.some.injEq] at h
    obtain ⟨-, rfl⟩ := h
    refine ⟨fun _ => trivial, fun _ => ?_⟩
    exact (s.conn.handleWrite_stream result).trans hI
  | sendInLoop data result =>
    cases hw : s.conn.writesDirectly with
    | true =>
      cases result with
      | error e =>
        refine ⟨fun hbad => absurd hbad (not_intact_of_error hs hI hw h), fun hok => ?_⟩
        exact absurd (hw.symm.trans hok) (by decide)
      | ok k =>
        simp only [step, Option.ite_none_right_eq_some, Option.some.injEq] at h
        obtain ⟨hfit, rfl⟩ := h
        refine ⟨fun _ => trivial, fun _ => ?_⟩
        have hstream := TcpConnection.sendInLoop_stream hs hfit
        simp only [TcpConnection.stream, hw] at hstream
        rw [hI] at hstream
        simpa [Intact, owed, TcpConnection.isFault] using hstream
    | false =>
      simp only [step, Option.ite_none_right_eq_some, Option.some.injEq] at h
      obtain ⟨hfit, rfl⟩ := h
      have hstream := TcpConnection.sendInLoop_stream hs hfit
      simp only [TcpConnection.stream, hw] at hstream
      rw [hI] at hstream
      refine ⟨fun _ => by cases result <;> first | exact hw | trivial, fun _ => ?_⟩
      simpa [Intact, owed, hw] using hstream

theorem intact_start (c : TcpConnection) : (start c).Intact := rfl

/-- The stream is intact in every state of a run exactly when no direct write of the run fails. -/
theorem intact_iff (c : TcpConnection) (hc : c.state ≠ .kDisconnected) (is : List Label)
    (hrun : run step (start c) is = some t) :
    (∀ js u, js <+: is → run step (start c) js = some u → u.Intact) ↔
      Along step DirectWriteOk (start c) is :=
  forall_prefix_iff_along (I := fun s => s.conn.state ≠ .kDisconnected)
    (fun _ _ _ hs h => step_state hs h) (fun _ _ _ hs hI h => step_intact hs hI h) hc
    (intact_start c) hrun

theorem intact_iff_ab :
    ∃ t, run step (start (.established false)) [.sendInLoop ⟨0, ascii "ab"⟩ (.ok 1)] = some t ∧
      ∀ js u, js <+: [.sendInLoop ⟨0, ascii "ab"⟩ (.ok 1)] →
        run step (start (.established false)) js = some u → u.Intact := by
  have hfit : TcpConnection.Fits (ascii "ab").length (.ok 1) := by decide
  have hstep := step_sendInLoop (start (.established false)) ⟨0, ascii "ab"⟩ hfit
  have hrun := run_cons.mpr ⟨_, hstep, run_nil _⟩
  exact ⟨_, hrun, (intact_iff (.established false) (by decide) _ hrun).mpr
    ⟨trivial, fun _ _ => trivial⟩⟩

/-- The kernel buffer is full when one byte is sent: two bytes are queued. -/
theorem not_intact_EWOULDBLOCK :
    ∃ t, run step (start (.established false))
        [.sendInLoop ⟨0, ascii "a"⟩ (.error .EWOULDBLOCK)] = some t ∧ ¬ t.Intact := by
  have hfit : TcpConnection.Fits (ascii "a").length (.error .EWOULDBLOCK) := by decide
  have hstep := step_sendInLoop (start (.established false)) ⟨0, ascii "a"⟩ hfit
  have hdirect : (start (.established false)).conn.writesDirectly = true := by decide
  exact ⟨_, run_cons.mpr ⟨_, hstep, run_nil _⟩,
    not_intact_of_error (by decide) (intact_start _) hdirect hstep⟩

end OutputStream

end WebServer.Mymuduo
