import WebServer.Mymuduo.QueuedCallbacks
import WebServer.Mymuduo.StateOrder

/-! Write interest and `outputBuffer_`, in runs where the loop thread makes all calls. -/

namespace WebServer.Mymuduo

open WebServer.Lib

namespace TcpConnection

/-- The channel has write interest as long as something is left to write, and loses it with the
connection. -/
def Interested (c : TcpConnection) : Prop :=
  c.channel.isWriting = true ↔ c.state ≠ .kDisconnected ∧ c.outputBuffer.readableBytes ≠ 0

variable {c c' : TcpConnection} {data : Data} {result : Except Errno Nat}

theorem Interested.congr (h : c.Interested) (hstate : c'.state = c.state)
    (hwriting : c'.channel.isWriting = c.channel.isWriting)
    (houtput : c'.outputBuffer.readableBytes = c.outputBuffer.readableBytes) :
    c'.Interested := by
  rw [Interested, hstate, hwriting, houtput]
  exact h

theorem interested_of_disconnected (hstate : c.state = .kDisconnected)
    (hwriting : c.channel.isWriting = false) : c.Interested := by
  simp [Interested, hstate, hwriting]

theorem interested_new (writeCompleteCallback : Bool) : (new writeCompleteCallback).Interested :=
  iff_of_false (show Channel.new.isWriting ≠ true by decide) fun h => h.2 rfl

theorem Interested.sendInLoop (h : c.Interested) (hfit : Fits data.bytes.length result) :
    (c.sendInLoop data result).Interested := by
  by_cases hstate : c.state = .kDisconnected
  · rw [sendInLoop_disconnected hstate]
    exact h
  · have hsends := sendInLoop_leaves hstate hfit
    have houtput := readableBytes_sendInLoop hstate hfit
    have hchannel := hsends.channel
    by_cases hrest : c.leaves data result = []
    · rw [if_pos (.inr hrest)] at hchannel
      rw [hrest] at houtput
      exact h.congr hsends.state (by rw [hchannel]) houtput
    · have hpos := List.length_pos_of_ne_nil hrest
      refine iff_of_true ?_ ⟨hsends.state ▸ hstate, by omega⟩
      rw [hchannel]
      split
      · next hw => exact hw.resolve_right hrest
      · exact Channel.isWriting_enableWriting _

theorem Interested.send (h : c.Interested) (hfit : Fits data.bytes.length result) :
    (c.send data result).Interested := by
  rw [TcpConnection.send]
  split
  · have hrecord : (c.record (.accepted data.bytes)).Interested := h
    exact hrecord.sendInLoop hfit
  · exact h

theorem Interested.shutdownInLoop (h : c.Interested) : c.shutdownInLoop.Interested := by
  rw [shutdownInLoop_spec]
  split <;> exact h

theorem Interested.shutdown (h : c.Interested) : c.shutdown.Interested := by
  rw [TcpConnection.shutdown]
  split
  · next hstate =>
    have hset : (c.setState .kDisconnecting).Interested := by
      simpa [Interested, setState, hstate] using h
    exact hset.shutdownInLoop
  · exact h

theorem interested_handleClose (c : TcpConnection) : (c.handleClose id).Interested :=
  interested_of_disconnected rfl (Channel.isWriting_disableAll _)

theorem Interested.handleRead (h : c.Interested) (delivered : Except Errno Bytes) :
    (c.handleRead delivered id id).Interested := by
  simp only [TcpConnection.handleRead]
  split_ifs
  · exact h
  · exact interested_handleClose _
  · exact h

theorem Interested.handleWrite (h : c.Interested) (result : Except Errno Nat) :
    (c.handleWrite result).Interested := by
  rcases c.handleWrite_cases result with
    ⟨-, heq⟩ | ⟨-, -, heq⟩ | ⟨k, hw, -, hlt, heq⟩ | ⟨k, hw, -, hle, heq⟩
  · rw [heq]
    exact h
  · rw [heq]
    exact h
  · rw [heq]
    refine iff_of_true hw ⟨(h.mp hw).1, ?_⟩
    rw [readableBytes_wrote]
    omega
  · have hoff : (c.wrote (k + 1)).writeDone.channel.isWriting = false := by
      obtain ⟨l, -, hdone⟩ := (c.wrote (k + 1)).writeDone_spec
      rw [hdone]
      split <;> exact Channel.isWriting_disableWriting _
    have hzero : (c.wrote (k + 1)).writeDone.outputBuffer.readableBytes = 0 := by
      rw [readableBytes_writeDone, readableBytes_wrote]
      omega
    rw [heq]
    exact iff_of_false (by simp [hoff]) fun hne => hne.2 hzero

theorem Interested.connectEstablished (h : c.Interested) (hstate : c.state ≠ .kDisconnected) :
    c.connectEstablished.Interested := by
  have hwriting : c.connectEstablished.channel.isWriting = c.channel.isWriting :=
    Channel.isWriting_enableReading _
  have hset : c.connectEstablished.state = .kConnected := rfl
  rw [Interested, hwriting, hset]
  refine h.trans ?_
  simp [hstate, TcpConnection.connectEstablished, setState, record]

theorem Interested.connectDestroyed (h : c.Interested) : c.connectDestroyed.Interested := by
  simp only [TcpConnection.connectDestroyed]
  split
  · exact interested_of_disconnected rfl (Channel.isWriting_disableAll _)
  · exact h

theorem readableBytes_of_queuedBySend (hfit : Fits data.bytes.length result)
    (h : .writeCompleteCallback ∈ c.queuedBySend data result) :
    (c.sendInLoop data result).outputBuffer.readableBytes = 0 := by
  by_cases hstate : c.state = .kDisconnected
  · simp [queuedBySend, hstate] at h
  · have hmark : .writeCompleteCallback ∉ c.queuedHighWaterMark (c.leaves data result).length := by
      rw [queuedHighWaterMark]
      split <;> simp
    rw [queuedBySend, if_neg hstate, List.mem_append, or_iff_left hmark] at h
    split at h
    · next hall =>
      have hempty := writesDirectly_peek hall.1
      rw [readableBytes_sendInLoop hstate hfit, hall.2, ← Buffer.length_peek, hempty]
      rfl
    · cases h

theorem Interested.count_queuedByWrite (h : c.Interested) (result : Except Errno Nat) :
    (c.queuedByWrite result).count .writeCompleteCallback =
      if c.writeCompleteCallback = true ∧ c.outputBuffer.readableBytes ≠ 0 ∧
          (c.handleWrite result).outputBuffer.readableBytes = 0 then 1 else 0 := by
  rcases c.handleWrite_cases result with
    ⟨hw, heq⟩ | ⟨hw, hresult, heq⟩ | ⟨k, hw, rfl, hlt, heq⟩ | ⟨k, hw, rfl, hle, heq⟩
  · rw [heq, queuedByWrite_eq_nil fun k hk => absurd (hw.symm.trans hk.2.1) Bool.false_ne_true,
      if_neg fun hc => hc.2.1 hc.2.2]
    rfl
  · rw [heq, queuedByWrite_eq_nil fun k hk => hresult k hk.1, if_neg fun hc => hc.2.1 hc.2.2]
    rfl
  · rw [heq, readableBytes_wrote, queuedByWrite, if_neg fun hc => absurd hc.2 (by omega), if_neg]
    · rfl
    · omega
  · have hzero : (c.handleWrite (.ok (k + 1))).outputBuffer.readableBytes = 0 := by
      rw [heq, readableBytes_writeDone, readableBytes_wrote]
      omega
    rw [queuedByWrite, if_pos ⟨hw, hle⟩, hzero, queuedWriteComplete]
    simp only [(h.mp hw).2, not_false_eq_true, ne_eq, and_true]
    split <;> rfl

end TcpConnection

namespace TcpServer

def completions (fs : List Functor) : Nat := fs.count .writeCompleteCallback

variable {s t : TcpServer} {l : Label}

theorem interested_of_step (hs : s.conn.Interested) (hphase : s.Phase)
    (hl : l.isCall = false) (h : step s l = some t) : t.conn.Interested := by
  obtain ⟨m, c, fs, -, hcalls, hconn, -, -⟩ := functionStep_of_step h
  have hm : TcpConnection.Interested { s.conn with loop := m } := hs
  suffices hc : c.Interested by
    rw [hconn]
    exact hc
  cases hcalls with
  | send buf result hfit _ => exact hm.send hfit
  | sendInLoop data result hfit _ => exact hm.sendInLoop hfit
  | shutdown _ => exact hm.shutdown
  | shutdownInLoop _ => exact hm.shutdownInLoop
  | connectEstablished hwaiting _ =>
    refine hm.connectEstablished ?_
    rcases hphase with hphase | hphase
    · simp [hphase.state]
    · exact absurd hwaiting hphase.once
  | connectDestroyed _ => exact hm.connectDestroyed
  | handleRead delivered _ => exact hm.handleRead delivered
  | handleClose _ => exact TcpConnection.interested_handleClose _
  | handleWrite result _ => exact hm.handleWrite result
  | store hcall _ => exact absurd (hl.symm.trans hcall) Bool.false_ne_true
  | none _ | record _ _ | poll _ _ => exact hm

theorem completions_of_step (h : step s l = some t) :
    completions t.conn.loop.waiting =
      completions (s.remaining l) + completions (s.callbacksOf l) := by
  have hfilter (fs : List Functor) :
      completions (fs.filter Functor.isCallback) = completions fs := List.count_filter rfl
  rw [← hfilter, (callbacks_of_step h).callbacks, completions, List.count_append]
  congr 1
  exact hfilter _

theorem readableBytes_of_handleWrite {result : Except Errno Nat}
    (houtput : s.outputOf l = some (.handleWrite result)) (h : step s l = some t) :
    t.conn.outputBuffer.readableBytes = (s.conn.handleWrite result).outputBuffer.readableBytes := by
  obtain ⟨m, c, fs, -, hcalls, hconn, -, -⟩ := functionStep_of_step h
  suffices hc : c.outputBuffer.readableBytes =
      (s.conn.handleWrite result).outputBuffer.readableBytes by
    rw [hconn]
    exact hc
  cases hcalls with
  | send buf result' hfit houtput' =>
    rw [houtput'] at houtput
    split at houtput <;> cases houtput
  | handleWrite result' houtput' =>
    obtain rfl := OutputStream.Label.handleWrite.inj (Option.some.inj (houtput'.symm.trans houtput))
    rw [TcpConnection.readableBytes_handleWrite, TcpConnection.readableBytes_handleWrite]
  | none houtput' | record _ houtput' | poll _ houtput' | shutdown houtput'
  | shutdownInLoop houtput' | connectEstablished _ houtput' | connectDestroyed houtput'
  | handleRead _ houtput' | handleClose houtput' | store _ houtput' | sendInLoop _ _ _ houtput' =>
    rw [houtput'] at houtput
    cases houtput

theorem readableBytes_of_completions (hs : s.conn.Interested)
    (hmem : .writeCompleteCallback ∈ s.callbacksOf l) (h : step s l = some t) :
    t.conn.outputBuffer.readableBytes = 0 := by
  obtain ⟨m, c, fs, -, hcalls, hconn, -, -⟩ := functionStep_of_step h
  have hm : TcpConnection.Interested { s.conn with loop := m } := hs
  suffices hc : c.outputBuffer.readableBytes = 0 by
    rw [hconn]
    exact hc
  rw [callbacksOf] at hmem
  cases hcalls with
  | send buf result hfit houtput =>
    rw [houtput] at hmem
    by_cases hstate : s.conn.state = .kConnected
    · rw [if_pos hstate] at hmem
      rw [TcpConnection.send, if_pos hstate]
      exact TcpConnection.readableBytes_of_queuedBySend hfit hmem
    · rw [if_neg hstate] at hmem
      cases hmem
  | sendInLoop data result hfit houtput =>
    rw [houtput] at hmem
    exact TcpConnection.readableBytes_of_queuedBySend hfit hmem
  | handleWrite result houtput =>
    rw [houtput] at hmem
    have hcount := hm.count_queuedByWrite result
    have hpos := List.count_pos_iff.mpr hmem
    by_contra hne
    rw [if_neg fun hc => hne hc.2.2] at hcount
    exact absurd (hcount.symm ▸ hpos) (Nat.lt_irrefl 0)
  | none houtput | record _ houtput | poll _ houtput | shutdown houtput | shutdownInLoop houtput
  | connectEstablished _ houtput | connectDestroyed houtput | handleRead _ houtput
  | handleClose houtput | store _ houtput =>
    rw [houtput] at hmem
    cases hmem

/-- Where the loop thread makes all calls, an open connection has write interest exactly as long
as `outputBuffer_` has something to read; the callback is queued with nothing in `outputBuffer_`,
and once by each `handleWrite` that empties it. -/
theorem writeInterest_run {sameLoop writeCompleteCallback : Bool} {ls : List Label}
    (hcalls : ∀ l ∈ ls, l.isCall = false)
    (h : run step (newConnection sameLoop writeCompleteCallback) ls = some s) :
    (s.conn.state = .kConnected ∨ s.conn.state = .kDisconnecting →
      (s.conn.channel.isWriting = true ↔ s.conn.outputBuffer.readableBytes ≠ 0)) ∧
    ∀ l t, step s l = some t →
      (completions (s.remaining l) < completions t.conn.loop.waiting →
        t.conn.outputBuffer.readableBytes = 0) ∧
      ∀ result, s.outputOf l = some (.handleWrite result) →
        completions t.conn.loop.waiting = completions (s.remaining l) +
          if writeCompleteCallback = true ∧ s.conn.outputBuffer.readableBytes ≠ 0 ∧
              t.conn.outputBuffer.readableBytes = 0 then 1 else 0 := by
  obtain ⟨-, hinterest, hset⟩ : s.Phase ∧ s.conn.Interested ∧
      s.conn.writeCompleteCallback = writeCompleteCallback := by
    refine invariant_along (I := fun s => s.Phase ∧ s.conn.Interested ∧
      s.conn.writeCompleteCallback = writeCompleteCallback) ?_ ?_ (along_of_forall
        (P := fun _ l => l.isCall = false) (fun l hl _ => hcalls l hl) _) h
    · rintro s l t ⟨hphase, hs, hset⟩ hl ht
      have hsettings := (callbacks_of_step ht).settings
      exact ⟨hphase.step ht, interested_of_step hs hphase hl ht,
        (congrArg (·.2.1) hsettings).trans hset⟩
    · refine ⟨phase_newConnection _ _, ?_⟩
      have hnew := TcpConnection.interested_new writeCompleteCallback
      cases sameLoop with
      | true => exact ⟨hnew.connectEstablished nofun, rfl⟩
      | false => exact ⟨hnew, rfl⟩
  refine ⟨fun hstate => ?_, fun l t ht => ⟨fun hlt => ?_, fun result houtput => ?_⟩⟩
  · have hopen : s.conn.state ≠ .kDisconnected := by
      rcases hstate with hstate | hstate <;> simp [hstate]
    exact hinterest.trans (and_iff_right hopen)
  · rw [completions_of_step ht] at hlt
    have hpos : 0 < completions (s.callbacksOf l) := by omega
    exact readableBytes_of_completions hinterest (List.count_pos_iff.mp hpos) ht
  · have hcount := hinterest.count_queuedByWrite result
    rw [hset, ← readableBytes_of_handleWrite houtput ht] at hcount
    rw [completions_of_step ht, callbacksOf, houtput]
    exact congrArg _ hcount

def halfWritten : List Label :=
  [.send ⟨0, ascii "abcd"⟩ (.ok 2), .shutdown, .poll EPOLLOUT, .handleEvent]

theorem writeInterest_halfWritten : ∃ s t,
    run step (newConnection true true) halfWritten = some s ∧
      step s (.act ⟨.ok [], .ok 2, 0⟩) = some t ∧ s.conn.channel.isWriting = true ∧
      completions t.conn.loop.waiting = 1 := by
  have hrun : (run step (newConnection true true) halfWritten).any (fun s =>
      s.conn.state = .kDisconnecting ∧ s.conn.outputBuffer.readableBytes ≠ 0 ∧
        completions (s.remaining (.act ⟨.ok [], .ok 2, 0⟩)) = 0 ∧
        s.outputOf (.act ⟨.ok [], .ok 2, 0⟩) = some (.handleWrite (.ok 2)) ∧
        (step s (.act ⟨.ok [], .ok 2, 0⟩)).any
          (fun t => t.conn.outputBuffer.readableBytes = 0)) = true := by
    decide +kernel
  obtain ⟨s, hs, hfacts⟩ := (Option.any_eq_true _ _).mp hrun
  obtain ⟨hstate, hleft, hnone, houtput, hstep⟩ := of_decide_eq_true hfacts
  obtain ⟨t, ht, hempty⟩ := (Option.any_eq_true _ _).mp hstep
  obtain ⟨hinterest, hcomplete⟩ := writeInterest_run (by decide) hs
  refine ⟨s, t, hs, ht, (hinterest (.inr hstate)).mpr hleft, ?_⟩
  rw [(hcomplete _ t ht).2 (.ok 2) houtput, hnone, of_decide_eq_true hempty]
  simp [hleft]

end TcpServer

end WebServer.Mymuduo
