import WebServer.Mymuduo.ConnectionCalls

namespace WebServer.Mymuduo

open WebServer.Lib

namespace TcpConnection

def settings (c : TcpConnection) : Nat × Bool × Bool :=
  (c.highWaterMark, c.writeCompleteCallback, c.highWaterMarkCallback)

def crosses (c : TcpConnection) (n : Nat) : Bool :=
  c.outputBuffer.readableBytes < c.highWaterMark ∧
    c.highWaterMark ≤ c.outputBuffer.readableBytes + n

def queuedWriteComplete (c : TcpConnection) : List Functor :=
  if c.writeCompleteCallback then [.writeCompleteCallback] else []

def queuedHighWaterMark (c : TcpConnection) (n : Nat) : List Functor :=
  if c.crosses n then [.highWaterMarkCallback (c.outputBuffer.readableBytes + n)] else []

def queuedBySend (c : TcpConnection) (data : Data) (result : Except Errno Nat) : List Functor :=
  if c.state = .kDisconnected then []
  else
    (if c.writesDirectly ∧ c.leaves data result = [] then c.queuedWriteComplete else []) ++
      c.queuedHighWaterMark (c.leaves data result).length

def queuedByWrite (c : TcpConnection) (result : Except Errno Nat) : List Functor :=
  match result with
  | .ok (k + 1) =>
    if c.channel.isWriting ∧ c.outputBuffer.readableBytes ≤ k + 1 then c.queuedWriteComplete else []
  | _ => []

structure Adds (c : TcpConnection) (fs : List Functor) (c' : TcpConnection) : Prop where
  settings : c'.settings = c.settings
  functors : c'.loop.functors = c.loop.functors
  pending : c'.loop.pendingFunctors = c.loop.pendingFunctors ++ fs

theorem Adds.trans {c c₁ c₂ : TcpConnection} {fs gs : List Functor} (h₁ : Adds c fs c₁)
    (h₂ : Adds c₁ gs c₂) : Adds c (fs ++ gs) c₂ :=
  ⟨h₂.settings.trans h₁.settings, h₂.functors.trans h₁.functors, by
    rw [h₂.pending, h₁.pending, List.append_assoc]⟩

theorem adds_nil {c c' : TcpConnection} (hsettings : c'.settings = c.settings)
    (hloop : c'.loop = c.loop) : Adds c [] c' :=
  ⟨hsettings, congrArg _ hloop, by rw [hloop, List.append_nil]⟩

theorem adds_record (c : TcpConnection) (e : Effect) : Adds c [] (c.record e) := adds_nil rfl rfl

variable {c : TcpConnection} {data : Data} {result : Except Errno Nat}

theorem adds_queueInLoop (c : TcpConnection) (f : Functor) : Adds c [f] (c.queueInLoop f) :=
  ⟨rfl, by simp [queueInLoop], by simp [queueInLoop]⟩

theorem queueWriteComplete_adds (c : TcpConnection) :
    Adds c c.queuedWriteComplete c.queueWriteComplete := by
  rw [queueWriteComplete, queuedWriteComplete]
  split
  · exact adds_queueInLoop c _
  · exact adds_nil rfl rfl

theorem checkHighWaterMark_adds (c : TcpConnection) (n : Nat) :
    Adds c (c.queuedHighWaterMark n) (c.checkHighWaterMark n) := by
  have hcrosses : (c.highWaterMark ≤ c.outputBuffer.readableBytes + n ∧
      c.outputBuffer.readableBytes < c.highWaterMark ∧ c.highWaterMark ≠ 0) ↔
      c.crosses n = true := by
    rw [crosses, decide_eq_true_eq]
    omega
  simp only [checkHighWaterMark, hcrosses, queuedHighWaterMark]
  split
  · exact adds_queueInLoop c _
  · exact adds_nil rfl rfl

theorem keepRest_adds (c : TcpConnection) (data : Data) (a : Attempt) :
    Adds c (c.queuedHighWaterMark a.remaining) (c.keepRest data a) := by
  have hcheck := c.checkHighWaterMark_adds a.remaining
  simp only [keepRest]
  split <;> exact ⟨hcheck.settings, hcheck.functors, hcheck.pending⟩

theorem queuedHighWaterMark_congr {c c' : TcpConnection} (hsettings : c'.settings = c.settings)
    (hpeek : c'.outputBuffer.peek = c.outputBuffer.peek) (n : Nat) :
    c'.queuedHighWaterMark n = c.queuedHighWaterMark n := by
  have hmark : c'.highWaterMark = c.highWaterMark := congrArg Prod.fst hsettings
  have hbytes : c'.outputBuffer.readableBytes = c.outputBuffer.readableBytes := by
    rw [← Buffer.length_peek, hpeek, Buffer.length_peek]
  rw [queuedHighWaterMark, queuedHighWaterMark, crosses, crosses, hmark, hbytes]

theorem queuedHighWaterMark_zero (c : TcpConnection) : c.queuedHighWaterMark 0 = [] := by
  rw [queuedHighWaterMark, crosses, if_neg]
  rw [decide_eq_true_eq]
  omega

theorem remaining_eq (c : TcpConnection) (hfit : Fits data.bytes.length result) {a : Attempt}
    (ha : a = if c.writesDirectly then attempt data.bytes.length result
      else ⟨0, data.bytes.length, false⟩) : a.remaining = (c.leaves data result).length := by
  rw [leaves]
  by_cases hw : c.writesDirectly = true
  · rw [if_pos hw] at ha ⊢
    cases result with
    | ok k => rw [ha, attempt_ok (hfit.ok_le k rfl), unwritten, List.length_drop]
    | error e => rw [ha, attempt_error hfit.len_le, unwritten, List.length_cons]
  · rw [if_neg hw] at ha ⊢
    rw [ha]

theorem writeDirect_adds (c : TcpConnection) (hfit : Fits data.bytes.length result) :
    Adds c (if c.writesDirectly ∧ c.leaves data result = [] then c.queuedWriteComplete else [])
      (c.writeDirect data result).1 := by
  have hremaining := c.remaining_eq hfit rfl
  simp only [writeDirect]
  by_cases hw : c.writesDirectly = true
  · rw [if_pos hw] at hremaining ⊢
    have hleaves : (attempt data.bytes.length result).remaining = 0 ↔
        c.leaves data result = [] := by
      rw [hremaining, List.length_eq_zero_iff]
    have hrecord := c.adds_record (.write data.bytes result)
    have hqueue := hrecord.trans (queueWriteComplete_adds (c.record (.write data.bytes result)))
    by_cases hzero : (attempt data.bytes.length result).remaining = 0
    · rw [if_pos ⟨hw, hleaves.mp hzero⟩]
      simp only [if_pos hzero]
      exact hqueue
    · rw [if_neg fun h => hzero (hleaves.mpr h.2)]
      simpa [hzero] using hrecord
  · rw [if_neg hw, if_neg fun h => hw h.1]
    exact adds_nil rfl rfl

theorem sendInLoop_adds (c : TcpConnection) (hfit : Fits data.bytes.length result) :
    Adds c (c.queuedBySend data result) (c.sendInLoop data result) := by
  by_cases h : c.state = .kDisconnected
  · rw [sendInLoop_disconnected h, queuedBySend, if_pos h]
    exact c.adds_record _
  · rw [queuedBySend, if_neg h]
    have hrecord := c.adds_record (.sendInLoop data.bytes)
    have hwrite := hrecord.trans ((c.record (.sendInLoop data.bytes)).writeDirect_adds hfit)
    obtain ⟨hsends, hattempt⟩ := (c.record (.sendInLoop data.bytes)).writeDirect_spec data result
    have hremaining := remaining_eq _ hfit hattempt
    have hfault := (range_attempt (c.record (.sendInLoop data.bytes)) hfit hattempt).1
    have hpeek := hsends.peek
    rw [List.append_nil] at hpeek
    have hstate : (c.record (.sendInLoop data.bytes)).state ≠ .kDisconnected := h
    rw [sendInLoop, if_neg hstate]
    generalize (c.record (.sendInLoop data.bytes)).writeDirect data result = p at *
    obtain ⟨c₁, a⟩ := p
    replace hremaining : a.remaining = (c.leaves data result).length := hremaining
    replace hfault : a.faultError = false := hfault
    replace hwrite : Adds c (if c.writesDirectly ∧ c.leaves data result = [] then
      c.queuedWriteComplete else []) c₁ := hwrite
    have hmark := queuedHighWaterMark_congr hwrite.settings hpeek (c.leaves data result).length
    by_cases hrest : a.remaining = 0
    · rw [← hremaining, hrest, queuedHighWaterMark_zero, List.append_nil]
      simpa [hrest] using hwrite
    · have hadds := hwrite.trans (keepRest_adds c₁ data a)
      rw [hremaining, hmark] at hadds
      simpa [hfault, Nat.pos_of_ne_zero hrest] using hadds

theorem writeDone_adds (c : TcpConnection) : Adds c c.queuedWriteComplete c.writeDone := by
  have hqueue := queueWriteComplete_adds { c with channel := c.channel.disableWriting }
  simp only [writeDone]
  split
  · rw [shutdownInLoop_spec]
    split <;> exact ⟨hqueue.settings, hqueue.functors, hqueue.pending⟩
  · exact ⟨hqueue.settings, hqueue.functors, hqueue.pending⟩

theorem readableBytes_sendInLoop (h : c.state ≠ .kDisconnected)
    (hfit : Fits data.bytes.length result) :
    (c.sendInLoop data result).outputBuffer.readableBytes =
      c.outputBuffer.readableBytes + (c.leaves data result).length := by
  rw [← Buffer.length_peek, (sendInLoop_leaves h hfit).peek, List.length_append,
    Buffer.length_peek]

theorem readableBytes_wrote (c : TcpConnection) (k : Nat) :
    (c.wrote k).outputBuffer.readableBytes = c.outputBuffer.readableBytes - k := by
  rw [← Buffer.length_peek, wrote, Buffer.peek_retrieve, List.length_drop, Buffer.length_peek]

theorem readableBytes_writeDone (c : TcpConnection) :
    c.writeDone.outputBuffer.readableBytes = c.outputBuffer.readableBytes := by
  obtain ⟨l, -, hdone⟩ := c.writeDone_spec
  rw [hdone]
  split <;> rfl

theorem readableBytes_handleWrite (c : TcpConnection) (result : Except Errno Nat) :
    (c.handleWrite result).outputBuffer.readableBytes =
      if c.channel.isWriting then c.outputBuffer.readableBytes - result.toOption.getD 0
      else c.outputBuffer.readableBytes := by
  rcases c.handleWrite_cases result with
    ⟨hw, h⟩ | ⟨hw, hresult, h⟩ | ⟨k, hw, rfl, -, h⟩ | ⟨k, hw, rfl, -, h⟩
  · rw [h, hw]
    rfl
  · rw [h, if_pos hw]
    match result, hresult with
    | .error e, _ => rfl
    | .ok 0, _ => rfl
    | .ok (k + 1), hresult => exact absurd rfl (hresult k)
  · rw [h, if_pos hw, readableBytes_wrote]
    rfl
  · rw [h, if_pos hw, readableBytes_writeDone, readableBytes_wrote]
    rfl

theorem queuedByWrite_eq_nil (h : ∀ k, ¬(result = .ok (k + 1) ∧ c.channel.isWriting = true ∧
    c.outputBuffer.readableBytes ≤ k + 1)) : c.queuedByWrite result = [] := by
  match result, h with
  | .error e, _ => rfl
  | .ok 0, _ => rfl
  | .ok (k + 1), h => exact if_neg fun hk => h k ⟨rfl, hk⟩

theorem handleWrite_adds (c : TcpConnection) (result : Except Errno Nat) :
    Adds c (c.queuedByWrite result) (c.handleWrite result) := by
  rcases c.handleWrite_cases result with
    ⟨hw, h⟩ | ⟨hw, hresult, h⟩ | ⟨k, hw, rfl, hlt, h⟩ | ⟨k, hw, rfl, hle, h⟩
  · rw [h, queuedByWrite_eq_nil fun k hk => absurd (hw.symm.trans hk.2.1) Bool.false_ne_true]
    exact adds_nil rfl rfl
  · rw [h, queuedByWrite_eq_nil fun k hk => hresult k hk.1]
    exact c.adds_record _
  · rw [h, queuedByWrite, if_neg fun h => absurd h.2 (Nat.not_le.mpr hlt)]
    exact adds_nil rfl rfl
  · rw [h, queuedByWrite, if_pos ⟨hw, hle⟩]
    have hdone := (c.wrote (k + 1)).writeDone_adds
    exact ⟨hdone.settings, hdone.functors, hdone.pending⟩

theorem filter_queuedWriteComplete (c : TcpConnection) :
    c.queuedWriteComplete.filter Functor.isCallback = c.queuedWriteComplete := by
  rw [queuedWriteComplete]
  split <;> rfl

theorem filter_queuedBySend (c : TcpConnection) (data : Data) (result : Except Errno Nat) :
    (c.queuedBySend data result).filter Functor.isCallback = c.queuedBySend data result := by
  simp only [queuedBySend, queuedHighWaterMark]
  split_ifs <;> simp [filter_queuedWriteComplete, Functor.isCallback]

theorem queuedByWrite_eq_or (c : TcpConnection) (result : Except Errno Nat) :
    c.queuedByWrite result = c.queuedWriteComplete ∨ c.queuedByWrite result = [] := by
  simp only [queuedByWrite]
  split
  · split
    · exact .inl rfl
    · exact .inr rfl
  · exact .inr rfl

theorem filter_queuedByWrite (c : TcpConnection) (result : Except Errno Nat) :
    (c.queuedByWrite result).filter Functor.isCallback = c.queuedByWrite result := by
  rcases c.queuedByWrite_eq_or result with h | h
  · rw [h, filter_queuedWriteComplete]
  · rw [h, List.filter_nil]

theorem send_adds (c : TcpConnection) (hfit : Fits data.bytes.length result) :
    Adds c (if c.state = .kConnected then c.queuedBySend data result else [])
      (c.send data result) := by
  rw [send]
  split
  · exact (c.adds_record (.accepted data.bytes)).trans (sendInLoop_adds _ hfit)
  · exact adds_nil rfl rfl

theorem shutdownInLoop_adds (c : TcpConnection) : Adds c [] c.shutdownInLoop := by
  rw [shutdownInLoop_spec]
  split <;> exact adds_nil rfl rfl

theorem shutdown_adds (c : TcpConnection) : Adds c [] c.shutdown := by
  rw [shutdown]
  split
  · have hset : Adds c [] (c.setState .kDisconnecting) := adds_nil rfl rfl
    exact hset.trans (shutdownInLoop_adds _)
  · exact adds_nil rfl rfl

theorem connectDestroyed_adds (c : TcpConnection) : Adds c [] c.connectDestroyed := by
  refine adds_nil ?_ c.connectDestroyed_loop
  simp only [connectDestroyed]
  split <;> rfl

theorem handleRead_adds (c : TcpConnection) (delivered : Except Errno Bytes) :
    Adds c [] (c.handleRead delivered id id) := by
  refine adds_nil ?_ (c.handleRead_loop delivered)
  simp only [handleRead]
  split_ifs <;> rfl

end TcpConnection

namespace TcpServer

def callbacksOf (s : TcpServer) (l : Label) : List Functor :=
  match s.outputOf l with
  | some (.sendInLoop data result) => s.conn.queuedBySend data result
  | some (.handleWrite result) => s.conn.queuedByWrite result
  | none => []

variable {s t : TcpServer} {l : Label}

theorem adds_of_calls {m : EventLoop Functor} {c : TcpConnection}
    (h : Calls s l { s.conn with loop := m } c) :
    TcpConnection.Adds { s.conn with loop := m } (s.callbacksOf l) c := by
  rw [callbacksOf]
  cases h with
  | send buf result hfit houtput =>
    have hadds := TcpConnection.send_adds { s.conn with loop := m } hfit
    rw [houtput]
    by_cases hstate : s.conn.state = .kConnected
    · rw [if_pos hstate] at hadds ⊢
      exact hadds
    · rw [if_neg hstate] at hadds ⊢
      exact hadds
  | sendInLoop data result hfit houtput =>
    rw [houtput]
    exact TcpConnection.sendInLoop_adds _ hfit
  | handleWrite result houtput =>
    rw [houtput]
    exact TcpConnection.handleWrite_adds _ result
  | shutdown houtput => exact houtput ▸ TcpConnection.shutdown_adds _
  | shutdownInLoop houtput => exact houtput ▸ TcpConnection.shutdownInLoop_adds _
  | connectDestroyed houtput => exact houtput ▸ TcpConnection.connectDestroyed_adds _
  | handleRead delivered houtput => exact houtput ▸ TcpConnection.handleRead_adds _ delivered
  | none houtput | record _ houtput | poll _ houtput | connectEstablished _ houtput
  | handleClose houtput | store _ houtput => exact houtput ▸ TcpConnection.adds_nil rfl rfl

theorem filter_callbacksOf (s : TcpServer) (l : Label) :
    (s.callbacksOf l).filter Functor.isCallback = s.callbacksOf l := by
  rw [callbacksOf]
  split
  · exact s.conn.filter_queuedBySend _ _
  · exact s.conn.filter_queuedByWrite _
  · rfl

structure CallbackStep (s : TcpServer) (l : Label) (t : TcpServer) : Prop where
  settings : t.conn.settings = s.conn.settings
  callbacks : t.conn.loop.waiting.filter Functor.isCallback =
    (s.remaining l).filter Functor.isCallback ++ s.callbacksOf l

theorem callbacks_of_step (h : step s l = some t) : CallbackStep s l t := by
  obtain ⟨m, c, fs, hremaining, hcalls, hconn, hwaiting, hquiet⟩ := functionStep_of_step h
  have hadds := adds_of_calls hcalls
  have hfs : fs.filter Functor.isCallback = [] := by simpa using hquiet
  refine ⟨?_, ?_⟩
  · rw [hconn]
    exact hadds.settings
  · rw [hwaiting, List.filter_append, hfs, List.append_nil, EventLoop.waiting, hadds.functors,
      hadds.pending, ← List.append_assoc, List.filter_append, filter_callbacksOf, ← hremaining,
      EventLoop.waiting]

end TcpServer

end WebServer.Mymuduo
