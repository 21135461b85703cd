import WebServer.Mymuduo.TcpConnection

namespace WebServer.Mymuduo

namespace Channel

def withRevents (c : Channel) (revents : BitVec 32) : Channel := { c with revents := revents }

theorem updateChannel_withRevents (c : Channel) (revents : BitVec 32) :
    (c.withRevents revents).updateChannel = c.updateChannel.withRevents revents := by
  have hindex : (c.withRevents revents).index = c.index := rfl
  have hnone : (c.withRevents revents).isNoneEvent = c.isNoneEvent := rfl
  simp only [updateChannel, hindex, hnone]
  split
  · rfl
  · rfl
  · split <;> rfl

end Channel

namespace TcpConnection

def within (c : TcpConnection) (loop : EventLoop Functor) (revents : BitVec 32) : TcpConnection :=
  { c with loop := loop, channel := c.channel.withRevents revents }

/-- The same but for the loop and the last event. -/
def Alike (c c' : TcpConnection) : Prop := c' = c.within c'.loop c'.channel.revents

variable {c c' c'' : TcpConnection}

@[refl] theorem Alike.refl (c : TcpConnection) : Alike c c := rfl

@[symm] theorem Alike.symm (h : Alike c c') : Alike c' c := by
  rw [Alike, h]
  rfl

@[trans] theorem Alike.trans (h : Alike c c') (h' : Alike c' c'') : Alike c c'' := by
  rw [Alike, h', h]
  rfl

theorem alike_of_eq {m : EventLoop Functor} {r : BitVec 32} (h : c' = c.within m r) :
    Alike c c' := by
  rw [h]
  rfl

/-- The function looks neither at the loop nor at the last event. -/
def LoopFree (f : TcpConnection → TcpConnection) : Prop :=
  ∀ c m r, Alike (f c) (f (c.within m r))

section LoopFree

variable {f g : TcpConnection → TcpConnection}

theorem LoopFree.alike (hf : LoopFree f) (h : Alike c c') : Alike (f c) (f c') := by
  rw [h]
  exact hf c c'.loop c'.channel.revents

theorem LoopFree.comp (hf : LoopFree f) (hg : LoopFree g) : LoopFree fun c => f (g c) :=
  fun c m r => hf.alike (hg c m r)

theorem loopFree_id : LoopFree id := fun _ _ _ => rfl

theorem loopFree_ite {p : TcpConnection → Prop} [DecidablePred p]
    (hp : ∀ c m r, p (c.within m r) ↔ p c) (hf : LoopFree f) (hg : LoopFree g) :
    LoopFree fun c => if p c then f c else g c := by
  intro c m r
  by_cases h : p c
  · simp only [if_pos h, if_pos ((hp c m r).mpr h)]
    exact hf c m r
  · simp only [if_neg h, if_neg (mt (hp c m r).mp h)]
    exact hg c m r

end LoopFree

theorem loopFree_record (e : Effect) : LoopFree (record · e) := fun _ _ _ => rfl

theorem loopFree_setState (state : StateE) : LoopFree (setState · state) := fun _ _ _ => rfl

theorem loopFree_record_connected :
    LoopFree fun c => c.record (.connectionCallback c.connected) := fun _ _ _ => rfl

theorem loopFree_updateChannel (f : BitVec 32 → BitVec 32) : LoopFree fun c => { c with
    channel := Channel.updateChannel { c.channel with events := f c.channel.events } } := by
  intro c m r
  have h := Channel.updateChannel_withRevents { c.channel with events := f c.channel.events } r
  exact alike_of_eq (congrArg (fun channel => { c.within m r with channel := channel }) h)

theorem loopFree_queueInLoop (f : Functor) : LoopFree (queueInLoop · f) := fun _ _ _ => rfl

theorem loopFree_queueWriteComplete : LoopFree queueWriteComplete :=
  loopFree_ite (fun _ _ _ => .rfl) (loopFree_queueInLoop _) loopFree_id

theorem loopFree_checkHighWaterMark (remaining : Nat) :
    LoopFree (checkHighWaterMark · remaining) := by
  have hqueue : LoopFree fun c =>
      c.queueInLoop (.highWaterMarkCallback (c.outputBuffer.readableBytes + remaining)) :=
    fun _ _ _ => rfl
  exact loopFree_ite (fun _ _ _ => .rfl) hqueue loopFree_id

theorem loopFree_shutdownInLoop : LoopFree shutdownInLoop :=
  loopFree_ite (fun _ _ _ => .rfl) (loopFree_record _) loopFree_id

theorem loopFree_shutdown : LoopFree shutdown :=
  loopFree_ite (fun _ _ _ => .rfl) (loopFree_shutdownInLoop.comp (g := (setState · .kDisconnecting))
    fun _ _ _ => rfl) loopFree_id

theorem loopFree_keepRest (data : Data) (a : Attempt) : LoopFree (keepRest · data a) := by
  have hkeep : LoopFree fun c : TcpConnection => { c with
      outputBuffer := c.outputBuffer.append (data.range a.nwrote a.remaining) } := fun _ _ _ => rfl
  have hwriting : LoopFree fun c =>
      if (!c.channel.isWriting) = true then { c with channel := c.channel.enableWriting } else c :=
    loopFree_ite (fun _ _ _ => .rfl) (loopFree_updateChannel (· ||| Channel.kWriteEvent))
      loopFree_id
  exact (hwriting.comp hkeep).comp (loopFree_checkHighWaterMark a.remaining)

theorem loopFree_sendInLoop (data : Data) (result : Except Errno Nat) :
    LoopFree (sendInLoop · data result) := by
  have hdone : LoopFree fun c => if (attempt data.bytes.length result).remaining = 0 then
      (c.record (.write data.bytes result)).queueWriteComplete
      else c.record (.write data.bytes result) :=
    loopFree_ite (fun _ _ _ => .rfl) (loopFree_queueWriteComplete.comp (loopFree_record _))
      (loopFree_record _)
  have hrest (a : Attempt) : LoopFree fun c =>
      if (!a.faultError && 0 < a.remaining) = true then c.keepRest data a else c :=
    loopFree_ite (fun _ _ _ => .rfl) (loopFree_keepRest data a) loopFree_id
  have hdirect : LoopFree fun c =>
      let p := c.writeDirect data result
      if !p.2.faultError && 0 < p.2.remaining then p.1.keepRest data p.2 else p.1 := by
    intro c m r
    have hwrites : (c.within m r).writesDirectly = c.writesDirectly := rfl
    by_cases h : c.writesDirectly = true
    · simp only [writeDirect, hwrites, h, if_true]
      exact (hrest _).alike (hdone c m r)
    · simp only [writeDirect, hwrites, h, Bool.false_eq_true, if_false]
      exact hrest ⟨0, data.bytes.length, false⟩ c m r
  exact (loopFree_ite (p := fun c => c.state = .kDisconnected) (fun _ _ _ => .rfl) loopFree_id
    hdirect).comp (loopFree_record _)

theorem loopFree_send (buf : Data) (result : Except Errno Nat) : LoopFree (send · buf result) :=
  loopFree_ite (fun _ _ _ => .rfl) ((loopFree_sendInLoop buf result).comp (loopFree_record _))
    loopFree_id

theorem loopFree_disableAll :
    LoopFree fun c : TcpConnection => { c with channel := c.channel.disableAll } :=
  loopFree_updateChannel (· &&& Channel.kNoneEvent)

theorem loopFree_disconnect : LoopFree fun c =>
    let c := c.setState .kDisconnected
    let c := { c with channel := c.channel.disableAll }
    c.record (.connectionCallback c.connected) :=
  (loopFree_record_connected.comp loopFree_disableAll).comp (loopFree_setState .kDisconnected)

theorem loopFree_connectEstablished : LoopFree connectEstablished := by
  have htie : LoopFree fun c : TcpConnection => { c with channel := c.channel.tie } :=
    fun _ _ _ => rfl
  have hread : LoopFree fun c : TcpConnection => { c with channel := c.channel.enableReading } :=
    loopFree_updateChannel (· ||| Channel.kReadEvent)
  exact ((loopFree_record_connected.comp hread).comp htie).comp (loopFree_setState .kConnected)

theorem loopFree_connectDestroyed : LoopFree connectDestroyed := by
  have hrecord : LoopFree fun c => c.record (.remove c.channel.isNoneEvent) := fun _ _ _ => rfl
  have hremove : LoopFree fun c : TcpConnection => { c with channel := c.channel.remove } :=
    fun _ _ _ => rfl
  have hclose : LoopFree fun c => if c.state = .kConnected then
      let c := c.setState .kDisconnected
      let c := { c with channel := c.channel.disableAll }
      c.record (.connectionCallback c.connected)
      else c :=
    loopFree_ite (fun _ _ _ => .rfl) loopFree_disconnect loopFree_id
  exact ((hremove.comp hrecord).comp hclose).comp (loopFree_record .connectDestroyed)

theorem loopFree_handleClose {closeCallback : TcpConnection → TcpConnection}
    (h : LoopFree closeCallback) : LoopFree (handleClose · closeCallback) :=
  h.comp loopFree_disconnect

theorem loopFree_handleRead (delivered : Except Errno Bytes)
    {messageCallback closeCallback : TcpConnection → TcpConnection}
    (hmessage : LoopFree messageCallback) (hclose : LoopFree closeCallback) :
    LoopFree (handleRead · delivered messageCallback closeCallback) := by
  have hread : LoopFree fun c : TcpConnection =>
      { c with inputBuffer := (c.inputBuffer.readFd delivered).2 } := fun _ _ _ => rfl
  have hclosed : LoopFree fun c => if (c.inputBuffer.readFd delivered).1 = 0 then
      handleClose { c with inputBuffer := (c.inputBuffer.readFd delivered).2 } closeCallback
      else { c with inputBuffer := (c.inputBuffer.readFd delivered).2 } :=
    loopFree_ite (fun _ _ _ => .rfl) ((loopFree_handleClose hclose).comp hread) hread
  exact loopFree_ite (fun _ _ _ => .rfl)
    ((hmessage.comp (loopFree_record .messageCallback)).comp hread) hclosed

theorem loopFree_writeDone : LoopFree writeDone := by
  have hdisable : LoopFree fun c : TcpConnection =>
      { c with channel := c.channel.disableWriting } :=
    loopFree_updateChannel (· &&& ~~~Channel.kWriteEvent)
  have hshutdown : LoopFree fun c => if c.state = .kDisconnecting then c.shutdownInLoop else c :=
    loopFree_ite (fun _ _ _ => .rfl) loopFree_shutdownInLoop loopFree_id
  exact (hshutdown.comp loopFree_queueWriteComplete).comp hdisable

theorem loopFree_handleWrite (result : Except Errno Nat) : LoopFree (handleWrite · result) := by
  have hrecord : LoopFree fun c => c.record (.write c.outputBuffer.peek result) := fun _ _ _ => rfl
  match result with
  | .error e => exact loopFree_ite (fun _ _ _ => .rfl) hrecord loopFree_id
  | .ok 0 => exact loopFree_ite (fun _ _ _ => .rfl) hrecord loopFree_id
  | .ok (n + 1) =>
    have hwrote : LoopFree (wrote · (n + 1)) := fun _ _ _ => rfl
    have hdone : LoopFree fun c =>
        if c.outputBuffer.readableBytes = 0 then c.writeDone else c :=
      loopFree_ite (fun _ _ _ => .rfl) loopFree_writeDone loopFree_id
    exact loopFree_ite (fun _ _ _ => .rfl) (hdone.comp hwrote) loopFree_id

end TcpConnection

end WebServer.Mymuduo
