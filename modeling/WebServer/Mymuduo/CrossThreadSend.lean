import Mathlib.Data.List.Perm.Basic
import WebServer.Mymuduo.TcpServer

/-! `send` in another thread: what its functor captures, and who owns the connection when the
functor runs. -/

namespace WebServer.Mymuduo

open WebServer.Lib

def Call.send? : Call → Option (Source × Bytes)
  | .send source sent => some (source, sent)
  | _ => none

def Source.lenAt (address : Nat) : Source → Option Nat
  | .pointer a len => if a = address then some len else none
  | .copy _ => none

theorem TcpConnection.QueuedCallbacks.sends {l m : EventLoop Functor}
    (h : TcpConnection.QueuedCallbacks l m) :
    m.waiting.filterMap Functor.send? = l.waiting.filterMap Functor.send? := by
  obtain ⟨fs, hwaiting, -, hfs⟩ := h.grows
  have hnone : fs.filterMap Functor.send? = [] := by
    rw [List.filterMap_eq_nil_iff]
    intro f hf
    rcases hfs f hf with rfl | ⟨n, rfl⟩ <;> rfl
  rw [hwaiting, List.filterMap_append, hnone, List.append_nil]

namespace TcpServer

/-- What the functors of `send` have captured that have not run yet, queued or not. -/
def sends (s : TcpServer) : List (Source × Bytes) :=
  s.conn.loop.waiting.filterMap Functor.send? ++ s.calls.filterMap Call.send?

inductive SendsStep (s t : TcpServer) : Prop
  | quiet (h : t.sends.Perm s.sends) (hd : t.deliveries = s.deliveries)
  | begun (source : Source) (sent : Bytes) (h : t.sends.Perm ((source, sent) :: s.sends))
      (hread : t.readSource source = some sent) (hheld : 0 < t.held)
      (hd : t.deliveries = s.deliveries)
  | ran (source : Source) (sent : Bytes) (h : s.sends = (source, sent) :: t.sends)
      (hd : t.deliveries = s.deliveries ++ [⟨sent, s.readSource source, s.owned⟩])

variable {s t : TcpServer} {l : Label}

theorem sends_congr (hloop : TcpConnection.QueuedCallbacks s.conn.loop t.conn.loop)
    (hcalls : t.calls = s.calls) : t.sends = s.sends := by
  rw [sends, sends, hloop.sends, hcalls]

theorem sends_queueInLoop (s : TcpServer) (b : Bool) {f : Functor} (h : f.send? = none) :
    (s.queueInLoop b f).sends = s.sends := by
  simp [sends, queueInLoop, setLoop, h]

theorem sends_removeConenction (s : TcpServer) : s.removeConenction.sends = s.sends := by
  rw [removeConenction]
  split
  · exact sends_queueInLoop _ _ rfl
  · rfl

theorem deliveries_removeConenction (s : TcpServer) :
    s.removeConenction.deliveries = s.deliveries := by
  rw [removeConenction]
  split <;> rfl

theorem sends_destroy (s : TcpServer) : s.destroy.sends = s.sends := by
  simp only [destroy]
  split_ifs
  · exact sends_congr (by simpa using .refl _) rfl
  · exact sends_queueInLoop _ _ rfl
  · rfl

theorem deliveries_destroy (s : TcpServer) : s.destroy.deliveries = s.deliveries := by
  simp only [destroy]
  split_ifs <;> rfl

theorem owned_setLoop {l : EventLoop Functor} (h : l.kept = s.conn.loop.kept) :
    (s.setLoop l).owned = s.owned := by
  simp only [owned, setLoop, h]
  rfl

theorem sendsStep_act (s : TcpServer) (a : Action) (rest : List Action) (io : Syscalls) :
    SendsStep s (s.act a rest io) := by
  by_cases ha : a = .closeCallback
  · subst ha
    apply SendsStep.quiet
    · rw [act, sends_removeConenction]
      exact .refl _
    · exact deliveries_removeConenction _
  · have heq := s.act_eq rest io ha
    apply SendsStep.quiet
    · rw [sends_congr (s.act_loop rest io ha) (by rw [heq])]
    · rw [heq]

theorem sends_nextFunctor {f : Functor} {l : EventLoop Functor}
    (h : s.conn.loop.nextFunctor = some (f, l)) :
    s.sends = f.send?.toList ++ (s.setLoop l).sends := by
  rw [sends, EventLoop.waiting_nextFunctor h]
  cases hf : f.send? <;> simp [sends, setLoop, hf]

theorem sends_runFunctor (s : TcpServer) {f : Functor} {io : Syscalls}
    (h : s.fits io f = true) : (s.runFunctor f io).sends = s.sends :=
  sends_congr (s.runFunctor_loop f io h) (by rw [runFunctor_eq])

theorem sendsStep_runFunctor (io : Syscalls) (h : s.enabled (.runFunctor io) = true) :
    SendsStep s (s.next (.runFunctor io)) := by
  obtain ⟨f, l, hnext, hfit, hrun⟩ := runFunctor_cases h
  have heq := (s.setLoop l).runFunctor_eq f io
  have hsends := sends_nextFunctor hnext
  have hafter := (s.setLoop l).sends_runFunctor hfit
  have howned := owned_setLoop (s := s) (EventLoop.kept_nextFunctor hnext)
  rw [hrun]
  cases hf : f.send? with
  | none =>
    apply SendsStep.quiet
    · rw [hafter, hsends, hf]
      exact .refl _
    · rw [heq, hf]
      exact List.append_nil _
  | some p =>
    obtain ⟨source, sent⟩ := p
    apply SendsStep.ran source sent
    · rw [hafter, hsends, hf]
      rfl
    · rw [heq, hf, howned]
      rfl

theorem sendsStep_beginSend {source : Source} {sent : Bytes}
    (hread : s.readSource source = some sent) (hheld : 0 < s.held) :
    SendsStep s (s.beginSend source sent) := by
  rw [beginSend]
  split
  · apply SendsStep.begun source sent
    · simp only [sends, List.filterMap_append, ← List.append_assoc]
      exact List.perm_append_singleton _ _
    · exact hread
    · exact hheld
    · rfl
  · exact .quiet (.refl _) rfl

theorem sends_beginShutdown (s : TcpServer) : (s.begin .shutdown).sends = s.sends := by
  rw [begin]
  split
  · simp [sends, Call.send?]
  · rfl

theorem deliveries_begin (s : TcpServer) (c : Call) : (s.begin c).deliveries = s.deliveries := by
  rw [(s.callStep_begin c).eq]

theorem calls_perm {i : Nat} {c : Call} (h : s.calls[i]? = some c) :
    s.calls.Perm (c :: s.calls.eraseIdx i) := by
  obtain ⟨hi, rfl⟩ := List.getElem?_eq_some_iff.mp h
  exact (List.getElem_cons_eraseIdx_perm hi).symm

theorem sends_set_shutdownStored {i : Nat} (h : s.calls[i]? = some .shutdown) :
    ((s.calls.set i .shutdownStored).filterMap Call.send?).Perm
      (s.calls.filterMap Call.send?) := by
  have hi : i < s.calls.length := (List.getElem?_eq_some_iff.mp h).1
  have hset := (List.set_perm_cons_eraseIdx hi Call.shutdownStored).filterMap Call.send?
  have hcalls := (calls_perm h).filterMap Call.send?
  rw [List.filterMap_cons_none rfl] at hset hcalls
  exact hset.trans hcalls.symm

theorem sends_advance {i : Nat} {c : Call} (h : s.calls[i]? = some c) :
    (s.advance i c).sends.Perm s.sends := by
  have hcalls := (calls_perm h).filterMap Call.send?
  cases c with
  | send source sent =>
    simp only [sends, advance, queueInLoop, setLoop, EventLoop.waiting_queueInLoop,
      List.filterMap_append, List.append_assoc]
    exact hcalls.symm.append_left _
  | shutdown => exact (sends_set_shutdownStored h).append_left _
  | shutdownStored =>
    rw [advance, sends_queueInLoop _ _ rfl]
    exact hcalls.symm.append_left _

theorem deliveries_advance (s : TcpServer) (i : Nat) (c : Call) :
    (s.advance i c).deliveries = s.deliveries := by
  rw [(s.callStep_advance i c).eq]

theorem sendsStep (h : step s l = some t) : SendsStep s t := by
  obtain ⟨hen, rfl⟩ := step_eq_some.mp h
  cases l with
  | act io =>
    obtain ⟨a, rest, -, hnext⟩ := act_cases hen
    rw [hnext]
    exact s.sendsStep_act a rest io
  | swapFunctors =>
    refine .quiet ?_ rfl
    rw [sends, sends, next, setLoop, waiting_swapFunctors hen]
  | runFunctor io => exact sendsStep_runFunctor io hen
  | endFunctors =>
    refine .quiet ?_ rfl
    rw [sends, sends, next, setLoop, waiting_endFunctors hen]
  | send buf result =>
    exact .quiet (.of_eq (sends_congr (s.conn.send_loop (fits_of_send hen)) rfl)) rfl
  | sendBuffer buf result =>
    rw [next_sendBuffer]
    exact .quiet (.of_eq (sends_congr (s.conn.send_loop (fits_of_sendBuffer hen)) rfl)) rfl
  | shutdown => exact .quiet (.of_eq (sends_congr (by simpa [next] using .refl _) rfl)) rfl
  | callSend address =>
    obtain ⟨content, hcontent, hheld, hnext⟩ := callSend_cases hen
    rw [hnext]
    exact sendsStep_beginSend (by simp [readSource, hcontent]) hheld
  | callSendBuffer buf =>
    rw [next_callSendBuffer]
    have hheld : s.calls.length < s.held := of_decide_eq_true hen
    exact sendsStep_beginSend rfl (Nat.zero_lt_of_lt hheld)
  | callShutdown => exact .quiet (.of_eq s.sends_beginShutdown) (s.deliveries_begin _)
  | advance i =>
    obtain ⟨c, hc, hnext⟩ := advance_cases hen
    rw [hnext]
    exact .quiet (sends_advance hc) (s.deliveries_advance i c)
  | storeLost i =>
    simp only [enabled, Bool.and_eq_true, decide_eq_true_eq] at hen
    exact .quiet ((sends_set_shutdownStored hen.1).append_left _) rfl
  | baseRun =>
    obtain ⟨m, -, hnext⟩ := baseRun_cases hen
    rw [hnext]
    exact .quiet (.of_eq (sends_queueInLoop _ _ rfl)) rfl
  | destroyServer => exact .quiet (.of_eq s.sends_destroy) s.deliveries_destroy
  | _ => exact .quiet (.refl _) rfl

/-- Every functor of `send` that ran has passed on what was sent, for an owned connection. -/
def SelfContained (s : TcpServer) : Prop :=
  ∀ d ∈ s.deliveries, d.passed = some d.sent ∧ d.owned = true

instance decidableSelfContained (s : TcpServer) : Decidable s.SelfContained :=
  inferInstanceAs (Decidable (∀ d ∈ s.deliveries, d.passed = some d.sent ∧ d.owned = true))

def keepsStrings (s : TcpServer) : Label → Bool
  | .overwrite address content => s.sends.all fun (source, sent) =>
      (source.lenAt address).all fun len => len ≤ content.length ∧ content.take len = sent
  | .release address => s.sends.all fun (source, _) => (source.lenAt address).isNone
  | _ => true

/-- A `TcpConnectionPtr` that the user, the guard of `handleEvent`, a batch of functors or the
server lets go of is not the last one. -/
def keepsOwner (s : TcpServer) : Label → Bool
  | .drop => { s with held := s.held - 1 }.owned
  | .act _ => s.actions ≠ [.letGo] || { s with actions := [] }.owned
  | .endFunctors => (s.setLoop s.conn.loop.endFunctors).owned
  | .baseEnd => { s with base := s.base.endFunctors }.owned
  | .destroyServer => !s.sameLoop || { s with inMap := false }.owned
  | _ => true

def keepsCaptures (s : TcpServer) (l : Label) : Bool :=
  s.keepsStrings l && (s.sends.isEmpty || s.keepsOwner l)

theorem owned_iff : s.owned = true ↔
    s.inMap = true ∨ 0 < s.held ∨ s.actions ≠ [] ∨ s.base.kept ≠ [] ∨
      ∃ f ∈ s.conn.loop.kept, f.owns = true := by
  simp [owned, or_assoc]

theorem owned_mono (h : s.owned = true) (hmap : s.inMap = true → t.inMap = true)
    (hheld : s.held ≤ t.held) (hactions : s.actions ≠ [] → t.actions ≠ [])
    (hbase : s.base.kept ≠ [] → t.base.kept ≠ [])
    (hloop : s.conn.loop.kept ⊆ t.conn.loop.kept) : t.owned = true := by
  rw [owned_iff] at h ⊢
  rcases h with h | h | h | h | ⟨f, hf, h⟩
  · exact .inl (hmap h)
  · exact .inr (.inl (h.trans_le hheld))
  · exact .inr (.inr (.inl (hactions h)))
  · exact .inr (.inr (.inr (.inl (hbase h))))
  · exact .inr (.inr (.inr (.inr ⟨f, hloop hf, h⟩)))

theorem owned_queueInLoop (s : TcpServer) (b : Bool) {f : Functor} (hf : f.owns = true) :
    (s.queueInLoop b f).owned = true := by
  rw [owned_iff]
  exact .inr (.inr (.inr (.inr ⟨f, by simp [queueInLoop, setLoop], hf⟩)))

theorem owned_removeConenction (s : TcpServer) : s.removeConenction.owned = true := by
  rw [removeConenction]
  split
  · exact owned_queueInLoop _ _ rfl
  · rw [owned_iff]
    exact .inr (.inr (.inr (.inl (by simp))))

theorem owned_of_actions (h : s.actions ≠ []) : s.owned = true :=
  owned_iff.mpr (.inr (.inr (.inl h)))

theorem owned_setConn {c : TcpConnection} (h : TcpConnection.QueuedCallbacks s.conn.loop c.loop)
    (hs : s.owned = true) : { s with conn := c }.owned = true := by
  obtain ⟨fs, -, hkept, -⟩ := h.grows
  refine owned_mono hs id (Nat.le_refl _) id id ?_
  rw [hkept]
  exact List.subset_append_left _ _

theorem callStep_owned (h : CallStep s t) (hs : s.owned = true) : t.owned = true := by
  have heq := h.eq
  rw [heq]
  exact owned_mono hs id (Nat.le_refl _) id id h.kept

def Guarded (s : TcpServer) : Prop := s.actions = [] ∨ ∃ as, s.actions = as ++ [.letGo]

theorem owned_act (hguard : s.Guarded) {a : Action} {rest : List Action} (io : Syscalls)
    (ha : s.actions = a :: rest) (hk : s.keepsOwner (.act io) = true) :
    (s.act a rest io).owned = true := by
  by_cases hrest : rest = []
  · subst hrest
    obtain rfl : a = .letGo := by
      rcases hguard with hnil | ⟨as, has⟩
      · rw [ha] at hnil
        cases hnil
      · simpa using congrArg List.getLast? (ha.symm.trans has)
    simpa [keepsOwner, ha, act] using hk
  · by_cases hclose : a = .closeCallback
    · subst hclose
      exact owned_removeConenction _
    · apply owned_of_actions
      rw [act_actions]
      split
      · exact List.cons_ne_nil _ _
      · exact hrest

theorem owned_destroy (hs : s.owned = true) (hk : s.keepsOwner .destroyServer = true) :
    s.destroy.owned = true := by
  simp only [destroy]
  split_ifs with hmap hloop
  · have hrest : { s with inMap := false }.owned = true := by
      rw [keepsOwner, hloop] at hk
      exact hk
    exact owned_setConn (s := { s with alive := false, inMap := false })
      (by simpa using .refl _) hrest
  · exact owned_queueInLoop _ _ rfl
  · exact hs

theorem owned_baseRun (h : s.enabled .baseRun = true) : (s.next .baseRun).owned = true := by
  obtain ⟨m, -, hnext⟩ := baseRun_cases h
  rw [hnext]
  exact owned_queueInLoop _ _ rfl

theorem owned_next (hguard : s.Guarded) (hen : s.enabled l = true) (hs : s.owned = true)
    (hk : s.keepsOwner l = true) : (s.next l).owned = true := by
  cases l with
  | poll revents => exact owned_mono hs id (Nat.le_refl _) id id (List.Subset.refl _)
  | handleEvent => exact owned_of_actions (by simp [next, hs])
  | act io =>
    obtain ⟨a, rest, ha, hnext⟩ := act_cases hen
    rw [hnext]
    exact owned_act hguard io ha hk
  | swapFunctors =>
    rwa [next, owned_setLoop (EventLoop.kept_swapFunctors (notCalling_of_swapFunctors hen))]
  | runFunctor io =>
    obtain ⟨f, l, hnext, hfit, hrun⟩ := runFunctor_cases hen
    have hl : (s.setLoop l).owned = true := by
      rwa [owned_setLoop (EventLoop.kept_nextFunctor hnext)]
    rw [hrun, runFunctor_eq]
    exact owned_setConn ((s.setLoop l).runFunctor_loop f io hfit) hl
  | endFunctors => exact hk
  | send buf result => exact owned_setConn (s.conn.send_loop (fits_of_send hen)) hs
  | sendBuffer buf result =>
    rw [next_sendBuffer]
    exact owned_setConn (s.conn.send_loop (fits_of_sendBuffer hen)) hs
  | shutdown => exact owned_setConn (by simpa using .refl _) hs
  | hold => exact owned_mono hs id (Nat.le_succ _) id id (List.Subset.refl _)
  | drop => exact hk
  | baseSwap =>
    refine owned_mono hs id (Nat.le_refl _) id ?_ (List.Subset.refl _)
    rw [next, EventLoop.kept_swapFunctors (notCalling_of_baseSwap hen)]
    exact id
  | baseRun => exact owned_baseRun hen
  | baseEnd => exact hk
  | destroyServer => exact owned_destroy hs hk
  | newString address content => exact hs
  | overwrite address content => exact hs
  | release address => exact hs
  | _ => exact callStep_owned (callStep_next rfl) hs

theorem guarded_next (h : s.Guarded) : (s.next l).Guarded := by
  cases l with
  | handleEvent =>
    simp only [Guarded, next]
    split
    · exact .inl rfl
    · exact .inr ⟨_, rfl⟩
  | act io =>
    rw [next]
    split
    · exact h
    · next a rest ha =>
      obtain hnil | ⟨as, has⟩ := h
      · rw [ha] at hnil
        cases hnil
      · rw [Guarded, act_actions]
        cases as with
        | nil =>
          obtain ⟨rfl, rfl⟩ := List.cons.inj (ha.symm.trans has)
          exact .inl rfl
        | cons b as =>
          obtain ⟨rfl, rfl⟩ := List.cons.inj (ha.symm.trans has)
          split
          · exact .inr ⟨.closeCallback :: as, rfl⟩
          · exact .inr ⟨as, rfl⟩
  | runFunctor io =>
    rw [next]
    split
    · exact h
    · rw [runFunctor_eq]
      exact h
  | baseRun =>
    rw [next]
    split <;> exact h
  | destroyServer =>
    simp only [next, destroy]
    split_ifs <;> exact h
  | callSend _ | callSendBuffer _ | callShutdown | advance _ | storeLost _ =>
    rw [(callStep_next rfl).eq]
    exact h
  | _ => exact h

def Label.isString : Label → Bool
  | .newString _ _ => true
  | .overwrite _ _ => true
  | .release _ => true
  | _ => false

theorem strings_act (s : TcpServer) (a : Action) (rest : List Action) (io : Syscalls) :
    (s.act a rest io).strings = s.strings := by
  by_cases ha : a = .closeCallback
  · subst ha
    simp only [act, removeConenction]
    split <;> rfl
  · rw [s.act_eq rest io ha]

theorem strings_next (h : l.isString = false) : (s.next l).strings = s.strings := by
  cases l with
  | newString _ _ | overwrite _ _ | release _ => cases h
  | act io =>
    rw [next]
    split
    · rfl
    · exact s.strings_act _ _ io
  | runFunctor io =>
    rw [next]
    split
    · rfl
    · rw [runFunctor_eq]
      rfl
  | baseRun =>
    rw [next]
    split <;> rfl
  | destroyServer =>
    simp only [next, destroy]
    split_ifs <;> rfl
  | callSend _ | callSendBuffer _ | callShutdown | advance _ | storeLost _ =>
    rw [(callStep_next rfl).eq]
  | _ => rfl

theorem readSource_pointer {address len : Nat} {sent : Bytes} :
    s.readSource (.pointer address len) = some sent ↔
      ∃ content, s.strings address = some content ∧ len ≤ content.length ∧
        content.take len = sent := by
  simp [readSource, Option.bind_eq_some_iff]

theorem readSource_congr (h : t.strings = s.strings) : t.readSource = s.readSource := by
  funext source
  cases source with
  | copy message => rfl
  | pointer address len => simp only [readSource, h]

theorem readSource_next (hen : s.enabled l = true) (hk : s.keepsStrings l = true) {source : Source}
    {sent : Bytes} (hmem : (source, sent) ∈ s.sends) (hread : s.readSource source = some sent) :
    (s.next l).readSource source = some sent := by
  cases source with
  | copy message => exact hread
  | pointer address len =>
    obtain ⟨content, hcontent, hlen, htake⟩ := readSource_pointer.mp hread
    cases hl : l.isString with
    | false => rwa [readSource_congr (strings_next hl)]
    | true =>
      rw [readSource_pointer]
      cases l with
      | newString a new =>
        have hne : address ≠ a := by
          rintro rfl
          simp [enabled, hcontent] at hen
        exact ⟨content, (Function.update_of_ne hne _ _).trans hcontent, hlen, htake⟩
      | overwrite a new =>
        simp only [keepsStrings, List.all_eq_true] at hk
        by_cases ha : address = a
        · subst ha
          exact ⟨new, Function.update_self _ _ _, by simpa [Source.lenAt] using hk _ hmem⟩
        · exact ⟨content, (Function.update_of_ne ha _ _).trans hcontent, hlen, htake⟩
      | release a =>
        simp only [keepsStrings, List.all_eq_true] at hk
        have hne : address ≠ a := by
          rintro rfl
          simpa [Source.lenAt] using hk _ hmem
        exact ⟨content, (Function.update_of_ne hne _ _).trans hcontent, hlen, htake⟩
      | _ => cases hl

def Reads (s : TcpServer) : Prop := ∀ p ∈ s.sends, s.readSource p.1 = some p.2

theorem step_reads (hI : s.Reads) (hk : s.keepsStrings l = true) (h : step s l = some t) :
    t.Reads := by
  have hstep := sendsStep h
  obtain ⟨hen, rfl⟩ := step_eq_some.mp h
  have hreads : ∀ p ∈ s.sends, (s.next l).readSource p.1 = some p.2 := fun p hp =>
    readSource_next hen hk hp (hI p hp)
  intro p hp
  cases hstep with
  | quiet hperm _ => exact hreads p (hperm.mem_iff.mp hp)
  | begun source sent hperm hread _ _ =>
    rcases List.mem_cons.mp (hperm.mem_iff.mp hp) with rfl | hp
    · exact hread
    · exact hreads p hp
  | ran source sent hsends _ => exact hreads p (by rw [hsends]; exact List.mem_cons_of_mem _ hp)

structure Delivers (s : TcpServer) : Prop where
  guarded : s.Guarded
  reads : s.Reads
  owned : s.sends ≠ [] → s.owned = true
  delivered : s.SelfContained

theorem delivers_newConnection (sameLoop writeCompleteCallback : Bool) :
    (newConnection sameLoop writeCompleteCallback).Delivers := by
  have hsends : (newConnection sameLoop writeCompleteCallback).sends = [] := by
    cases sameLoop <;> rfl
  have hactions : (newConnection sameLoop writeCompleteCallback).actions = [] := by
    cases sameLoop <;> rfl
  have hdeliveries : (newConnection sameLoop writeCompleteCallback).deliveries = [] := by
    cases sameLoop <;> rfl
  exact ⟨.inl hactions, by simp [Reads, hsends], by simp [hsends],
    by simp [SelfContained, hdeliveries]⟩

theorem step_delivers (hI : s.Delivers) (hk : s.keepsCaptures l = true) (h : step s l = some t) :
    t.Delivers := by
  have hstep := sendsStep h
  obtain ⟨hstrings, howner⟩ := Bool.and_eq_true_iff.mp hk
  have hreads := step_reads hI.reads hstrings h
  obtain ⟨hen, rfl⟩ := step_eq_some.mp h
  have hguard := guarded_next (l := l) hI.guarded
  have howned : s.sends ≠ [] → (s.next l).owned = true := fun hne =>
    owned_next hI.guarded hen (hI.owned hne) (by simpa [hne] using howner)
  cases hstep with
  | quiet hperm hd =>
    refine ⟨hguard, hreads, fun hne => howned ?_, ?_⟩
    · exact fun hnil => hne (List.perm_nil.mp (hnil ▸ hperm))
    · rw [SelfContained, hd]
      exact hI.delivered
  | begun source sent hperm _ hheld hd =>
    refine ⟨hguard, hreads, fun _ => owned_iff.mpr (.inr (.inl hheld)), ?_⟩
    rw [SelfContained, hd]
    exact hI.delivered
  | ran source sent hsends hd =>
    have hmem : (source, sent) ∈ s.sends := by rw [hsends]; exact List.mem_cons_self
    have hne : s.sends ≠ [] := List.ne_nil_of_mem hmem
    refine ⟨hguard, hreads, fun _ => howned hne, ?_⟩
    rw [SelfContained, hd]
    intro d hdel
    rcases List.mem_append.mp hdel with hdel | hdel
    · exact hI.delivered d hdel
    · obtain rfl := List.mem_singleton.mp hdel
      exact ⟨hI.reads _ hmem, hI.owned hne⟩

/-- As long as no string is changed and no last owner goes while a functor of `send` waits, every
functor of `send` passes on what was sent, and runs on an owned connection. -/
theorem selfContained_of_keepsCaptures {sameLoop writeCompleteCallback : Bool} {ls : List Label}
    (hkeeps : Along step (fun s l => s.keepsCaptures l = true)
      (newConnection sameLoop writeCompleteCallback) ls)
    (h : run step (newConnection sameLoop writeCompleteCallback) ls = some s) :
    s.SelfContained :=
  (invariant_along (fun _ _ _ hI hk h => step_delivers hI hk h)
    (delivers_newConnection sameLoop writeCompleteCallback) hkeeps h).delivered

/-- Another thread sends two bytes and lets go of the connection. -/
theorem selfContained_ab :
    ∃ t, run step (newConnection true false)
        [.newString 0 (ascii "ab"), .hold, .callSend 0, .advance 0, .drop, .swapFunctors,
          .runFunctor ⟨.ok [], .ok 2, 0⟩] = some t ∧
      t.deliveries.length = 1 ∧ t.SelfContained := by
  have hrun : (run step (newConnection true false)
      [.newString 0 (ascii "ab"), .hold, .callSend 0, .advance 0, .drop, .swapFunctors,
        .runFunctor ⟨.ok [], .ok 2, 0⟩]).any (fun t => t.deliveries.length = 1) = true := by
    decide
  obtain ⟨t, ht, hlength⟩ := (Option.any_eq_true _ _).mp hrun
  exact ⟨t, ht, of_decide_eq_true hlength, selfContained_of_keepsCaptures (by decide) ht⟩

/-- Another thread sends a string and overwrites it before the functor runs. -/
theorem not_selfContained_overwrite :
    ∃ t, run step (newConnection true false)
        [.newString 0 (ascii "ab"), .hold, .callSend 0, .advance 0, .overwrite 0 (ascii "xy"),
          .swapFunctors, .runFunctor ⟨.ok [], .ok 2, 0⟩] = some t ∧ ¬ t.SelfContained := by
  have hrun : (run step (newConnection true false)
      [.newString 0 (ascii "ab"), .hold, .callSend 0, .advance 0, .overwrite 0 (ascii "xy"),
        .swapFunctors, .runFunctor ⟨.ok [], .ok 2, 0⟩]).any
      (fun t => ¬ t.SelfContained) = true := by
    decide
  obtain ⟨t, ht, hbad⟩ := (Option.any_eq_true _ _).mp hrun
  exact ⟨t, ht, of_decide_eq_true hbad⟩

end TcpServer

end WebServer.Mymuduo
