import Mathlib.Logic.Embedding.Basic
import WebServer.Lib.Run
import WebServer.Mymuduo.Channel

/-! The poller of a loop with all its channels: the map from descriptors to channels, what the
channels know of themselves, and the set of descriptors that the kernel watches. -/

universe u

namespace WebServer.Mymuduo

open WebServer.Lib

inductive EpollOp where
  | EPOLL_CTL_ADD | EPOLL_CTL_DEL | EPOLL_CTL_MOD
  deriving DecidableEq

/-- A call of `epoll_ctl`; `present` says whether the kernel already watched the descriptor. -/
structure EpollRequest where
  op : EpollOp
  fd : Int
  present : Bool
  deriving DecidableEq

def EpollRequest.consistent (r : EpollRequest) : Bool :=
  match r.op with
  | .EPOLL_CTL_ADD => !r.present
  | .EPOLL_CTL_DEL | .EPOLL_CTL_MOD => r.present

structure PolledChannel where
  events : BitVec 32
  index : PollerIndex
  deriving DecidableEq

variable {ι : Type u}

/-- `ι` are the channels of the loop; `fd` gives every one its own descriptor. -/
structure EpollPoller (ι : Type u) where
  fd : ι ↪ Int
  channel : ι → PolledChannel
  channels : Int → Option ι
  interest : Int → Option (BitVec 32)
  requests : List EpollRequest

namespace PolledChannel

def isNoneEvent (c : PolledChannel) : Bool := c.events = Channel.kNoneEvent

end PolledChannel

namespace EpollPoller

inductive Op where
  | enableReading | disableReading | enableWriting | disableWriting | disableAll | remove
  deriving DecidableEq

def new (fd : ι ↪ Int) : EpollPoller ι where
  fd := fd
  channel := fun _ => ⟨0, .kNew⟩
  channels := fun _ => none
  interest := fun _ => none
  requests := []

variable [DecidableEq ι]

/-- The kernel refuses an inconsistent request. -/
def epollCtl (s : EpollPoller ι) (op : EpollOp) (fd : Int) (mask : BitVec 32) : EpollPoller ι :=
  let request : EpollRequest := ⟨op, fd, (s.interest fd).isSome⟩
  let entry := if op = .EPOLL_CTL_DEL then none else some mask
  { s with
    interest := if request.consistent then Function.update s.interest fd entry else s.interest
    requests := s.requests ++ [request] }

def update (s : EpollPoller ι) (op : EpollOp) (i : ι) : EpollPoller ι :=
  s.epollCtl op (s.fd i) (s.channel i).events

def setIndex (s : EpollPoller ι) (i : ι) (index : PollerIndex) : EpollPoller ι :=
  { s with channel := Function.update s.channel i { s.channel i with index := index } }

def setEvents (s : EpollPoller ι) (i : ι) (events : BitVec 32) : EpollPoller ι :=
  { s with channel := Function.update s.channel i { s.channel i with events := events } }

/-- `none` when one of the assertions fails. -/
def updateChannel (s : EpollPoller ι) (i : ι) : Option (EpollPoller ι) :=
  match (s.channel i).index with
  | .kNew =>
    if s.channels (s.fd i) = none then
      let s := { s with channels := Function.update s.channels (s.fd i) (some i) }
      some ((s.setIndex i .kAdded).update .EPOLL_CTL_ADD i)
    else none
  | .kDeleted =>
    if s.channels (s.fd i) = some i then some ((s.setIndex i .kAdded).update .EPOLL_CTL_ADD i)
    else none
  | .kAdded =>
    if s.channels (s.fd i) = some i then
      if (s.channel i).isNoneEvent then some ((s.update .EPOLL_CTL_DEL i).setIndex i .kDeleted)
      else some (s.update .EPOLL_CTL_MOD i)
    else none

def removeChannel (s : EpollPoller ι) (i : ι) : EpollPoller ι :=
  let s := { s with channels := Function.update s.channels (s.fd i) none }
  let s := if (s.channel i).index = .kAdded then s.update .EPOLL_CTL_DEL i else s
  s.setIndex i .kNew

def eventsOf (events : BitVec 32) : Op → BitVec 32
  | .enableReading => events ||| Channel.kReadEvent
  | .disableReading => events &&& ~~~Channel.kReadEvent
  | .enableWriting => events ||| Channel.kWriteEvent
  | .disableWriting => events &&& ~~~Channel.kWriteEvent
  | .disableAll => events &&& Channel.kNoneEvent
  | .remove => events

/-- A function of the channel `i`; `none` when an assertion fails. -/
def step (s : EpollPoller ι) : ι × Op → Option (EpollPoller ι)
  | (i, .remove) => if (s.channel i).isNoneEvent then some (s.removeChannel i) else none
  | (i, op) => (s.setEvents i (eventsOf (s.channel i).events op)).updateChannel i

def RemovesIdle (s : EpollPoller ι) : ι × Op → Prop
  | (i, .remove) => (s.channel i).isNoneEvent = true
  | _ => True

instance (s : EpollPoller ι) : DecidablePred (RemovesIdle s) := fun (_, op) => by
  cases op <;> simp only [RemovesIdle] <;> infer_instance

/-- The three copies of the state agree, and every request was consistent. -/
structure Bookkeeping (s : EpollPoller ι) : Prop where
  channels : ∀ i, s.channels (s.fd i) = if (s.channel i).index = .kNew then none else some i
  interest : ∀ i, s.interest (s.fd i) =
    if (s.channel i).index = .kAdded then some (s.channel i).events else none
  /-- Nothing is known of other descriptors. -/
  others : ∀ n, (∀ i, s.fd i ≠ n) → s.channels n = none ∧ s.interest n = none
  requests : ∀ r ∈ s.requests, r.consistent = true

omit [DecidableEq ι] in
theorem bookkeeping_new (fd : ι ↪ Int) : (new fd).Bookkeeping where
  channels _ := rfl
  interest _ := rfl
  others _ _ := ⟨rfl, rfl⟩
  requests := by simp [new]

variable {s t : EpollPoller ι} {i : ι}

theorem Bookkeeping.change (h : s.Bookkeeping) (i : ι) (c : PolledChannel) (hfd : t.fd = s.fd)
    (hchannel : t.channel = Function.update s.channel i c)
    (hchannels : t.channels = Function.update s.channels (s.fd i)
      (if c.index = .kNew then none else some i))
    (hinterest : t.interest = Function.update s.interest (s.fd i)
      (if c.index = .kAdded then some c.events else none))
    (hrequests : ∀ r ∈ t.requests, r ∈ s.requests ∨ r.consistent = true) : t.Bookkeeping := by
  constructor
  · intro j
    rw [hfd, hchannels, hchannel]
    by_cases hj : j = i
    · subst hj
      simp
    · rw [Function.update_of_ne (fun he => hj (s.fd.injective he)), Function.update_of_ne hj]
      exact h.channels j
  · intro j
    rw [hfd, hinterest, hchannel]
    by_cases hj : j = i
    · subst hj
      simp
    · rw [Function.update_of_ne (fun he => hj (s.fd.injective he)), Function.update_of_ne hj]
      exact h.interest j
  · intro n hn
    rw [hfd] at hn
    rw [hchannels, hinterest, Function.update_of_ne (Ne.symm (hn i)),
      Function.update_of_ne (Ne.symm (hn i))]
    exact h.others n hn
  · intro r hr
    rcases hrequests r hr with hr | hr
    · exact h.requests r hr
    · exact hr

omit [DecidableEq ι] in
theorem update_eq (op : EpollOp)
    (h : EpollRequest.consistent ⟨op, s.fd i, (s.interest (s.fd i)).isSome⟩ = true) :
    s.update op i = { s with
      interest := Function.update s.interest (s.fd i)
        (if op = .EPOLL_CTL_DEL then none else some (s.channel i).events)
      requests := s.requests ++ [⟨op, s.fd i, (s.interest (s.fd i)).isSome⟩] } := by
  simp only [update, epollCtl, h, if_true]

theorem mem_concat {rs : List EpollRequest} {r x : EpollRequest} (hx : x.consistent = true)
    (hr : r ∈ rs ++ [x]) : r ∈ rs ∨ r.consistent = true := by
  rcases List.mem_append.mp hr with hr | hr
  · exact .inl hr
  · exact .inr (List.mem_singleton.mp hr ▸ hx)

def indexAfter (events : BitVec 32) : PollerIndex → PollerIndex
  | .kNew | .kDeleted => .kAdded
  | .kAdded => if PolledChannel.isNoneEvent ⟨events, .kAdded⟩ then .kDeleted else .kAdded

structure Changes (s : EpollPoller ι) (i : ι) (c : PolledChannel) (t : EpollPoller ι) : Prop where
  fd : t.fd = s.fd
  channel : t.channel = Function.update s.channel i c
  bookkeeping : t.Bookkeeping

theorem Bookkeeping.add (h : s.Bookkeeping) (i : ι) (events : BitVec 32)
    (hindex : (s.channel i).index ≠ .kAdded) (channels : Int → Option ι)
    (hupdate : channels = Function.update s.channels (s.fd i) (some i)) :
    Changes s i ⟨events, .kAdded⟩
      ((setIndex { s.setEvents i events with channels := channels } i .kAdded).update
        .EPOLL_CTL_ADD i) := by
  have hinterest : s.interest (s.fd i) = _ := h.interest i
  rw [if_neg hindex] at hinterest
  have hpresent : EpollRequest.consistent ⟨.EPOLL_CTL_ADD, s.fd i, (s.interest (s.fd i)).isSome⟩ =
      true := by simp [hinterest, EpollRequest.consistent]
  have hchannel :
      (setIndex { s.setEvents i events with channels := channels } i .kAdded).channel =
        Function.update s.channel i ⟨events, .kAdded⟩ := by simp [setIndex, setEvents]
  rw [update_eq (s := setIndex { s.setEvents i events with channels := channels } i .kAdded)
    .EPOLL_CTL_ADD hpresent]
  refine ⟨rfl, hchannel, h.change i ⟨events, .kAdded⟩ rfl hchannel hupdate ?_
    fun r hr => mem_concat hpresent hr⟩
  rw [hchannel]
  simp [setIndex, setEvents]

section Added

variable {i : ι}

theorem Bookkeeping.of_kAdded (h : s.Bookkeeping) (hindex : (s.channel i).index = .kAdded)
    (events : BitVec 32) : s.channels (s.fd i) = some i ∧
      ((s.setEvents i events).interest ((s.setEvents i events).fd i)).isSome = true := by
  have hchannels : s.channels (s.fd i) = _ := h.channels i
  have hinterest : s.interest (s.fd i) = _ := h.interest i
  rw [hindex, if_neg (by simp)] at hchannels
  rw [hindex, if_pos rfl] at hinterest
  exact ⟨hchannels, by simp [setEvents, hinterest]⟩

theorem Bookkeeping.delete (h : s.Bookkeeping) (hindex : (s.channel i).index = .kAdded)
    (events : BitVec 32) : Changes s i ⟨events, .kDeleted⟩
      (((s.setEvents i events).update .EPOLL_CTL_DEL i).setIndex i .kDeleted) := by
  obtain ⟨hchannels, hpresent⟩ := h.of_kAdded hindex events
  have hchannel : ((s.setEvents i events).setIndex i .kDeleted).channel =
      Function.update s.channel i ⟨events, .kDeleted⟩ := by simp [setIndex, setEvents]
  rw [update_eq .EPOLL_CTL_DEL hpresent]
  refine ⟨rfl, hchannel, h.change i ⟨events, .kDeleted⟩ rfl hchannel ?_ rfl
    fun r hr => mem_concat (x := ⟨.EPOLL_CTL_DEL, _, _⟩) hpresent hr⟩
  simp [setIndex, setEvents, ← hchannels]

theorem Bookkeeping.modify (h : s.Bookkeeping) (hindex : (s.channel i).index = .kAdded)
    (events : BitVec 32) : Changes s i ⟨events, .kAdded⟩
      ((s.setEvents i events).update .EPOLL_CTL_MOD i) := by
  obtain ⟨hchannels, hpresent⟩ := h.of_kAdded hindex events
  have hself : (s.setEvents i events).channel i = ⟨events, .kAdded⟩ := by
    simp [setEvents, hindex]
  have hchannel : (s.setEvents i events).channel =
      Function.update s.channel i ⟨events, .kAdded⟩ := by simp [setEvents, hindex]
  rw [update_eq .EPOLL_CTL_MOD hpresent]
  refine ⟨rfl, hchannel, h.change i ⟨events, .kAdded⟩ rfl hchannel ?_ ?_
    fun r hr => mem_concat (x := ⟨.EPOLL_CTL_MOD, _, _⟩) hpresent hr⟩
  · simp [setEvents, ← hchannels]
  · rw [hself]
    simp [setEvents]

end Added

/-- `update` of the channel after a change of `events_`: no assertion fails. -/
theorem Bookkeeping.updateChannel (h : s.Bookkeeping) (i : ι) (events : BitVec 32) :
    ∃ t, (s.setEvents i events).updateChannel i = some t ∧
      Changes s i ⟨events, indexAfter events (s.channel i).index⟩ t := by
  have hchannels : s.channels (s.fd i) = _ := h.channels i
  have hself : (s.setEvents i events).channel i = ⟨events, (s.channel i).index⟩ := by
    simp [setEvents]
  cases hindex : (s.channel i).index with
  | kNew =>
    rw [hindex, if_pos rfl] at hchannels
    refine ⟨_, ?_, h.add i events (by simp [hindex]) _ rfl⟩
    rw [EpollPoller.updateChannel, hself, hindex]
    exact if_pos hchannels
  | kDeleted =>
    rw [hindex, if_neg (by simp)] at hchannels
    refine ⟨_, ?_, h.add i events (by simp [hindex]) s.channels ?_⟩
    · rw [EpollPoller.updateChannel, hself, hindex]
      exact if_pos hchannels
    · rw [← hchannels, Function.update_eq_self]
  | kAdded =>
    rw [hindex, if_neg (by simp)] at hchannels
    rw [EpollPoller.updateChannel, hself, hindex]
    by_cases hnone : PolledChannel.isNoneEvent ⟨events, .kAdded⟩ = true
    · refine ⟨_, (if_pos hchannels).trans (if_pos hnone), ?_⟩
      rw [indexAfter, if_pos hnone]
      exact h.delete hindex events
    · refine ⟨_, (if_pos hchannels).trans (if_neg hnone), ?_⟩
      rw [indexAfter, if_neg hnone]
      exact h.modify hindex events

theorem Bookkeeping.removeChannel (h : s.Bookkeeping) (i : ι) :
    Changes s i ⟨(s.channel i).events, .kNew⟩ (s.removeChannel i) := by
  have hinterest : s.interest (s.fd i) = _ := h.interest i
  simp only [EpollPoller.removeChannel]
  split
  · next hindex =>
    rw [if_pos hindex] at hinterest
    have hpresent : (s.interest (s.fd i)).isSome = true := by simp [hinterest]
    rw [update_eq (s := { s with channels := Function.update s.channels (s.fd i) none })
      .EPOLL_CTL_DEL hpresent]
    exact ⟨rfl, rfl, h.change i ⟨(s.channel i).events, .kNew⟩ rfl rfl rfl rfl
      fun r hr => mem_concat (x := ⟨.EPOLL_CTL_DEL, _, _⟩) hpresent hr⟩
  · next hindex =>
    rw [if_neg hindex] at hinterest
    refine ⟨rfl, rfl, h.change i ⟨(s.channel i).events, .kNew⟩ rfl rfl rfl ?_ fun r hr => .inl hr⟩
    simp [setIndex, ← hinterest]

def view (s : EpollPoller ι) (i : ι) : Channel where
  events := (s.channel i).events
  revents := 0
  index := (s.channel i).index
  tied := false
  interest := s.interest (s.fd i)

def Op.apply : Op → Channel → Channel
  | .enableReading => Channel.enableReading
  | .disableReading => Channel.disableReading
  | .enableWriting => Channel.enableWriting
  | .disableWriting => Channel.disableWriting
  | .disableAll => Channel.disableAll
  | .remove => Channel.remove

omit [DecidableEq ι] in
theorem Bookkeeping.view_eq (h : s.Bookkeeping) (i : ι) :
    s.view i = ⟨(s.channel i).events, 0, (s.channel i).index, false,
      if (s.channel i).index = .kAdded then some (s.channel i).events else none⟩ := by
  rw [view, h.interest i]

/-- Every call does to its channel what it does to a channel that is alone in its poller, and
nothing to the others. -/
theorem step_spec (h : s.Bookkeeping) (i : ι) (op : Op) (hl : RemovesIdle s (i, op)) :
    ∃ t, step s (i, op) = some t ∧ t.Bookkeeping ∧ t.view i = op.apply (s.view i) ∧
      ∀ j, j ≠ i → t.view j = s.view j := by
  have hothers : ∀ c t, Changes s i c t → ∀ j, j ≠ i → t.view j = s.view j := by
    intro c t ht j hj
    rw [ht.bookkeeping.view_eq, h.view_eq, ht.channel, Function.update_of_ne hj]
  have hself : ∀ c t, Changes s i c t → t.view i =
      ⟨c.events, 0, c.index, false, if c.index = .kAdded then some c.events else none⟩ := by
    intro c t ht
    rw [ht.bookkeeping.view_eq, ht.channel, Function.update_self]
  have hupdate : ∀ events, ⟨events, 0, indexAfter events (s.channel i).index, false,
      if indexAfter events (s.channel i).index = .kAdded then some events else none⟩ =
        Channel.updateChannel { s.view i with events := events } := by
    intro events
    rw [h.view_eq]
    cases (s.channel i).index with
    | kNew => rfl
    | kDeleted => rfl
    | kAdded =>
      by_cases hnone : events = Channel.kNoneEvent <;>
        simp [indexAfter, Channel.updateChannel, PolledChannel.isNoneEvent, Channel.isNoneEvent,
          hnone]
  cases op with
  | remove =>
    have ht := h.removeChannel i
    refine ⟨_, if_pos hl, ht.bookkeeping, ?_, hothers _ _ ht⟩
    rw [hself _ _ ht, h.view_eq]
    simp [Op.apply, Channel.remove, Channel.removeChannel]
  | _ =>
    obtain ⟨t, hstep, ht⟩ := h.updateChannel i (eventsOf (s.channel i).events _)
    exact ⟨t, hstep, ht.bookkeeping, (hself _ _ ht).trans (hupdate _), hothers _ _ ht⟩

/-- In every order of the calls, with `remove` for channels without events only, no assertion
fails and the three copies of the state agree. -/
theorem run_bookkeeping (fd : ι ↪ Int) {ls : List (ι × Op)}
    (h : Along step RemovesIdle (new fd) ls) :
    ∃ s, run step (new fd) ls = some s ∧ s.Bookkeeping := by
  refine exists_run_along (fun hI l hl => ?_) (bookkeeping_new fd) h
  obtain ⟨t, hstep, ht, -⟩ := step_spec hI l.1 l.2 hl
  exact ⟨t, hstep, ht⟩

def twoChannels : List (Bool × Op) :=
  [(true, .enableReading), (true, .disableAll), (true, .disableAll), (true, .enableWriting),
    (false, .disableAll), (true, .disableWriting), (true, .remove), (false, .remove)]

def twoFds : Bool ↪ Int := ⟨fun b => if b then 5 else 7, by decide⟩

theorem run_bookkeeping_twoChannels :
    ∃ s, run step (new twoFds) twoChannels = some s ∧ s.Bookkeeping :=
  run_bookkeeping twoFds (by decide)

end EpollPoller

end WebServer.Mymuduo
