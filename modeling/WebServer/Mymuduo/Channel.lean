import Mathlib.Data.BitVec
import Mathlib.Tactic.SplitIfs

namespace WebServer.Mymuduo

def EPOLLIN : BitVec 32 := 1
def EPOLLPRI : BitVec 32 := 2
def EPOLLOUT : BitVec 32 := 4
def EPOLLERR : BitVec 32 := 8
def EPOLLHUP : BitVec 32 := 16

inductive PollerIndex where
  | kNew | kAdded | kDeleted
  deriving DecidableEq

/-- `interest` is the mask under which epoll watches the descriptor, if it does. -/
structure Channel where
  events : BitVec 32
  revents : BitVec 32
  index : PollerIndex
  tied : Bool
  interest : Option (BitVec 32)
  deriving DecidableEq

inductive EventCallback where
  | closeCallback | errorCallback | readCallback | writeCallback
  deriving DecidableEq

namespace Channel

def kNoneEvent : BitVec 32 := 0
def kReadEvent : BitVec 32 := EPOLLIN ||| EPOLLPRI
def kWriteEvent : BitVec 32 := EPOLLOUT

def new : Channel where
  events := 0
  revents := 0
  index := .kNew
  tied := false
  interest := none

def isNoneEvent (c : Channel) : Bool := c.events = kNoneEvent
def isWriting (c : Channel) : Bool := c.events &&& kWriteEvent ≠ 0

/-- `EpollPoller::updateChannel`: `EPOLL_CTL_ADD`, `EPOLL_CTL_DEL` or `EPOLL_CTL_MOD`. -/
def updateChannel (c : Channel) : Channel :=
  match c.index with
  | .kNew | .kDeleted => { c with index := .kAdded, interest := some c.events }
  | .kAdded =>
    if c.isNoneEvent then { c with index := .kDeleted, interest := none }
    else { c with interest := some c.events }

def removeChannel (c : Channel) : Channel :=
  { c with index := .kNew, interest := if c.index = .kAdded then none else c.interest }

def enableReading (c : Channel) : Channel :=
  updateChannel { c with events := c.events ||| kReadEvent }

def disableReading (c : Channel) : Channel :=
  updateChannel { c with events := c.events &&& ~~~kReadEvent }

def enableWriting (c : Channel) : Channel :=
  updateChannel { c with events := c.events ||| kWriteEvent }

def disableWriting (c : Channel) : Channel :=
  updateChannel { c with events := c.events &&& ~~~kWriteEvent }

def disableAll (c : Channel) : Channel := updateChannel { c with events := c.events &&& kNoneEvent }

def tie (c : Channel) : Channel := { c with tied := true }

/-- `remove`, when its assertion `isNoneEvent()` holds or is compiled out. -/
def remove (c : Channel) : Channel := c.removeChannel

/-- The callbacks that `handleEventWithGuard` calls for `revents_`, in order. -/
def handleEventWithGuard (revents : BitVec 32) : List EventCallback :=
  (if revents &&& EPOLLHUP ≠ 0 ∧ revents &&& EPOLLIN = 0 then [.closeCallback] else []) ++
  (if revents &&& EPOLLERR ≠ 0 then [.errorCallback] else []) ++
  (if revents &&& (EPOLLIN ||| EPOLLPRI) ≠ 0 then [.readCallback] else []) ++
  (if revents &&& EPOLLOUT ≠ 0 then [.writeCallback] else [])

@[simp] theorem updateChannel_events (c : Channel) : c.updateChannel.events = c.events := by
  simp only [updateChannel]
  split
  · rfl
  · rfl
  · split <;> rfl

@[simp] theorem enableReading_events (c : Channel) :
    c.enableReading.events = c.events ||| kReadEvent := by simp [enableReading]

@[simp] theorem enableWriting_events (c : Channel) :
    c.enableWriting.events = c.events ||| kWriteEvent := by simp [enableWriting]

@[simp] theorem disableWriting_events (c : Channel) :
    c.disableWriting.events = c.events &&& ~~~kWriteEvent := by simp [disableWriting]

@[simp] theorem disableAll_events (c : Channel) : c.disableAll.events = 0 := by
  simp [disableAll, kNoneEvent]

@[simp] theorem remove_events (c : Channel) : c.remove.events = c.events := rfl

theorem isWriting_iff (c : Channel) : c.isWriting = true ↔ c.events.getLsbD 2 = true := by
  rw [isWriting, decide_eq_true_iff, kWriteEvent, EPOLLOUT,
    show (4 : BitVec 32) = BitVec.twoPow 32 2 from rfl, BitVec.and_twoPow]
  split
  · next h => exact ⟨fun _ => h, fun _ => by decide⟩
  · next h => exact ⟨fun hne => absurd rfl hne, fun hbit => absurd hbit h⟩

@[simp] theorem isWriting_enableWriting (c : Channel) : c.enableWriting.isWriting = true := by
  rw [isWriting_iff]
  simp [kWriteEvent, EPOLLOUT]

@[simp] theorem isWriting_disableWriting (c : Channel) : c.disableWriting.isWriting = false := by
  simp [isWriting, kWriteEvent, EPOLLOUT, BitVec.and_assoc]

@[simp] theorem isWriting_disableAll (c : Channel) : c.disableAll.isWriting = false := by
  simp [isWriting]

@[simp] theorem isWriting_enableReading (c : Channel) :
    c.enableReading.isWriting = c.isWriting := by
  rw [Bool.eq_iff_iff, isWriting_iff, isWriting_iff]
  simp [kReadEvent, EPOLLIN, EPOLLPRI]

@[simp] theorem isWriting_remove (c : Channel) : c.remove.isWriting = c.isWriting := rfl

@[simp] theorem updateChannel_revents (c : Channel) : c.updateChannel.revents = c.revents := by
  simp only [updateChannel]
  split
  · rfl
  · rfl
  · split <;> rfl

@[simp] theorem disableAll_revents (c : Channel) : c.disableAll.revents = c.revents := by
  simp [disableAll]

/-- Only `closeCallback_` is called for a hang-up that comes without anything to read. -/
def hungUp (revents : BitVec 32) : Bool := revents &&& EPOLLHUP ≠ 0 ∧ revents &&& EPOLLIN = 0

structure Watching (c : Channel) : Prop where
  index : c.index = .kAdded
  events : c.events = kReadEvent ∨ c.events = kReadEvent ||| kWriteEvent

theorem watching_new : new.tie.enableReading.Watching := ⟨rfl, .inl rfl⟩

variable {c : Channel}

theorem updateChannel_kAdded (h : c.index = .kAdded) :
    c.updateChannel =
      if c.isNoneEvent then { c with index := .kDeleted, interest := none }
      else { c with interest := some c.events } := by
  simp only [updateChannel, h]

theorem watching_updateChannel {events : BitVec 32} (h : c.Watching)
    (hevents : events = kReadEvent ∨ events = kReadEvent ||| kWriteEvent) :
    (updateChannel { c with events := events }).Watching := by
  refine ⟨?_, by simpa using hevents⟩
  have hne : isNoneEvent { c with events := events } = false := by
    rcases hevents with rfl | rfl <;> rfl
  have hindex : { c with events := events }.index = .kAdded := h.index
  rw [updateChannel_kAdded hindex, hne]
  exact h.index

theorem watching_enableWriting (h : c.Watching) : c.enableWriting.Watching := by
  apply watching_updateChannel h
  rcases h.events with h | h <;> rw [h] <;> decide

theorem watching_disableWriting (h : c.Watching) : c.disableWriting.Watching := by
  apply watching_updateChannel h
  rcases h.events with h | h <;> rw [h] <;> decide

theorem interest_disableAll (h : c.Watching) : c.disableAll.interest = none := by
  have hnone : isNoneEvent { c with events := c.events &&& kNoneEvent } = true := by
    simp [isNoneEvent, kNoneEvent]
  have hindex : { c with events := c.events &&& kNoneEvent }.index = .kAdded := h.index
  rw [disableAll, updateChannel_kAdded hindex, hnone]
  rfl

theorem interest_remove (h : c.interest = none) : c.remove.interest = none := by
  simp [remove, removeChannel, h]

theorem nodup_handleEventWithGuard (revents : BitVec 32) :
    (handleEventWithGuard revents).Nodup := by
  simp only [handleEventWithGuard]
  split_ifs <;> decide

theorem closeCallback_mem_iff (revents : BitVec 32) :
    .closeCallback ∈ handleEventWithGuard revents ↔ hungUp revents = true := by
  by_cases h : revents &&& EPOLLHUP ≠ 0 ∧ revents &&& EPOLLIN = 0
  · rw [handleEventWithGuard, if_pos h]
    exact iff_of_true (by simp) (decide_eq_true h)
  · rw [handleEventWithGuard, if_neg h]
    refine iff_of_false ?_ (by simpa only [hungUp, decide_eq_true_eq] using h)
    split_ifs <;> decide

theorem closeCallback_notMem_tail (revents : BitVec 32) :
    .closeCallback ∉ (handleEventWithGuard revents).tail := by
  simp only [handleEventWithGuard]
  split_ifs <;> decide

end Channel

end WebServer.Mymuduo
