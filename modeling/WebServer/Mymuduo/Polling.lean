import WebServer.Mymuduo.Bytes
import WebServer.Mymuduo.EpollPoller

/-! A loop around its poller: what `epoll_wait` reports comes to the channels by way of the map of
descriptors, and the channels change between the reports. -/

universe u

namespace WebServer.Mymuduo

open WebServer.Lib

structure EpollEvent where
  fd : Int
  events : BitVec 32
  deriving DecidableEq

variable {ι : Type u}

/-- `size` is `events_.size()`.  `reported` is what `epoll_wait` has given so far, the last time
`numEvents` of it; `handled` has the calls of `handleEvent` with the `revents_` of the channel. -/
structure PollLoop (ι : Type u) where
  poller : EpollPoller ι
  revents : ι → BitVec 32
  size : Nat
  activeChannels : List ι
  numEvents : Nat
  reported : List EpollEvent
  handled : List (ι × BitVec 32)

namespace PollLoop

def kInitEventListSize : Nat := 16

def new (fd : ι ↪ Int) : PollLoop ι where
  poller := .new fd
  revents _ := 0
  size := kInitEventListSize
  activeChannels := []
  numEvents := 0
  reported := []
  handled := []

variable [DecidableEq ι]

def fillActiveChannels (s : PollLoop ι) (events : List EpollEvent) : PollLoop ι :=
  events.foldl (fun s e =>
    match s.poller.channels e.fd with
    | none => s
    | some i =>
      { s with
        revents := Function.update s.revents i e.events
        activeChannels := s.activeChannels ++ [i] }) s

/-- `none` when the assertion of `fillActiveChannels` fails. -/
def poll (s : PollLoop ι) : Except Errno (List EpollEvent) → Option (PollLoop ι)
  | .ok [] | .error _ => some { s with activeChannels := [], numEvents := 0 }
  | .ok (e :: events) =>
    let numEvents := (e :: events).length
    if numEvents ≤ s.size then
      let t := fillActiveChannels { s with activeChannels := [] } (e :: events)
      some { t with
        size := if numEvents = s.size then s.size * 2 else s.size
        numEvents := numEvents
        reported := s.reported ++ e :: events }
    else none

inductive Label (ι : Type u) where
  | poll (result : Except Errno (List EpollEvent))
  /-- The next channel of `activeChannels_`. -/
  | handleEvent
  /-- A callback or a functor calls a function of a channel. -/
  | call (i : ι) (op : EpollPoller.Op)

/-- `none` when an assertion fails or there is no active channel. -/
def step (s : PollLoop ι) : Label ι → Option (PollLoop ι)
  | .poll result => s.poll result
  | .handleEvent =>
    match s.activeChannels with
    | [] => none
    | i :: rest => some { s with
        activeChannels := rest
        handled := s.handled ++ [(i, s.revents i)] }
  | .call i op => (s.poller.step (i, op)).map fun poller => { s with poller := poller }

/-- `epoll_wait` fills no more than `events_`, with descriptors that it watches, and is called when
all active channels have been handled; `remove` is for channels without events. -/
def Allowed (s : PollLoop ι) : Label ι → Prop
  | .poll (.ok events) => s.activeChannels = [] ∧ events.length ≤ s.size ∧
      (events.map EpollEvent.fd).Nodup ∧ ∀ e ∈ events, (s.poller.interest e.fd).isSome = true
  | .poll (.error _) => s.activeChannels = []
  | .handleEvent => s.activeChannels ≠ []
  | .call i op => EpollPoller.RemovesIdle s.poller (i, op)

instance (s : PollLoop ι) : DecidablePred s.Allowed
  | .poll (.ok _) => inferInstanceAs (Decidable (_ ∧ _))
  | .poll (.error _) => inferInstanceAs (Decidable (_ = _))
  | .handleEvent => inferInstanceAs (Decidable (¬ _))
  | .call i op => inferInstanceAs (Decidable (EpollPoller.RemovesIdle s.poller (i, op)))

variable {s t : PollLoop ι}

omit [DecidableEq ι] in
theorem channels_of_watched (h : s.poller.Bookkeeping) {n : Int}
    (hn : (s.poller.interest n).isSome = true) :
    ∃ i, s.poller.fd i = n ∧ s.poller.channels n = some i := by
  by_cases hex : ∃ i, s.poller.fd i = n
  · obtain ⟨i, rfl⟩ := hex
    rw [h.interest i] at hn
    split at hn
    · next hindex =>
      refine ⟨i, rfl, ?_⟩
      rw [h.channels i, hindex, if_neg (by simp)]
    · cases hn
  · have hnone := (h.others n (fun i hi => hex ⟨i, hi⟩)).2
    simp [hnone] at hn

def event (fd : ι → Int) (c : ι × BitVec 32) : EpollEvent := ⟨fd c.1, c.2⟩

def active (s : PollLoop ι) : List (ι × BitVec 32) :=
  s.activeChannels.map fun i => (i, s.revents i)

theorem fillActiveChannels_spec (h : s.poller.Bookkeeping) {events : List EpollEvent}
    (hnodup : (events.map EpollEvent.fd).Nodup)
    (hwatched : ∀ e ∈ events, (s.poller.interest e.fd).isSome = true)
    (hactive : ∀ i ∈ s.activeChannels, s.poller.fd i ∉ events.map EpollEvent.fd) :
    let t := s.fillActiveChannels events
    t.poller = s.poller ∧ t.handled = s.handled ∧
      t.active.map (event s.poller.fd) = s.active.map (event s.poller.fd) ++ events := by
  induction events generalizing s with
  | nil => simp [fillActiveChannels]
  | cons e es ih =>
    obtain ⟨i, hfd, hchannel⟩ := channels_of_watched h (hwatched e List.mem_cons_self)
    obtain ⟨hnotMem, hnodup⟩ := List.nodup_cons.mp hnodup
    have hstep : s.fillActiveChannels (e :: es) = fillActiveChannels { s with
        revents := Function.update s.revents i e.events
        activeChannels := s.activeChannels ++ [i] } es := by
      simp only [fillActiveChannels, List.foldl_cons, hchannel]
    have hold : ∀ j ∈ s.activeChannels, j ≠ i := by
      rintro j hj rfl
      exact hactive j hj (by simp [hfd])
    obtain ⟨hpoller, hhandled, heq⟩ := ih (s := { s with
        revents := Function.update s.revents i e.events
        activeChannels := s.activeChannels ++ [i] }) h hnodup
      (fun e' he' => hwatched e' (List.mem_cons_of_mem _ he')) (by
        intro j hj
        rcases List.mem_append.mp hj with hj | hj
        · exact fun hmem => hactive j hj (List.mem_cons_of_mem _ hmem)
        · rw [List.mem_singleton.mp hj, hfd]
          exact hnotMem)
    simp only [hstep]
    refine ⟨hpoller, hhandled, heq.trans ?_⟩
    have hsame : s.activeChannels.map (fun j => (j, Function.update s.revents i e.events j)) =
        s.active := List.map_congr_left fun j hj => by rw [Function.update_of_ne (hold j hj)]
    simp [active, event, hsame, hfd]

/-- What was handled and what is still to be handled is what was reported, in order, and there is
room in `events_` for more than the last report. -/
structure Delivers (fd : ι ↪ Int) (s : PollLoop ι) : Prop where
  fds : s.poller.fd = fd
  bookkeeping : s.poller.Bookkeeping
  events : (s.handled ++ s.active).map (event fd) = s.reported
  size : kInitEventListSize ≤ s.size
  room : s.numEvents < s.size

omit [DecidableEq ι] in
theorem delivers_new (fd : ι ↪ Int) : (new fd).Delivers fd where
  fds := rfl
  bookkeeping := EpollPoller.bookkeeping_new fd
  events := rfl
  size := Nat.le_refl _
  room := Nat.succ_pos 15

variable {fd : ι ↪ Int}

theorem Delivers.poll (hs : s.Delivers fd) {result : Except Errno (List EpollEvent)}
    (hl : s.Allowed (.poll result)) : ∃ t, s.poll result = some t ∧ t.Delivers fd := by
  have hpos : 0 < s.size := Nat.lt_of_lt_of_le (by decide) hs.size
  have hdone : s.activeChannels = [] := by
    cases result with
    | ok events => exact hl.1
    | error e => exact hl
  have hevents : s.handled.map (event fd) = s.reported := by
    simpa [active, hdone] using hs.events
  have hquiet : Delivers fd { s with activeChannels := [], numEvents := 0 } :=
    { hs with
      events := by simpa [active] using hevents
      room := hpos }
  match result with
  | .error _ | .ok [] => exact ⟨_, rfl, hquiet⟩
  | .ok (e :: es) =>
    obtain ⟨-, hlen, hnodup, hwatched⟩ := hl
    refine ⟨_, if_pos hlen, ?_⟩
    obtain ⟨hpoller, hhandled, hactive⟩ := fillActiveChannels_spec
      (s := { s with activeChannels := [] }) hs.bookkeeping hnodup hwatched (by simp)
    refine ⟨?_, ?_, ?_, ?_, ?_⟩
    · exact (congrArg EpollPoller.fd hpoller).trans hs.fds
    · simpa only [hpoller] using hs.bookkeeping
    · simp only [active] at hactive ⊢
      rw [hs.fds] at hactive
      rw [hhandled, List.map_append, hevents, hactive]
      rfl
    · have := hs.size
      dsimp only
      split <;> omega
    · dsimp only
      split <;> omega

theorem fd_updateChannel {s t : EpollPoller ι} {i : ι} (h : s.updateChannel i = some t) :
    t.fd = s.fd := by
  simp only [EpollPoller.updateChannel] at h
  split at h
  · obtain ⟨-, h⟩ := Option.ite_none_right_eq_some.mp h
    exact Option.some.inj h ▸ rfl
  · obtain ⟨-, h⟩ := Option.ite_none_right_eq_some.mp h
    exact Option.some.inj h ▸ rfl
  · obtain ⟨-, h⟩ := Option.ite_none_right_eq_some.mp h
    split at h
    · exact Option.some.inj h ▸ rfl
    · exact Option.some.inj h ▸ rfl

theorem fd_step {s t : EpollPoller ι} {l : ι × EpollPoller.Op} (h : EpollPoller.step s l = some t) :
    t.fd = s.fd := by
  obtain ⟨i, op⟩ := l
  cases op with
  | remove =>
    simp only [EpollPoller.step, Option.ite_none_right_eq_some, Option.some.injEq] at h
    obtain ⟨-, rfl⟩ := h
    simp only [EpollPoller.removeChannel]
    split <;> rfl
  | _ => exact fd_updateChannel (s := s.setEvents i _) h

theorem Delivers.call (hs : s.Delivers fd) {i : ι} {op : EpollPoller.Op}
    (hl : EpollPoller.RemovesIdle s.poller (i, op)) :
    ∃ t, PollLoop.step s (.call i op) = some t ∧ t.Delivers fd := by
  obtain ⟨poller, hstep, hbooks, -, -⟩ := EpollPoller.step_spec hs.bookkeeping i op hl
  refine ⟨{ s with poller := poller }, by simp [PollLoop.step, hstep], ?_⟩
  exact { hs with
    fds := (fd_step hstep).trans hs.fds
    bookkeeping := hbooks }

theorem Delivers.handleEvent (hs : s.Delivers fd) (hne : s.activeChannels ≠ []) :
    ∃ t, PollLoop.step s .handleEvent = some t ∧ t.Delivers fd := by
  obtain ⟨i, rest, hactive⟩ := List.exists_cons_of_ne_nil hne
  refine ⟨{ s with
    activeChannels := rest
    handled := s.handled ++ [(i, s.revents i)] }, by simp [PollLoop.step, hactive], ?_⟩
  refine { hs with events := ?_ }
  have hevents := hs.events
  simp only [active, hactive] at hevents
  simpa [active] using hevents

theorem Delivers.step (hs : s.Delivers fd) (l : Label ι) (hl : s.Allowed l) :
    ∃ t, PollLoop.step s l = some t ∧ t.Delivers fd := by
  cases l with
  | poll result => exact hs.poll hl
  | handleEvent => exact hs.handleEvent hl
  | call i op => exact hs.call hl

/-- Whatever the channels do between the reports, no assertion fails, and every event that
`epoll_wait` reports is handed to the channel of its descriptor, once and in order. -/
theorem run_delivers (fd : ι ↪ Int) {ls : List (Label ι)}
    (h : Along PollLoop.step Allowed (new fd) ls) : ∃ s, run PollLoop.step (new fd) ls = some s ∧
      s.handled.map (event fd) ++ s.active.map (event fd) = s.reported ∧
      s.numEvents < s.size := by
  obtain ⟨s, hs, hinv⟩ := exists_run_along (fun hI l hl => hI.step l hl) (delivers_new fd) h
  exact ⟨s, hs, List.map_append ▸ hinv.events, hinv.room⟩

def twoReady : List (Label Bool) :=
  [.call true .enableReading, .call false .enableReading,
    .poll (.ok [⟨7, EPOLLIN⟩, ⟨5, EPOLLIN ||| EPOLLHUP⟩]), .handleEvent, .call true .disableAll,
    .handleEvent, .poll (.error (.other 4)), .call true .remove, .poll (.ok [⟨7, EPOLLIN⟩])]

theorem run_delivers_twoReady : ∃ s, run PollLoop.step (new EpollPoller.twoFds) twoReady = some s ∧
    s.handled.map (event EpollPoller.twoFds) ++ s.active.map (event EpollPoller.twoFds) =
      s.reported ∧ s.numEvents < s.size :=
  run_delivers EpollPoller.twoFds (by decide +kernel)

end PollLoop

end WebServer.Mymuduo
