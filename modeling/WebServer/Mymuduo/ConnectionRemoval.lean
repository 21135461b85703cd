import WebServer.Mymuduo.Sockets

namespace WebServer.Mymuduo

open WebServer.Lib

namespace EventLoop

variable {β : Type} {p : β → Bool} {l m : EventLoop β}

inductive Turn (l : EventLoop β) : Option β → Bool → EventLoop β → Prop where
  | queue {m : EventLoop β} (h : Extends l m) : Turn l none false m
  | swapFunctors (calling : l.callingPendingFunctors = false) : Turn l none false l.swapFunctors
  | call {f : β} {m m' : EventLoop β} (taken : l.nextFunctor = some (f, m)) (h : Extends m m') :
    Turn l (some f) false m'
  | endFunctors (calling : l.callingPendingFunctors = true) (functors : l.functors = []) :
    Turn l none true l.endFunctors

/-- The rounds that can end before a waiting functor of `p` is called: that of a batch without
one, and that of the next batch. -/
def roundsLeft (p : β → Bool) (l : EventLoop β) : Nat :=
  if l.callingPendingFunctors = true ∧ l.functors.any p = false then 2 else 1

theorem roundsLeft_pos (p : β → Bool) (l : EventLoop β) : 1 ≤ l.roundsLeft p := by
  rw [roundsLeft]
  split <;> omega

theorem roundsLeft_le (p : β → Bool) (l : EventLoop β) : l.roundsLeft p ≤ 2 := by
  rw [roundsLeft]
  split <;> omega

theorem Turn.roundsLeft {called : Option β} {ends : Bool} (h : Turn l called ends m)
    (hwaiting : l.waiting.any p = true) (hcalled : ∀ f ∈ called, p f = false) :
    m.roundsLeft p + (if ends then 1 else 0) ≤ l.roundsLeft p := by
  cases h with
  | queue hm =>
    rw [EventLoop.roundsLeft, EventLoop.roundsLeft, hm.calling, hm.functors]
    exact Nat.le_refl _
  | swapFunctors hcalling =>
    have hpending : l.pendingFunctors.any p = true := by
      simpa [waiting, (l.noBatch hcalling).1] using hwaiting
    have hone : l.swapFunctors.roundsLeft p = 1 := by
      simp [EventLoop.roundsLeft, EventLoop.swapFunctors, hpending]
    rw [hone]
    exact l.roundsLeft_pos p
  | call htaken hm =>
    obtain ⟨hfunctors, -, -, hcalling⟩ := nextFunctor_spec htaken
    rw [EventLoop.roundsLeft, EventLoop.roundsLeft, hm.calling, hm.functors, hcalling, hfunctors,
      List.any_cons, hcalled _ rfl, Bool.false_or]
    exact Nat.le_refl _
  | endFunctors hcalling hfunctors =>
    have htwo : l.roundsLeft p = 2 := by simp [EventLoop.roundsLeft, hcalling, hfunctors]
    have hone : l.endFunctors.roundsLeft p = 1 := by
      simp [EventLoop.roundsLeft, EventLoop.endFunctors]
    rw [hone, htwo]
    exact Nat.le_refl 2

end EventLoop

namespace TcpServer

variable {s t : TcpServer} {l : Label}

def Label.endsIo : Label → Bool
  | .endFunctors => true
  | _ => false

def Label.endsBase : Label → Bool
  | .baseEnd => true
  | _ => false

theorem baseTurn_of_step (h : step s l = some t) (hrun : l ≠ .baseRun) :
    s.base.Turn none l.endsBase t.base := by
  obtain ⟨hen, rfl⟩ := step_eq_some.mp h
  cases l with
  | baseRun => exact absurd rfl hrun
  | baseSwap => exact .swapFunctors (notCalling_of_baseSwap hen)
  | baseEnd =>
    simp only [enabled, Bool.and_eq_true, List.isEmpty_iff] at hen
    exact .endFunctors hen.1 hen.2
  | act io => exact .queue (local_act hen).base
  | runFunctor io =>
    obtain ⟨f, m, -, hfit, heq⟩ := runFunctor_cases hen
    rw [heq]
    exact .queue (local_runFunctor (s := s.setLoop m) hfit).base
  | destroyServer => exact .queue (Server.local_destroy s).base
  | poll _ | handleEvent | swapFunctors | endFunctors | newString _ _ | overwrite _ _
  | release _ => exact .queue (.refl _)
  | _ => exact .queue (local_user rfl hen).1.base

theorem ioTurn_of_step (h : step s l = some t) : ∃ called,
    s.conn.loop.Turn called l.endsIo t.conn.loop ∧
      (called = some .connectDestroyed → s.runsConnectDestroyed l = true) := by
  obtain ⟨hen, rfl⟩ := step_eq_some.mp h
  cases l with
  | swapFunctors => exact ⟨none, .swapFunctors (notCalling_of_swapFunctors hen), nofun⟩
  | endFunctors =>
    simp only [enabled, Bool.and_eq_true, List.isEmpty_iff] at hen
    exact ⟨none, .endFunctors hen.1 hen.2, nofun⟩
  | runFunctor io =>
    obtain ⟨f, m, hnext, hfit, heq⟩ := runFunctor_cases hen
    rw [heq]
    refine ⟨some f, .call hnext (local_runFunctor (s := s.setLoop m) hfit).loop, fun hf => ?_⟩
    simp [runsConnectDestroyed, (EventLoop.nextFunctor_spec hnext).1, hf]
  | baseRun =>
    obtain ⟨m, -, heq⟩ := baseRun_cases hen
    rw [heq]
    exact ⟨none, .queue (local_removeConnectionInLoop { s with base := m }).loop, nofun⟩
  | act io => exact ⟨none, .queue (local_act hen).loop, nofun⟩
  | destroyServer => exact ⟨none, .queue (Server.local_destroy s).loop, nofun⟩
  | poll _ | handleEvent | baseSwap | baseEnd | newString _ _ | overwrite _ _ | release _ =>
    exact ⟨none, .queue (.refl _), nofun⟩
  | _ => exact ⟨none, .queue (local_user rfl hen).1.loop, nofun⟩

structure Collected (s : TcpServer) : Prop extends Watched s where
  destroying : s.inMap = false → .connectDestroyed ∈ s.conn.loop.waiting ∨ s.Unregistered

theorem inMap_or_destroying (hl : l ≠ .destroyServer) (h : step s l = some t) :
    t.inMap = s.inMap ∨ .connectDestroyed ∈ t.conn.loop.waiting := by
  obtain ⟨hen, rfl⟩ := step_eq_some.mp h
  cases l with
  | act io =>
    obtain ⟨a, rest, -, heq⟩ := act_cases hen
    rw [heq]
    by_cases ha : a = .closeCallback
    · subst ha
      simp only [act, removeConenction]
      split
      · exact .inr (by simp [removeConnectionInLoop, queueInLoop, setLoop])
      · exact .inl rfl
    · rw [s.act_eq rest io ha]
      exact .inl rfl
  | baseRun =>
    obtain ⟨m, -, heq⟩ := baseRun_cases hen
    rw [heq]
    exact .inr (by simp [removeConnectionInLoop, queueInLoop, setLoop])
  | runFunctor io =>
    obtain ⟨f, m, -, -, heq⟩ := runFunctor_cases hen
    rw [heq, runFunctor_eq]
    exact .inl rfl
  | destroyServer => exact absurd rfl hl
  | poll _ | handleEvent => exact .inl rfl
  | _ => exact .inl (service_next hen rfl).inMap

theorem destroying_step (h : step s l = some t)
    (hmem : .connectDestroyed ∈ s.conn.loop.waiting) :
    .connectDestroyed ∈ t.conn.loop.waiting ∨ s.runsConnectDestroyed l = true := by
  obtain ⟨fs, hwaiting, -⟩ := waiting_of_step h
  rw [hwaiting, List.mem_append]
  cases l with
  | runFunctor io =>
    obtain ⟨f, m, hnext, -, -⟩ := runFunctor_cases (step_eq_some.mp h).1
    rw [EventLoop.waiting_nextFunctor hnext] at hmem
    rcases List.mem_cons.mp hmem with hf | htail
    · right
      simp [runsConnectDestroyed, (EventLoop.nextFunctor_spec hnext).1, ← hf]
    · refine .inl (.inl ?_)
      rwa [remaining, EventLoop.waiting_nextFunctor hnext, List.tail_cons]
  | _ => exact .inl (.inl hmem)

theorem Collected.step (hs : s.Collected) (hl : s.Calm l) (h : TcpServer.step s l = some t) :
    t.Collected where
  toWatched := hs.toWatched.step hl h
  destroying hinMap := by
    rcases inMap_or_destroying hl.alive h with hsame | hmem
    · rcases hs.destroying (hsame ▸ hinMap) with hmem | hu
      · exact (destroying_step h hmem).imp_right
          (hs.toRegistered.unregistered_of_runs hl h)
      · exact .inr (hs.toRegistered.unregistered_step hu hl h)
    · exact .inl hmem

def HandedOver (s : TcpServer) : Prop := s.inMap = false ∨ s.base.waiting ≠ []

theorem HandedOver.closing (h : s.HandedOver) : s.Closing := h.imp_right .inl

theorem HandedOver.step (h : s.HandedOver) (hs : s.Registered) (hl : l ≠ .destroyServer)
    (ht : TcpServer.step s l = some t) (ht' : t.Registered) : t.HandedOver := by
  rcases inMap_or_destroying hl ht with hsame | hmem
  · rcases h with hinMap | hbase
    · exact .inl (hsame.trans hinMap)
    · cases ownerStep_of_step hl ht with
      | service hservice => exact .inr (hservice.base ▸ hbase)
      | poll howners _ _ _ | handleEvent howners _ _ _ | handleClose howners _ _ _ _ _ _ =>
        exact .inr (howners.base ▸ hbase)
      | closeCallback _ howned _ _ => exact howned.elim .inr fun hmem => .inl (ht'.removed hmem)
      | connectEstablished hwaiting => exact absurd hwaiting hs.established.once
      | connectDestroyed _ _ heq _ _ => exact .inr (heq ▸ hbase)
      | baseRun _ _ _ _ hinMap => exact .inl hinMap
  · exact .inl (ht'.removed hmem)

end TcpServer

namespace Server

open TcpServer

theorem keeps_collected : Keeps Collected where
  start v hv halive :=
    { toWatched := watched_of_started hv halive
      destroying := fun hinMap => by simp [hv.inMap, halive] at hinMap }
  unwoken v hv :=
    { toWatched := keeps_watched.unwoken v hv.toWatched
      destroying := fun hinMap => (hv.destroying hinMap).imp_right fun hu => { hu with } }
  step _ _ _ hv := hv.step

/-- From a connection that has `J`, the steps of `p` lead to `D`, as many as `μ` says. -/
structure Approaches (J D : TcpServer → Prop) (p : TcpServer.Label → Bool) (μ : TcpServer → Nat) :
    Prop where
  unwoken : ∀ v, (J v → J v.unwoken) ∧ (D v → D v.unwoken) ∧ μ v.unwoken = μ v
  keeps : ∀ (v : TcpServer) l u, J v → v.Calm l → TcpServer.step v l = some u →
    J u ∧ (D v → D u)
  nearer : ∀ (v : TcpServer) l u, J v → v.Calm l → TcpServer.step v l = some u →
    D u ∨ μ u + (if p l then 1 else 0) ≤ μ v

theorem approaches_handedOver : Approaches
    (fun v => v.Collected ∧ v.conn.state = .kDisconnected) HandedOver TcpServer.Label.endsIo
    (fun _ => 0) where
  unwoken v := ⟨fun hv => ⟨keeps_collected.unwoken v hv.1, hv.2⟩, id, rfl⟩
  keeps v l u hv hl h :=
    ⟨⟨hv.1.step hl h, hv.1.state_step hl.notLate h hv.2⟩,
      fun hD => hD.step hv.1.toRegistered hl.alive h (hv.1.step hl h).toRegistered⟩
  nearer v l u hv hl h := by
    obtain ⟨hcollected, hclosed⟩ := hv
    cases l with
    | endFunctors =>
      have hen := (TcpServer.step_eq_some.mp h).1
      simp only [TcpServer.enabled, Bool.and_eq_true] at hen
      have hactions := (hcollected.calling hen.1).2
      have hhanded : v.HandedOver := by
        rcases hcollected.leaving hclosed with hc | hc | hc
        · exact .inl hc
        · exact .inr hc
        · simp [hactions] at hc
      exact .inl (hhanded.step hcollected.toRegistered hl.alive h
        (hcollected.step hl h).toRegistered)
    | _ => exact .inr (Nat.le_refl 0)

theorem approaches_removed : Approaches (fun v => v.Collected ∧ v.HandedOver)
    (fun v => v.inMap = false) TcpServer.Label.endsBase
    (fun v => v.base.roundsLeft fun _ => true) where
  unwoken v := ⟨fun hv => ⟨keeps_collected.unwoken v hv.1, hv.2⟩, id, rfl⟩
  keeps v l u hv hl h :=
    ⟨⟨hv.1.step hl h, hv.2.step hv.1.toRegistered hl.alive h (hv.1.step hl h).toRegistered⟩,
      hv.1.inMap_step hl.alive h⟩
  nearer v l u hv hl h := by
    obtain ⟨hcollected, hhanded⟩ := hv
    by_cases hinMap : u.inMap = false
    · exact .inl hinMap
    have hbase : v.base.waiting ≠ [] := hhanded.resolve_left fun hv =>
      hinMap (hcollected.inMap_step hl.alive h hv)
    have hrun : l ≠ .baseRun := by
      rintro rfl
      obtain ⟨hen, rfl⟩ := TcpServer.step_eq_some.mp h
      obtain ⟨m, -, heq⟩ := baseRun_cases hen
      rw [heq] at hinMap
      exact hinMap rfl
    refine .inr ((baseTurn_of_step h hrun).roundsLeft ?_ (by simp))
    obtain ⟨x, hx⟩ := List.exists_mem_of_ne_nil _ hbase
    exact List.any_eq_true.mpr ⟨x, hx, rfl⟩

theorem approaches_unregistered : Approaches (fun v => v.Collected ∧ v.inMap = false)
    Unregistered TcpServer.Label.endsIo
    (fun v => v.conn.loop.roundsLeft fun f => decide (f = .connectDestroyed)) where
  unwoken v := ⟨fun hv => ⟨keeps_collected.unwoken v hv.1, hv.2⟩, fun hu => { hu with }, rfl⟩
  keeps v l u hv hl h :=
    ⟨⟨hv.1.step hl h, hv.1.inMap_step hl.alive h hv.2⟩,
      fun hD => hv.1.toRegistered.unregistered_step hD hl h⟩
  nearer v l u hv hl h := by
    obtain ⟨hcollected, hinMap⟩ := hv
    by_cases hruns : v.runsConnectDestroyed l = true
    · exact .inl (hcollected.toRegistered.unregistered_of_runs hl h hruns)
    rcases hcollected.destroying hinMap with hmem | hu
    · obtain ⟨called, hturn, hcalled⟩ := ioTurn_of_step h
      refine .inr (hturn.roundsLeft (List.any_eq_true.mpr ⟨_, hmem, by simp⟩) ?_)
      rintro f hf
      rw [decide_eq_false_iff_not]
      rintro rfl
      exact hruns (hcalled (Option.mem_def.mp hf))
    · exact .inl (hcollected.toRegistered.unregistered_step hu hl h)

section Runs

variable {n : Nat} {id : Nat} {s t : Server}

structure Traces (n id : Nat) (J : TcpServer → Prop) (s : Server) : Prop where
  sound : s.Sound
  loops : s.RoundRobin n
  created : s.created id = true
  view : s.alive = true → J (s.view id)

variable {J D : TcpServer → Prop} {p : TcpServer.Label → Bool} {μ : TcpServer → Nat}
  {q : Label → Bool}

def Counts (n id : Nat) (q : Label → Bool) (p : TcpServer.Label → Bool) : Prop :=
  ∀ (s : Server) l, s.RoundRobin n → s.created id = true → q l = true →
    ∃ l', s.viewLabel id l = some l' ∧ p l' = true

theorem Approaches.step_view (h : Approaches J D p μ) (hq : Counts n id q p) {l : Label}
    (hs : Traces n id J s) (hl : NotLate s l) (ht : Server.step s l = some t)
    (halive : t.alive = true) : J (t.view id) ∧ (D (s.view id) → D (t.view id)) ∧
      (D (t.view id) ∨ μ (t.view id) + (if q l then 1 else 0) ≤ μ (s.view id)) := by
  have hview := view_step hs.sound ht hs.created
  have hJ := hs.view (alive_step ht halive)
  have hcounts := hq s l hs.loops hs.created
  cases hl' : s.viewLabel id l with
  | none =>
    rw [hl'] at hview hcounts
    have hnot : q l = false := by
      by_contra hne
      obtain ⟨l', heq, -⟩ := hcounts (by simpa using hne)
      cases heq
    rw [show t.view id = s.view id from hview, hnot]
    exact ⟨hJ, fun hD => hD, .inr (Nat.le_refl _)⟩
  | some l' =>
    rw [hl'] at hview hcounts
    obtain ⟨u, hu, heq⟩ := hview
    have halive' : u.alive = true := (congrArg TcpServer.alive heq).symm.trans halive
    have hcalm : (s.view id).Calm l' :=
      ⟨(alive_of_step hu halive').1, by simpa using onEach_spec hl hs.created hl'⟩
    obtain ⟨hkeepJ, hkeepD, hmeasure⟩ := h.unwoken u
    obtain ⟨hJu, hstays⟩ := h.keeps _ _ _ hJ hcalm hu
    rw [heq, hmeasure]
    refine ⟨hkeepJ hJu, fun hD => hkeepD (hstays hD), ?_⟩
    refine (h.nearer _ _ _ hJ hcalm hu).imp hkeepD fun hle => Nat.le_trans ?_ hle
    refine Nat.add_le_add_left ?_ _
    by_cases hql : q l = true
    · obtain ⟨l'', heq', hp⟩ := hcounts hql
      obtain rfl := Option.some.inj heq'
      rw [if_pos hql, if_pos hp]
    · rw [if_neg hql]
      exact Nat.zero_le _

theorem Approaches.run (h : Approaches J D p μ) (hq : Counts n id q p) {ls : List Label}
    (hs : Traces n id J s) (hlate : Along Server.step NotLate s ls)
    (hrun : run Server.step s ls = some t) :
    Traces n id J t ∧ (t.alive = true → D (t.view id) ∨
      ls.countP q + μ (t.view id) ≤ μ (s.view id)) := by
  have hkeep : ∀ s l t, Traces n id J s → NotLate s l → Server.step s l = some t →
      Traces n id J t := fun s l t hs hl ht =>
    { sound := hs.sound.step ht
      loops := hs.loops.step ht
      created := created_of_step hs.sound ht hs.created
      view := fun halive => (h.step_view hq hs hl ht halive).1 }
  refine ⟨invariant_along hkeep hs hlate hrun, fun halive => ?_⟩
  have hgoal := goal_or_countP_add_le (P := NotLate) (p := q) (I := Traces n id J)
    (D := fun u => u.alive = true → D (u.view id)) (μ := fun u => μ (u.view id)) ?_ hs hlate hrun
  · exact hgoal.imp_left fun hD => hD halive
  · intro s l t hs hl ht
    refine ⟨hkeep s l t hs hl ht, fun hD halive => ?_, ?_⟩
    · exact (h.step_view hq hs hl ht halive).2.1 (hD (alive_step ht halive))
    · by_cases halive : t.alive = true
      · exact (h.step_view hq hs hl ht halive).2.2.imp_left fun hD _ => hD
      · exact .inl fun h => absurd h halive

def Label.ends (i : Nat) : Label → Bool
  | .endFunctors j => j = i
  | _ => false

theorem counts_ends_assigned : Counts n id (Label.ends (assigned n id)) TcpServer.Label.endsIo := by
  intro s l hs hid hl
  cases l with
  | endFunctors j =>
    obtain rfl := of_decide_eq_true hl
    exact ⟨.endFunctors, by simp [viewLabel, hs.ioLoop id hid], rfl⟩
  | _ => cases hl

theorem counts_ends_base (hne : assigned n id ≠ 0) :
    Counts n id (Label.ends 0) TcpServer.Label.endsBase := by
  intro s l hs hid hl
  cases l with
  | endFunctors j =>
    obtain rfl := of_decide_eq_true hl
    exact ⟨.baseEnd, by simp [viewLabel, hs.ioLoop id hid, hne], rfl⟩
  | _ => cases hl

theorem removed_of_handedOver (h : (s.view id).HandedOver) (hs : s.RoundRobin n)
    (hid : s.created id = true) (hbase : assigned n id = 0) : (s.view id).inMap = false := by
  refine h.resolve_right fun hne => hne ?_
  have hnew : (s.view id).base = .new := if_pos ((hs.ioLoop id hid).trans hbase)
  rw [hnew]
  rfl

theorem alive_of_run {ls : List Label} (h : Lib.run Server.step s ls = some t)
    (halive : t.alive = true) : s.alive = true := by
  by_contra hne
  have hdead : t.alive = false := by
    refine invariant_run (I := fun u => u.alive = false) ?_ (Bool.eq_false_iff.mpr hne) h
    intro u l v hu hv
    exact Bool.eq_false_iff.mpr fun halive => by simp [alive_step hv halive] at hu
  simp [hdead] at halive

/-- Whatever goes on in the server, a closed connection is out of `connections_` and out of its
poller when its loop has ended a round, the base loop two more, and its loop again two. -/
theorem removed_of_rounds {writeCompleteCallback : Bool} {ls ls₁ ls₂ ls₃ : List Label}
    (hlate : Along Server.step NotLate (new n writeCompleteCallback)
      (ls ++ (ls₁ ++ (ls₂ ++ ls₃))))
    (h : Lib.run Server.step (new n writeCompleteCallback) ls = some s)
    (hid : s.created id = true) (hclosed : (s.connection id).conn.state = .kDisconnected)
    (h' : Lib.run Server.step s (ls₁ ++ (ls₂ ++ ls₃)) = some t) (halive : t.alive = true)
    (h₁ : 1 ≤ ls₁.countP (Label.ends (assigned n id))) (h₂ : 2 ≤ ls₂.countP (Label.ends 0))
    (h₃ : 2 ≤ ls₃.countP (Label.ends (assigned n id))) :
    (t.connection id).inMap = false ∧ (t.connection id).conn.channel.index = .kNew ∧
      (t.connection id).conn.channel.interest = none := by
  obtain ⟨a, ha, hrest⟩ := run_append.mp h'
  obtain ⟨b, hb, ht⟩ := run_append.mp hrest
  have hlate₁ := hlate.later h
  have hlate₂ := hlate₁.later ha
  have hblive := alive_of_run ht halive
  have halive₁ := alive_of_run hb hblive
  have hviews := keeps_collected.views_run (hlate.initial (List.prefix_append _ _)) h
  have hs : Traces n id (fun v => v.Collected ∧ v.conn.state = .kDisconnected) s :=
    { sound := hviews.sound
      loops := roundRobin_of_run h
      created := hid
      view := fun halive => by
        refine ⟨(hviews.view id hid halive).resolve_left fun hv => ?_, hclosed⟩
        have hconnecting : (s.connection id).conn.state = .kConnecting := hv.state
        simp [hclosed] at hconnecting }
  -- the loop of the connection calls `closeCallback_`
  obtain ⟨hclosedA, hgoalA⟩ := approaches_handedOver.run counts_ends_assigned hs
    (hlate₁.initial (List.prefix_append _ _)) ha
  have hhanded : (a.view id).HandedOver := (hgoalA halive₁).resolve_right fun hle => by omega
  -- the base loop runs `removeConnectionInLoop`
  have hremoved : Traces n id (fun v => v.Collected ∧ v.inMap = false) b := by
    have hlateB := hlate₂.initial (List.prefix_append ls₂ ls₃)
    by_cases hbase : assigned n id = 0
    · have hinMap := removed_of_handedOver hhanded hclosedA.loops hclosedA.created hbase
      exact (approaches_unregistered.run counts_ends_assigned
        { hclosedA with view := fun h => ⟨(hclosedA.view h).1, hinMap⟩ } hlateB hb).1
    · obtain ⟨hB, hgoalB⟩ := approaches_removed.run (counts_ends_base hbase)
        { hclosedA with view := fun h => ⟨(hclosedA.view h).1, hhanded⟩ } hlateB hb
      refine { hB with view := fun h => ⟨(hB.view h).1, (hgoalB h).resolve_right fun hle => ?_⟩ }
      have hleft := (a.view id).base.roundsLeft_le fun _ => true
      have hmore := (b.view id).base.roundsLeft_pos fun _ => true
      omega
  -- and the loop of the connection `connectDestroyed`
  obtain ⟨hC, hgoalC⟩ := approaches_unregistered.run counts_ends_assigned hremoved
    (hlate₂.later hb) ht
  have hu : (t.view id).Unregistered := (hgoalC halive).resolve_right fun hle => by
    have hleft := (b.view id).conn.loop.roundsLeft_le fun f => decide (f = .connectDestroyed)
    have hmore := (t.view id).conn.loop.roundsLeft_pos fun f => decide (f = .connectDestroyed)
    omega
  exact ⟨(hC.view halive).2, hu.index, hu.interest⟩

def hungUpRun : List Label :=
  [.newConnection, .swapFunctors 1, .runFunctor 1 ⟨.ok [], .ok 0, 0⟩, .endFunctors 1,
    .poll 1 [(1, EPOLLHUP)], .handleEvent 1, .act 1 ⟨.ok [], .ok 0, 0⟩]

def closeRound : List Label :=
  [.act 1 ⟨.ok [], .ok 0, 0⟩, .act 1 ⟨.ok [], .ok 0, 0⟩, .swapFunctors 1, .endFunctors 1]

def baseRounds : List Label :=
  [.swapFunctors 0, .runFunctor 0 ⟨.ok [], .ok 0, 0⟩, .endFunctors 0, .newConnection,
    .swapFunctors 0, .endFunctors 0]

def destroyRounds : List Label :=
  [.swapFunctors 1, .runFunctor 1 ⟨.ok [], .ok 0, 0⟩, .endFunctors 1, .swapFunctors 1,
    .endFunctors 1]

theorem removed_of_rounds_hungUp : ∃ s t, Lib.run Server.step (new 2 false) hungUpRun = some s ∧
    Lib.run Server.step s (closeRound ++ (baseRounds ++ destroyRounds)) = some t ∧
    (s.connection 1).inMap = true ∧ (t.connection 1).inMap = false ∧
    (t.connection 1).conn.channel.index = .kNew ∧
    (t.connection 1).conn.channel.interest = none := by
  have hrun : (Lib.run Server.step (new 2 false) hungUpRun).any (fun s =>
      s.created 1 && (s.connection 1).inMap && (s.connection 1).conn.state = .kDisconnected &&
        (Lib.run Server.step s (closeRound ++ (baseRounds ++ destroyRounds))).any
          fun t => t.alive) = true := by decide +kernel
  obtain ⟨s, hs, hrest⟩ := (Option.any_eq_true _ _).mp hrun
  simp only [Bool.and_eq_true, decide_eq_true_eq, Option.any_eq_true] at hrest
  obtain ⟨⟨⟨hcreated, hinMap⟩, hclosed⟩, t, ht, halive⟩ := hrest
  have hnone : ∀ l ∈ hungUpRun ++ (closeRound ++ (baseRounds ++ destroyRounds)), ∀ id i,
      l ≠ .user id (.advance i) := by
    simp [hungUpRun, closeRound, baseRounds, destroyRounds]
  have hlate : Along Server.step NotLate (new 2 false)
      (hungUpRun ++ (closeRound ++ (baseRounds ++ destroyRounds))) :=
    along_of_forall (fun _ hl _ => onEach_notLate (hnone _ hl)) _
  exact ⟨s, t, hs, ht, hinMap, removed_of_rounds hlate hs hcreated hclosed ht halive
    (by decide) (by decide) (by decide)⟩

end Runs

end Server

end WebServer.Mymuduo
