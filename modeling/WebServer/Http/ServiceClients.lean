import WebServer.Http.Client
import WebServer.Http.ServiceRuns

namespace WebServer.Http

open WebServer.Lib WebServer.Mymuduo
open TcpConnection (Alike)

namespace Dialogue

variable {d e : Dialogue}

theorem Understood.congr (h : d.Understood) (hreplies : e.replies = d.replies)
    (hbytes : TcpConnection.kernelBytes e.http.conn.log = TcpConnection.kernelBytes d.http.conn.log)
    (hstate : e.http.conn.state ≠ .kDisconnected → d.http.conn.state ≠ .kDisconnected)
    (houtput : e.http.conn.outputBuffer = d.http.conn.outputBuffer) : e.Understood := by
  obtain ⟨cs, ds, u, hkept, hread, htaken, hdone⟩ := h
  refine ⟨cs, ds, u, hreplies ▸ hkept, hbytes ▸ hread, hbytes ▸ htaken, fun hopen hempty => ?_⟩
  rw [hreplies]
  exact hdone (hstate hopen) (houtput ▸ hempty)

theorem kernelTakes_congr (hconn : Alike d.http.conn e.http.conn)
    (hserved : e.http.served = d.http.served) (hreplies : e.replies = d.replies) {l : Label}
    (h : KernelTakes d l) : KernelTakes e l := by
  obtain ⟨⟨c, served⟩, replies⟩ := e
  simp only at hconn hserved hreplies
  subst hserved hreplies
  rw [hconn]
  match l with
  | .handleRead (.ok (_ :: _)) _ _ _ => exact h
  | .handleRead (.ok []) _ _ _ | .handleRead (.error _) _ _ _ => trivial
  | .handleWrite _ | .handleClose | .connectDestroyed => trivial

end Dialogue

namespace HttpService

variable {s t : HttpService} {id : Nat} {d : Dialogue} {l : Label} {httpCallback : HttpCallback}

def KernelTakes (httpCallback : HttpCallback) (s : HttpService) : Label → Prop
  | .act i io receiveTime k =>
    let id := (s.server.loops i).current
    (s.dialogueLabel httpCallback id (.act i io receiveTime k)).elim True
      (Dialogue.KernelTakes (s.dialogue id))
  | _ => True

instance (o : Option Dialogue.Label) (d : Dialogue) :
    Decidable (o.elim True (Dialogue.KernelTakes d)) :=
  match o with
  | none => .isTrue trivial
  | some l => inferInstanceAs (Decidable (Dialogue.KernelTakes d l))

instance (httpCallback : HttpCallback) (s : HttpService) :
    (l : Label) → Decidable (KernelTakes httpCallback s l)
  | .act _ _ _ _ => inferInstanceAs (Decidable (Option.elim _ True _))
  | .newConnection | .poll _ _ | .handleEvent _ | .swapFunctors _ | .runFunctor _ _
  | .endFunctors _ => .isTrue trivial

theorem Tracks.kernelTakes (h : Tracks id s d) {m : Server} (hm : s.server.step l.server = some m)
    (hl : KernelTakes httpCallback s l) :
    Along Dialogue.step Dialogue.KernelTakes d (s.dialogueLabel httpCallback id l).toList := by
  cases l with
  | runFunctor i io =>
    simp only [dialogueLabel]
    split
    · exact ⟨trivial, fun _ _ => trivial⟩
    · trivial
  | newConnection | poll _ _ | handleEvent _ | swapFunctors _ | endFunctors _ => trivial
  | act i io receiveTime k =>
    by_cases hcurrent : (s.server.loops i).current = id
    · subst hcurrent
      obtain ⟨a, rest, hactions⟩ := exists_actions hm
      have hview := (actions_view h.sound (by simp [hactions])).trans hactions
      have hconn := (h.follows hactions rfl).conn
      obtain ⟨-, hlabel⟩ := effect_act h.sound httpCallback io receiveTime k hactions rfl
      simp only [KernelTakes, hlabel] at hl
      rw [hlabel]
      by_cases ha : a = .closeCallback
      · subst ha
        trivial
      · have hopen : settled (s.server.view (s.server.loops i).current) =
            (s.server.view (s.server.loops i).current).conn :=
          if_neg (by rw [hview, List.head?_cons]; exact fun heq => ha (Option.some.inj heq))
        rw [hopen] at hconn
        cases hx : callbackLabel httpCallback io receiveTime k a with
        | none => trivial
        | some x =>
          rw [hx] at hl
          exact ⟨Dialogue.kernelTakes_congr hconn h.served h.replies hl, fun _ _ => trivial⟩
    · rw [(effect_act_other httpCallback io receiveTime k hcurrent).2]
      trivial

theorem kernelBytes_settled (v : TcpServer) :
    TcpConnection.kernelBytes (settled v).log = TcpConnection.kernelBytes v.conn.log := by
  simp only [settled]
  split
  · simp [TcpConnection.record, TcpConnection.kernelBytes, TcpConnection.taken]
  · rfl

theorem settled_eq (v : TcpServer) : (settled v).state = v.conn.state ∧
    (settled v).outputBuffer = v.conn.outputBuffer ∧
    (settled v).inputBuffer = v.conn.inputBuffer := by
  simp only [settled]
  split <;> exact ⟨rfl, rfl, rfl⟩

structure Agrees (d e : Dialogue) : Prop where
  replies : e.replies = d.replies
  bytes : TcpConnection.kernelBytes e.http.conn.log = TcpConnection.kernelBytes d.http.conn.log
  state : e.http.conn.state ≠ .kDisconnected → d.http.conn.state ≠ .kDisconnected
  outputBuffer : e.http.conn.outputBuffer = d.http.conn.outputBuffer
  transcript : e.transcript = d.transcript

theorem Tracks.agrees (h : Tracks id s d) (hid : s.server.created id = true) :
    Agrees d (s.dialogue id) := by
  rcases h.phase with ⟨rfl, hstart⟩ | ⟨-, hfollows⟩
  · have hconn := (hstart hid).conn
    have hserved : s.served id = [] := h.served.symm
    have hreplies : s.replies id = [] := h.replies.symm
    constructor
    · exact hreplies
    · rw [dialogue, hconn]
      rfl
    · exact fun _ => by decide
    · rw [dialogue, hconn]
      rfl
    · rw [dialogue, Dialogue.transcript, hserved, hreplies, hconn]
      rfl
  · have hconn := hfollows.conn
    obtain ⟨hstate, houtput, hinput⟩ := settled_eq (s.server.view id)
    constructor
    · exact h.replies.symm
    · rw [hconn]
      exact (kernelBytes_settled _).symm
    · rw [hconn]
      exact fun hne => fun heq => hne (hstate.symm.trans heq)
    · rw [hconn]
      exact houtput.symm
    · have hpeek : d.http.conn.inputBuffer = (s.server.view id).conn.inputBuffer := by
        rw [hconn]
        exact hinput
      rw [dialogue, Dialogue.transcript, Dialogue.transcript, hpeek, h.served, h.replies]

theorem arrived_dialogueLabel {x : Dialogue.Label} {a : Arrived}
    (h : s.dialogueLabel httpCallback id l = some x) (ha : x.arrived = some a) :
    a.httpCallback = httpCallback := by
  have hread : ∀ io receiveTime k b, callbackLabel httpCallback io receiveTime k b = some x →
      a.httpCallback = httpCallback := by
    intro io receiveTime k b hx
    match b with
    | .callback .readCallback =>
      obtain rfl := Option.some.inj hx
      simp only [Dialogue.Label.arrived] at ha
      split at ha
      · next heq =>
        obtain ⟨-, -, -, hcallback⟩ := Dialogue.Label.handleRead.inj heq
        rw [← Option.some.inj ha]
        exact hcallback.symm
      · cases ha
    | .callback .writeCallback | .callback .closeCallback =>
      obtain rfl := Option.some.inj hx
      cases ha
    | .callback .errorCallback | .closeCallback | .letGo => cases hx
  cases l with
  | act i io receiveTime k =>
    simp only [dialogueLabel] at h
    split at h
    · obtain ⟨b, -, hb⟩ := Option.bind_eq_some_iff.mp h
      exact hread io receiveTime k b hb
    · cases h
  | runFunctor i io =>
    simp only [dialogueLabel] at h
    split at h
    · obtain rfl := Option.some.inj h
      cases ha
    · cases h
  | newConnection | poll _ _ | handleEvent _ | swapFunctors _ | endFunctors _ => cases h

theorem arrived_callbacks (s : HttpService) (ls : List Label) :
    ∀ x ∈ (callbacks httpCallback id s ls).filterMap Dialogue.Label.arrived,
      x.httpCallback = httpCallback := by
  have hall : ∀ x ∈ callbacks httpCallback id s ls, ∀ a, x.arrived = some a →
      a.httpCallback = httpCallback := by
    refine forall_mem_relabel (fun s l x hx a ha => ?_) s ls
    exact arrived_dialogueLabel (Option.mem_toList.mp hx) ha
  intro x hx
  obtain ⟨l, hl, harrived⟩ := List.mem_filterMap.mp hx
  exact hall l hl x harrived

theorem responses_framed (hframed : ∀ req, WellFramed (HttpServer.respond httpCallback req))
    {numThreads : Nat} {ls : List Label}
    (h : run (step httpCallback) (new numThreads) ls = some s) (id : Nat) :
    ∀ r, .response r ∈ s.replies id → WellFramed r := by
  obtain ⟨d, hrun, htracks⟩ := exists_tracks h id
  rw [← htracks.replies]
  refine Dialogue.responses_framed hrun (allFramed_of_callbacks fun x hx req => ?_)
  rw [arrived_callbacks _ _ x hx]
  exact hframed req

/-- Whatever the loops and the other connections do: where no direct write fails, each client reads
the responses to what arrived on its own connection, each as it was made, and no others. -/
theorem run_clients {numThreads : Nat} {ls : List Label}
    (hls : Along (step httpCallback) (KernelTakes httpCallback) (new numThreads) ls)
    (h : run (step httpCallback) (new numThreads) ls = some s)
    (hframed : ∀ r, .response r ∈ s.replies id → WellFramed r)
    (hid : s.server.created id = true) :
    (s.dialogue id).Understood ∧
      (s.dialogue id).transcript = ((callbacks httpCallback id (new numThreads) ls).filterMap
        Dialogue.Label.arrived).foldl Transcript.receive .empty := by
  obtain ⟨d, hrun, halong, htracks⟩ :=
    exists_tracks_along (fun _ _ _ _ hd hm hl => hd.kernelTakes hm hl) hls h
  have hagrees := htracks.agrees hid
  obtain ⟨d₁, hrun₁, htransmits⟩ := Dialogue.run_transmits false halong
  obtain rfl : d = d₁ := Option.some.inj (hrun.symm.trans hrun₁)
  rw [← htracks.replies] at hframed
  obtain ⟨d₁, hrun₁, htranscript⟩ := Dialogue.run_transcript_from (.new false)
    (callbacks httpCallback id (new numThreads) ls)
  obtain rfl : d = d₁ := Option.some.inj (hrun.symm.trans hrun₁)
  exact ⟨(htransmits.understood hframed).congr hagrees.replies hagrees.bytes hagrees.state
    hagrees.outputBuffer, hagrees.transcript.trans htranscript⟩

theorem run_clients_twoClients :
    ∃ s, run (step HttpServer.defaultHttpCallback) (new 2) twoClients = some s ∧
      (s.dialogue 1).Understood ∧
      (s.dialogue 1).transcript =
        ((callbacks HttpServer.defaultHttpCallback 1 (new 2) twoClients).filterMap
          Dialogue.Label.arrived).foldl Transcript.receive .empty := by
  have hrun : ∃ s ∈ run (step HttpServer.defaultHttpCallback) (new 2) twoClients,
      s.server.created 1 = true := by decide +kernel
  obtain ⟨s, hs, hid⟩ := hrun
  exact ⟨s, hs, run_clients (by decide +kernel) hs (responses_framed wellFramed_default hs 1) hid⟩

end HttpService

end WebServer.Http
