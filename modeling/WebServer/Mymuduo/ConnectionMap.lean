import WebServer.Lib.OrdMap
import WebServer.Lib.Run
import WebServer.Mymuduo.Convert

namespace WebServer.Mymuduo

open WebServer.Lib

structure InetAddress where
  sin_addr : UInt8 × UInt8 × UInt8 × UInt8
  sin_port : UInt16

namespace InetAddress

def toIP (a : InetAddress) : Bytes :=
  decimalDigits.write a.sin_addr.1.toNat ++ ascii "." ++
    decimalDigits.write a.sin_addr.2.1.toNat ++ ascii "." ++
    decimalDigits.write a.sin_addr.2.2.1.toNat ++ ascii "." ++
    decimalDigits.write a.sin_addr.2.2.2.toNat

def toIPport (a : InetAddress) : Bytes :=
  a.toIP ++ ascii ":" ++ decimalDigits.write a.sin_port.toNat

theorem length_toIPport_le (a : InetAddress) : a.toIPport.length ≤ 21 := by
  have hbyte : ∀ b : UInt8, (decimalDigits.write b.toNat).length ≤ 3 := fun b =>
    decimalDigits.length_write_le (by decide) (b.toNat_lt.trans (by decide))
  have hport : (decimalDigits.write a.sin_port.toNat).length ≤ 5 :=
    decimalDigits.length_write_le (by decide) (a.sin_port.toNat_lt.trans (by decide))
  have h₁ := hbyte a.sin_addr.1
  have h₂ := hbyte a.sin_addr.2.1
  have h₃ := hbyte a.sin_addr.2.2.1
  have h₄ := hbyte a.sin_addr.2.2.2
  have hdot : (ascii ".").length = 1 := rfl
  have hcolon : (ascii ":").length = 1 := rfl
  simp only [toIPport, toIP, List.length_append]
  omega

end InetAddress

structure NamedConnection where
  name : Bytes
  sockfd : Int
  peerAddr : InetAddress

/-- The part of a `TcpServer` that names and keeps its connections.  A `TcpConnectionPtr` is the
place of the connection in `accepted`; `removed` are those that `removeConnectionInLoop` was
called for. -/
structure ConnectionMap where
  ipPort : Bytes
  name : Bytes
  nextConnId : IntegerType.int.Value
  connections : OrdMap Bytes Nat
  accepted : List NamedConnection
  removed : List Nat

namespace ConnectionMap

def new (listenAddr : InetAddress) (nameArg : Bytes) : ConnectionMap where
  ipPort := listenAddr.toIPport
  name := nameArg
  nextConnId := 1
  connections := .empty
  accepted := []
  removed := []

/-- `connName`: the name and `"-%s#%d"` in a `char buf[64]`. -/
def connName (name ipPort : Bytes) (id : IntegerType.int.Value) : Bytes :=
  name ++ (ascii "-" ++ ipPort ++ ascii "#" ++ decimalDigits.writeInt id.toInt).take 63

def newConnection (s : ConnectionMap) (sockfd : Int) (peerAddr : InetAddress) : ConnectionMap :=
  let name := connName s.name s.ipPort s.nextConnId
  { s with
    nextConnId := s.nextConnId + 1
    accepted := s.accepted ++ [⟨name, sockfd, peerAddr⟩]
    connections := s.connections.insert name s.accepted.length }

def removeConnectionInLoop (s : ConnectionMap) (conn : Nat) : Option ConnectionMap :=
  s.accepted[conn]?.map fun c =>
    { s with connections := s.connections.erase c.name, removed := conn :: s.removed }

inductive Call where
  | newConnection (sockfd : Int) (peerAddr : InetAddress)
  | removeConnectionInLoop (conn : Nat)

/-- `none` when there is no such connection. -/
def step (s : ConnectionMap) : Call → Option ConnectionMap
  | .newConnection sockfd peerAddr => some (s.newConnection sockfd peerAddr)
  | .removeConnectionInLoop conn => s.removeConnectionInLoop conn

theorem connName_eq {ipPort : Bytes} (h : ipPort.length ≤ 21) (name : Bytes)
    (id : IntegerType.int.Value) :
    connName name ipPort id =
      name ++ (ascii "-" ++ ipPort ++ ascii "#" ++ decimalDigits.writeInt id.toInt) := by
  have hid : (decimalDigits.writeInt id.toInt).length ≤ 21 :=
    decimalDigits.length_writeInt_le (by decide) (IntegerType.natAbs_toInt_lt (t := .int) id)
  have hdash : (ascii "-").length = 1 := rfl
  have hhash : (ascii "#").length = 1 := rfl
  rw [connName, List.take_of_length_le]
  simp only [List.length_append]
  omega

theorem connName_injective {ipPort : Bytes} (h : ipPort.length ≤ 21) (name : Bytes) {j k : Nat}
    (hj : j < 2 ^ 31) (hk : k < 2 ^ 31)
    (heq : connName name ipPort (BitVec.ofNat _ j) = connName name ipPort (BitVec.ofNat _ k)) :
    j = k := by
  rw [connName_eq h, connName_eq h] at heq
  have hid := decimalDigits.writeInt_injective
    (List.append_cancel_left (List.append_cancel_left heq))
  have hj' := IntegerType.toInt_ofNat (t := .int) hj
  have hk' := IntegerType.toInt_ofNat (t := .int) hk
  exact Int.ofNat_inj.mp (hj'.symm.trans (hid.trans hk'))

def Named (s : ConnectionMap) (conn : Nat) (n : Bytes) : Prop :=
  ∃ c, s.accepted[conn]? = some c ∧ c.name = n

/-- The names are numbered in the order of the connections, and as long as the numbers do not
run out, the map has each connection that was not removed under its name. -/
structure Exact (s : ConnectionMap) : Prop where
  length_ipPort : s.ipPort.length ≤ 21
  nextConnId_eq : s.nextConnId = BitVec.ofNat _ (s.accepted.length + 1)
  name_eq : ∀ k n, s.Named k n → n = connName s.name s.ipPort (BitVec.ofNat _ (k + 1))
  removed_lt : ∀ k ∈ s.removed, k < s.accepted.length
  find_iff : s.accepted.length < 2 ^ 31 - 1 →
    ∀ n k, s.connections.find n = some k ↔ s.Named k n ∧ k ∉ s.removed

theorem Named.lt {s : ConnectionMap} {k : Nat} {n : Bytes} (h : s.Named k n) :
    k < s.accepted.length := by
  obtain ⟨c, hc, -⟩ := h
  exact (List.getElem?_eq_some_iff.mp hc).1

theorem exact_new (listenAddr : InetAddress) (nameArg : Bytes) :
    Exact (new listenAddr nameArg) where
  length_ipPort := listenAddr.length_toIPport_le
  nextConnId_eq := rfl
  name_eq := fun k _ h => absurd h.lt (Nat.not_lt_zero k)
  removed_lt := fun _ h => absurd h List.not_mem_nil
  find_iff := fun _ _ k => ⟨(fun h => nomatch h), fun h => absurd h.1.lt (Nat.not_lt_zero k)⟩

section

variable {s t : ConnectionMap}

theorem Exact.name_inj (h : s.Exact) (hlen : s.accepted.length < 2 ^ 31) {j k : Nat} {n : Bytes}
    (hj : s.Named j n) (hk : s.Named k n) : j = k := by
  have heq := (h.name_eq j n hj).symm.trans (h.name_eq k n hk)
  have hj' := hj.lt
  have hk' := hk.lt
  exact Nat.succ_injective (connName_injective h.length_ipPort s.name (by omega) (by omega) heq)

theorem Exact.not_named_next (h : s.Exact) (hlen : s.accepted.length < 2 ^ 31 - 1) (k : Nat) :
    ¬s.Named k (connName s.name s.ipPort s.nextConnId) := by
  intro hk
  have heq := h.name_eq k _ hk
  rw [h.nextConnId_eq] at heq
  have hlt := hk.lt
  have := connName_injective h.length_ipPort s.name (by omega) (by omega) heq
  omega

theorem named_newConnection (sockfd : Int) (peerAddr : InetAddress) (k : Nat) (n : Bytes) :
    (s.newConnection sockfd peerAddr).Named k n ↔
      s.Named k n ∨ k = s.accepted.length ∧ n = connName s.name s.ipPort s.nextConnId := by
  simp only [Named, newConnection]
  rcases Nat.lt_trichotomy k s.accepted.length with hlt | rfl | hgt
  · rw [List.getElem?_append_left hlt]
    exact ⟨.inl, fun h => h.resolve_right fun h => hlt.ne h.1⟩
  · rw [List.getElem?_concat_length, List.getElem?_eq_none (Nat.le_refl _)]
    simp [eq_comm]
  · rw [List.getElem?_eq_none (by simpa using hgt), List.getElem?_eq_none hgt.le]
    simp [hgt.ne']

theorem Exact.newConnection (h : s.Exact) (sockfd : Int) (peerAddr : InetAddress) :
    (s.newConnection sockfd peerAddr).Exact where
  length_ipPort := h.length_ipPort
  nextConnId_eq := by
    simp only [ConnectionMap.newConnection, List.length_append, List.length_singleton]
    rw [h.nextConnId_eq]
    exact (BitVec.ofNat_add _ 1).symm
  name_eq := by
    intro k n hk
    rcases (named_newConnection sockfd peerAddr k n).mp hk with hk | ⟨rfl, rfl⟩
    · exact h.name_eq k n hk
    · rw [h.nextConnId_eq]
      rfl
  removed_lt := by
    intro k hk
    simp only [ConnectionMap.newConnection, List.length_append, List.length_singleton]
    exact Nat.lt_succ_of_lt (h.removed_lt k hk)
  find_iff := by
    intro hlen n k
    simp only [ConnectionMap.newConnection, List.length_append, List.length_singleton] at hlen
    have hnext := h.not_named_next (by omega)
    rw [named_newConnection]
    simp only [ConnectionMap.newConnection, OrdMap.find_insert]
    split
    · next hn =>
      subst hn
      constructor
      · intro heq
        obtain rfl := Option.some.inj heq
        exact ⟨.inr ⟨rfl, rfl⟩, fun hmem => Nat.lt_irrefl _ (h.removed_lt _ hmem)⟩
      · rintro ⟨hk | ⟨rfl, -⟩, -⟩
        · exact absurd hk (hnext k)
        · rfl
    · next hn =>
      rw [h.find_iff (by omega)]
      exact and_congr_left fun _ => ⟨.inl, fun hk => hk.resolve_right fun hk => hn hk.2⟩

theorem removeConnectionInLoop_eq {conn : Nat} (ht : s.removeConnectionInLoop conn = some t) :
    ∃ n, s.Named conn n ∧
      t = { s with connections := s.connections.erase n, removed := conn :: s.removed } := by
  obtain ⟨c, hc, rfl⟩ := Option.map_eq_some_iff.mp ht
  exact ⟨c.name, ⟨c, hc, rfl⟩, rfl⟩

theorem Exact.find_removeConnectionInLoop (h : s.Exact) (hlen : s.accepted.length < 2 ^ 31 - 1)
    {conn : Nat} (ht : s.removeConnectionInLoop conn = some t) (n : Bytes) (k : Nat) :
    t.connections.find n = some k ↔ s.connections.find n = some k ∧ k ≠ conn := by
  obtain ⟨n', hn', rfl⟩ := removeConnectionInLoop_eq ht
  rw [OrdMap.find_erase]
  split
  · next hn =>
    subst hn
    refine ⟨(fun heq => nomatch heq), fun ⟨hfind, hk⟩ => absurd ?_ hk⟩
    exact h.name_inj (by omega) ((h.find_iff hlen n k).mp hfind).1 hn'
  · next hn =>
    refine ⟨fun hfind => ⟨hfind, ?_⟩, And.left⟩
    rintro rfl
    have hk := ((h.find_iff hlen n k).mp hfind).1
    exact hn ((h.name_eq k n hk).trans (h.name_eq k n' hn').symm)

theorem Exact.removeConnectionInLoop (h : s.Exact) {conn : Nat}
    (ht : s.removeConnectionInLoop conn = some t) : t.Exact := by
  have hfind := fun hlen => h.find_removeConnectionInLoop hlen ht
  obtain ⟨n', hn', rfl⟩ := removeConnectionInLoop_eq ht
  refine ⟨h.length_ipPort, h.nextConnId_eq, h.name_eq, ?_, ?_⟩
  · exact List.forall_mem_cons.mpr ⟨hn'.lt, h.removed_lt⟩
  · intro hlen n k
    rw [hfind hlen, h.find_iff hlen, and_assoc, List.mem_cons, not_or, and_comm (a := k ∉ _)]
    rfl

theorem Exact.step (h : s.Exact) {c : Call} (ht : s.step c = some t) : t.Exact := by
  cases c with
  | newConnection sockfd peerAddr =>
    obtain rfl := Option.some.inj ht
    exact h.newConnection sockfd peerAddr
  | removeConnectionInLoop conn => exact h.removeConnectionInLoop ht

end

/-- With fewer than 2^31 - 1 connections accepted, `connections_` has those that were not removed,
under names that no two share; the next connection replaces none, and a removal takes out its own
connection only. -/
theorem connections_exact (listenAddr : InetAddress) (nameArg : Bytes) {calls : List Call}
    {s : ConnectionMap} (h : run step (new listenAddr nameArg) calls = some s)
    (hlen : s.accepted.length < 2 ^ 31 - 1) :
    (s.accepted.map NamedConnection.name).Nodup ∧
      (∀ n k, s.connections.find n = some k ↔ s.Named k n ∧ k ∉ s.removed) ∧
      s.connections.find (connName s.name s.ipPort s.nextConnId) = none ∧
      ∀ conn t, s.removeConnectionInLoop conn = some t → ∀ n k,
        (t.connections.find n = some k ↔ s.connections.find n = some k ∧ k ≠ conn) := by
  have hexact : s.Exact := invariant_run (fun s c t hs ht => hs.step ht) (exact_new _ _) h
  refine ⟨?_, hexact.find_iff hlen, ?_, fun conn t => hexact.find_removeConnectionInLoop hlen⟩
  · rw [List.nodup_iff_getElem?_ne_getElem?]
    intro j k hjk hk heq
    rw [List.length_map] at hk
    have hj : j < s.accepted.length := hjk.trans hk
    rw [List.getElem?_map, List.getElem?_map, List.getElem?_eq_getElem hj,
      List.getElem?_eq_getElem hk, Option.map_some, Option.map_some] at heq
    refine hjk.ne (hexact.name_inj (by omega) ⟨_, List.getElem?_eq_getElem hj, rfl⟩
      ⟨_, List.getElem?_eq_getElem hk, (Option.some.inj heq).symm⟩)
  · rw [Option.eq_none_iff_forall_ne_some]
    exact fun k hk => hexact.not_named_next hlen k ((hexact.find_iff hlen _ k).mp hk).1

def loopback (port : UInt16) : InetAddress := ⟨(127, 0, 0, 1), port⟩

theorem connections_exact_twoAccepts :
    ∃ s, run step (new (loopback 8080) (ascii "http"))
        [.newConnection 8 (loopback 40000), .newConnection 9 (loopback 40001),
          .removeConnectionInLoop 0] = some s ∧
      (s.accepted.map NamedConnection.name).Nodup ∧
      s.connections.find (ascii "http-127.0.0.1:8080#2") = some 1 := by
  refine ⟨_, rfl, ?_⟩
  obtain ⟨hnodup, hfind, -⟩ := @connections_exact (loopback 8080) (ascii "http")
    [.newConnection 8 (loopback 40000), .newConnection 9 (loopback 40001),
      .removeConnectionInLoop 0] _ rfl (by decide)
  exact ⟨hnodup, (hfind _ _).mpr ⟨⟨_, rfl, by decide +kernel⟩, by decide⟩⟩

end ConnectionMap

end WebServer.Mymuduo
