import N2nGo.Analysis.Reachability
import N2nGo.Model.Supernode.State

/-!
# From an edge's socket to the address a packet is sent to

The supernode writes an edge's public socket as text into the lists of peers, and the
other edges read that text again when they route a packet to the edge. The supernode puts
address and port together by hand, the edges take them apart by the grammar of the `net`
package. The two agree on IPv4 addresses; an IPv6 address is not found in the text, as it
has colons of its own and stands there without brackets.

An edge that routes a packet to a peer then has no address for it, and says so nowhere:
`udpAddrWithStrategy` answers with a nil address and no error.
-/

set_option autoImplicit false

namespace N2nGo.Supernode

open N2nGo.Lib

/-! ## The socket as text -/

/-- The text is read back as this socket. -/
def SocketKept (services : Bytes → Option ℕ) (e : Edge) : Prop :=
  ∃ addr, P2P.parseUDPAddr services e.peerInfo.pubSocket = some addr ∧
    Net.ipEqual addr.ip e.publicIP = true ∧ addr.port = e.publicPort

variable {e : Edge}

theorem socketKept_of_to4 (services : Bytes → Option ℕ) (hport : e.publicPort ≤ 65535)
    (hlen : e.publicIP.length = 4 ∨ e.publicIP.length = 16)
    (h : (Net.to4 e.publicIP).length = 4) : SocketKept services e := by
  have htext : Net.ipString e.publicIP = Net.dotted (Net.to4 e.publicIP) := by
    unfold Net.ipString
    rw [if_neg (by omega), if_neg (by omega), if_pos h]
  have hread : P2P.parseUDPAddr services e.peerInfo.pubSocket =
      some ⟨Net.v4InV6Prefix ++ Net.to4 e.publicIP, e.publicPort, []⟩ := by
    have hsplit : Net.splitHostPort e.peerInfo.pubSocket =
        some (Net.dotted (Net.to4 e.publicIP), Net.itoa e.publicPort) := by
      show Net.splitHostPort (Net.ipString e.publicIP ++ 58 :: Net.itoa e.publicPort) = _
      rw [htext]
      exact Net.splitHostPort_append (fun c hc => Net.plain_of_mem_dotted hc)
        fun c hc => Net.plain_of_isDigit (Net.isDigit_of_mem_itoa hc)
    unfold P2P.parseUDPAddr
    rw [hsplit]
    simp only [Net.parseIP_dotted h, Net.lookupPort_itoa services hport]
    rw [if_neg (by simp [Net.v4InV6Prefix])]
  exact ⟨_, hread, Net.ipEqual_to4 h, rfl⟩

/-- The text of any other address has a colon, so that its port cannot be told. -/
theorem parseUDPAddr_eq_none (services : Bytes → Option ℕ)
    (hlen : e.publicIP.length = 4 ∨ e.publicIP.length = 16)
    (h : (Net.to4 e.publicIP).length ≠ 4) :
    P2P.parseUDPAddr services e.peerInfo.pubSocket = none := by
  have htext : Net.ipString e.publicIP = Net.string6 e.publicIP := by
    unfold Net.ipString
    rw [if_neg (by omega), if_neg (by omega), if_neg h]
  have hsplit : Net.splitHostPort e.peerInfo.pubSocket = none := by
    show Net.splitHostPort (Net.ipString e.publicIP ++ 58 :: Net.itoa e.publicPort) = none
    rw [htext]
    refine Net.splitHostPort_eq_none (Net.colon_mem_string6 _) ?_ ?_
    · exact fun hhead => Net.ne_bracket_of_mem_printGroups _ (List.mem_of_head? hhead) rfl
    · exact fun hcolon => Net.ne_of_isDigit (Net.isDigit_of_mem_itoa hcolon) (by decide) rfl
  unfold P2P.parseUDPAddr
  rw [hsplit]

/-- **The socket that the supernode lists for an edge is read back exactly when its address is
an IPv4 address**, in 4-byte or in 16-byte form.
GOLINE: supernode/edge.go:43-52, p2p/p2p.go:297-308 -/
theorem socket_text_iff (services : Bytes → Option ℕ) (e : Edge)
    (hlen : e.publicIP.length = 4 ∨ e.publicIP.length = 16) (hport : e.publicPort ≤ 65535) :
    SocketKept services e ↔ (Net.to4 e.publicIP).length = 4 := by
  refine ⟨?_, socketKept_of_to4 services hport hlen⟩
  rintro ⟨addr, hread, -, -⟩
  by_contra h
  rw [parseUDPAddr_eq_none services hlen h] at hread
  cases hread

/-- An edge at this address. -/
def edgeAt (ip : Bytes) : Edge :=
  ⟨[], ip, 5, ascii "c", ⟨[], []⟩, 24, 0, 0, [], [], []⟩

theorem socket_text_mapped :
    SocketKept (fun _ => none) (edgeAt (Net.v4InV6Prefix ++ [10, 0, 0, 1])) :=
  (socket_text_iff (fun _ => none) (edgeAt (Net.v4InV6Prefix ++ [10, 0, 0, 1])) (Or.inr rfl)
    (by decide)).mpr (by decide)

/-- The edge at `2001:db8::1` is listed as `2001:db8::1:5`, which is no socket. -/
theorem socket_text_lost :
    let e := edgeAt [32, 1, 13, 184, 0, 0, 0, 0, 0, 0, 0, 0, 0, 0, 0, 1]
    e.publicIP.length = 16 ∧ e.publicPort ≤ 65535 ∧
      e.peerInfo.pubSocket = ascii "2001:db8::1:5" ∧
      P2P.parseUDPAddr (fun _ => none) e.peerInfo.pubSocket = none ∧
      ¬ SocketKept (fun _ => none) e := by
  intro e
  have hnone : P2P.parseUDPAddr (fun _ => none) e.peerInfo.pubSocket = none := by decide
  refine ⟨by decide, by decide, by decide, hnone, ?_⟩
  rintro ⟨addr, hread, -⟩
  rw [hnone] at hread
  cases hread

end N2nGo.Supernode

namespace N2nGo.EdgeClient

open N2nGo.Lib N2nGo.Protocol N2nGo.Messages

/-! ## The route -/

/-- The peer that a destination names. -/
def addressed (e : EdgeClient) (dst : Option Bytes) : Option Peer :=
  dst.bind fun mac => e.peers.view (Net.hardwareAddrString mac)

/-- The address that best effort promises: the socket of an available peer where it is
usable, and the supernode's otherwise. -/
def bestAddr (P : Platform) (e : EdgeClient) (snAddr : Net.UDPAddr) (dst : Option Bytes) :
    Net.UDPAddr :=
  (((e.addressed dst).filter fun q => q.p2pStatus = .available).bind (·.udpAddr P.services)).getD snAddr

/-- What the strategies promise of the answer `res`. -/
structure Delivers (P : Platform) (e : EdgeClient) (snAddr : Net.UDPAddr) (dst : Option Bytes)
    (strategy : UDPWriteStrategy) (res : Except Err (Option Net.UDPAddr)) : Prop where
  fails : ∀ err, res = .error err → strategy = .enforceP2P
  present : res ≠ .ok none
  supernode : strategy = .enforceSupernode → res = .ok (some snAddr)
  p2p : strategy = .enforceP2P → ∀ addr, res = .ok (some addr) →
    ∃ q, e.addressed dst = some q ∧ q.udpAddr P.services = some addr
  best : strategy = .bestEffort → res = .ok (some (e.bestAddr P snAddr dst))

/-- The packet goes straight to a peer whose socket cannot be read. -/
def LeadsNowhere (P : Platform) (e : EdgeClient) (dst : Option Bytes)
    (strategy : UDPWriteStrategy) : Prop :=
  ∃ q, e.addressed dst = some q ∧ q.udpAddr P.services = none ∧
    (strategy = .enforceP2P ∨ (strategy = .bestEffort ∧ q.p2pStatus = .available))

variable {P : Platform} {e : EdgeClient} {snAddr : Net.UDPAddr} {dst : Option Bytes}

theorem udpAddrWithStrategy_supernode (hwss : e.wssTransport = false) :
    e.udpAddrWithStrategy P dst .enforceSupernode = .ok e.supernodeAddr := by
  unfold udpAddrWithStrategy
  rw [hwss]
  rfl

theorem udpAddrWithStrategy_unknown (hwss : e.wssTransport = false)
    (h : e.addressed dst = none) :
    e.udpAddrWithStrategy P dst .bestEffort = .ok e.supernodeAddr ∧
      ∃ err, e.udpAddrWithStrategy P dst .enforceP2P = .error err := by
  cases dst with
  | none =>
    unfold udpAddrWithStrategy
    rw [hwss]
    exact ⟨rfl, _, rfl⟩
  | some mac =>
    have hpeer : e.peers.getPeer (Net.hardwareAddrString mac) =
        .error (.peerNotFound (Net.hardwareAddrString mac)) := by
      have hview : e.peers.view (Net.hardwareAddrString mac) = none := h
      unfold PeerRegistry.getPeer
      rw [Option.map_eq_none_iff.mp hview]
    unfold udpAddrWithStrategy
    rw [hwss]
    simp only [hpeer]
    exact ⟨rfl, _, rfl⟩

theorem udpAddrWithStrategy_known (hwss : e.wssTransport = false) {q : Peer}
    (h : e.addressed dst = some q) :
    e.udpAddrWithStrategy P dst .bestEffort =
        .ok (if q.p2pStatus = .available then q.udpAddr P.services else e.supernodeAddr) ∧
      e.udpAddrWithStrategy P dst .enforceP2P = .ok (q.udpAddr P.services) := by
  cases dst with
  | none => cases h
  | some mac =>
    obtain ⟨p, hlookup, hcell⟩ := Table.exists_lookup_of_follow h
    have hpeer : e.peers.getPeer (Net.hardwareAddrString mac) = .ok p := by
      unfold PeerRegistry.getPeer
      rw [hlookup]
    unfold udpAddrWithStrategy
    rw [hwss]
    simp only [hpeer, hcell]
    constructor
    · by_cases hav : q.p2pStatus = .available
      · rw [if_pos hav]
        simp [hav]
      · rw [if_neg hav]
        simp [hav]
    · simp

theorem udpAddrWithStrategy_nowhere {strategy : UDPWriteStrategy} (hwss : e.wssTransport = false)
    (h : LeadsNowhere P e dst strategy) : e.udpAddrWithStrategy P dst strategy = .ok none := by
  obtain ⟨q, hq, hnone, rfl | ⟨rfl, hav⟩⟩ := h
  · rw [(udpAddrWithStrategy_known hwss hq).2, hnone]
  · rw [(udpAddrWithStrategy_known hwss hq).1, if_pos hav, hnone]

/-- Best effort keeps its promise for every peer that is not available or whose socket can be
read. -/
theorem udpAddrWithStrategy_bestEffort (hwss : e.wssTransport = false)
    (hsn : e.supernodeAddr = some snAddr) (h : ¬ LeadsNowhere P e dst .bestEffort) :
    e.udpAddrWithStrategy P dst .bestEffort = .ok (some (e.bestAddr P snAddr dst)) := by
  unfold bestAddr
  cases haddr : e.addressed dst with
  | none =>
    rw [(udpAddrWithStrategy_unknown hwss haddr).1, hsn]
    rfl
  | some q =>
    rw [(udpAddrWithStrategy_known hwss haddr).1]
    by_cases hav : q.p2pStatus = .available
    · rw [if_pos hav, Option.filter_some, if_pos (decide_eq_true hav), Option.bind_some]
      cases hsocket : q.udpAddr P.services with
      | none => exact absurd ⟨q, haddr, hsocket, Or.inr ⟨rfl, hav⟩⟩ h
      | some addr => rfl
    · rw [if_neg hav, hsn, Option.filter_some, if_neg (by simpa using hav)]
      rfl

/-- **Routing yields what the strategy promises, unless it leads to a socket that cannot be
read.** An edge without WebSocket that knows its supernode's address fails only where it
has to reach a peer it does not know; it answers with the supernode's address, or with the
peer's, as asked. A peer whose socket does not parse is answered with a nil address,
exactly if the strategy leads to it.
GOLINE: edge/wire.go:14-47, p2p/p2p.go:293-308 -/
theorem routing_delivers_iff (P : Platform) (e : EdgeClient) (snAddr : Net.UDPAddr)
    (hwss : e.wssTransport = false) (hsn : e.supernodeAddr = some snAddr) (dst : Option Bytes)
    (strategy : UDPWriteStrategy) :
    Delivers P e snAddr dst strategy (e.udpAddrWithStrategy P dst strategy) ↔
      ¬ LeadsNowhere P e dst strategy := by
  constructor
  · intro h hnowhere
    exact h.present (udpAddrWithStrategy_nowhere hwss hnowhere)
  · intro h
    cases strategy with
    | enforceSupernode =>
      rw [udpAddrWithStrategy_supernode hwss, hsn]
      exact ⟨nofun, nofun, fun _ => rfl, nofun, nofun⟩
    | bestEffort =>
      rw [udpAddrWithStrategy_bestEffort hwss hsn h]
      exact ⟨nofun, nofun, nofun, nofun, fun _ => rfl⟩
    | enforceP2P =>
      cases haddr : e.addressed dst with
      | none =>
        obtain ⟨err, hres⟩ := (udpAddrWithStrategy_unknown hwss haddr).2
        rw [hres]
        exact ⟨fun _ _ => rfl, nofun, nofun, nofun, nofun⟩
      | some q =>
        rw [(udpAddrWithStrategy_known hwss haddr).2]
        refine ⟨nofun, fun hnil => ?_, nofun, fun _ addr hres => ?_, nofun⟩
        · exact h ⟨q, haddr, Except.ok.inj hnil, Or.inl rfl⟩
        · exact ⟨q, haddr, Except.ok.inj hres⟩

/-! ## A peer behind IPv6 -/

section Examples

/-- `peerP` as the supernode lists it if its public address is `2001:db8::1`. -/
def peerP6 : PeerInfo :=
  { peerP with pubSocket := (Supernode.edgeAt
      [32, 1, 13, 184, 0, 0, 0, 0, 0, 0, 0, 0, 0, 0, 0, 1]).peerInfo.pubSocket }

/-- A list, a tick and a report. -/
def reported (info : PeerInfo) : List P2PEvent := [listOf info, .tick Sample.edgeEnv, reportOf info]

def snAddrM : Net.UDPAddr := ⟨[192, 168, 0, 254], 7777, []⟩

/-- Without a WebSocket, best effort finds this address for the peer. -/
def finds (P : Platform) (addr : Option Net.UDPAddr) (e : EdgeClient) : Bool :=
  !e.wssTransport && e.supernodeAddr == some snAddrM &&
    match e.udpAddrWithStrategy P (some peerP.macAddr) .bestEffort with
    | .ok res => res == addr
    | .error _ => false

theorem finds_iff {addr : Option Net.UDPAddr} : finds P addr e = true ↔
    e.wssTransport = false ∧ e.supernodeAddr = some snAddrM ∧
      e.udpAddrWithStrategy P (some peerP.macAddr) .bestEffort = .ok addr := by
  unfold finds
  cases e.udpAddrWithStrategy P (some peerP.macAddr) .bestEffort with
  | ok res => simp [and_assoc]
  | error err => simp

/-- Over IPv4 the reported peer is reached. -/
theorem routing_delivers_reported :
    ∃ e, Reach (p2pStep peerPlatform) Starting (fun _ _ => True) e ∧
      e.udpAddrWithStrategy peerPlatform (some peerP.macAddr) .bestEffort =
        .ok (some ⟨Net.v4InV6Prefix ++ [10, 0, 0, 1], 5, []⟩) ∧
      Delivers peerPlatform e snAddrM (some peerP.macAddr) .bestEffort
        (e.udpAddrWithStrategy peerPlatform (some peerP.macAddr) .bestEffort) := by
  obtain ⟨e, hrun, hfinds⟩ := exists_of_passes
    (x := runEvents (p2pStep peerPlatform) edgeM (reported peerP))
    (p := finds peerPlatform (some ⟨Net.v4InV6Prefix ++ [10, 0, 0, 1], 5, []⟩)) (by decide +kernel)
  obtain ⟨hwss, hsn, haddr⟩ := finds_iff.mp hfinds
  refine ⟨e, .of_runEvents (.init starting_edgeM) hrun, haddr,
    (routing_delivers_iff peerPlatform e snAddrM hwss hsn _ _).mpr fun hnowhere => ?_⟩
  rw [udpAddrWithStrategy_nowhere hwss hnowhere] at haddr
  cases haddr

/-- Over IPv6 the reported peer has no address, and no error says so. -/
theorem routing_without_destination :
    ∃ e, Reach (p2pStep peerPlatform) Starting (fun _ _ => True) e ∧ e.wssTransport = false ∧
      e.supernodeAddr = some snAddrM ∧
      e.udpAddrWithStrategy peerPlatform (some peerP.macAddr) .bestEffort = .ok none ∧
      ¬ Delivers peerPlatform e snAddrM (some peerP.macAddr) .bestEffort
        (e.udpAddrWithStrategy peerPlatform (some peerP.macAddr) .bestEffort) := by
  obtain ⟨e, hrun, hfinds⟩ := exists_of_passes
    (x := runEvents (p2pStep peerPlatform) edgeM (reported peerP6)) (p := finds peerPlatform none)
    (by decide +kernel)
  obtain ⟨hwss, hsn, haddr⟩ := finds_iff.mp hfinds
  exact ⟨e, .of_runEvents (.init starting_edgeM) hrun, hwss, hsn, haddr,
    fun hdelivers => hdelivers.present haddr⟩

end Examples

end N2nGo.EdgeClient
