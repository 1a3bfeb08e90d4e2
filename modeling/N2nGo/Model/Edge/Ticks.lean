import N2nGo.Model.Edge.Routines

/-!
# Periodic work of an edge

The functions behind the three tickers of a running edge: pings to the peers, heartbeats,
and reports to the supernode about reachable peers.

Pings run under `recover`: cutting the MAC address of a peer to six bytes may panic, and
what has been changed by then stays. `Guarded` is what such a function leaves.
-/

set_option autoImplicit false

namespace N2nGo

open N2nGo.Lib N2nGo.Protocol N2nGo.Messages

namespace PeerRegistry

/-- The peers with one status, in the order the map is visited. -/
def peersWith (order : MapOrder) (reg : PeerRegistry) (status : P2PCapacity) : List PeerRef :=
  (order.visit reg.peers.values).filter fun p => (reg.records.cell p).p2pStatus = status

/-- GOLINE: p2p/p2p.go:310-318 -/
def getP2PUnknownPeers (order : MapOrder) (reg : PeerRegistry) : List PeerRef :=
  reg.peersWith order .unknown

/-- GOLINE: p2p/p2p.go:320-332 -/
def getP2PendingPeersLoop (now : ℤ) :
    List PeerRef → PeerRegistry → List PeerRef → PeerRegistry × List PeerRef
  | [], reg, peerlist => (reg, peerlist)
  | p :: ps, reg, peerlist =>
    let peer := reg.records.cell p
    if peer.p2pStatus = .pending then
      if 0 < peer.pendingTTL then getP2PendingPeersLoop now ps reg (peerlist ++ [p])
      else
        getP2PendingPeersLoop now ps (reg.store p (peer.updateP2PStatus now .unavailable []).1)
          peerlist
    else getP2PendingPeersLoop now ps reg peerlist

/-- The pending peers. Those whose budget is used up are made unavailable instead.
GOLINE: p2p/p2p.go:320-332 -/
def getP2PendingPeers (now : ℤ) (order : MapOrder) (reg : PeerRegistry) :
    PeerRegistry × List PeerRef :=
  getP2PendingPeersLoop now (order.visit reg.peers.values) reg []

/-- GOLINE: p2p/p2p.go:334-342 -/
def getP2PAvailablePeers (order : MapOrder) (reg : PeerRegistry) : List PeerRef :=
  reg.peersWith order .available

/-- GOLINE: p2p/p2p.go:134-146 -/
def getPeerP2PInfos (order : MapOrder) (reg : PeerRegistry) : PeerP2PInfos :=
  match reg.me with
  | none => ⟨none, []⟩
  | some me =>
    ⟨some me.infos, (order.visit reg.peers.values).map fun p => (reg.records.cell p).infos⟩

/-- GOLINE: p2p/p2p.go:156-158 -/
def clearPendingChanges (reg : PeerRegistry) : PeerRegistry := { reg with hasPendingChanges := false }

end PeerRegistry

namespace EdgeClient

/-! ## Pings -/

/-- What a function under `recover` leaves: the edge, the writes, and the panic that ended it. -/
abbrev Guarded := EdgeClient × List Output × Option Fault

/-- GOLINE: edge/routines.go:42 -/
def checkID (e : EdgeClient) (p : Peer) : Bytes :=
  e.id ++ 46 :: Net.hardwareAddrString e.macAddr.bytes ++
    46 :: Net.hardwareAddrString p.infos.macAddr ++ 46 :: p.infos.pubSocket ++ 46 :: Net.itoa 0

/-- `net.HardwareAddr` of a field of a message; an empty field is nil. -/
def hardwareAddr (macAddr : Bytes) : Option Bytes := if macAddr = [] then none else some macAddr

/-- The message is sent several times, and errors are ignored. A panic comes from cutting the
destination, after the sequence number has been taken.
GOLINE: edge/routines.go:50-53 -/
def sendPings (P : Platform) (env : Env) (pingMsg : PeerToPing) (dst : Option Bytes) :
    ℕ → EdgeClient → List Output → Guarded
  | 0, e, out => (e, out, none)
  | n + 1, e, out =>
    match e.sendStruct P.codecs.peerToPing P env out pingMsg dst .enforceP2P with
    | .error fault => ({ e with seq := e.seq + 1 }, out, some fault)
    | .ok (e, out, _) => sendPings P env pingMsg dst n e out

/-- GOLINE: edge/routines.go:41-54 -/
def pingPeer (P : Platform) (env : Env) (e : EdgeClient) (out : List Output) (p : PeerRef) (n : ℕ)
    (status : P2PCapacity) : Guarded :=
  let peer := e.peers.records.cell p
  let checkid := e.checkID peer
  sendPings P env ⟨checkid, false⟩ (hardwareAddr peer.infos.macAddr) (n + 1)
    (e.withPeers (e.peers.updateStatus env.now p status checkid)) out

/-- GOLINE: edge/routines.go:19-24, 26-31, 33-38 -/
def pingPeers (P : Platform) (env : Env) (status : P2PCapacity) :
    List PeerRef → EdgeClient → List Output → Guarded
  | [], e, out => (e, out, none)
  | p :: ps, e, out =>
    match e.pingPeer P env out p 3 status with
    | (e, out, some fault) => (e, out, some fault)
    | (e, out, none) => pingPeers P env status ps e out

/-- GOLINE: edge/routines.go:17-39 -/
def updatePeersP2PStates (P : Platform) (env : Env) (e : EdgeClient) : Guarded :=
  match pingPeers P env .pending (e.peers.getP2PUnknownPeers env.order) e [] with
  | (e, out, some fault) => (e, out, some fault)
  | (e, out, none) =>
    let pending := e.peers.getP2PendingPeers env.now env.order
    match pingPeers P env .pending pending.2 (e.withPeers pending.1) out with
    | (e, out, some fault) => (e, out, some fault)
    | (e, out, none) => pingPeers P env .available (e.peers.getP2PAvailablePeers env.order) e out

/-- One tick; a panic is only logged.
GOLINE: edge/routines.go:66-75 -/
def handleP2PUpdates (P : Platform) (env : Env) (e : EdgeClient) : EdgeClient × List Output :=
  let guarded := e.updatePeersP2PStates P env
  (guarded.1, guarded.2.1)

/-! ## Messages to the supernode -/

/-- The edge has lost its registration and waits for the supernode. -/
def waitsForSupernode (e : EdgeClient) : Bool :=
  e.isWaitingForSNPubKeyUpdate || e.isWaitingForSNRetryRegisterResponse

/-- GOLINE: edge/requests.go:50-67 -/
def sendHeartbeat (P : Platform) (env : Env) (e : EdgeClient) : Go Reply :=
  if e.waitsForSupernode then .ok (e, [], .error .waitingForSupernode)
  else do
    match ← e.encryptedMachineID P with
    | .error err => .ok (e, [], .error err)
    | .ok encMachineID =>
      e.sendStruct P.codecs.heartbeatPulse P env []
        (⟨Net.hardwareAddrString e.macAddr.bytes, e.community, encMachineID, []⟩ : HeartbeatPulse)
        none .enforceSupernode

/-- GOLINE: edge/requests.go:69-88 -/
def sendP2PInfos (P : Platform) (env : Env) (e : EdgeClient) : Go Reply :=
  if e.waitsForSupernode then .ok (e, [], .error .waitingForSupernode)
  else if ¬ e.peers.hasPendingChanges then .ok (e, [], .ok ())
  else
    let infos := e.peers.getPeerP2PInfos env.order
    (e.withPeers e.peers.clearPendingChanges).sendStruct P.codecs.peerP2PInfos P env [] infos none
      .enforceSupernode

/-! ## Runs -/

/-- What changes the reachability of peers: messages and the ticks that ping. -/
inductive P2PEvent where
  | message (env : Env) (packet : Bytes) (addr : NetAddr)
  | tick (env : Env)

/-- GOLINE: edge/routines.go:57-80, 267-279 -/
def p2pStep (P : Platform) (e : EdgeClient) : P2PEvent → Go (EdgeClient × List Output)
  | .message env packet addr => e.handlePacket P env packet addr
  | .tick env => .ok (e.handleP2PUpdates P env)

end EdgeClient

/-! ## Single updates of the registry -/

namespace PeerRegistry

/-- What an edge does to its registry, one update at a time: the calls of the package, what
`PingPeer`, a pong and a report make of one record, and the sweep over the pending peers.
GOLINE: edge/routines.go:17-54, edge/handlers.go:210-240, edge/handlers_missing.go:44-72 -/
inductive Operation where
  | call (c : Call)
  | ping (now : ℤ) (p : PeerRef) (asAvailable : Bool) (checkid : Bytes)
  | pong (now : ℤ) (p : PeerRef) (checkId : Bytes) (fromSupernode : Bool)
  | report (now : ℤ) (macAddr : Bytes)
  | sweep (now : ℤ) (order : MapOrder)

/-- The status that `PingPeer` is called with.
GOLINE: edge/routines.go:19-38 -/
def pingStatus (asAvailable : Bool) : P2PCapacity := if asAvailable then .available else .pending

/-- The registry after one update. -/
def operate (services : Bytes → Option ℕ) (reg : PeerRegistry) : Operation → Go (PeerRegistry × Unit)
  | .call c => reg.call services c
  | .ping now p asAvailable checkid =>
    .ok (reg.updateStatus now p (pingStatus asAvailable) checkid, ())
  | .pong now p checkId fromSupernode =>
    .ok (EdgeClient.recordPong now reg p checkId fromSupernode, ())
  | .report now macAddr => .ok (EdgeClient.markAvailable now reg macAddr, ())
  | .sweep now order => .ok ((reg.getP2PendingPeers now order).1, ())

end PeerRegistry

/-! ## Reports beside the receive goroutine -/

/-- Where `sendP2PInfos` is: before its test, and after each of its steps. What it has
collected are pointers into the records.
GOLINE: edge/requests.go:69-88, p2p/p2p.go:134-146 -/
inductive ReportPos where
  | idle
  | tested
  | copied (toPeers : List PeerRef)
  | cleared (toPeers : List PeerRef)

/-- A registry that one goroutine changes and another one reports; `last` are the peers of
the last report that went out. -/
structure Reporter where
  reg : PeerRegistry
  pos : ReportPos
  last : List PeerInfo

namespace Reporter

/-- The receive goroutine makes a call, or `sendP2PInfos` takes its next step. -/
inductive Event where
  | receive (c : PeerRegistry.Call)
  | report (order : MapOrder) (waiting : Bool)

/-- GOLINE: p2p/p2p.go:134-146 -/
def peerPointers (order : MapOrder) (reg : PeerRegistry) : List PeerRef :=
  match reg.me with
  | none => []
  | some _ => order.visit reg.peers.values

/-- The infos behind the pointers. -/
def read (reg : PeerRegistry) (toPeers : List PeerRef) : List PeerInfo :=
  toPeers.map fun p => (reg.records.cell p).infos

/-- One step of one of the two goroutines.
GOLINE: edge/requests.go:69-88 -/
def step (services : Bytes → Option ℕ) (s : Reporter) : Event → Go (Reporter × Unit)
  | .receive c => do
    let (reg, _) ← s.reg.call services c
    .ok ({ s with reg := reg }, ())
  | .report order waiting => .ok (
    match s.pos with
    | .idle => if ¬ waiting ∧ s.reg.hasPendingChanges then { s with pos := .tested } else s
    | .tested => { s with pos := .copied (peerPointers order s.reg) }
    | .copied toPeers => { s with reg := s.reg.clearPendingChanges, pos := .cleared toPeers }
    | .cleared toPeers => { s with pos := .idle, last := read s.reg toPeers }, ())

/-- The last snapshot: the one being sent, or the one that went out. -/
def snapshot (s : Reporter) : List PeerInfo :=
  match s.pos with
  | .copied toPeers | .cleared toPeers => read s.reg toPeers
  | _ => s.last

end Reporter

end N2nGo
