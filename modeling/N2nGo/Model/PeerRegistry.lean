import N2nGo.Model.Messages

/-!
# What an edge knows of its peers

Package `p2p`: the records an edge keeps of the other members of its community, how a
peer list from the supernode changes them, and how it learns which peers it reaches
directly. Records are shared by the two tables of the registry, so they live in a heap.

The drawings of the community (`GenPeersDot` and the like) are left out.
-/

set_option autoImplicit false

namespace N2nGo

open N2nGo.Lib N2nGo.Messages

/-- GOLINE: p2p/p2p.go:11-17 -/
inductive UDPWriteStrategy where
  | enforceSupernode
  | bestEffort
  | enforceP2P
  deriving DecidableEq

/-- GOLINE: p2p/p2p.go:19-27 -/
inductive P2PCapacity where
  | unknown
  | pending
  | available
  | fullDuplex
  | unavailable
  deriving DecidableEq

/-- GOLINE: p2p/p2p.go:51-58 -/
structure Peer where
  infos : PeerInfo
  p2pStatus : P2PCapacity
  isFullDuplex : Bool
  p2pCheckID : Bytes
  pendingTTL : ℤ
  updatedAt : ℤ
  deriving DecidableEq

/-- A pointer to a `Peer`. -/
abbrev PeerRef := ℕ

/-- The two maps of `P2PCommunityDatas` are nil until the supernode has sent them.
GOLINE: p2p/p2p.go:46-49, 64-74 -/
structure PeerRegistry where
  communityName : Bytes
  me : Option Peer
  peers : Table Bytes PeerRef
  peerBySocket : Table Bytes PeerRef
  records : Heap Peer
  reachables : Option (Table Bytes PeerP2PInfos)
  unReachables : Option (Table Bytes PeerCachedInfo)
  isWaitingCommunityDatas : Bool
  hasPendingChanges : Bool

namespace P2P

/-- The errors of the package. -/
inductive Err where
  | nilReachables
  | peerNotFound (macAddr : Bytes)
  | nilSocket
  | socketNotFound (socket : Bytes)
  | peerExists (macAddr : Bytes)
  | notAvailable
  | unknownEventType (eventType : UInt32)
  | failedToAddPeer (cause : Err)
  deriving DecidableEq

/-- GOLINE: p2p/p2p.go:297-308 -/
def parseUDPAddr (services : Bytes → Option ℕ) (socket : Bytes) : Option Net.UDPAddr :=
  match Net.splitHostPort socket with
  | none => none
  | some (host, portStr) =>
    let ip := Net.parseIP host
    if ip = [] then none else some ⟨ip, Net.lookupPort services portStr, []⟩

end P2P

namespace Peer

/-- GOLINE: p2p/p2p.go:293-295 -/
def udpAddr (services : Bytes → Option ℕ) (p : Peer) : Option Net.UDPAddr :=
  P2P.parseUDPAddr services p.infos.pubSocket

/-- GOLINE: p2p/p2p.go:60-62 -/
def resetPendingTTL (p : Peer) : Peer := { p with pendingTTL := 30 }

/-- The record afterwards, and whether it changed.
GOLINE: p2p/p2p.go:185-198 -/
def setFullDuplex (p : Peer) (value : Bool) : Peer × Except P2P.Err Bool :=
  if value ∧ p.p2pStatus ≠ .available then (p, .error .notAvailable)
  else ({ p with isFullDuplex := value }, .ok (value != p.isFullDuplex))

/-- The record afterwards, and whether the status asked for is new. Once the budget is
used up the status is not the one asked for.
GOLINE: p2p/p2p.go:200-228 -/
def updateP2PStatus (now : ℤ) (p : Peer) (status : P2PCapacity) (checkid : Bytes) : Peer × Bool :=
  let q :=
    if p.p2pStatus = status then
      if status = .pending then { p with pendingTTL := p.pendingTTL - 1 } else p
    else if p.p2pStatus = .unknown ∧ status = .pending then p.resetPendingTTL
    else p
  let q :=
    if q.pendingTTL < 1 then { q with p2pCheckID := [], p2pStatus := .unavailable }
    else { q with p2pCheckID := checkid, p2pStatus := status }
  ({ q with updatedAt := now }, p.p2pStatus ≠ status)

end Peer

namespace PeerRegistry

open P2P

/-- GOLINE: p2p/p2p.go:126-132 -/
def newPeerRegistry (communityName : Bytes) (noPeer : Peer) : PeerRegistry where
  communityName := communityName
  me := none
  peers := ∅
  peerBySocket := ∅
  records := ⟨fun _ => noPeer, 0⟩
  reachables := none
  unReachables := none
  isWaitingCommunityDatas := false
  hasPendingChanges := false

/-- GOLINE: p2p/p2p.go:76-92 -/
def updateP2PCommunityDatas (reg : PeerRegistry) (reachables : Option (Table Bytes PeerP2PInfos))
    (unreachables : Option (Table Bytes PeerCachedInfo)) : PeerRegistry × Except Err Unit :=
  match reachables with
  | none => (reg, .error .nilReachables)
  | some reachables =>
    ({ reg with
        reachables := some reachables
        unReachables := some (unreachables.getD ∅)
        isWaitingCommunityDatas := false }, .ok ())

/-- GOLINE: p2p/p2p.go:152-154 -/
def setPendingChanges (reg : PeerRegistry) : PeerRegistry := { reg with hasPendingChanges := true }

/-- The flag is set if `changed`. -/
def setPendingChangesIf (reg : PeerRegistry) (changed : Bool) : PeerRegistry :=
  if changed then reg.setPendingChanges else reg

/-- GOLINE: p2p/p2p.go:160-169 -/
def getPeer (reg : PeerRegistry) (macAddr : Bytes) : Except Err PeerRef :=
  match reg.peers.lookup macAddr with
  | none => .error (.peerNotFound macAddr)
  | some p => .ok p

/-- GOLINE: p2p/p2p.go:171-183 -/
def getPeerBySocket (reg : PeerRegistry) : Option Net.UDPAddr → Except Err PeerRef
  | none => .error .nilSocket
  | some addr =>
    match reg.peerBySocket.lookup addr.string with
    | none => .error (.socketNotFound addr.string)
    | some p => .ok p

/-- Overwrite the record of a peer. -/
def store (reg : PeerRegistry) (p : PeerRef) (peer : Peer) : PeerRegistry :=
  { reg with records := reg.records.store p peer }

/-- `UpdateP2PStatus` of a peer of the registry, and the announcement of a change. -/
def updateStatus (now : ℤ) (reg : PeerRegistry) (p : PeerRef) (status : P2PCapacity)
    (checkid : Bytes) : PeerRegistry :=
  let (peer, changed) := (reg.records.cell p).updateP2PStatus now status checkid
  (reg.store p peer).setPendingChangesIf changed

/-- `SetFullDuplex` of a peer of the registry, and the announcement of a change. -/
def updateFullDuplex (reg : PeerRegistry) (p : PeerRef) (value : Bool) : PeerRegistry :=
  match (reg.records.cell p).setFullDuplex value with
  | (_, .error _) => reg
  | (peer, .ok changed) => (reg.store p peer).setPendingChangesIf changed

/-- The record of a known peer after a peer list names it again. New addresses make its
reachability unknown.
GOLINE: p2p/p2p.go:240-248 -/
def overwritten (now : ℤ) (existing : Peer) (infos : PeerInfo) : Peer :=
  let p :=
    if existing.infos.virtualIp ≠ infos.virtualIp ∨ existing.infos.pubSocket ≠ infos.pubSocket then
      { existing with p2pStatus := .unknown, p2pCheckID := [] }
    else existing
  { p with infos := infos, updatedAt := now }

/-- GOLINE: p2p/p2p.go:230-268 -/
def addPeer (services : Bytes → Option ℕ) (now : ℤ) (reg : PeerRegistry) (infos : PeerInfo)
    (overwrite : Bool) : PeerRegistry × Except Err PeerRef :=
  let macAddr := Net.hardwareAddrString infos.macAddr
  match reg.peers.lookup macAddr with
  | some ref =>
    if ¬ overwrite then (reg, .error (.peerExists macAddr))
    else
      let orig := reg.records.cell ref
      let peer := overwritten now orig infos
      (({ reg with
          records := reg.records.store ref peer
          peerBySocket := (reg.peerBySocket.erase (Net.udpAddrString (orig.udpAddr services))).insert
            (Net.udpAddrString (peer.udpAddr services)) ref } : PeerRegistry).setPendingChanges, .ok ref)
  | none =>
    let ref := reg.records.next
    let peer : Peer := ⟨infos, .unknown, false, [], 0, now⟩
    (({ reg with
        records := reg.records.alloc peer
        peers := reg.peers.insert macAddr ref
        peerBySocket := reg.peerBySocket.insert
          (Net.udpAddrString (peer.udpAddr services)) ref } : PeerRegistry).setPendingChanges, .ok ref)

/-- Removing a peer that is not there is no error.
GOLINE: p2p/p2p.go:270-291 -/
def removePeer (services : Bytes → Option ℕ) (reg : PeerRegistry) (macAddr : Bytes) : PeerRegistry :=
  match reg.peers.lookup macAddr with
  | none => reg
  | some ref =>
    ({ reg with
      peers := reg.peers.erase macAddr
      peerBySocket := reg.peerBySocket.erase
        (Net.udpAddrString ((reg.records.cell ref).udpAddr services)) } : PeerRegistry).setPendingChanges

/-- GOLINE: p2p/p2p.go:366-371, 389-394 -/
def addPeers (services : Bytes → Option ℕ) (now : ℤ) (overwrite : Bool) :
    List PeerInfo → PeerRegistry → PeerRegistry × Except Err Unit
  | [], reg => (reg, .ok ())
  | info :: infos, reg =>
    match addPeer services now reg info overwrite with
    | (reg, .error e) => (reg, .error (.failedToAddPeer e))
    | (reg, .ok _) => addPeers services now overwrite infos reg

/-- GOLINE: p2p/p2p.go:372-386 -/
def removeUnlisted (services : Bytes → Option ℕ) (order : MapOrder) (infos : List PeerInfo)
    (reg : PeerRegistry) : PeerRegistry :=
  let newPeers := infos.map fun info => Net.hardwareAddrString info.macAddr
  ((order.visit reg.peers.keys).filter (· ∉ newPeers)).foldl (removePeer services) reg

/-- An origin that is announced is followed without a test.
GOLINE: p2p/p2p.go:358-365 -/
def setOrigin (now : ℤ) (reg : PeerRegistry) (peerInfoList : PeerInfoList) : Go PeerRegistry :=
  if peerInfoList.hasOrigin then do
    let infos ← deref peerInfoList.origin
    .ok { reg with me := some ⟨infos, .unknown, false, [], 0, now⟩ }
  else .ok reg

/-- The peers of a list come in, and without `reset` the others go.
GOLINE: p2p/p2p.go:366-386 -/
def syncPeers (services : Bytes → Option ℕ) (now : ℤ) (order : MapOrder) (infos : List PeerInfo)
    (reset overwrite : Bool) (reg : PeerRegistry) : PeerRegistry × Except Err Unit :=
  match addPeers services now overwrite infos reg with
  | (reg, .error e) => (reg, .error e)
  | (reg, .ok _) => (if reset then reg else removeUnlisted services order infos reg, .ok ())

/-- The event type is cut to a byte.
GOLINE: p2p/p2p.go:347-406 -/
def handlePeerInfoList (services : Bytes → Option ℕ) (now : ℤ) (order : MapOrder)
    (reg : PeerRegistry) (peerInfoList : PeerInfoList) (reset overwrite : Bool) :
    Go (PeerRegistry × Except Err Unit) :=
  let eventType := peerInfoList.eventType.toUInt8
  let infos := peerInfoList.peerInfos
  if eventType = typeList then do
    let reg ← setOrigin now (if reset then { reg with peers := ∅, peerBySocket := ∅ } else reg)
      peerInfoList
    .ok (syncPeers services now order infos reset overwrite reg)
  else if eventType = typeRegister then .ok (addPeers services now overwrite infos reg)
  else if eventType = typeUnregister then
    .ok ((infos.map fun info => Net.hardwareAddrString info.macAddr).foldl
      (removePeer services) reg, .ok ())
  else .ok (reg, .error (.unknownEventType peerInfoList.eventType))

/-- The calls that change which peers there are. -/
inductive Call where
  | addPeer (now : ℤ) (infos : PeerInfo) (overwrite : Bool)
  | removePeer (macAddr : Bytes)
  | handlePeerInfoList (now : ℤ) (order : MapOrder) (peerInfoList : PeerInfoList)
      (reset overwrite : Bool)

/-- The registry after a call. -/
def call (services : Bytes → Option ℕ) (reg : PeerRegistry) : Call → Go (PeerRegistry × Unit)
  | .addPeer now infos overwrite => .ok ((addPeer services now reg infos overwrite).1, ())
  | .removePeer macAddr => .ok (removePeer services reg macAddr, ())
  | .handlePeerInfoList now order peerInfoList reset overwrite => do
    let (reg, _) ← handlePeerInfoList services now order reg peerInfoList reset overwrite
    .ok (reg, ())

end PeerRegistry

end N2nGo
