import N2nGo.Lib.ByteOrder
import N2nGo.Lib.Split
import N2nGo.Model.PeerRegistry

/-!
# The topology of a community

The part of package `p2p` that turns what peers report about each other into the pairs of a
graph. A directed pair of descriptions is stored under the two texts joined by an arrow, an
unordered pair under the two texts joined by a comma; both are taken apart again by
splitting.
-/

set_option autoImplicit false

namespace N2nGo.P2Viz

open N2nGo.Lib N2nGo.Messages

/-- GOLINE: p2p/p2viz.go:98-106 -/
inductive ConnectionType where
  | fullP2P
  | partialAtoB
  | partialBtoA
  | noP2P
  deriving DecidableEq

/-- GOLINE: p2p/p2viz.go:108-113 -/
structure ConnectionInfo where
  status : P2PCapacity
  fromPeer : Bytes
  toPeer : Bytes
  deriving DecidableEq

/-! ## Keys -/

def arrow : Bytes := ascii "->"

def comma : Bytes := ascii ","

/-- The first two pieces of a key.
GOLINE: p2p/p2viz.go:121-130, 152-161 -/
def firstTwo (sep : Bytes) (err : String) (key : Bytes) : Except Bytes (Bytes × Bytes) :=
  match split sep key with
  | a :: b :: _ => .ok (a, b)
  | _ => .error (ascii err)

/-- GOLINE: p2p/p2viz.go:117-119 -/
def newPeerDirectedPairKey (fromPeer toPeer : Bytes) : Bytes := fromPeer ++ arrow ++ toPeer

/-- GOLINE: p2p/p2viz.go:121-130 -/
def getDirectedPeers : Bytes → Except Bytes (Bytes × Bytes) :=
  firstTwo arrow "bogus cannot decode bogus PeerDirectedPairKey"

/-- GOLINE: p2p/p2viz.go:142-150 -/
def newPeerPairKey (peerA peerB : Bytes) : Bytes :=
  if byteLe peerB peerA = false then peerA ++ comma ++ peerB else peerB ++ comma ++ peerA

/-- GOLINE: p2p/p2viz.go:132-138 -/
def toPeerPairKey (key : Bytes) : Except Bytes Bytes :=
  match getDirectedPeers key with
  | .error e => .error e
  | .ok (fromPeer, toPeer) => .ok (newPeerPairKey fromPeer toPeer)

/-- GOLINE: p2p/p2viz.go:152-161 -/
def getPeers : Bytes → Except Bytes (Bytes × Bytes) :=
  firstTwo comma "bogus cannot decode bogus PeerPairKey"

/-! ## The graph -/

/-- GOLINE: p2p/p2viz.go:163-170 -/
structure CommunityP2PVizDatas where
  communityName : Bytes
  peersDescToVIP : Table Bytes Bytes
  p2pAvailabilityInfos : Table Bytes PeerP2PInfos
  connectionData : Table Bytes ConnectionInfo
  peerPairs : Table Bytes Bool
  p2pStates : Table Bytes ConnectionType

/-- `GetFrom().GetDesc()`; the getters of a nil message return the empty string. -/
def fromDesc (peerInfo : PeerP2PInfos) : Bytes := (peerInfo.fromPeer.map PeerInfo.desc).getD []

/-- `GetFrom().GetVirtualIp()`. -/
def fromVIP (peerInfo : PeerP2PInfos) : Bytes := (peerInfo.fromPeer.map PeerInfo.virtualIp).getD []

/-- The inner loop: what one peer reports. The status is never filled in.
GOLINE: p2p/p2viz.go:184-192 -/
def addConnections (connectionData : Table Bytes ConnectionInfo) (peerInfo : PeerP2PInfos) :
    Table Bytes ConnectionInfo :=
  peerInfo.toPeers.foldl (fun data toPeer =>
    data.insert (newPeerDirectedPairKey (fromDesc peerInfo) toPeer.desc)
      ⟨.unknown, fromDesc peerInfo, toPeer.desc⟩) connectionData

/-- GOLINE: p2p/p2viz.go:225-241 -/
def getConnectionType (peerA peerB : Bytes) (connectionData : Table Bytes ConnectionInfo) :
    ConnectionType :=
  let available := fun (info : ConnectionInfo) => info.status == .available
  let aToBisP2P := (connectionData.lookup (newPeerDirectedPairKey peerA peerB)).any available
  let bToAisP2P := (connectionData.lookup (newPeerDirectedPairKey peerB peerA)).any available
  if aToBisP2P && bToAisP2P then .fullP2P
  else if aToBisP2P && !bToAisP2P then .partialAtoB
  else if !aToBisP2P && bToAisP2P then .partialBtoA
  else .noP2P

/-- The first loop, but for the addresses of the peers.
GOLINE: p2p/p2viz.go:178-193 -/
def connections (byPeer : MapOrder) (peerInfos : Table Bytes PeerP2PInfos) :
    Table Bytes ConnectionInfo :=
  (byPeer.visit peerInfos.values).foldl addConnections ∅

/-- A loop that makes one entry for each key, or stops at an error. -/
def fill {V : Type} (entry : Bytes → Except Bytes (Bytes × V)) :
    List Bytes → Table Bytes V → Except Bytes (Table Bytes V)
  | [], t => .ok t
  | key :: keys, t =>
    match entry key with
    | .error e => .error e
    | .ok (k, v) => fill entry keys (t.insert k v)

/-- GOLINE: p2p/p2viz.go:197-201 -/
def pairEntry (connKey : Bytes) : Except Bytes (Bytes × Bool) :=
  match toPeerPairKey connKey with
  | .error e => .error e
  | .ok pairKey => .ok (pairKey, true)

/-- GOLINE: p2p/p2viz.go:206-212 -/
def stateEntry (connectionData : Table Bytes ConnectionInfo) (pairKey : Bytes) :
    Except Bytes (Bytes × ConnectionType) :=
  match getPeers pairKey with
  | .error e => .error e
  | .ok (peerA, peerB) => .ok (pairKey, getConnectionType peerA peerB connectionData)

/-- The three maps are visited in orders of their own.
GOLINE: p2p/p2viz.go:172-223 -/
def newCommunityP2PVizDatas (byPeer byConn byPair : MapOrder) (community : Bytes)
    (peerInfos : Table Bytes PeerP2PInfos) : Except Bytes CommunityP2PVizDatas :=
  let peersDescToVIP := (byPeer.visit peerInfos.values).foldl
    (fun t peerInfo => t.insert (fromDesc peerInfo) (fromVIP peerInfo)) ∅
  let connectionData := connections byPeer peerInfos
  match fill pairEntry (byConn.visit connectionData.keys) ∅ with
  | .error e => .error e
  | .ok peerPairs =>
    match fill (stateEntry connectionData) (byPair.visit peerPairs.keys) ∅ with
    | .error e => .error e
    | .ok p2pStates => .ok
        { communityName := community
          peersDescToVIP := peersDescToVIP
          p2pAvailabilityInfos := peerInfos
          connectionData := connectionData
          peerPairs := peerPairs
          p2pStates := p2pStates }

end N2nGo.P2Viz
