import N2nGo.Model.Protocol
import N2nGo.Lib.Table

/-!
# Message types

The protobuf messages of packages `netstruct` and `p2p`, with the fields of the
`.proto` files. A sub-message that may be absent is an `Option`; a map field that may
be nil after decoding is an `Option` of a table. Elements of a repeated field are
never absent.
-/

set_option autoImplicit false

namespace N2nGo.Messages

open N2nGo.Lib N2nGo.Protocol

/-! ## Package `netstruct` -/

/-- GOLINE: protocol/netstruct/proto/register.proto -/
structure SnPublicSecret where
  isRequest : Bool
  pemData : Bytes
  deriving DecidableEq

structure RegisterRequest where
  edgeMacAddr : Bytes
  edgeDesc : Bytes
  communityName : Bytes
  encryptedMachineId : Bytes
  clearMachineId : Bytes
  deriving DecidableEq

structure RegisterResponse where
  isRegisterOk : Bool
  virtualIp : Bytes
  masklen : ℕ
  deriving DecidableEq

structure HeartbeatPulse where
  edgeMacAddr : Bytes
  communityName : Bytes
  encryptedMachineId : Bytes
  clearMachineId : Bytes
  deriving DecidableEq

structure UnregisterRequest where
  edgeMacAddr : Bytes
  communityName : Bytes
  encryptedMachineId : Bytes
  deriving DecidableEq

/-- GOLINE: protocol/netstruct/proto/peer.proto -/
structure PeerListRequest where
  communityName : Bytes
  deriving DecidableEq

structure PeerToPing where
  checkId : Bytes
  isPong : Bool
  deriving DecidableEq

/-- GOLINE: protocol/netstruct/proto/leasesinfos.proto -/
structure IppoolLease where
  ip : Bytes
  mac : Bytes
  expiryNs : ℤ
  sticky : Bool
  lastRenewNs : ℤ
  deriving DecidableEq

structure LeaseEdgeInfos where
  edgeId : Bytes
  isRegistered : Bool
  timeSinceLastUpdateNs : ℤ
  virtualIp : Bytes
  deriving DecidableEq

structure LeaseWithEdgeInfos where
  lease : IppoolLease
  leaseEdgeInfos : LeaseEdgeInfos
  deriving DecidableEq

structure LeasesInfos where
  isRequest : Bool
  communityName : Bytes
  leasesWithEdgesInfos : Table Bytes LeaseWithEdgeInfos

structure OnlineCheck where
  isReply : Bool
  cookie : Bytes
  deriving DecidableEq

/-- GOLINE: protocol/netstruct/proto/ice_turn.proto -/
structure ICECandidate where
  targetMac : Bytes
  candidate : Bytes
  sdpMid : Bytes
  sdpMlineIndex : UInt32
  deriving DecidableEq

structure TURNCredentials where
  username : Bytes
  password : Bytes
  ttl : UInt32
  uris : List Bytes
  deriving DecidableEq

/-- GOLINE: protocol/netstruct/ack.go:11-15 -/
structure Ack where
  deriving DecidableEq

/-! ## Package `p2p` -/

/-- GOLINE: p2p/proto/p2p.proto -/
structure PeerInfo where
  virtualIp : Bytes
  macAddr : Bytes
  pubSocket : Bytes
  community : Bytes
  desc : Bytes
  deriving DecidableEq

structure PeerInfoList where
  hasOrigin : Bool
  origin : Option PeerInfo
  peerInfos : List PeerInfo
  eventType : UInt32
  deriving DecidableEq

structure PeerP2PInfos where
  fromPeer : Option PeerInfo
  toPeers : List PeerInfo
  deriving DecidableEq

structure PeerCachedInfo where
  desc : Bytes
  macAddr : Bytes
  virtualIp : Bytes
  community : Bytes
  lastUpdateNs : ℤ
  deriving DecidableEq

structure P2PFullState where
  communityName : Bytes
  isRequest : Bool
  reachables : Option (Table Bytes PeerP2PInfos)
  unreachables : Option (Table Bytes PeerCachedInfo)

/-- `p2p.PeerInfoEventType`, a `uint8`.
GOLINE: p2p/peer.go:3-9 -/
def typeList : UInt8 := 1
def typeRegister : UInt8 := 2
def typeUnregister : UInt8 := 3

/-! ## Packet types -/

/-- GOLINE: protocol/netstruct/packet_type.go:12-30 -/
instance : PacketTyped LeasesInfos := ⟨typeLeasesInfos⟩
instance : PacketTyped OnlineCheck := ⟨typeOnlineCheck⟩
instance : PacketTyped SnPublicSecret := ⟨typeSNPublicSecret⟩
instance : PacketTyped RegisterRequest := ⟨typeRegisterRequest⟩
instance : PacketTyped RegisterResponse := ⟨typeRegisterResponse⟩
instance : PacketTyped HeartbeatPulse := ⟨typeHeartbeat⟩
instance : PacketTyped UnregisterRequest := ⟨typeUnregisterRequest⟩
instance : PacketTyped PeerListRequest := ⟨typePeerListRequest⟩
instance : PacketTyped PeerToPing := ⟨typePing⟩
instance : PacketTyped ICECandidate := ⟨typeICECandidate⟩
instance : PacketTyped TURNCredentials := ⟨typeTURNCredentials⟩
instance : PacketTyped Ack := ⟨typeAck⟩

/-- GOLINE: p2p/packet_type.go:10-12 -/
instance : PacketTyped PeerInfoList := ⟨typePeerInfo⟩
instance : PacketTyped PeerP2PInfos := ⟨typeP2PStateInfo⟩
instance : PacketTyped P2PFullState := ⟨typeP2PFullState⟩

/-- The protobuf codec of every message type. -/
structure Codecs where
  snPublicSecret : Codec SnPublicSecret
  registerRequest : Codec RegisterRequest
  registerResponse : Codec RegisterResponse
  heartbeatPulse : Codec HeartbeatPulse
  unregisterRequest : Codec UnregisterRequest
  peerListRequest : Codec PeerListRequest
  peerToPing : Codec PeerToPing
  leasesInfos : Codec LeasesInfos
  onlineCheck : Codec OnlineCheck
  iceCandidate : Codec ICECandidate
  turnCredentials : Codec TURNCredentials
  peerInfoList : Codec PeerInfoList
  peerP2PInfos : Codec PeerP2PInfos
  p2pFullState : Codec P2PFullState

end N2nGo.Messages
