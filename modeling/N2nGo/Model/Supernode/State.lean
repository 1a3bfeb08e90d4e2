import N2nGo.Model.Messages

/-!
# The state of a supernode

Package `supernode`: the records it keeps and the tables that index them. Edge
records and communities are shared through pointers in the source, so they live in
heaps and the tables hold addresses: a heartbeat that changes an edge's address in
place changes what every table shows.

`Platform` collects what the supernode uses from outside the repository: the
protobuf codecs, RSA decryption with the supernode's private key, SHA-256 and the
`ippool` package. `Env` is what one call sees of the world around it: the clock, the
order in which maps are visited, and which socket writes succeed.

Of `Config` and `SupernodeStats` only the fields that the modelled functions use are
kept.
-/

set_option autoImplicit false

namespace N2nGo

open N2nGo.Lib N2nGo.Protocol N2nGo.Messages

/-- A pointer to an `Edge`. -/
abbrev EdgeRef := ℕ

/-- A pointer to a `Community`. -/
abbrev CommunityRef := ℕ

/-- A pointer to a `transport.WSSTransport`. -/
abbrev ConnRef := ℕ

/-- GOLINE: supernode/edge.go:11-18 -/
structure EdgeCachedInfos where
  macAddr : Bytes
  desc : Bytes
  community : Bytes
  isRegistered : Bool
  updatedAt : ℤ
  virtualIP : Net.Addr
  deriving DecidableEq

/-- GOLINE: supernode/edge.go:21-37 -/
structure Edge where
  desc : Bytes
  publicIP : Bytes
  publicPort : ℕ
  community : Bytes
  virtualIP : Net.Addr
  vNetMaskLen : ℕ
  lastHeartbeat : ℤ
  lastSequence : UInt16
  macAddr : Bytes
  machineID : Bytes
  wssConnID : Bytes
  deriving DecidableEq

/-- GOLINE: supernode/edge.go:39-41 -/
def Edge.udpAddr (e : Edge) : Net.UDPAddr := ⟨e.publicIP, e.publicPort, []⟩

/-- GOLINE: supernode/edge.go:43-52 -/
def Edge.peerInfo (e : Edge) : PeerInfo :=
  { virtualIp := e.virtualIP.string
    macAddr := (Net.parseMAC e.macAddr).getD []
    pubSocket := Net.ipString e.publicIP ++ 58 :: Net.itoa e.publicPort
    community := e.community
    desc := e.desc }

/-- A `netip.Prefix` over IPv4. -/
structure Prefix where
  addr : UInt32
  bits : ℕ
  deriving DecidableEq

/-- `fmt.Sprintf("%s/%d", ...)` of a prefix. -/
def Prefix.cidr (p : Prefix) : Bytes := Net.dotted (putUint32 p.addr) ++ 47 :: Net.itoa p.bits

/-- GOLINE: supernode/community.go:54-73 -/
structure Community where
  name : Bytes
  subnet : Prefix
  maskLen : ℕ
  ips : ℕ
  communityPeerP2PInfos : Table Bytes PeerP2PInfos
  edges : Table Bytes EdgeRef

/-- A lease of the `ippool` package. -/
structure Lease where
  ip : Bytes
  mac : Bytes
  expiry : ℤ
  sticky : Bool
  lastRenew : ℤ
  deriving DecidableEq

/-- An `ippool.IPPool`: its network and its leases by MAC address. -/
structure IPPool where
  cidr : Bytes
  leases : Table Bytes Lease

/-- GOLINE: supernode/network.go:10-13 -/
structure NetworkAllocator where
  baseNetwork : Bytes
  mask : Bytes
  deriving DecidableEq

/-- GOLINE: supernode/config.go:12-34 -/
structure Supernode.Config where
  enableVFuze : Bool
  expiryDuration : ℤ
  deriving DecidableEq

/-- The counters are `atomic.Uint64` in the source; here they do not wrap.
GOLINE: supernode/stats.go:9-21 -/
structure SupernodeStats where
  packetsProcessed : ℕ
  packetsForwarded : ℕ
  packetsDropped : ℕ
  edgesRegistered : ℕ
  edgesUnregistered : ℕ
  heartbeatsReceived : ℕ
  lastCleanupTime : ℤ
  lastCleanupEdges : ℕ
  deriving DecidableEq

/-- `ips` of a community points into `pools`; `registeredPools` is the registry of the
`ippool` package, by CIDR.
GOLINE: supernode/supernode.go:23-55 -/
structure Supernode where
  netAllocator : NetworkAllocator
  communities : Table UInt32 CommunityRef
  cms : Heap Community
  edgesByMAC : Table Bytes EdgeRef
  edgesBySocket : Table Bytes EdgeRef
  edges : Heap Edge
  edgeCachedInfos : Table Bytes EdgeCachedInfos
  pools : Heap IPPool
  registeredPools : Table Bytes ℕ
  config : Supernode.Config
  stats : SupernodeStats
  pem : Bytes
  wssConnections : Table Bytes ConnRef

namespace Supernode

/-- What the supernode uses from outside the repository. A function that may fail
returns `none`. -/
structure Platform where
  codecs : Codecs
  decryptOAEP : Bytes → Option Bytes
  sha256 : Bytes → Bytes
  length_sha256 : ∀ p, (sha256 p).length = 32
  newIPPool : Bytes → Option IPPool
  requestIP : IPPool → (mac : Bytes) → (sticky : Bool) → (now : ℤ) → Option Bytes × IPPool

/-- Where a packet is written to. -/
inductive Dest where
  | udp (addr : Net.UDPAddr)
  | wss (conn : ConnRef)
  deriving DecidableEq

/-- One attempt to send a packet. `target` is the edge record `forwardPacket` was called
for, `none` for a reply to an address; `dest` is `none` when the record names a
connection that is gone and nothing is written. -/
structure Sent where
  target : Option Edge
  dest : Option Dest
  packet : Bytes
  ok : Bool

/-- What one call sees of the world. Its `range` statements visit maps in the orders `orders`,
and `writeOk n d p` says whether a write of `p` to `d` succeeds when the call has attempted
`n` sends before. -/
structure Env where
  now : ℤ
  orders : ℕ → MapOrder
  writeOk : ℕ → Dest → Bytes → Bool

abbrev Env.order (env : Env) : MapOrder := env.orders 0

/-- The world when the `range` statements before the `n`th have been passed. -/
def Env.ranging (env : Env) (n : ℕ) : Env := { env with orders := fun k => env.orders (n + k) }

/-- `uint32(time.Now().Unix())`. -/
def Env.unix (env : Env) : UInt32 := UInt32.ofNat (env.now / 1000000000).toNat

/-- The errors of package `supernode`. -/
inductive Err where
  | protocol (e : Protocol.Err)
  | failedToDecrypt
  | macMismatch (computed claimed : Bytes)
  | wrongHash (hash : UInt32) (communityName : Bytes) (expected : UInt32)
  | differentNameExists (hash : UInt32) (communityName : Bytes)
  | failedToAllocateNetwork (communityName : Bytes)
  | newIPPoolFailed (cidr : Bytes)
  | ipAllocationFailed
  | virtualIPUnparsable (ip : Bytes)
  | communityMismatch (edgeMACAddr : Bytes)
  | communityNotFound
  | communityUnknownEdge (communityName edgeMACAddr : Bytes)
  | unicastForwardFail (edgeMACAddr : Bytes)
  | failedToForward (edgeMACAddr : Bytes)
  | unknownEdge (communityName edgeMACAddr : Bytes)
  | wrongMachineID (communityName edgeMACAddr : Bytes)
  | notARequest
  | wssConnectionNotFound (connID : Bytes)
  | failedToSend
  | nonUDPAddress
  deriving DecidableEq

/-- `errors.Is(err, ErrCommunityUnknownEdge) || errors.Is(err, ErrCommunityNotFound)`. -/
def Err.asksForRegistration : Err → Bool
  | .communityUnknownEdge _ _ => true
  | .communityNotFound => true
  | _ => false

/-- Change the counters. -/
def count (s : Supernode) (f : SupernodeStats → SupernodeStats) : Supernode :=
  { s with stats := f s.stats }

/-- `net.CIDRMask(ones, 32)`; empty where Go returns nil. -/
def cidrMask (ones : ℕ) : Bytes :=
  if ones ≤ 32 then putUint32 (UInt32.ofNat (2 ^ 32 - 2 ^ (32 - ones))) else []

/-- GOLINE: supernode/network.go:17-22 -/
def newNetworkAllocator (baseNetwork mask : Bytes) : NetworkAllocator :=
  ⟨Net.to4 baseNetwork, mask⟩

/-- A supernode as it starts.
GOLINE: supernode/supernode.go:71-104 -/
def newSupernodeWithConfig (config : Config) (netAllocator : NetworkAllocator) (pem : Bytes)
    (noCommunity : Community) (noEdge : Edge) (noPool : IPPool) : Supernode :=
  { netAllocator := netAllocator
    communities := ∅
    cms := ⟨fun _ => noCommunity, 0⟩
    edgesByMAC := ∅
    edgesBySocket := ∅
    edges := ⟨fun _ => noEdge, 0⟩
    edgeCachedInfos := ∅
    pools := ⟨fun _ => noPool, 0⟩
    registeredPools := ∅
    config := config
    stats := ⟨0, 0, 0, 0, 0, 0, 0, 0⟩
    pem := pem
    wssConnections := ∅ }

end Supernode

end N2nGo
