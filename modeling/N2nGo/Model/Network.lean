import N2nGo.Model.Edge.Routines
import N2nGo.Model.Supernode.Handlers

/-!
# A supernode and the edges around it

How one frame travels: an edge reads it from its TAP device and writes a packet to the
supernode, the supernode forwards the packet, and whoever listens where it was forwarded
to may write to its own TAP device. Packets are neither lost nor changed in between: a
write that succeeds arrives.
-/

set_option autoImplicit false

namespace N2nGo

open N2nGo.Lib N2nGo.Protocol

/-- Where packets for the supernode are written to. -/
def EdgeClient.uplink (e : EdgeClient) : EdgeClient.Dest :=
  if e.wssTransport then .wss else .udp e.supernodeAddr

/-- The same edge with the fast path switched on or off. -/
def EdgeClient.Running.withVFuze (s : EdgeClient.Running) (v : Bool) : EdgeClient.Running :=
  { s with edge := { s.edge with enableVFuze := v } }

/-- The same supernode with the fast path switched on or off. -/
def Supernode.withVFuze (s : Supernode) (v : Bool) : Supernode :=
  { s with config := { s.config with enableVFuze := v } }

/-- A sender, the supernode, and the edges that listen. The supernode sees the sender at
`addr`, the listeners see the supernode at `snAddr`. Whether the supernode can write
depends on the destination alone (`up`). -/
structure Network where
  edgePlatform : EdgeClient.Platform
  sender : EdgeClient.Running
  senderEnv : EdgeClient.Env
  addr : NetAddr
  supernodePlatform : Supernode.Platform
  supernode : Supernode
  now : ℤ
  order : MapOrder
  up : Supernode.Dest → Bool
  snAddr : NetAddr
  listener : Supernode.Dest → Option EdgeClient.Running
  listenerEnv : EdgeClient.Env

namespace Network

/-- What the supernode sees of the world. -/
def supernodeEnv (N : Network) : Supernode.Env := 
  ⟨N.now, fun _ => N.order, fun _ dest _ => N.up dest⟩

/-- The network with the fast path switched on or off at every node. -/
def withVFuze (N : Network) (v : Bool) : Network :=
  { N with
    sender := N.sender.withVFuze v
    supernode := N.supernode.withVFuze v
    listener := fun dest => (N.listener dest).map (·.withVFuze v) }

/-- Reading the frame makes the sender write the packet to the supernode.
GOLINE: edge/routines.go:144-213 -/
def Sends (N : Network) (frame packet : Bytes) : Prop :=
  ∃ sender' out w, N.sender.step N.edgePlatform (.frame N.senderEnv frame) = .ok (sender', out) ∧
    w ∈ out ∧ w.ok = true ∧ w.dest = N.sender.edge.uplink ∧ w.data = packet

/-- The packet makes the supernode write `packet'` to `dest`.
GOLINE: supernode/supernode.go:133-163 -/
def Forwards (N : Network) (packet : Bytes) (dest : Supernode.Dest) (packet' : Bytes) : Prop :=
  ∃ s' out x, Supernode.processPacket N.supernodePlatform N.supernodeEnv N.supernode packet N.addr =
      .ok (s', out) ∧ x ∈ out ∧ x.ok = true ∧ x.dest = some dest ∧ x.packet = packet'

/-- The packet makes whoever listens at `dest` write `data` to its TAP device.
GOLINE: edge/routines.go:249-280 -/
def WritesTap (N : Network) (dest : Supernode.Dest) (packet data : Bytes) : Prop :=
  ∃ node node' out w, N.listener dest = some node ∧
    node.step N.edgePlatform (.datagram N.listenerEnv packet N.snAddr) = .ok (node', out) ∧
    w ∈ out ∧ w.dest = .tap ∧ w.data = data

/-- Which TAP devices the frame reaches, and what is written there. -/
def tapWrites (N : Network) (frame : Bytes) : Set (Supernode.Dest × Bytes) :=
  {x | ∃ packet packet', N.Sends frame packet ∧ N.Forwards packet x.1 packet' ∧
    N.WritesTap x.1 packet' x.2}

end Network

end N2nGo
