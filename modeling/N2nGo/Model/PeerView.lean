import N2nGo.Model.Supernode.Handlers
import N2nGo.Model.Edge.Routines

/-!
# How edges learn about their peers

A supernode that answers requests and expires edges, and edges that read its peer lists.
The packets with peer lists for one edge arrive in the order they were sent, and none is
lost: they wait until the edge reads them.
-/

set_option autoImplicit false

namespace N2nGo

open N2nGo.Lib N2nGo.Protocol

/-- A supernode, the packets with peer lists under way to each edge, the oldest first, and
the edges. Edges are named by the text of their MAC addresses. -/
structure PeerView where
  sn : Supernode
  inbox : Bytes → List Bytes
  edge : Bytes → EdgeClient

namespace PeerView

/-- The packet carries a peer list. -/
def isPeerInfo (packet : Bytes) : Bool :=
  match unpackProtoVDatagram packet with
  | .ok (.ok (header, _)) => header.packetType = typePeerInfo
  | _ => false

/-- The member that asks for the peer list. -/
def requester : Supernode.Event → Option Bytes
  | .packet _ packet addr =>
    match newRawMessage packet addr with
    | .ok (.ok r) => if r.header.packetType = typePeerListRequest then some r.edgeMACAddr else none
    | _ => none
  | _ => none

/-- The edge that a packet is for: the member that has asked, or the one whose record the
packet was sent to. -/
def recipient (asking : Option Bytes) (x : Supernode.Sent) : Option Bytes :=
  asking.or (x.target.map Edge.macAddr)

/-- The peer lists among `out` that are for the edge. -/
def arrivals (asking : Option Bytes) (out : List Supernode.Sent) (mac : Bytes) : List Bytes :=
  (out.filter fun x => recipient asking x = some mac && isPeerInfo x.packet).map
    Supernode.Sent.packet

/-- Something happens at the supernode, or an edge reads the next packet, which it sees
come from `addr`. -/
inductive Event where
  | supernode (ev : Supernode.Event)
  | read (mac : Bytes) (env : EdgeClient.Env) (addr : NetAddr)

/-- GOLINE: supernode/supernode.go:133-163, edge/routines.go:267-279 -/
def step (P : Supernode.Platform) (Q : EdgeClient.Platform) (w : PeerView) :
    Event → Go (PeerView × List Supernode.Sent)
  | .supernode ev => do
    let (sn, out) ← Supernode.step P w.sn ev
    .ok ({ w with
      sn := sn
      inbox := fun mac => w.inbox mac ++ arrivals (requester ev) out mac }, out)
  | .read mac env addr =>
    match w.inbox mac with
    | [] => .ok (w, [])
    | packet :: rest => do
      let (e, _) ← (w.edge mac).handlePacket Q env packet addr
      .ok ({ w with
        inbox := Function.update w.inbox mac rest
        edge := Function.update w.edge mac e }, [])

end PeerView

end N2nGo
