import N2nGo.Lib.Encoding
import N2nGo.Lib.NetText

/-!
# Packets on the wire

Package `protocol`: the 30-byte ProtoV header, the 7-byte VFuze header, the message
a received packet is turned into, and the hash that names a community in a header.

Reading a packet is written with the checked `index` and `slice`, so whether the
length tests in front of them suffice is a fact about these definitions and not an
assumption of them. The protobuf codec is outside the repository's sources; a
`Codec` is a parameter wherever a payload is encoded or decoded.
-/

set_option autoImplicit false

namespace N2nGo.Protocol

open N2nGo.Lib

/-! ## Headers -/

/-- A `[6]byte` field. -/
@[ext] structure MacID where
  bytes : Bytes
  length_eq : bytes.length = 6
  deriving DecidableEq

/-- The value of a `[6]byte` that is not set. -/
def MacID.zero : MacID := ⟨List.replicate 6 0, rfl⟩

/-- `spec.PacketType`.
GOLINE: protocol/spec/spec.go:4 -/
abbrev PacketType := UInt8

def typeRegisterRequest : PacketType := 1
def typeUnregisterRequest : PacketType := 2
def typeHeartbeat : PacketType := 3
def typeData : PacketType := 4
def typeAck : PacketType := 5
def typePeerListRequest : PacketType := 6
def typePeerInfo : PacketType := 7
def typePing : PacketType := 8
def typeP2PStateInfo : PacketType := 9
def typeP2PFullState : PacketType := 10
def typeLeasesInfos : PacketType := 11
def typeOnlineCheck : PacketType := 12
def typeICECandidate : PacketType := 14
def typeTURNCredentials : PacketType := 15
def typeSNPublicSecret : PacketType := 251
def typeRegisterResponse : PacketType := 252
def typeRetryRegisterRequest : PacketType := 253

/-- GOLINE: protocol/protoV.go:11-12 -/
def protoVHeaderSize : ℕ := 30
def versionV : UInt8 := 5

/-- GOLINE: protocol/vfuze.go:9-10 -/
def protoVFuzeSize : ℕ := 7
def versionVFuze : UInt8 := 0x51

/-- GOLINE: protocol/protocol.go:30 -/
def flagFromSuperNode : UInt8 := 0x02

/-- GOLINE: protocol/protoV.go:16-35 -/
structure ProtoVHeader where
  version : UInt8
  ttl : UInt8
  packetType : PacketType
  flags : UInt8
  sequence : UInt16
  communityID : UInt32
  sourceID : MacID
  destID : MacID
  timestamp : UInt32
  checksum : UInt32
  deriving DecidableEq

/-- The zero address is no address.
GOLINE: protocol/protoV.go:37-53 -/
def bytesToMAC (arr : MacID) : Option Bytes :=
  if arr.bytes.all (· == 0) then none else some arr.bytes

namespace ProtoVHeader

/-- GOLINE: protocol/protoV.go:97-103 -/
def setFlag (h : ProtoVHeader) (flag : UInt8) (value : Bool) : ProtoVHeader :=
  if value then { h with flags := h.flags ||| flag } else { h with flags := h.flags &&& ~~~flag }

/-- GOLINE: protocol/protoV.go:105-107 -/
def hasFlag (h : ProtoVHeader) (flag : UInt8) : Bool := h.flags &&& flag != 0

/-- GOLINE: protocol/protoV.go:109-111 -/
def setFromSupernode (h : ProtoVHeader) (value : Bool) : ProtoVHeader :=
  h.setFlag flagFromSuperNode value

/-- GOLINE: protocol/protoV.go:112-114 -/
def isFromSupernode (h : ProtoVHeader) : Bool := h.hasFlag flagFromSuperNode

/-- What `binary.Write` emits: the fields big-endian, in declaration order. -/
def encode (h : ProtoVHeader) : Bytes :=
  [h.version, h.ttl, h.packetType, h.flags] ++ putUint16 h.sequence ++ putUint32 h.communityID ++
    h.sourceID.bytes ++ h.destID.bytes ++ putUint32 h.timestamp ++ putUint32 h.checksum

/-- What `binary.Read` fills in from at least 30 bytes. -/
def decode (p : Bytes) (len : protoVHeaderSize ≤ p.length) : ProtoVHeader :=
  have hp : 30 ≤ p.length := len
  { version := p[0]
    ttl := p[1]
    packetType := p[2]
    flags := p[3]
    sequence := uint16 p[4] p[5]
    communityID := uint32 p[6] p[7] p[8] p[9]
    sourceID := ⟨(p.drop 10).take 6, by simp; omega⟩
    destID := ⟨(p.drop 16).take 6, by simp; omega⟩
    timestamp := uint32 p[22] p[23] p[24] p[25]
    checksum := uint32 p[26] p[27] p[28] p[29] }

end ProtoVHeader

/-! ## Errors -/

/-- The errors of package `protocol` and of its codec. -/
inductive Err where
  | packetTooShort
  | notVersionV
  | parsingHeader
  | shortPacketNotVFuze
  | notVersionVFuze
  | notPacketOfType (want : PacketType)
  | decoding
  | encoding
  | noMessageHandler (packetType : PacketType)
  deriving DecidableEq, Repr

/-! ## Datagrams -/

/-- GOLINE: protocol/message.go:20-25 -/
def packProtoVDatagram (header : ProtoVHeader) (payload : Bytes) : Bytes :=
  header.encode ++ payload

/-- GOLINE: protocol/message.go:27-43 -/
def unpackProtoVDatagram (packet : Bytes) : Go (Except Err (ProtoVHeader × Bytes)) :=
  if packet.length < protoVHeaderSize then .ok (.error .packetTooShort)
  else do
    let version ← index packet 0
    if version ≠ versionV then .ok (.error .notVersionV)
    else
      let head ← slice packet 0 protoVHeaderSize
      let payload ← slice packet protoVHeaderSize packet.length
      if len : protoVHeaderSize ≤ head.length then .ok (.ok (.decode head len, payload))
      else .ok (.error .parsingHeader)

/-- GOLINE: protocol/message.go:78-85 -/
def flagPacketFromSupernode (packet : Bytes) : Go (Except Err Bytes) := do
  match ← unpackProtoVDatagram packet with
  | .error e => .ok (.error e)
  | .ok (header, payload) => .ok (.ok (packProtoVDatagram (header.setFromSupernode true) payload))

/-- GOLINE: protocol/vfuze.go:20-25 -/
def vFuzeHeaderBytes (dst : Bytes) : Go Bytes := do
  let head ← slice dst 0 6
  .ok (versionVFuze :: head)

/-- GOLINE: protocol/vfuze.go:27-35 -/
def vFuzePacketDestMACAddr (packet : Bytes) : Go (Except Err Bytes) :=
  if packet.length < protoVFuzeSize then .ok (.error .shortPacketNotVFuze)
  else do
    let version ← index packet 0
    if version ≠ versionVFuze then .ok (.error .notVersionVFuze)
    else
      let dst ← slice packet 1 7
      .ok (.ok dst)

/-! ## Messages -/

/-- The `net.Addr` values the nodes receive packets from: a UDP socket, or a WebSocket
connection known by its name (`wssAddr`).
GOLINE: supernode/supernode.go:379-390 -/
inductive NetAddr where
  | udp (addr : Net.UDPAddr)
  | wss (connID : Bytes)
  deriving DecidableEq, Repr

/-- `addr.String()`. -/
def NetAddr.string : NetAddr → Bytes
  | .udp addr => addr.string
  | .wss connID => connID

/-- GOLINE: protocol/message.go:13-18 -/
structure RawMessage where
  header : ProtoVHeader
  payload : Bytes
  fromAddr : NetAddr
  rawPacket : Bytes
  deriving DecidableEq

namespace RawMessage

/-- The destination as text, empty for the zero address.
GOLINE: protocol/message.go:57-62 -/
def destMACAddr (r : RawMessage) : Bytes :=
  match bytesToMAC r.header.destID with
  | some mac => Net.hardwareAddrString mac
  | none => []

/-- The source as text, empty for the zero address.
GOLINE: protocol/message.go:64-69 -/
def edgeMACAddr (r : RawMessage) : Bytes :=
  match bytesToMAC r.header.sourceID with
  | some mac => Net.hardwareAddrString mac
  | none => []

/-- GOLINE: protocol/message.go:70-72 -/
def communityHash (r : RawMessage) : UInt32 := r.header.communityID

end RawMessage

/-- GOLINE: protocol/message.go:87-99 -/
def newRawMessage (packet : Bytes) (addr : NetAddr) : Go (Except Err RawMessage) := do
  match ← unpackProtoVDatagram packet with
  | .error e => .ok (.error e)
  | .ok (header, payload) => .ok (.ok ⟨header, payload, addr, packet⟩)

/-- The protobuf codec of one message type; `none` is its error. -/
structure Codec (T : Type) where
  encode : T → Option Bytes
  decode : Bytes → Option T

/-- The packet type a message type travels under. -/
class PacketTyped (T : Type) where
  packetType : PacketType

/-- GOLINE: protocol/message.go:131-134 -/
structure Message (T : Type) extends RawMessage where
  msg : T

/-- GOLINE: protocol/message.go:148-161 -/
def toMessage {T : Type} [PacketTyped T] (codec : Codec T) (r : RawMessage) :
    Except Err (Message T) :=
  if r.header.packetType ≠ PacketTyped.packetType T then
    .error (.notPacketOfType (PacketTyped.packetType T))
  else match codec.decode r.payload with
    | some v => .ok { r with msg := v }
    | none => .error .decoding

/-! ## Community hash -/

/-- The hash is folded over the code points of the name, not over its bytes.
GOLINE: protocol/protocol.go:110-125 -/
def hashCommunity (community : Bytes) : UInt32 :=
  if community = [] then 0
  else (runes community).foldl (fun hash c => (hash ^^^ UInt32.ofNat c) * 16777619) 2166136261

/-! ## The supernode's own address -/

/-- `CA:FE:C0:FF:EE:00`.
GOLINE: protocol/ident.go:7-17 -/
def supernodeMACAddr : MacID := ⟨[0xCA, 0xFE, 0xC0, 0xFF, 0xEE, 0x00], rfl⟩

example : Net.parseMAC (ascii "CA:FE:C0:FF:EE:00") = some supernodeMACAddr.bytes := by decide

end N2nGo.Protocol
