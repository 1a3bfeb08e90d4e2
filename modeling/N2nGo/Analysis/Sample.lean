import N2nGo.Analysis.Events
import N2nGo.Model.Edge.Routines

/-!
# Nodes to evaluate

Platforms with every external part filled in by something computable, a supernode and
edges that have just started, and the packets edges send. RSA is the identity, and a
request is laid out as one length byte, the community name and the machine ID; the
cipher appends a tag of zeros, and the compressor packs runs of one byte. The concrete
inputs of the results below are built from these.
-/

set_option autoImplicit false

namespace N2nGo.Sample

open N2nGo.Lib N2nGo.Protocol N2nGo.Messages N2nGo.Supernode

/-- The community name and the machine ID in a request. -/
def splitRequest : Bytes → Option (Bytes × Bytes)
  | [] => none
  | n :: rest => some (rest.take n.toNat, rest.drop n.toNat)

def silent {T : Type} : Codec T := ⟨fun _ => some [], fun _ => none⟩

def codecs : Codecs where
  snPublicSecret := silent
  registerRequest := ⟨fun _ => some [], fun p =>
    (splitRequest p).map fun (name, id) => ⟨[], [], name, id, []⟩⟩
  registerResponse := silent
  heartbeatPulse := ⟨fun _ => some [], fun p =>
    (splitRequest p).map fun (name, id) => ⟨[], name, id, []⟩⟩
  unregisterRequest := ⟨fun _ => some [], fun p =>
    (splitRequest p).map fun (name, id) => ⟨[], name, id⟩⟩
  peerListRequest := silent
  peerToPing := silent
  leasesInfos := silent
  onlineCheck := silent
  iceCandidate := silent
  turnCredentials := silent
  peerInfoList := silent
  peerP2PInfos := silent
  p2pFullState := silent

/-- Addresses are leased in order. -/
def platform : Platform where
  codecs := codecs
  decryptOAEP := some
  sha256 := fun _ => List.replicate 32 0
  length_sha256 := fun _ => List.length_replicate
  newIPPool := fun cidr => some ⟨cidr, ∅⟩
  requestIP := fun pool mac sticky now =>
    let ip : Bytes := [10, 0, 0, UInt8.ofNat (pool.leases.entries.length + 1)]
    (some ip, { pool with leases := pool.leases.insert mac ⟨ip, mac, now, sticky, now⟩ })

def env : Env := ⟨0, fun _ => .stored, fun _ _ _ => true⟩

def noAddr : Net.Addr := ⟨[], []⟩

def noCommunity : Community := ⟨[], ⟨0, 0⟩, 0, 0, ∅, ∅⟩

def noEdge : Edge := ⟨[], [], 0, [], noAddr, 0, 0, 0, [], [], []⟩

/-- A supernode on the network 10.0.0.0/8 with the fast path enabled. -/
def start : Supernode :=
  newSupernodeWithConfig ⟨true, 100⟩ ⟨[10, 0, 0, 0], [255, 0, 0, 0]⟩ [] noCommunity noEdge ⟨[], ∅⟩

theorem reachable_start : Reachable platform start := .init ⟨_, _, _, _, _, _, rfl⟩

def client (n : UInt8) : NetAddr := .udp ⟨[192, 168, 0, n], 1000, []⟩

/-- The header of a packet from the edge with this machine ID in the community. -/
def header (pt : PacketType) (name id : Bytes) (dst : MacID) : ProtoVHeader where
  version := versionV
  ttl := 64
  packetType := pt
  flags := 0
  sequence := 0
  communityID := hashCommunity name
  sourceID := Machine.extGenerateMacFor name id
  destID := dst
  timestamp := 0
  checksum := 0

/-- A registration, heartbeat or removal request. -/
def request (pt : PacketType) (name id : Bytes) : Bytes :=
  packProtoVDatagram (header pt name id MacID.zero)
    (UInt8.ofNat name.length :: name ++ id)

/-- The request as it is received from `addr`. -/
def requestMessage (pt : PacketType) (name id : Bytes) (addr : NetAddr) : RawMessage :=
  ⟨header pt name id MacID.zero, UInt8.ofNat name.length :: name ++ id, addr, request pt name id⟩

theorem newRawMessage_request (pt : PacketType) (name id : Bytes) (addr : NetAddr) :
    newRawMessage (request pt name id) addr = .ok (.ok (requestMessage pt name id addr)) :=
  newRawMessage_pack rfl _ _

/-! ## Peer lists -/

/-- A byte of a string follows a one, and a zero ends the string. -/
def putStrings : List Bytes → Bytes
  | [] => []
  | s :: ss => s.flatMap (fun b => [1, b]) ++ 0 :: putStrings ss

def getStrings : Bytes → Option (List Bytes)
  | [] => some []
  | 0 :: rest => (getStrings rest).map ([] :: ·)
  | 1 :: b :: rest => (getStrings rest).bind fun
    | s :: ss => some ((b :: s) :: ss)
    | [] => none
  | _ => none

theorem getStrings_putStrings (ss : List Bytes) : getStrings (putStrings ss) = some ss := by
  induction ss with
  | nil => rfl
  | cons s ss ih =>
    induction s with
    | nil =>
      show (getStrings (putStrings ss)).map ([] :: ·) = _
      rw [ih]
      rfl
    | cons b s ih' =>
      show (getStrings (putStrings (s :: ss))).bind _ = _
      rw [ih']
      rfl

def putPeers : List PeerInfo → List Bytes
  | [] => []
  | info :: infos =>
    info.virtualIp :: info.macAddr :: info.pubSocket :: info.community :: info.desc :: putPeers infos

def getPeers : List Bytes → Option (List PeerInfo)
  | [] => some []
  | virtualIp :: macAddr :: pubSocket :: community :: desc :: rest =>
    (getPeers rest).map (⟨virtualIp, macAddr, pubSocket, community, desc⟩ :: ·)
  | _ => none

theorem getPeers_putPeers (infos : List PeerInfo) : getPeers (putPeers infos) = some infos := by
  induction infos with
  | nil => rfl
  | cons info infos ih =>
    show (getPeers (putPeers infos)).map _ = _
    rw [ih]
    rfl

/-- Lists of peers, the origin first. -/
def peerInfoList : Codec PeerInfoList where
  encode pil := some (putStrings ([pil.hasOrigin.toUInt8, pil.origin.isSome.toUInt8] ::
    putUint32 pil.eventType :: putPeers (pil.origin.toList ++ pil.peerInfos)))
  decode payload := do
    match ← getStrings payload with
    | [hasOrigin, someOrigin] :: [a, b, c, d] :: strings =>
      let infos ← getPeers strings
      let n := someOrigin.toNat
      some ⟨hasOrigin ≠ 0, (infos.take n).head?, infos.drop n, uint32 a b c d⟩
    | _ => none

theorem decode_peerInfoList (pil : PeerInfoList) :
    ∃ payload, peerInfoList.encode pil = some payload ∧ peerInfoList.decode payload = some pil := by
  refine ⟨_, rfl, ?_⟩
  show (getStrings (putStrings _) >>= _) = _
  rw [getStrings_putStrings]
  show (getPeers (putPeers _) >>= _) = _
  rw [getPeers_putPeers]
  obtain ⟨hasOrigin, origin, infos, eventType⟩ := pil
  have hflag : decide (hasOrigin.toUInt8 ≠ 0) = hasOrigin := by cases hasOrigin <;> rfl
  refine congrArg some ((PeerInfoList.mk.injEq ..).mpr ⟨hflag, ?_, ?_, uint32_putUint32 eventType⟩)
  · cases origin <;> rfl
  · cases origin <;> rfl

/-- Reports, the origin first. -/
def peerP2PInfos : Codec PeerP2PInfos where
  encode m := some (putStrings ([m.fromPeer.isSome.toUInt8] ::
    putPeers (m.fromPeer.toList ++ m.toPeers)))
  decode payload := do
    match ← getStrings payload with
    | [someFrom] :: strings =>
      let infos ← getPeers strings
      some ⟨(infos.take someFrom.toNat).head?, infos.drop someFrom.toNat⟩
    | _ => none

/-! ## Edges -/

/-- A cipher whose tag is sixteen zeros. -/
def gcm : Transform.GCM where
  sealBytes _ plaintext := plaintext ++ List.replicate 16 0
  openBytes _ ciphertext :=
    if ciphertext.length < 16 then none
    else if ciphertext.drop (ciphertext.length - 16) = List.replicate 16 0 then
      some (ciphertext.take (ciphertext.length - 16))
    else none
  length_seal _ _ := by simp [Transform.tagSize]
  open_seal _ _ := by simp
  open_short _ _ h := if_pos h

/-- A run of up to 255 equal bytes is packed into three bytes; anything else gets a leading
zero. -/
def compress : Bytes → Bytes
  | [] => [0]
  | b :: rest =>
    if rest = List.replicate rest.length b ∧ rest.length < 255 then
      [1, b, UInt8.ofNat (rest.length + 1)]
    else 0 :: b :: rest

def decompress : Bytes → Option Bytes
  | 0 :: data => some data
  | [1, b, n] => some (List.replicate n.toNat b)
  | _ => none

theorem decompress_compress (data : Bytes) : decompress (compress data) = some data := by
  cases data with
  | nil => rfl
  | cons b rest =>
    simp only [compress]
    split
    · next h =>
      have hn : (UInt8.ofNat (rest.length + 1)).toNat = rest.length + 1 := by
        rw [UInt8.toNat_ofNat']
        exact Nat.mod_eq_of_lt (by omega)
      show some (List.replicate (UInt8.ofNat (rest.length + 1)).toNat b) = _
      rw [hn, List.replicate_succ, ← h.1]
    · rfl

def zstd : Transform.Zstd where
  compress data := some (compress data)
  decompress := decompress
  decompress_compress h := by
    cases h
    exact decompress_compress _

def edgePlatform : EdgeClient.Platform where
  codecs := codecs
  publicKeyFromPEMData := some
  encryptOAEP _ sequence := some sequence
  zstd := zstd
  gcm _ := gcm
  services _ := none

/-- Random bytes are zeros, and every write succeeds. -/
def edgeEnv : EdgeClient.Env where
  now := 0
  order := .stored
  rand _ := ⟨fun n => some (List.replicate n 0), fun h => by cases h; exact List.length_replicate⟩
  writeOk _ _ _ := true

def noPeer : Peer := ⟨⟨[], [], [], [], []⟩, .unknown, false, [], 0, 0⟩

/-- Every edge has the fast path enabled. -/
def edgeConfig (name id : String) (compressPayload : Bool) (passphrase : Bytes) : EdgeClient.Config :=
  ⟨ascii id, ascii name, true, compressPayload, passphrase⟩

/-- The edge with this machine ID, about to run. -/
def edge (name id : String) (compressPayload : Bool) (passphrase : Bytes) : EdgeClient :=
  .newEdgeClient edgePlatform (edgeConfig name id compressPayload passphrase) (ascii id)
    ⟨[192, 168, 0, 254], 7777, []⟩ false noPeer

/-- The edge with the buffers of its loops fresh from the pool. -/
def running (e : EdgeClient) : EdgeClient.Running :=
  ⟨e, List.replicate EdgeClient.defaultBufferSize 0,
    List.replicate (EdgeClient.defaultBufferSize - protoVHeaderSize) 0⟩

end N2nGo.Sample
