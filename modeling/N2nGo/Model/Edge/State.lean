import N2nGo.Model.PeerRegistry
import N2nGo.Model.Machine
import N2nGo.Model.Transform

/-!
# The state of an edge

Package `edge`: what an edge keeps while it runs. `Platform` collects what it uses from
outside the repository: the protobuf codecs, RSA with the supernode's public key, the
cipher, the compressor and the table of named services. `Env` is what one call sees of
the world around it: the clock, the order in which maps are visited, the random bytes
drawn, and which writes succeed.

The connection, the TAP device and the WebSocket are present or absent; what is written
to them is the `Output` of a call. Fields that no modelled function reads (timers, the
NAT client, fragments, management server) are left out; the hosts file is modelled by itself.
-/

set_option autoImplicit false

namespace N2nGo

open N2nGo.Lib N2nGo.Protocol N2nGo.Messages

/-- The part of the web API that the message handlers touch.
GOLINE: edge/api.go:29-34 -/
structure EdgeClientApi where
  isWaitingForLeasesInfos : Bool
  lastLeasesInfos : Option LeasesInfos

/-- A public key is kept as the bytes it was parsed from. The MAC address has six bytes: it
is the machine's predictable one or that of the TAP device.
GOLINE: edge/client.go:31-93 -/
structure EdgeClient where
  peers : PeerRegistry
  id : Bytes
  community : Bytes
  supernodeAddr : Option Net.UDPAddr
  conn : Bool
  wssTransport : Bool
  seq : UInt32
  enableVFuze : Bool
  macAddr : MacID
  machineId : Bytes
  packetsSent : ℕ
  packetsRecv : ℕ
  eapi : Option EdgeClientApi
  snPubKey : Option Bytes
  registered : Bool
  isWaitingForSNPubKeyUpdate : Bool
  isWaitingForSNRetryRegisterResponse : Bool
  payloadProcessor : PayloadProcessor

namespace EdgeClient

/-- GOLINE: edge/config.go:14-45 -/
structure Config where
  edgeID : Bytes
  community : Bytes
  enableVFuze : Bool
  compressPayload : Bool
  encryptionPassphrase : Bytes

/-- What an edge uses from outside the repository. -/
structure Platform where
  codecs : Codecs
  publicKeyFromPEMData : Bytes → Option Bytes
  encryptOAEP : (key sequence : Bytes) → Option Bytes
  zstd : Transform.Zstd
  gcm : (passphrase : Bytes) → Transform.GCM
  services : Bytes → Option ℕ

/-- Where an edge writes to. -/
inductive Dest where
  | udp (addr : Option Net.UDPAddr)
  | wss
  | tap
  deriving DecidableEq

/-- One write. -/
structure Output where
  dest : Dest
  data : Bytes
  ok : Bool
  deriving DecidableEq

/-- What one call sees of the world. `writeOk n d p` says whether a write of `p` to `d`
succeeds when the call has made `n` writes before. -/
structure Env where
  now : ℤ
  order : MapOrder
  rand : ℕ → Transform.Rand
  writeOk : ℕ → Dest → Bytes → Bool

/-- `uint32(time.Now().Unix())`. -/
def Env.unix (env : Env) : UInt32 := UInt32.ofNat (env.now / 1000000000).toNat

/-- The errors of package `edge`. -/
inductive Err where
  | protocol (e : Protocol.Err)
  | p2p (e : P2P.Err)
  | nackRegister
  | processingIncoming (e : Transform.Err)
  | tapWrite
  | edgeDoesNotHandleRequest
  | notRetryRegisterRequest
  | p2pFullStateRequest
  | cannotParseSource
  | pingRecipientDiffers
  | missingTargetMAC
  | cannotParseTargetMAC (targetMAC : Bytes)
  | invalidPEM
  | encryptFailed
  | enforceP2PNilDest
  | enforceP2PPeerNotFound (e : P2P.Err)
  | failedToSendWSS
  | failedToSendUDP
  | noTransport
  | waitingForSupernode
  deriving DecidableEq

/-- The transforms the configuration asks for.
GOLINE: edge/client.go:171-189 -/
def configuredTransforms (P : Platform) (cfg : Config) : List Transform :=
  (if cfg.compressPayload then [Transform.zstdTransform P.zstd] else []) ++
  (if cfg.encryptionPassphrase ≠ [] then
    [Transform.aesGCMTransform (P.gcm cfg.encryptionPassphrase)] else [])

/-- GOLINE: edge/client.go:191-194 -/
def processorTransforms (P : Platform) (cfg : Config) : List Transform :=
  if configuredTransforms P cfg = [] then [Transform.noOpTransform] else configuredTransforms P cfg

theorem processorTransforms_ne_nil (P : Platform) (cfg : Config) :
    processorTransforms P cfg ≠ [] := by
  unfold processorTransforms
  split
  · simp
  · assumption

/-- GOLINE: edge/client.go:196-199 -/
def payloadProcessorFor (P : Platform) (cfg : Config) : PayloadProcessor :=
  ⟨processorTransforms P cfg, processorTransforms_ne_nil P cfg⟩

/-- An edge as `NewEdgeClient` returns it, with the transports the network setup made.
GOLINE: edge/client.go:118-254 -/
def newEdgeClient (P : Platform) (cfg : Config) (machineId : Bytes) (snAddr : Net.UDPAddr)
    (useWSS : Bool) (noPeer : Peer) : EdgeClient where
  peers := .newPeerRegistry cfg.community noPeer
  id := cfg.edgeID
  community := cfg.community
  supernodeAddr := some snAddr
  conn := !useWSS
  wssTransport := useWSS
  seq := 0
  enableVFuze := cfg.enableVFuze
  macAddr := Machine.extGenerateMacFor cfg.community machineId
  machineId := machineId
  packetsSent := 0
  packetsRecv := 0
  eapi := none
  snPubKey := none
  registered := false
  isWaitingForSNPubKeyUpdate := false
  isWaitingForSNRetryRegisterResponse := false
  payloadProcessor := payloadProcessorFor P cfg

end EdgeClient

end N2nGo
