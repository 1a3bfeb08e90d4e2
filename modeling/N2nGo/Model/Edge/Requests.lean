import N2nGo.Model.Edge.Ticks

/-!
# Requests of an edge to the supernode

The messages that an edge sends of its own accord and that are answered, or not, much
later: it reports its peers, asks for the state of the community and for the leases on
behalf of its web page, and leaves. Each sender keeps a mark that tells a later call
whether there is anything to send: the pending changes, the two waiting flags, and the
`sync.Once` of the last message.
-/

set_option autoImplicit false

namespace N2nGo

open N2nGo.Lib N2nGo.Protocol N2nGo.Messages

namespace EdgeClient

/-- GOLINE: edge/requests.go:90-107 -/
def sendP2PFullStateRequest (P : Platform) (env : Env) (e : EdgeClient) : Go Reply :=
  if e.peers.isWaitingCommunityDatas then .ok (e, [], .ok ())
  else
    (e.withPeers { e.peers with isWaitingCommunityDatas := true }).sendStruct
      P.codecs.p2pFullState P env [] (⟨e.community, true, some ∅, some ∅⟩ : P2PFullState) none
      .enforceSupernode

/-- A method of the web API, which belongs to the edge; it is called on a nil pointer where
there is none.
GOLINE: edge/requests.go:109-123 -/
def sendLeasesInfosRequest (P : Platform) (env : Env) (e : EdgeClient) : Go Reply := do
  let eapi ← deref e.eapi
  if eapi.isWaitingForLeasesInfos then .ok (e, [], .ok ())
  else
    let (e, out, err) ← e.sendStruct P.codecs.leasesInfos P env []
      (⟨true, e.community, ∅⟩ : LeasesInfos) none .enforceSupernode
    match err with
    | .error err => .ok (e, out, .error err)
    | .ok () =>
      .ok ({ e with eapi := some { eapi with isWaitingForLeasesInfos := true } }, out, .ok ())

end EdgeClient

/-- An edge with its `unregisterOnce`, which is set once the guarded function has run.
GOLINE: edge/client.go:69 -/
structure Client where
  edge : EdgeClient
  unregisterOnce : Bool

namespace Client

open EdgeClient

/-- The errors of the requests; the texts that wrap an error of `SendStruct` are left out. -/
inductive RequestErr where
  | cannotUnregister
  | edge (cause : EdgeClient.Err)
  deriving DecidableEq

/-- What a request returns: the edge, the writes, and its error. -/
abbrev Answer := Client × List Output × Except RequestErr Unit

/-- GOLINE: edge/requests.go:10-34 -/
def unregister (P : Platform) (env : Env) (c : Client) : Go Answer :=
  if ¬ c.edge.registered then .ok (c, [], .error .cannotUnregister)
  else do
    match ← c.edge.encryptedMachineID P with
    | .error err => .ok (c, [], .error (.edge err))
    | .ok encMacid =>
      if c.unregisterOnce then .ok (c, [], .ok ())
      else
        let (e, out, err) ← c.edge.sendStruct P.codecs.unregisterRequest P env []
          (⟨Net.hardwareAddrString c.edge.macAddr.bytes, c.edge.community, encMacid⟩ :
            UnregisterRequest) none .enforceSupernode
        .ok (⟨e, true⟩, out, err.mapError .edge)

/-- The four requests. -/
inductive Request where
  | unregister
  | p2pInfos
  | p2pFullState
  | leasesInfos
  deriving DecidableEq

/-- A request that does not touch the guard. -/
def lift (c : Client) (reply : Go Reply) : Go Answer := do
  let (e, out, err) ← reply
  .ok ({ c with edge := e }, out, err.mapError .edge)

/-- GOLINE: edge/requests.go:10-34, 69-123 -/
def request (P : Platform) (env : Env) (c : Client) : Request → Go Answer
  | .unregister => c.unregister P env
  | .p2pInfos => c.lift (c.edge.sendP2PInfos P env)
  | .p2pFullState => c.lift (c.edge.sendP2PFullStateRequest P env)
  | .leasesInfos => c.lift (c.edge.sendLeasesInfosRequest P env)

end Client

end N2nGo
