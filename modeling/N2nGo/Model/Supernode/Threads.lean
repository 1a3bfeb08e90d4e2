import N2nGo.Lib.Interleave
import N2nGo.Model.Supernode.Handlers

/-!
# Packet workers side by side

The packet workers and the cleanup goroutine run at the same time. What one of them does
under one lock is an atomic step; between two locks any other goroutine may run. The
tasks below are the points at which a goroutine waits for its next lock, and `next` is
the step it takes there. Counters, answers and broadcasts change no table and are left
out.

`MemberTask` runs registrations and removals on one community, `CommunityTask` runs calls
of `RegisterCommunity` and the `EdgeUpdate` that follows each, and `P2PTask` runs the calls
that read and write the P2P infos of one community. `SweepTask` runs `CleanupStaleEdges` on all
communities beside the packet workers; there every step has its own time.
-/

set_option autoImplicit false

namespace N2nGo.Supernode

open N2nGo.Lib N2nGo.Protocol N2nGo.Messages

/-! ## Members of one community -/

/-- Where a goroutine that registers or removes members stands. -/
inductive MemberTask where
  /-- before `EdgeUpdate` -/
  | register (env : Env) (regMsg : Message RegisterRequest)
  /-- the record is in the community and not yet indexed -/
  | index (ref : EdgeRef) (regMsg : Message RegisterRequest)
  /-- before the lookup of `UnregisterEdge` -/
  | unregister (env : Env) (edgeMACAddr : Bytes)
  /-- before `CleanupStaleEdges` collects the stale edges -/
  | cleanup (env : Env)
  /-- before `Unregister` of the first of the edges -/
  | remove (env : Env) (ids : List Bytes)
  /-- the edge is out of the community and still indexed -/
  | unindex (env : Env) (id : Bytes) (ids : List Bytes)
  | done

/-- The next atomic step on community `cm`.
GOLINE: supernode/handlers.go:96-145, supernode/registration.go:76-143, supernode/cleanup.go:9-37 -/
def MemberTask.next (P : Platform) (cm : CommunityRef) (s : Supernode) :
    MemberTask → Go (Supernode × MemberTask)
  | .register env regMsg =>
    match edgeUpdate P env s cm regMsg with
    | (s, .error _) => .ok (s, .done)
    | (s, .ok ref) => .ok (s, .index ref regMsg)
  | .index ref regMsg => .ok ((s.setWSSConnID ref regMsg.fromAddr).indexEdge ref, .done)
  | .unregister env edgeMACAddr =>
    match (s.cms.cell cm).edges.lookup edgeMACAddr with
    | none => .ok (s, .done)
    | some _ => .ok (s, .remove env [edgeMACAddr])
  | .cleanup env => .ok (s, .remove env (getStaleEdgeIDs env s cm))
  | .remove _ [] => .ok (s, .done)
  | .remove env (id :: ids) =>
    match Supernode.unregister env s cm id with
    | (s, false) => .ok (s, .remove env ids)
    | (s, true) => .ok (s, .unindex env id ids)
  | .unindex env id ids => do
    let (s, _) ← s.unindexEdge id
    .ok (s, .remove env ids)
  | .done => .ok (s, .done)

/-! ## Creation of communities -/

/-- Where a goroutine in `RegisterEdge` stands with its call of `RegisterCommunity`. -/
inductive CommunityTask where
  /-- before the read lock -/
  | call (env : Env) (regMsg : Message RegisterRequest)
  /-- the hash was not found; before the write lock -/
  | missed (env : Env) (regMsg : Message RegisterRequest)
  /-- the call has returned; before `EdgeUpdate` -/
  | returned (env : Env) (regMsg : Message RegisterRequest) (res : Except Err CommunityRef)
  | done (regMsg : Message RegisterRequest) (res : Except Err CommunityRef)

/-- The next atomic step of the registration.
GOLINE: supernode/registration.go:14-52, supernode/registration.go:83-92 -/
def CommunityTask.next (P : Platform) (s : Supernode) :
    CommunityTask → Go (Supernode × CommunityTask)
  | .call env regMsg =>
    match s.registerCommunityRead regMsg.msg.communityName regMsg.communityHash with
    | .error e => .ok (s, .returned env regMsg (.error e))
    | .ok (some cm) => .ok (s, .returned env regMsg
        (s.existingCommunity regMsg.msg.communityName regMsg.communityHash cm))
    | .ok none => .ok (s, .missed env regMsg)
  | .missed env regMsg => do
    let (s, res) ←
      registerCommunityCreate P s regMsg.msg.communityName regMsg.communityHash none
    .ok (s, .returned env regMsg res)
  | .returned _ regMsg (.error e) => .ok (s, .done regMsg (.error e))
  | .returned env regMsg (.ok cm) =>
    .ok ((edgeUpdate P env s cm regMsg).1, .done regMsg (.ok cm))
  | .done regMsg res => .ok (s, .done regMsg res)

/-! ## P2P infos of one community -/

/-- What `Unregister` does before it takes `p2pMu`.
GOLINE: supernode/community.go:204-214 -/
def removeEdge (env : Env) (s : Supernode) (cm : CommunityRef) (edgeMACAddr : Bytes) :
    Option Supernode :=
  let c := s.cms.cell cm
  match c.edges.lookup edgeMACAddr with
  | none => none
  | some ref =>
    let edge := s.edges.cell ref
    let s := setEdgeCachedInfo env s edgeMACAddr edge.desc c.name false edge.virtualIP
    some { s with cms := s.cms.store cm { c with edges := c.edges.erase edgeMACAddr } }

/-- What `Unregister` does under `p2pMu`.
GOLINE: supernode/community.go:215-217 -/
def eraseP2PInfos (s : Supernode) (cm : CommunityRef) (edgeMACAddr : Bytes) : Supernode :=
  let c := s.cms.cell cm
  { s with cms := s.cms.store cm { c with
      communityPeerP2PInfos := c.communityPeerP2PInfos.erase edgeMACAddr } }

/-- What `SetP2PInfosFor` does under `p2pMu`.
GOLINE: supernode/community.go:132-134 -/
def writeP2PInfos (s : Supernode) (cm : CommunityRef) (edgeMacADDR : Bytes) (infos : PeerP2PInfos) :
    Supernode :=
  let c := s.cms.cell cm
  { s with cms := s.cms.store cm { c with
      communityPeerP2PInfos := c.communityPeerP2PInfos.insert edgeMacADDR infos } }

/-- What `GetCommunityPeerP2PInfosDatas` returns. Its `Reachables` are the map of the community
itself, not a copy, so they are not part of the value. -/
structure HeldFullState where
  communityName : Bytes
  unreachables : Table Bytes PeerCachedInfo

/-- What `GetCommunityPeerP2PInfosDatas` builds when it holds `edgeMu` again.
GOLINE: supernode/community.go:151-162 -/
def buildP2PFullState (env : Env) (s : Supernode) (cm : CommunityRef) : HeldFullState :=
  ⟨(s.cms.cell cm).name, getOfflineCachedEdges env s cm⟩

/-- What a full state says at a moment: the P2P infos are those that the community has then.
GOLINE: supernode/community.go:157-162 -/
def HeldFullState.read (state : HeldFullState) (s : Supernode) (cm : CommunityRef) : P2PFullState :=
  { communityName := state.communityName
    isRequest := false
    reachables := some (s.cms.cell cm).communityPeerP2PInfos
    unreachables := some state.unreachables }

/-- The state of the supernode and whether some goroutine that has been suspended holds the
community's `edgeMu`. -/
structure P2PShared where
  sn : Supernode
  edgeMu : Bool

/-- Where a goroutine that works with the P2P infos stands. -/
inductive P2PTask where
  /-- before the check of `SetP2PInfosFor` -/
  | report (edgeMacADDR : Bytes) (infos : PeerP2PInfos)
  /-- the edge was known; before `p2pMu` -/
  | write (edgeMacADDR : Bytes) (infos : PeerP2PInfos)
  /-- before `EdgeUpdate` -/
  | update (env : Env) (regMsg : Message RegisterRequest)
  /-- before `Unregister` -/
  | remove (env : Env) (edgeMACAddr : Bytes)
  /-- the edge is out of the community and `edgeMu` is held; before `p2pMu` -/
  | erase (edgeMACAddr : Bytes)
  /-- before the check of `GetCommunityPeerP2PInfosDatas` -/
  | ask (env : Env) (edgeMacADDR : Bytes)
  /-- the edge was known; before `edgeMu` -/
  | build (env : Env)
  /-- `GetCommunityPeerP2PInfosDatas` has returned; before `SendStruct` encodes the full state -/
  | send (state : HeldFullState)
  /-- the call has returned, and the full state that was asked for has been encoded -/
  | done (state : Option P2PFullState)

/-- The next atomic step on community `cm` of a goroutine that gets the lock it waits for. -/
def P2PTask.locked (P : Platform) (cm : CommunityRef) (s : Supernode) : P2PTask → P2PShared × P2PTask
  | .report mac infos =>
    match (s.cms.cell cm).edges.lookup mac with
    | none => (⟨s, false⟩, .done none)
    | some _ => (⟨s, false⟩, .write mac infos)
  | .update env regMsg => (⟨(edgeUpdate P env s cm regMsg).1, false⟩, .done none)
  | .remove env mac =>
    match removeEdge env s cm mac with
    | none => (⟨s, false⟩, .done none)
    | some s => (⟨s, true⟩, .erase mac)
  | .ask env mac =>
    match (s.cms.cell cm).edges.lookup mac with
    | none => (⟨s, false⟩, .done none)
    | some _ => (⟨s, false⟩, .build env)
  | .build env => (⟨s, false⟩, .send (buildP2PFullState env s cm))
  | t => (⟨s, false⟩, t)

/-- The next atomic step on community `cm`. While `edgeMu` is held, a goroutine that needs it
waits. A full state is encoded without a lock.
GOLINE: supernode/community.go:125-163, 203-222, 258-326, supernode/handlers.go:189-209 -/
def P2PTask.next (P : Platform) (cm : CommunityRef) (c : P2PShared) (t : P2PTask) :
    Go (P2PShared × P2PTask) :=
  match t with
  | .write mac infos => .ok ({ c with sn := writeP2PInfos c.sn cm mac infos }, .done none)
  | .erase mac => .ok (⟨eraseP2PInfos c.sn cm mac, false⟩, .done none)
  | .send state => .ok (c, .done (some (state.read c.sn cm)))
  | t => if c.edgeMu then .ok (c, t) else .ok (t.locked P cm c.sn)

/-! ## Stale edges of all communities -/

/-- The IDs of the members that have been silent for longer than `expiry`.
GOLINE: supernode/community.go:416-427 -/
def staleIDs (expiry : ℤ) (env : Env) (s : Supernode) (cm : CommunityRef) : List Bytes :=
  ((getAllEdges env s cm).filter fun edge => env.now - edge.lastHeartbeat > expiry).map Edge.macAddr

/-- Where a packet worker or a goroutine in `CleanupStaleEdges` stands. -/
inductive SweepTask where
  /-- before the read-locked half of `RegisterCommunity` -/
  | enter (regMsg : Message RegisterRequest)
  /-- before its write-locked half -/
  | missed (regMsg : Message RegisterRequest)
  /-- before `EdgeUpdate` -/
  | register (cm : CommunityRef) (regMsg : Message RegisterRequest)
  /-- the record is in the community and not yet indexed -/
  | index (ref : EdgeRef) (regMsg : Message RegisterRequest)
  /-- before a heartbeat's community is looked up -/
  | pulse (hbMsg : Message HeartbeatPulse)
  /-- before `RefreshEdge` -/
  | heartbeat (cm : CommunityRef) (hbMsg : Message HeartbeatPulse)
  /-- before the lookup of `UnregisterEdge` -/
  | leave (communityHash : UInt32) (edgeMACAddr : Bytes)
  /-- before `Unregister` -/
  | unregister (cm : CommunityRef) (edgeMACAddr : Bytes)
  /-- the edge is out of the community and still indexed -/
  | unindex (edgeMACAddr : Bytes)
  /-- before `CleanupStaleEdges` lists the communities -/
  | cleanup (expiry : ℤ)
  /-- before `GetStaleEdgeIDs` of the first of the communities -/
  | collect (expiry : ℤ) (cms : List CommunityRef) (stales : List (CommunityRef × List Bytes))
  /-- before `Unregister` of the first of the edges -/
  | sweep (expiry : ℤ) (ids : List (CommunityRef × Bytes))
  /-- the edge is out of the community and still indexed -/
  | swept (expiry : ℤ) (id : Bytes) (ids : List (CommunityRef × Bytes))
  | done

/-- The edges that were collected, one by one. -/
def flatten (stales : List (CommunityRef × List Bytes)) : List (CommunityRef × Bytes) :=
  stales.flatMap fun k => k.2.map fun id => (k.1, id)

/-- The next atomic step.
GOLINE: supernode/handlers.go:96-175, supernode/registration.go:14-143, supernode/cleanup.go:9-37 -/
def SweepTask.next (P : Platform) (env : Env) (s : Supernode) : SweepTask → Go (Supernode × SweepTask)
  | .enter regMsg =>
    match s.registerCommunityRead regMsg.msg.communityName regMsg.communityHash with
    | .error _ => .ok (s, .done)
    | .ok none => .ok (s, .missed regMsg)
    | .ok (some cm) =>
      match s.existingCommunity regMsg.msg.communityName regMsg.communityHash cm with
      | .error _ => .ok (s, .done)
      | .ok cm => .ok (s, .register cm regMsg)
  | .missed regMsg => do
    match ← registerCommunityCreate P s regMsg.msg.communityName regMsg.communityHash none with
    | (s, .error _) => .ok (s, .done)
    | (s, .ok cm) => .ok (s, .register cm regMsg)
  | .register cm regMsg =>
    match edgeUpdate P env s cm regMsg with
    | (s, .error _) => .ok (s, .done)
    | (s, .ok ref) => .ok (s, .index ref regMsg)
  | .index ref regMsg => .ok ((s.setWSSConnID ref regMsg.fromAddr).indexEdge ref, .done)
  | .pulse hbMsg =>
    match s.communities.lookup hbMsg.communityHash with
    | none => .ok (s, .done)
    | some cm => .ok (s, .heartbeat cm hbMsg)
  | .heartbeat cm hbMsg => .ok ((refreshEdge env s cm hbMsg).1, .done)
  | .leave hash mac =>
    match s.communities.lookup hash with
    | none => .ok (s, .done)
    | some cm => .ok (s, .unregister cm mac)
  | .unregister cm mac =>
    match Supernode.unregister env s cm mac with
    | (s, false) => .ok (s, .done)
    | (s, true) => .ok (s, .unindex mac)
  | .unindex mac => do
    let (s, _) ← s.unindexEdge mac
    .ok (s, .done)
  | .cleanup expiry => .ok (s, .collect expiry (env.order.visit s.communities.values) [])
  | .collect expiry (cm :: cms) stales =>
    .ok (s, .collect expiry cms (stales ++ [(cm, staleIDs expiry env s cm)]))
  | .collect expiry [] stales => .ok (s, .sweep expiry (flatten (env.order.visit stales)))
  | .sweep _ [] => .ok (s, .done)
  | .sweep expiry ((cm, id) :: ids) =>
    match Supernode.unregister env s cm id with
    | (s, false) => .ok (s, .sweep expiry ids)
    | (s, true) => .ok (s, .swept expiry id ids)
  | .swept expiry id ids => do
    let (s, _) ← s.unindexEdge id
    .ok (s, .sweep expiry ids)
  | .done => .ok (s, .done)

/-- The supernode, its goroutines and the time of the last step. -/
structure SweepPool where
  sn : Supernode
  task : ℕ → SweepTask
  now : ℤ

/-- Which goroutine takes its next step, and how long after the one before. -/
structure Turn where
  thread : ℕ
  elapsed : ℕ
  env : Env

namespace SweepPool

/-- The time of the turn. -/
def time (c : SweepPool) (turn : Turn) : ℤ := c.now + turn.elapsed

/-- What a goroutine sees of the world at its turn. -/
def envAt (c : SweepPool) (turn : Turn) : Env := { turn.env with now := c.time turn }

def step (P : Platform) (c : SweepPool) (turn : Turn) : Go (SweepPool × Unit) := do
  let (s, t) ← (c.task turn.thread).next P (c.envAt turn) c.sn
  .ok (⟨s, Function.update c.task turn.thread t, c.time turn⟩, ())

end SweepPool

end N2nGo.Supernode
