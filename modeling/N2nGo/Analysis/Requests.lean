import N2nGo.Model.Edge.Requests
import N2nGo.Analysis.EdgeEvents
import N2nGo.Analysis.Sample

/-!
# Requests that fail

A request that could not be sent should leave its mark as it was, so that the next call
sends again. Only the request for the leases does: it sets its flag after the message has
gone out. The report about the peers clears the pending changes first, the request for the
community's state sets its flag first, and the last message uses up its `sync.Once`,
whether it was sent or not. After a failure these three report success and send nothing.
-/

set_option autoImplicit false

namespace N2nGo.Client

open N2nGo.Lib N2nGo.Protocol N2nGo.Messages N2nGo.EdgeClient

/-- In this state the request calls `SendStruct`, which answers `res`. -/
inductive Attempt (P : Platform) (env : Env) (c : Client) : Request → Except EdgeClient.Err Unit → Prop
  | unregister {encMacid : Bytes} {e : EdgeClient} {out : List Output}
      {res : Except EdgeClient.Err Unit} (hregistered : c.edge.registered = true)
      (hkey : c.edge.encryptedMachineID P = .ok (.ok encMacid)) (honce : c.unregisterOnce = false)
      (hsend : c.edge.sendStruct P.codecs.unregisterRequest P env []
        ⟨Net.hardwareAddrString c.edge.macAddr.bytes, c.edge.community, encMacid⟩ none
        .enforceSupernode = .ok (e, out, res)) : Attempt P env c .unregister res
  | p2pInfos {e : EdgeClient} {out : List Output} {res : Except EdgeClient.Err Unit}
      (hwaits : c.edge.waitsForSupernode = false) (hpending : c.edge.peers.hasPendingChanges = true)
      (hsend : (c.edge.withPeers c.edge.peers.clearPendingChanges).sendStruct P.codecs.peerP2PInfos
        P env [] (c.edge.peers.getPeerP2PInfos env.order) none .enforceSupernode =
          .ok (e, out, res)) : Attempt P env c .p2pInfos res
  | p2pFullState {e : EdgeClient} {out : List Output} {res : Except EdgeClient.Err Unit}
      (hwaiting : c.edge.peers.isWaitingCommunityDatas = false)
      (hsend : (c.edge.withPeers { c.edge.peers with isWaitingCommunityDatas := true }).sendStruct
        P.codecs.p2pFullState P env [] ⟨c.edge.community, true, some ∅, some ∅⟩ none
        .enforceSupernode = .ok (e, out, res)) : Attempt P env c .p2pFullState res
  | leasesInfos {eapi : EdgeClientApi} {e : EdgeClient} {out : List Output}
      {res : Except EdgeClient.Err Unit} (heapi : c.edge.eapi = some eapi)
      (hwaiting : eapi.isWaitingForLeasesInfos = false)
      (hsend : c.edge.sendStruct P.codecs.leasesInfos P env [] ⟨true, c.edge.community, ∅⟩ none
        .enforceSupernode = .ok (e, out, res)) : Attempt P env c .leasesInfos res

/-- The marks that the requests keep. -/
structure Marks where
  pendingChanges : Bool
  waitingCommunityDatas : Bool
  waitingForLeasesInfos : Option Bool
  waitingForSNPubKeyUpdate : Bool
  waitingForSNRetryRegisterResponse : Bool
  unregisterOnce : Bool
  deriving DecidableEq

def marks (c : Client) : Marks where
  pendingChanges := c.edge.peers.hasPendingChanges
  waitingCommunityDatas := c.edge.peers.isWaitingCommunityDatas
  waitingForLeasesInfos := c.edge.eapi.map (·.isWaitingForLeasesInfos)
  waitingForSNPubKeyUpdate := c.edge.isWaitingForSNPubKeyUpdate
  waitingForSNRetryRegisterResponse := c.edge.isWaitingForSNRetryRegisterResponse
  unregisterOnce := c.unregisterOnce

/-- The request reports the failure, leaves every mark as it was, and the next call attempts
the send again. -/
def Retryable (P : Platform) (env : Env) (c : Client) (req : Request) : Prop :=
  ∃ c' out err, c.request P env req = .ok (c', out, .error err) ∧ c'.marks = c.marks ∧
    ∀ env', ∃ res, Attempt P env' c' req res

variable {P : Platform} {env : Env} {c : Client} {req : Request} {err : EdgeClient.Err}

theorem sendStruct_supernode {T : Type} [PacketTyped T] (codec : Codec T) (P : Platform)
    (env : Env) (e : EdgeClient) (s : T) :
    ∃ e' out res, e.sendStruct codec P env [] s none .enforceSupernode = .ok (e', out, res) := by
  have hdest : destID none = .ok MacID.zero := rfl
  obtain ⟨header, hheader, -, -⟩ := edgeHeader_ok hdest e env (PacketTyped.packetType T)
  have hroute : e.udpAddrWithStrategy P none .enforceSupernode = .ok e.supernodeAddr := by
    unfold udpAddrWithStrategy
    split
    · rfl
    · rfl
  unfold sendStruct
  rw [hroute]
  simp only [hheader, ok_bind]
  cases codec.encode s with
  | none => exact ⟨_, _, _, rfl⟩
  | some payload => exact ⟨_, _, _, rfl⟩

/-- What a failed request leaves: the edge has taken a sequence number, and the request's mark
says that there is nothing to send, except for the request for the leases. -/
def afterFailure (c : Client) (seq : UInt32) : Request → Client
  | .unregister => ⟨c.edge.withSeq seq, true⟩
  | .p2pInfos =>
    ⟨(c.edge.withPeers c.edge.peers.clearPendingChanges).withSeq seq, c.unregisterOnce⟩
  | .p2pFullState =>
    ⟨(c.edge.withPeers { c.edge.peers with isWaitingCommunityDatas := true }).withSeq seq,
      c.unregisterOnce⟩
  | .leasesInfos => ⟨c.edge.withSeq seq, c.unregisterOnce⟩

theorem request_failed (h : Attempt P env c req (.error err)) :
    ∃ seq out, c.request P env req = .ok (c.afterFailure seq req, out, .error (.edge err)) := by
  cases h with
  | @unregister _ _ out _ hregistered hkey honce hsend =>
    obtain ⟨seq, more, rfl, -, -⟩ := sendStruct_ok hsend
    refine ⟨seq, out, ?_⟩
    unfold request unregister
    rw [if_neg (not_not.mpr hregistered), hkey]
    simp only [ok_bind, honce, hsend]
    rfl
  | @p2pInfos _ out _ hwaits hpending hsend =>
    obtain ⟨seq, more, rfl, -, -⟩ := sendStruct_ok hsend
    refine ⟨seq, out, ?_⟩
    unfold request sendP2PInfos lift
    simp only [hwaits, hpending, hsend]
    rfl
  | @p2pFullState _ out _ hwaiting hsend =>
    obtain ⟨seq, more, rfl, -, -⟩ := sendStruct_ok hsend
    refine ⟨seq, out, ?_⟩
    unfold request sendP2PFullStateRequest lift
    simp only [hwaiting, hsend]
    rfl
  | @leasesInfos _ _ out _ heapi hwaiting hsend =>
    obtain ⟨seq, more, rfl, -, -⟩ := sendStruct_ok hsend
    refine ⟨seq, out, ?_⟩
    unfold request sendLeasesInfosRequest lift
    rw [heapi]
    simp only [deref, ok_bind, hwaiting, hsend]
    rfl

theorem attempt_afterFailure (h : Attempt P env c .leasesInfos (.error err)) (seq : UInt32)
    (env' : Env) : ∃ res, Attempt P env' (c.afterFailure seq .leasesInfos) .leasesInfos res := by
  cases h with
  | leasesInfos heapi hwaiting hsend =>
    obtain ⟨e, out, res, hsend'⟩ := sendStruct_supernode P.codecs.leasesInfos P env'
      (c.edge.withSeq seq) ⟨true, c.edge.community, ∅⟩
    exact ⟨res, .leasesInfos heapi hwaiting hsend'⟩

theorem marks_afterFailure (h : Attempt P env c req (.error err)) (hreq : req ≠ .leasesInfos)
    (seq : UInt32) : (c.afterFailure seq req).marks ≠ c.marks := by
  intro hmarks
  cases h with
  | unregister _ _ honce _ =>
    have hused : true = c.unregisterOnce := congrArg Marks.unregisterOnce hmarks
    rw [honce] at hused
    cases hused
  | p2pInfos _ hpending _ =>
    have hcleared : false = c.edge.peers.hasPendingChanges := congrArg Marks.pendingChanges hmarks
    rw [hpending] at hcleared
    cases hcleared
  | p2pFullState hwaiting _ =>
    have hset : true = c.edge.peers.isWaitingCommunityDatas :=
      congrArg Marks.waitingCommunityDatas hmarks
    rw [hwaiting] at hset
    cases hset
  | leasesInfos _ _ _ => exact hreq rfl

/-- **Only the request for the leases can be retried.** Where a request is attempted and
`SendStruct` fails, it reports the failure, leaves every mark as it was and is attempted
again by the next call, exactly if it is the request for the leases.
GOLINE: edge/requests.go:10-34, 69-123, edge/wire.go:98-131 -/
theorem failed_request_retryable_iff (P : Platform) (env : Env) (c : Client) (req : Request)
    (err : EdgeClient.Err) (h : Attempt P env c req (.error err)) :
    Retryable P env c req ↔ req = .leasesInfos := by
  obtain ⟨seq, out, hrequest⟩ := request_failed h
  constructor
  · rintro ⟨c', out', err', hrequest', hmarks, -⟩
    by_contra hreq
    rw [hrequest] at hrequest'
    cases hrequest'
    exact marks_afterFailure h hreq seq hmarks
  · rintro rfl
    exact ⟨_, out, _, hrequest, rfl, attempt_afterFailure h seq⟩

theorem unregister_again {encMacid : Bytes} (hregistered : c.edge.registered = true)
    (hkey : c.edge.encryptedMachineID P = .ok (.ok encMacid)) (honce : c.unregisterOnce = true) :
    c.unregister P env = .ok (c, [], .ok ()) := by
  unfold unregister
  rw [if_neg (not_not.mpr hregistered), hkey]
  simp only [ok_bind, honce]
  rfl

/-- **A failed request is lost.** After the failure of any of the other three, the next call
sends nothing and reports success. A caller that then waits for the answer of the
supernode, as the page of the peers does, waits for an answer to nothing. -/
theorem failed_request_silent {c' : Client} {out : List Output} {res : Except RequestErr Unit}
    (h : Attempt P env c req (.error err)) (hreq : req ≠ .leasesInfos)
    (hrequest : c.request P env req = .ok (c', out, res)) (env' : Env) :
    c'.request P env' req = .ok (c', [], .ok ()) := by
  obtain ⟨seq, out', hfailed⟩ := request_failed h
  rw [hfailed] at hrequest
  cases hrequest
  cases h with
  | unregister hregistered hkey honce hsend =>
    exact unregister_again (c := ⟨c.edge.withSeq seq, true⟩) hregistered hkey rfl
  | p2pInfos hwaits hpending hsend =>
    have hwaits' : ((c.edge.withPeers c.edge.peers.clearPendingChanges).withSeq seq).waitsForSupernode =
        false := hwaits
    unfold request sendP2PInfos lift afterFailure
    simp only [hwaits']
    rfl
  | p2pFullState hwaiting hsend => rfl
  | leasesInfos _ _ _ => exact absurd rfl hreq

/-! ## An edge whose writes fail -/

section Examples

/-- A registered edge with its web page and changes to report. -/
def member : Client :=
  let e := Sample.edge "c" "m" false []
  ⟨{ e with
      conn := true
      registered := true
      snPubKey := some []
      eapi := some ⟨false, none⟩
      peers := { e.peers with hasPendingChanges := true } }, false⟩

/-- No write succeeds. -/
def offline : Env := { Sample.edgeEnv with writeOk := fun _ _ _ => false }

theorem attempt_offline (req : Request) :
    Attempt Sample.edgePlatform offline member req (.error .failedToSendUDP) := by
  cases req with
  | unregister => exact .unregister rfl rfl rfl rfl
  | p2pInfos => exact .p2pInfos rfl rfl rfl
  | p2pFullState => exact .p2pFullState rfl rfl
  | leasesInfos => exact .leasesInfos rfl rfl rfl

theorem failed_request_retryable_leases :
    Retryable Sample.edgePlatform offline member .leasesInfos :=
  (failed_request_retryable_iff _ _ _ _ _ (attempt_offline .leasesInfos)).mpr rfl

/-- The request fails for the first time and succeeds, without a write, for the second time. -/
def LostOffline (req : Request) : Prop :=
  Attempt Sample.edgePlatform offline member req (.error .failedToSendUDP) ∧
  (∃ c' out, member.request Sample.edgePlatform offline req =
      .ok (c', out, .error (.edge .failedToSendUDP)) ∧ c'.marks ≠ member.marks ∧
    c'.request Sample.edgePlatform offline req = .ok (c', [], .ok ())) ∧
  ¬ Retryable Sample.edgePlatform offline member req

theorem lostOffline {req : Request} (hother : req ≠ .leasesInfos) : LostOffline req := by
  have hattempt := attempt_offline req
  obtain ⟨seq, out, hfailed⟩ := request_failed hattempt
  have hmarks := marks_afterFailure hattempt hother seq
  refine ⟨hattempt, ⟨_, out, hfailed, hmarks, failed_request_silent hattempt hother hfailed _⟩, ?_⟩
  rintro ⟨c', out', err', hrequest, hsame, -⟩
  rw [hfailed] at hrequest
  cases hrequest
  exact hmarks hsame

/-- All requests but the one for the leases are lost. -/
theorem failed_requests_lost :
    LostOffline .unregister ∧ LostOffline .p2pInfos ∧ LostOffline .p2pFullState :=
  ⟨lostOffline nofun, lostOffline nofun, lostOffline nofun⟩

end Examples

end N2nGo.Client
