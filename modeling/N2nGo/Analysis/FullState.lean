import N2nGo.Analysis.Agreement

/-!
# The full P2P state on its way from supernode to edge

The supernode answers a request for the full state with two maps, either of which may be
empty. Protobuf does not tell an empty map from an absent one, so an empty map arrives as
nil. The edge replaces a nil map of unreachable peers by an empty one, and rejects a nil
map of reachable peers: a community in which nobody has reported yet cannot be answered.
-/

set_option autoImplicit false

namespace N2nGo

open N2nGo.Lib N2nGo.Protocol N2nGo.Messages

/-- What protobuf makes of a map: the same entries, and nil where there are none. -/
def Carried {V : Type} (t t' : Option (Table Bytes V)) : Prop :=
  (t' = none ↔ t.getD ∅ = ∅) ∧ ∀ k, (t'.getD ∅).lookup k = (t.getD ∅).lookup k

/-- What protobuf makes of a full state. -/
structure CarriedState (st st' : P2PFullState) : Prop where
  communityName : st'.communityName = st.communityName
  isRequest : st'.isRequest = st.isRequest
  reachables : Carried st.reachables st'.reachables
  unreachables : Carried st.unreachables st'.unreachables

/-- The edge takes the message without an error, keeps the maps of `st` and stops waiting. -/
def StoresFullState (P : EdgeClient.Platform) (e : EdgeClient) (r : RawMessage)
    (st : P2PFullState) : Prop :=
  ∃ e' reachables unreachables,
    e.handleP2PFullStateMessage P r = .ok (e', [], .ok ()) ∧
    e'.peers.isWaitingCommunityDatas = false ∧
    e'.peers.reachables = some reachables ∧ e'.peers.unReachables = some unreachables ∧
    (∀ k, reachables.lookup k = (st.reachables.getD ∅).lookup k) ∧
    ∀ k, unreachables.lookup k = (st.unreachables.getD ∅).lookup k

section Edge

variable {P : EdgeClient.Platform} {e : EdgeClient} {r : RawMessage} {st st' : P2PFullState}

section

variable (htype : r.header.packetType = typeP2PFullState)
  (hdec : P.codecs.p2pFullState.decode r.payload = some st')
include htype hdec

theorem handleP2PFullStateMessage_nil (hreply : st'.isRequest = false)
    (hnil : st'.reachables = none) :
    e.handleP2PFullStateMessage P r = .ok (e, [], .error (.p2p .nilReachables)) := by
  unfold EdgeClient.handleP2PFullStateMessage EdgeClient.withMessage
  rw [toMessage_of_decode htype hdec]
  simp only [hreply, Bool.false_eq_true, if_false, hnil, PeerRegistry.updateP2PCommunityDatas]
  rfl

/-- Any other map of reachable peers is stored, with what there is of unreachable peers. -/
theorem handleP2PFullStateMessage_some (hreply : st'.isRequest = false)
    {reachables : Table Bytes PeerP2PInfos} (hsome : st'.reachables = some reachables) :
    e.handleP2PFullStateMessage P r = .ok (e.withPeers { e.peers with
      reachables := some reachables
      unReachables := some (st'.unreachables.getD ∅)
      isWaitingCommunityDatas := false }, [], .ok ()) := by
  unfold EdgeClient.handleP2PFullStateMessage EdgeClient.withMessage
  rw [toMessage_of_decode htype hdec]
  simp only [hreply, Bool.false_eq_true, if_false, hsome, PeerRegistry.updateP2PCommunityDatas]

theorem storesFullState_iff (hreply : st.isRequest = false) (hwire : CarriedState st st') :
    StoresFullState P e r st ↔ st.reachables.getD ∅ ≠ ∅ := by
  have hreply' : st'.isRequest = false := hwire.isRequest.trans hreply
  constructor
  · rintro ⟨e', reachables, unreachables, h, -⟩ hempty
    rw [handleP2PFullStateMessage_nil htype hdec hreply' (hwire.reachables.1.mpr hempty)] at h
    cases h
  · intro hne
    cases hr : st'.reachables with
    | none => exact absurd (hwire.reachables.1.mp hr) hne
    | some reachables =>
      refine ⟨_, reachables, st'.unreachables.getD ∅,
        handleP2PFullStateMessage_some htype hdec hreply' hr, rfl, rfl, rfl, fun k => ?_,
        hwire.unreachables.2⟩
      rw [← hwire.reachables.2 k, hr]
      rfl

end

end Edge

/-- **The full state of a community is accepted exactly when some member has reported.** For
every member that asks, the supernode builds a state, and whatever edge receives it keeps
it if and only if the community holds P2P infos.
GOLINE: supernode/community.go:144-163, edge/handlers.go:179-188, p2p/p2p.go:76-92 -/
theorem fullState_stored_iff (P : Supernode.Platform) (Q : EdgeClient.Platform)
    (env : Supernode.Env) (s : Supernode) (cm : CommunityRef) (mac : Bytes)
    (hmember : mac ∈ (s.cms.cell cm).edges) :
    ∃ st, Supernode.getCommunityPeerP2PInfosDatas env s cm mac = .ok st ∧
      ∀ (e : EdgeClient) (r : RawMessage) (st' : P2PFullState),
        P.codecs.p2pFullState.encode st = some r.payload →
        Q.codecs.p2pFullState.decode r.payload = some st' → CarriedState st st' →
        r.header.packetType = typeP2PFullState →
        (StoresFullState Q e r st ↔ (s.cms.cell cm).communityPeerP2PInfos ≠ ∅) := by
  obtain ⟨ref, href⟩ := Table.exists_lookup_of_mem hmember
  refine ⟨_, by rw [Supernode.getCommunityPeerP2PInfosDatas, href], ?_⟩
  intro e r st' _ hdec hwire htype
  exact storesFullState_iff htype hdec rfl hwire

/-! ## A community of one -/

section Examples

open N2nGo.Supernode

/-- The supernode of the examples, with reports that carry nothing. -/
def reporting : Supernode.Platform :=
  { Sample.platform with
    codecs := { Sample.codecs with peerP2PInfos := ⟨fun _ => some [], fun _ => some ⟨none, []⟩⟩ } }

/-- An edge to which every full state arrives as `st'`. -/
def receiving (st' : P2PFullState) : EdgeClient.Platform :=
  { Sample.edgePlatform with
    codecs := { Sample.codecs with p2pFullState := ⟨fun _ => some [], fun _ => some st'⟩ } }

def reports (name id : String) (n : UInt8) : Event :=
  .packet Sample.env (packProtoVDatagram
    (Sample.header typeP2PStateInfo (ascii name) (ascii id) MacID.zero) []) (Sample.client n)

/-- The answer as it arrives. -/
def fullStateAnswer : RawMessage :=
  ⟨Sample.header typeP2PFullState (ascii "c") (ascii "m") MacID.zero, [], Sample.client 1, []⟩

theorem carried_empty {V : Type} : Carried (some (∅ : Table Bytes V)) none :=
  ⟨⟨fun _ => rfl, fun _ => rfl⟩, fun _ => rfl⟩

theorem carried_some {V : Type} {t : Table Bytes V} (h : t ≠ ∅) : Carried (some t) (some t) :=
  ⟨⟨fun h' => (by cases h'), fun h' => absurd h' h⟩, fun _ => rfl⟩

/-- After one registration and one report the edge accepts its answer. -/
theorem fullState_stored_after_report :
    ∃ s st st', Reachable reporting s ∧ macText "c" "m" ∈ (s.cms.cell 0).edges ∧
      getCommunityPeerP2PInfosDatas Sample.env s 0 (macText "c" "m") = .ok st ∧
      StoresFullState (receiving st') (Sample.edge "c" "m" false []) fullStateAnswer st := by
  obtain ⟨s, hrun, hs⟩ := exists_of_passes
    (x := runEvents (step reporting) Sample.start [registers "c" "m" 1, reports "c" "m" 1])
    (p := fun s => decide (
      macText "c" "m" ∈ (s.cms.cell 0).edges ∧
      ¬ (s.cms.cell 0).communityPeerP2PInfos.entries.isEmpty ∧
      (getOfflineCachedEdges Sample.env s 0).entries.isEmpty)) (by decide +kernel)
  obtain ⟨hmember, hreported, hoffline⟩ := of_decide_eq_true hs
  rw [← Table.eq_empty_iff] at hreported hoffline
  have hreach : Reachable reporting s :=
    Reach.of_runEvents (.init ⟨_, _, _, _, _, _, rfl⟩) hrun
  let infos := (s.cms.cell 0).communityPeerP2PInfos
  let st' : P2PFullState := ⟨(s.cms.cell 0).name, false, some infos, none⟩
  obtain ⟨st, hst, hiff⟩ := fullState_stored_iff reporting (receiving st') Sample.env s 0
    (macText "c" "m") hmember
  refine ⟨s, st, st', hreach, hmember, hst,
    (hiff _ fullStateAnswer st' rfl rfl ?_ rfl).mpr hreported⟩
  obtain ⟨ref, href⟩ := Table.exists_lookup_of_mem hmember
  rw [getCommunityPeerP2PInfosDatas, href, hoffline] at hst
  cases hst
  exact ⟨rfl, rfl, carried_some hreported, carried_empty⟩

/-- Before any report the answer to the only member has two empty maps. Every edge rejects
it, whatever it is waiting for. -/
theorem fullState_rejected_before_reports :
    ∃ s st st', Reachable Sample.platform s ∧ macText "c" "m" ∈ (s.cms.cell 0).edges ∧
      getCommunityPeerP2PInfosDatas Sample.env s 0 (macText "c" "m") = .ok st ∧
      Sample.platform.codecs.p2pFullState.encode st = some fullStateAnswer.payload ∧
      (receiving st').codecs.p2pFullState.decode fullStateAnswer.payload = some st' ∧
      CarriedState st st' ∧
      ∀ e, EdgeClient.handleP2PFullStateMessage (receiving st') e fullStateAnswer =
        .ok (e, [], .error (.p2p .nilReachables)) := by
  obtain ⟨⟨s, out⟩, hstep, hs⟩ := exists_of_passes
    (x := step Sample.platform Sample.start (registers "c" "m" 1))
    (p := fun res => decide (
      macText "c" "m" ∈ (res.1.cms.cell 0).edges ∧
      (res.1.cms.cell 0).communityPeerP2PInfos.entries.isEmpty ∧
      (getOfflineCachedEdges Sample.env res.1 0).entries.isEmpty)) (by decide +kernel)
  obtain ⟨hmember, hempty, hoffline⟩ := of_decide_eq_true hs
  rw [← Table.eq_empty_iff] at hempty hoffline
  obtain ⟨ref, href⟩ := Table.exists_lookup_of_mem hmember
  refine ⟨s, ⟨(s.cms.cell 0).name, false, some ∅, some ∅⟩, ⟨(s.cms.cell 0).name, false, none, none⟩,
    Sample.reachable_start.step trivial hstep, hmember, ?_, rfl, rfl,
    ⟨rfl, rfl, carried_empty, carried_empty⟩,
    fun e => handleP2PFullStateMessage_nil rfl rfl rfl rfl⟩
  rw [getCommunityPeerP2PInfosDatas, href, hoffline, hempty]

end Examples

end N2nGo
