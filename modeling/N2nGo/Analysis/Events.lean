import N2nGo.Analysis.Membership
import N2nGo.Model.Supernode.Threads

/-!
# What an event does to the registry

`Requested` lists the registry operations a message can ask for: the first
registration of an edge, a repeated one, a heartbeat, a removal. `step_registry` says
that an event does what was requested and nothing else, apart from creating the
community an edge registers in. The other handlers leave the registry alone
(`Harmless`).
-/

set_option autoImplicit false

namespace N2nGo.Supernode

open N2nGo.Lib N2nGo.Protocol N2nGo.Messages

variable {P : Platform} {env : Env} {s s' : Supernode} {r : RawMessage} {out : List Sent}
  {err : Except Err Unit}

/-! ## Communities -/

theorem getCommunity_eq_ok_iff {cm : CommunityRef} :
    s.getCommunity r = .ok cm ↔
      s.registry.group r.communityHash = some cm ∧
        ∃ ref, s.registry.member cm r.edgeMACAddr = some ref := by
  unfold getCommunity getCommunityForEdge registry
  simp only
  cases hgroup : s.communities.lookup r.communityHash with
  | none => simp
  | some cm' =>
    simp only [Option.some.injEq]
    cases hmember : (s.cms.cell cm').edges.lookup r.edgeMACAddr with
    | none =>
      simp only [reduceCtorEq, false_iff, not_and, not_exists]
      rintro rfl ref
      simp [hmember]
    | some ref =>
      simp only [Except.ok.injEq]
      constructor
      · rintro rfl
        exact ⟨rfl, ref, hmember⟩
      · rintro ⟨rfl, -⟩
        rfl

/-! ## Requests -/

/-- The registry operations that message `r` asks for in state `s`.
GOLINE: supernode/handlers.go:96-175 -/
def Requested (P : Platform) (env : Env) (s : Supernode) (r : RawMessage) : Op → Prop
  | .create _ _ => False
  | .join _ edge => ∃ reg id,
      toMessage P.codecs.registerRequest r = .ok reg ∧
      validateEdgeClaimedMACAddr P r.edgeMACAddr reg.msg.encryptedMachineId
        reg.msg.communityName = .ok id ∧
      r.communityHash = hashCommunity reg.msg.communityName ∧
      edge.macAddr = r.edgeMACAddr ∧
      ∀ cm, s.registry.group r.communityHash = some cm →
        s.registry.member cm r.edgeMACAddr = none
  | .rejoin ref edge => ∃ reg id cm,
      toMessage P.codecs.registerRequest r = .ok reg ∧
      validateEdgeClaimedMACAddr P r.edgeMACAddr reg.msg.encryptedMachineId
        reg.msg.communityName = .ok id ∧
      s.registry.group r.communityHash = some cm ∧
      s.registry.name cm = reg.msg.communityName ∧
      s.registry.member cm r.edgeMACAddr = some ref ∧
      edge = withConn r.fromAddr (reRegistered env (s.registry.record ref) reg)
  | .refresh ref edge => ∃ pulse cm,
      toMessage P.codecs.heartbeatPulse r = .ok pulse ∧
      s.registry.group r.communityHash = some cm ∧
      s.registry.member cm r.edgeMACAddr = some ref ∧
      decryptMachineID P pulse.msg.encryptedMachineId = .ok (s.registry.record ref).machineID ∧
      edge = refreshed env (s.registry.record ref) pulse
  | .leave cm mac => ∃ unReg id,
      toMessage P.codecs.unregisterRequest r = .ok unReg ∧
      validateEdgeClaimedMACAddr P r.edgeMACAddr unReg.msg.encryptedMachineId
        unReg.msg.communityName = .ok id ∧
      s.registry.group r.communityHash = some cm ∧ mac = r.edgeMACAddr

/-- The handler did what the message requested: a sequence of requested operations, of
which only the last changes a record, and possibly the creation of a community. -/
def Served (P : Platform) (env : Env) (s : Supernode) (r : RawMessage) (s' : Supernode) : Prop :=
  ∃ ops, Registry.Run hashCommunity s.registry ops s'.registry ∧ Registry.Mild ops ∧
    ∀ op ∈ ops, (∃ h n, op = .create h n) ∨ Requested P env s r op

theorem served_of_registry_eq (h : s'.registry = s.registry) : Served P env s r s' :=
  ⟨[], by rw [h]; exact .nil _, trivial, by simp⟩

theorem served_singleton {op : Op} (hen : s.registry.Enabled hashCommunity op)
    (hreq : Requested P env s r op) (h : s'.registry = s.registry.apply op) :
    Served P env s r s' := by
  refine ⟨[op], ?_, trivial, ?_⟩
  · rw [h]
    exact .cons hen (.nil _)
  · intro o ho
    rw [List.mem_singleton.mp ho]
    exact Or.inr hreq

/-! ## The handlers that change no membership -/

/-- Nothing changes but counters and the P2P infos of a member. -/
inductive Idle (s : Supernode) : Supernode → Prop where
  | count (f : Tally 0) : Idle s (s.count f)
  | report {cm : CommunityRef} {mac : Bytes} {ref : EdgeRef} (infos : PeerP2PInfos) :
      (s.cms.cell cm).edges.lookup mac = some ref → Idle s (s.writeP2PInfos cm mac infos)

theorem Idle.refl (s : Supernode) : Idle s s := .count .id

theorem Idle.registry_eq (h : Idle s s') : s'.registry = s.registry := by
  cases h with
  | count f => rfl
  | @report cm mac ref infos hmember =>
    unfold registry writeP2PInfos
    simp only [Registry.mk.injEq, true_and, and_true]
    refine ⟨name_store s rfl, ?_, rfl⟩
    rw [member_store]
    exact Function.update_eq_self cm _

/-- The handler returns and leaves the registry as it is. -/
def Harmless (s : Supernode) (x : Go Reply) : Prop :=
  ∃ s' out err, x = .ok (s', out, err) ∧ Idle s s'

theorem Harmless.completes {x : Go Reply} (h : Harmless s x) : Completes x := by
  obtain ⟨s1, out1, err1, h1, -⟩ := h
  exact ⟨_, h1⟩

theorem harmless_same (out : List Sent) (err : Except Err Unit) :
    Harmless s (.ok (s, out, err)) := ⟨s, out, err, rfl, .refl s⟩

theorem harmless_count {f : SupernodeStats → SupernodeStats}
    (hf : ∀ st, (f st).edgesUnregistered = st.edgesUnregistered) (out : List Sent)
    (err : Except Err Unit) : Harmless s (.ok (s.count f, out, err)) :=
  ⟨_, out, err, rfl, .count ⟨f, hf⟩⟩

theorem harmless_withMessage {T : Type} [PacketTyped T] {codec : Codec T}
    {handle : Message T → Go Reply} (h : ∀ m, Harmless s (handle m)) :
    Harmless s (withMessage codec s r handle) := by
  unfold withMessage
  cases toMessage codec r with
  | error e => exact harmless_same _ _
  | ok m => exact h m

theorem harmless_answerMember {T : Type} [PacketTyped T] (codec : Codec T) (cm : CommunityRef)
    (mac : Bytes) (p : T) (community : Bytes) :
    Harmless s (answerMember codec env s cm mac p community) := by
  obtain ⟨out, err, h, -⟩ := answerMember_returns codec env s cm mac p community
  exact ⟨s, out, err, h, .refl s⟩

theorem harmless_handleP2PStateInfoMessage :
    Harmless s (handleP2PStateInfoMessage P s r) := by
  refine harmless_withMessage fun p2pMsg => ?_
  cases s.getCommunity r with
  | error e => exact harmless_same _ _
  | ok cm =>
    simp only [setP2PInfosFor]
    cases hmember : (s.cms.cell cm).edges.lookup r.edgeMACAddr with
    | none => exact harmless_same _ _
    | some ref => exact ⟨_, _, _, rfl, .report p2pMsg.msg hmember⟩

theorem harmless_handlePeerRequestMessage :
    Harmless s (handlePeerRequestMessage P env s r) := by
  refine harmless_withMessage fun peerReqMsg => ?_
  cases s.getCommunity r with
  | error e => exact harmless_same _ _
  | ok cm => exact harmless_answerMember _ _ _ _ _

theorem harmless_handleLeasesInfosMessage :
    Harmless s (handleLeasesInfosMessage P env s r) := by
  refine harmless_withMessage fun leaseMsg => ?_
  split
  · exact harmless_same _ _
  · cases s.getCommunity r with
    | error e => exact harmless_same _ _
    | ok cm => exact harmless_answerMember _ _ _ _ _

theorem harmless_handleP2PFullStateMessage :
    Harmless s (handleP2PFullStateMessage P env s r) := by
  refine harmless_withMessage fun fsMsg => ?_
  split
  · exact harmless_same _ _
  · cases s.getCommunityForEdge r.edgeMACAddr r.communityHash with
    | error e => exact harmless_same _ _
    | ok cm =>
      simp only
      cases getCommunityPeerP2PInfosDatas env s cm r.edgeMACAddr with
      | error e => exact harmless_same _ _
      | ok state => exact harmless_answerMember _ _ _ _ _

theorem harmless_handleSNPublicSecretMessage :
    Harmless s (handleSNPublicSecretMessage P env s r) := by
  refine harmless_withMessage fun secretMsg => ?_
  split
  · exact harmless_same _ _
  · obtain ⟨out, err, h, -⟩ := sendStruct_returns P.codecs.snPublicSecret env s []
      ⟨false, s.pem⟩ [] r.fromAddr
    exact ⟨s, _, err, by simp only [h, ok_bind]; rfl, .refl s⟩

section

variable (hraw : IsProtoV r.rawPacket)
include hraw

theorem harmless_forwardUnicast : Harmless s (forwardUnicast env s r) := by
  unfold forwardUnicast
  cases s.getCommunity r with
  | error e => exact harmless_same _ _
  | ok cm =>
    simp only
    cases s.getEdge cm r.destMACAddr with
    | none => exact harmless_same _ _
    | some target =>
      obtain ⟨err, h, -⟩ := forwardPacket_of_isProtoV env s [] target hraw
      simp only [h, ok_bind]
      cases err with
      | error e =>
        refine harmless_count ?_ _ _
        exact fun _ => rfl
      | ok u =>
        refine harmless_count ?_ _ _
        exact fun _ => rfl

theorem harmless_forwardWithFallBack : Harmless s (forwardWithFallBack env s r) := by
  unfold forwardWithFallBack
  cases s.getCommunity r with
  | error e => exact harmless_same _ _
  | ok cm =>
    simp only
    cases s.getEdge cm r.destMACAddr with
    | none =>
      obtain ⟨f, h⟩ := broadcast_of_isProtoV env s [] hraw cm r.edgeMACAddr
      simp only [h, ok_bind]
      exact harmless_count f.unregistered _ _
    | some target =>
      obtain ⟨err, h, -⟩ := forwardPacket_of_isProtoV env s [] target hraw
      simp only [h, ok_bind]
      cases err with
      | ok u =>
        refine harmless_count ?_ _ _
        exact fun _ => rfl
      | error e =>
        simp only
        let dropped : Tally 0 :=
          ⟨fun st => { st with packetsDropped := st.packetsDropped + 1 }, fun _ => rfl⟩
        obtain ⟨f, hb⟩ := broadcast_of_isProtoV env (s.count dropped)
          ([] ++ [attempt env s (withSupernodeFlag r.rawPacket) ([] : List Sent).length target])
          hraw cm r.edgeMACAddr
        rw [hb, ok_bind]
        exact harmless_count (dropped.andThen f).unregistered _ _

theorem harmless_handlePingMessage : Harmless s (handlePingMessage env s r) := by
  unfold handlePingMessage
  split
  · exact harmless_same _ _
  · exact harmless_forwardUnicast hraw

theorem harmless_handleDataMessage : Harmless s (handleDataMessage env s r) := by
  unfold handleDataMessage
  split
  · exact harmless_same _ _
  · exact harmless_forwardWithFallBack hraw

end

/-! ## What handling a message does -/

/-- The messages that may change who is registered, and where. -/
def AboutMembership (r : RawMessage) : Prop :=
  r.header.packetType = typeRegisterRequest ∨ r.header.packetType = typeUnregisterRequest ∨
    r.header.packetType = typeHeartbeat

/-- What handling a message leaves behind: the new state, the attempts to send and the
error.
GOLINE: supernode/handlers.go:13-241 -/
inductive Handled (P : Platform) (env : Env) (s : Supernode) (r : RawMessage) :
    Supernode → List Sent → Except Err Unit → Prop where
  /-- the message changes no membership and no record; if it was to, nobody is told -/
  | idle {s' : Supernode} {out : List Sent} {err : Except Err Unit} :
      Idle s s' → (AboutMembership r → out = []) → Handled P env s r s' out err
  /-- a registration fails -/
  | refused {reg : Message RegisterRequest} {s1 : Supernode} {e : Err} {out : List Sent}
      {err : Except Err Unit} (f : Tally 0) :
      toMessage P.codecs.registerRequest r = .ok reg →
      registerEdge P env s reg = .ok (s1, .error e) →
      sendStruct P.codecs.registerResponse env s1 [] ⟨false, [], 0⟩ reg.msg.communityName
        r.fromAddr = .ok (out, err) →
      Handled P env s r (s1.count f) out (.error e)
  /-- a registration is accepted -/
  | registered {reg : Message RegisterRequest} {s1 s2 : Supernode} {ref : EdgeRef}
      {cm : CommunityRef} {out : List Sent} {err err' : Except Err Unit} (f : Tally 0) :
      toMessage P.codecs.registerRequest r = .ok reg →
      registerEdge P env s reg = .ok (s1, .ok (ref, cm)) →
      s2 = (s1.setWSSConnID ref r.fromAddr).indexEdge ref →
      sendStruct P.codecs.registerResponse env s2 []
        ⟨true, (s2.edges.cell ref).virtualIP.string, (s2.edges.cell ref).vNetMaskLen⟩
        reg.msg.communityName r.fromAddr = .ok (out, err') →
      Handled P env s r (s2.count f) (out ++ announcement P.codecs.peerInfoList env s2 out.length
        (newPeerInfoEvent typeRegister (s2.edges.cell ref)) cm r.edgeMACAddr) err
  /-- a heartbeat is accepted -/
  | refreshed {pulse : Message HeartbeatPulse} {cm : CommunityRef} {ref : EdgeRef} (f : Tally 0) :
      toMessage P.codecs.heartbeatPulse r = .ok pulse →
      s.registry.group r.communityHash = some cm →
      s.registry.member cm r.edgeMACAddr = some ref →
      decryptMachineID P pulse.msg.encryptedMachineId = .ok (s.edges.cell ref).machineID →
      Handled P env s r
        ((s.withRecord ref (Supernode.refreshed env (s.edges.cell ref) pulse)).count f)
        (if addressChanged (s.edges.cell ref) pulse then
          announcement P.codecs.peerInfoList env
            (s.withRecord ref (Supernode.refreshed env (s.edges.cell ref) pulse)) 0
            (newPeerInfoEvent typeRegister (Supernode.refreshed env (s.edges.cell ref) pulse)) cm
            r.edgeMACAddr
        else []) (.ok ())
  /-- a member is removed -/
  | removed {unReg : Message UnregisterRequest} {id : Bytes} {cm : CommunityRef}
      {s1 s2 : Supernode} {pil : PeerInfoList} (f : Tally 1) :
      toMessage P.codecs.unregisterRequest r = .ok unReg →
      validateEdgeClaimedMACAddr P r.edgeMACAddr unReg.msg.encryptedMachineId
        unReg.msg.communityName = .ok id →
      s.registry.group r.communityHash = some cm →
      unregister env s cm r.edgeMACAddr = (s1, true) →
      s1.unindexEdge r.edgeMACAddr = .ok (s2, pil) →
      Handled P env s r (s2.count f)
        (announcement P.codecs.peerInfoList env s2 0 pil cm r.edgeMACAddr) (.ok ())

theorem Harmless.handled {x : Go Reply} (h : Harmless s x) (hr : ¬ AboutMembership r)
    (hx : x = .ok (s', out, err)) : Handled P env s r s' out err := by
  obtain ⟨s1, out1, err1, h1, hidle⟩ := h
  rw [h1] at hx
  cases hx
  exact .idle hidle fun h => absurd h hr

theorem handleUnregisterMessage_handled
    (h : handleUnregisterMessage P env s r = .ok (s', out, err)) :
    Handled P env s r s' out err := by
  unfold handleUnregisterMessage withMessage at h
  cases hmsg : toMessage P.codecs.unregisterRequest r with
  | error e =>
    rw [hmsg] at h
    cases h
    exact .idle (.refl s) fun _ => rfl
  | ok unReg =>
    rw [hmsg] at h
    simp only at h
    cases hval : validateEdgeClaimedMACAddr P r.edgeMACAddr unReg.msg.encryptedMachineId
        unReg.msg.communityName with
    | error e =>
      rw [hval] at h
      cases h
      exact .idle (.refl s) fun _ => rfl
    | ok id =>
      rw [hval] at h
      simp only [unregisterEdge] at h
      cases hcm : s.getCommunity r with
      | error e =>
        rw [hcm] at h
        cases h
        exact .idle (.refl s) fun _ => rfl
      | ok cm =>
        rw [hcm] at h
        simp only at h
        rcases hun : unregister env s cm r.edgeMACAddr with ⟨s1, found⟩
        rw [hun] at h
        cases found with
        | false =>
          cases h
          rw [(unregister_false hun).1]
          exact .idle (.refl s) fun _ => rfl
        | true =>
          obtain ⟨⟨s2, out2⟩, hon, hrest⟩ := bind_eq_ok.mp h
          cases hrest
          obtain ⟨s3, pil, f, hunindex, rfl, rfl⟩ := onEdgeUnregistered_eq hon
          exact .removed f hmsg hval (getCommunity_eq_ok_iff.mp hcm).1 hun hunindex

abbrev Tally.heartbeat : Tally 0 :=
  ⟨fun st => { st with heartbeatsReceived := st.heartbeatsReceived + 1 }, fun _ => rfl⟩

/-- A heartbeat that carries the machine ID of a member is accepted: the record is refreshed,
and the community told if the address changed. -/
theorem handleHeartbeatMessage_accepted (env : Env) {pulse : Message HeartbeatPulse} {cm : CommunityRef}
    {ref : EdgeRef} (hmsg : toMessage P.codecs.heartbeatPulse r = .ok pulse)
    (hcm : s.getCommunity r = .ok cm) (hmember : s.registry.member cm r.edgeMACAddr = some ref)
    (hdec : decryptMachineID P pulse.msg.encryptedMachineId = .ok (s.edges.cell ref).machineID) :
    ∃ f : Tally 0, handleHeartbeatMessage P env s r =
      .ok ((s.withRecord ref (refreshed env (s.edges.cell ref) pulse)).count f,
        if addressChanged (s.edges.cell ref) pulse then
          announcement P.codecs.peerInfoList env
            (s.withRecord ref (refreshed env (s.edges.cell ref) pulse)) 0
            (newPeerInfoEvent typeRegister (refreshed env (s.edges.cell ref) pulse)) cm
            r.edgeMACAddr
        else [], .ok ()) := by
  obtain rfl : pulse.toRawMessage = r := toMessage_ok hmsg
  have hlook : (s.cms.cell cm).edges.lookup pulse.edgeMACAddr = some ref := hmember
  let bump := Tally.heartbeat
  let s1 := (s.withRecord ref (refreshed env (s.edges.cell ref) pulse)).count bump
  have hrefresh : refreshEdge env (s.count bump) cm { pulse with msg :=
      { pulse.msg with clearMachineId := (s.edges.cell ref).machineID } } =
        (s1, .ok (addressChanged (s.edges.cell ref) pulse)) := by
    unfold refreshEdge
    rw [show ((s.count bump).cms.cell cm).edges.lookup pulse.edgeMACAddr = some ref from hlook]
    exact if_neg (not_not.mpr rfl)
  have hedge : s1.getEdge cm pulse.edgeMACAddr = some (refreshed env (s.edges.cell ref) pulse) := by
    show ((s.cms.cell cm).edges.lookup pulse.edgeMACAddr).map
      (s.withRecord ref (refreshed env (s.edges.cell ref) pulse)).edges.cell = _
    rw [hlook]
    exact congrArg some (cell_withRecord_self ..)
  obtain ⟨f, err, hb⟩ := broadcastStruct_eq P.codecs.peerInfoList env s1 []
    (newPeerInfoEvent typeRegister (refreshed env (s.edges.cell ref) pulse)) cm pulse.edgeMACAddr
  rw [announcement_count] at hb
  unfold handleHeartbeatMessage withMessage
  rw [hmsg]
  simp only [hcm, hdec]
  rw [hrefresh]
  simp only [hedge]
  cases addressChanged (s.edges.cell ref) pulse with
  | true => exact ⟨bump.andThen f, by rw [if_pos rfl, hb]; rfl⟩
  | false => exact ⟨bump, rfl⟩

theorem handleHeartbeatMessage_returns (P : Platform) (env : Env) (s : Supernode) (r : RawMessage) :
    ∃ s' out err, handleHeartbeatMessage P env s r = .ok (s', out, err) ∧
      Handled P env s r s' out err := by
  cases hmsg : toMessage P.codecs.heartbeatPulse r with
  | error e =>
    exact ⟨s, [], _, by rw [handleHeartbeatMessage, withMessage, hmsg], .idle (.refl s) fun _ => rfl⟩
  | ok pulse =>
    cases hcm : s.getCommunity r with
    | error e =>
      exact ⟨s, [], .error e, by rw [handleHeartbeatMessage, withMessage, hmsg]; simp only [hcm],
        .idle (.refl s) fun _ => rfl⟩
    | ok cm =>
      obtain ⟨hgroup, ref, hmember⟩ := getCommunity_eq_ok_iff.mp hcm
      obtain rfl : pulse.toRawMessage = r := toMessage_ok hmsg
      cases hdec : decryptMachineID P pulse.msg.encryptedMachineId with
      | error e =>
        exact ⟨_, [], _, by
          rw [handleHeartbeatMessage, withMessage, hmsg]
          simp only [hcm, hdec]
          rfl, .idle (.count .heartbeat) fun _ => rfl⟩
      | ok id =>
        by_cases hid : id = (s.edges.cell ref).machineID
        · subst hid
          obtain ⟨f, h⟩ := handleHeartbeatMessage_accepted env hmsg hcm hmember hdec
          exact ⟨_, _, _, h, .refreshed f hmsg hgroup hmember hdec⟩
        · unfold handleHeartbeatMessage withMessage
          rw [hmsg]
          simp only [hcm, hdec]
          split
          · next href =>
            rcases refreshEdge_spec href with ⟨-, rfl⟩ | ⟨_, _, _, hres, _⟩
            · exact ⟨_, _, _, rfl, .idle (.count .heartbeat) fun _ => rfl⟩
            · cases hres
          · next href =>
            rcases refreshEdge_spec href with ⟨⟨_, hres⟩, _⟩ | ⟨ref', hmember', hid', _, _⟩
            · cases hres
            · obtain rfl : ref = ref' := Option.some.inj (hmember.symm.trans hmember')
              exact absurd hid' hid

/-! ## Registration -/

theorem registry_join {s1 s2 : Supernode} {cm : CommunityRef} {edge : Edge}
    (h : s2.registry = s1.registry.enroll cm edge) (addr : NetAddr) :
    ((s2.setWSSConnID s1.edges.next addr).indexEdge s1.edges.next).registry =
      s1.registry.apply (.join cm (withConn addr edge)) := by
  have hrec : s2.edges.cell s1.edges.next = edge := by
    show s2.registry.record s1.registry.records = edge
    rw [h]
    simp [Registry.enroll]
  have hkey : Filed.key (withConn addr edge) = Filed.key edge := by cases addr <;> rfl
  rw [registry_indexEdge, registry_setWSSConnID, hrec, h]
  exact congrArg (fun m => Registry.index m s1.edges.next)
    (Registry.write_enroll s1.registry cm hkey)

theorem registry_rejoin {s1 s2 : Supernode} {ref : EdgeRef} {edge : Edge}
    (h : s2.registry = s1.registry.write ref edge) (addr : NetAddr) :
    ((s2.setWSSConnID ref addr).indexEdge ref).registry =
      s1.registry.apply (.rejoin ref (withConn addr edge)) := by
  have hrec : s2.edges.cell ref = edge := by
    show s2.registry.record ref = edge
    rw [h]
    simp [Registry.write]
  rw [registry_indexEdge, registry_setWSSConnID, hrec, h, Registry.write_write]
  rfl

/-- What `RegisterEdge` does when it completes, in terms of its two critical sections: the
state it leaves and its result.
GOLINE: supernode/registration.go:76-98 -/
inductive EdgeRegistered (P : Platform) (env : Env) (s : Supernode) (reg : Message RegisterRequest) :
    Supernode → Except Err (EdgeRef × CommunityRef) → Prop where
  | invalid (e : Err) : EdgeRegistered P env s reg s (.error e)
  | noCommunity {s1 : Supernode} {e : Err} :
      registerCommunity P s reg.msg.communityName reg.communityHash = .ok (s1, .error e) →
      EdgeRegistered P env s reg s1 (.error e)
  | noEdge {id : Bytes} {cm : CommunityRef} {s0 s1 : Supernode} {e : Err} :
      validateEdgeClaimedMACAddr P reg.edgeMACAddr reg.msg.encryptedMachineId
        reg.msg.communityName = .ok id →
      registerCommunity P s reg.msg.communityName reg.communityHash = .ok (s0, .ok cm) →
      edgeUpdate P env s0 cm { reg with msg := { reg.msg with clearMachineId := id } } =
        (s1, .error e) →
      EdgeRegistered P env s reg s1 (.error e)
  | edge {id : Bytes} {cm : CommunityRef} {s0 s1 : Supernode} {ref : EdgeRef} (f : Tally 0) :
      validateEdgeClaimedMACAddr P reg.edgeMACAddr reg.msg.encryptedMachineId
        reg.msg.communityName = .ok id →
      registerCommunity P s reg.msg.communityName reg.communityHash = .ok (s0, .ok cm) →
      edgeUpdate P env s0 cm { reg with msg := { reg.msg with clearMachineId := id } } =
        (s1, .ok ref) →
      EdgeRegistered P env s reg (s1.count f) (.ok (ref, cm))

section

variable {reg : Message RegisterRequest} {s1 : Supernode}
  {res : Except Err (EdgeRef × CommunityRef)} (h : registerEdge P env s reg = .ok (s1, res))
include h

theorem registerEdge_registered : EdgeRegistered P env s reg s1 res := by
  unfold registerEdge at h
  cases hval : validateEdgeClaimedMACAddr P reg.edgeMACAddr reg.msg.encryptedMachineId
      reg.msg.communityName with
  | error e =>
    rw [hval] at h
    cases h
    exact .invalid e
  | ok id =>
    rw [hval] at h
    obtain ⟨⟨s0, res0⟩, hcommunity, h⟩ := bind_eq_ok.mp h
    cases res0 with
    | error e =>
      cases h
      exact .noCommunity hcommunity
    | ok cm =>
      simp only at h
      rcases hup : edgeUpdate P env s0 cm { reg with msg := { reg.msg with clearMachineId := id } }
        with ⟨s2, e | ref⟩
      · rw [hup] at h
        cases h
        exact .noEdge hval hcommunity hup
      · rw [hup] at h
        cases h
        refine .edge ⟨_, ?_⟩ hval hcommunity hup
        exact fun _ => rfl

theorem registerEdge_ok :
    ((∃ e, res = .error e) ∧ s1.registry = s.registry) ∨
      ∃ cm s0, registerCommunity P s reg.msg.communityName reg.communityHash = .ok (s0, .ok cm) ∧
        (((∃ e, res = .error e) ∧ s1.registry = s0.registry) ∨
          ∃ id, validateEdgeClaimedMACAddr P reg.edgeMACAddr reg.msg.encryptedMachineId
              reg.msg.communityName = .ok id ∧
            ((∃ vip, s0.registry.member cm reg.edgeMACAddr = none ∧
                res = .ok (s0.edges.next, cm) ∧
                s1.registry = s0.registry.enroll cm (newEdge env (s0.cms.cell cm)
                  { reg with msg := { reg.msg with clearMachineId := id } } vip)) ∨
              ∃ ref, s0.registry.member cm reg.edgeMACAddr = some ref ∧ res = .ok (ref, cm) ∧
                s1.registry =
                  s0.registry.write ref (reRegistered env (s0.registry.record ref) reg))) := by
  cases registerEdge_registered h with
  | invalid e => exact Or.inl ⟨⟨e, rfl⟩, rfl⟩
  | @noCommunity _ e hcommunity =>
    rcases registerCommunity_ok hcommunity with ⟨-, hsame⟩ | ⟨cm, hcm, -⟩
    · exact Or.inl ⟨⟨e, rfl⟩, hsame⟩
    · cases hcm
  | @noEdge _ _ s0 _ e _ hcommunity hup =>
    rcases edgeUpdate_spec hup with ⟨-, hsame⟩ | ⟨_, _, hres, _⟩ | ⟨_, _, hres, _⟩
    · exact Or.inr ⟨_, s0, hcommunity, Or.inl ⟨⟨e, rfl⟩, hsame⟩⟩
    · cases hres
    · cases hres
  | @edge id _ s0 _ _ f hval hcommunity hup =>
    refine Or.inr ⟨_, s0, hcommunity, Or.inr ⟨id, hval, ?_⟩⟩
    rcases edgeUpdate_spec hup with ⟨⟨e, he⟩, -⟩ | ⟨vip, hmember, hres, henroll⟩ |
      ⟨ref, hmember, hres, hwrite⟩
    · cases he
    · cases hres
      exact Or.inl ⟨vip, hmember, rfl, henroll⟩
    · cases hres
      exact Or.inr ⟨_, hmember, rfl, hwrite⟩

end

theorem known_registerCommunity (v : s.registry.Valid hashCommunity) {name : Bytes} {hash : UInt32}
    {cm : CommunityRef} (h : registerCommunity P s name hash = .ok (s', .ok cm)) :
    s'.registry.Valid hashCommunity ∧ s'.registry.group hash = some cm := by
  rcases registerCommunity_ok h with ⟨⟨e, he⟩, -⟩ | ⟨cm', hres, hhash, ⟨rfl, hlook, -⟩ |
    ⟨hfree, hcm, hcreate⟩⟩
  · cases he
  · cases hres
    exact ⟨v, hlook⟩
  · cases hres
    rw [hcreate]
    refine ⟨v.create hfree hhash.symm, ?_⟩
    rw [hcm]
    exact Function.update_self ..

@[simp] theorem macAddr_withConn (addr : NetAddr) (edge : Edge) :
    (withConn addr edge).macAddr = edge.macAddr := by
  cases addr <;> rfl

@[simp] theorem community_withConn (addr : NetAddr) (edge : Edge) :
    (withConn addr edge).community = edge.community := by
  cases addr <;> rfl

/-- A record of the requested MAC may join a community that does not list it. -/
theorem enabled_join {cm : CommunityRef} {edge : Edge}
    (hgroup : s.registry.group r.communityHash = some cm)
    (hmember : s.registry.member cm r.edgeMACAddr = none) (hmac : edge.macAddr = r.edgeMACAddr)
    (hhome : edge.community = s.registry.name cm) :
    s.registry.Enabled hashCommunity (.join cm (withConn r.fromAddr edge)) := by
  refine ⟨⟨_, hgroup⟩, ?_, ?_⟩
  · show s.registry.member cm (withConn r.fromAddr edge).macAddr = none
    rw [macAddr_withConn, hmac, hmember]
  · show (withConn r.fromAddr edge).community = s.registry.name cm
    rw [community_withConn, hhome]

section Accepted

variable {reg : Message RegisterRequest} {id : Bytes} {s0 s1 : Supernode} {cm : CommunityRef}
  {edge : Edge} {ref : EdgeRef}

section

variable (hmsg : toMessage P.codecs.registerRequest r = .ok reg)
  (hval : validateEdgeClaimedMACAddr P r.edgeMACAddr reg.msg.encryptedMachineId
    reg.msg.communityName = .ok id) (hhash : r.communityHash = hashCommunity reg.msg.communityName)
include hmsg hval hhash

theorem join_served (hgroup : s.registry.group r.communityHash = some cm)
    (hmember : s.registry.member cm r.edgeMACAddr = none) (hmac : edge.macAddr = r.edgeMACAddr)
    (hhome : edge.community = s.registry.name cm)
    (henroll : s1.registry = s.registry.enroll cm edge) :
    Served P env s r ((s1.setWSSConnID s.edges.next r.fromAddr).indexEdge s.edges.next) := by
  refine served_singleton (enabled_join hgroup hmember hmac hhome)
    ⟨reg, id, hmsg, hval, hhash, (macAddr_withConn _ _).trans hmac, fun cm' hcm' => ?_⟩
    (registry_join henroll r.fromAddr)
  rw [hgroup] at hcm'
  cases hcm'
  exact hmember

theorem create_join_served (hfree : s.registry.group r.communityHash = none)
    (hcreate : s0.registry = s.registry.create r.communityHash reg.msg.communityName)
    (hmac : edge.macAddr = r.edgeMACAddr) (hhome : edge.community = s0.registry.name s.cms.next)
    (henroll : s1.registry = s0.registry.enroll s.cms.next edge) :
    Served P env s r ((s1.setWSSConnID s0.edges.next r.fromAddr).indexEdge s0.edges.next) := by
  have hgroup : s0.registry.group r.communityHash = some s.cms.next := by
    rw [hcreate]
    simp only [Registry.create, Function.update_self]
    rfl
  have hmember : s0.registry.member s.cms.next r.edgeMACAddr = none := by
    rw [hcreate, show s.cms.next = s.registry.groups from rfl]
    simp [Registry.create]
  refine ⟨[.create r.communityHash reg.msg.communityName,
    .join s.cms.next (withConn r.fromAddr edge)], .cons ⟨hfree, hhash.symm⟩ ?_, ⟨trivial, trivial⟩, ?_⟩
  · rw [registry_join henroll r.fromAddr, show s.registry.apply (.create r.communityHash
      reg.msg.communityName) = s0.registry from hcreate.symm]
    exact .cons (enabled_join hgroup hmember hmac hhome) (.nil _)
  · intro op hop
    rcases List.mem_pair.mp hop with rfl | rfl
    · exact Or.inl ⟨_, _, rfl⟩
    · refine Or.inr ⟨reg, id, hmsg, hval, hhash, (macAddr_withConn _ _).trans hmac, ?_⟩
      intro cm hcm
      rw [hfree] at hcm
      cases hcm

end

theorem rejoin_served (v : s.registry.Valid hashCommunity)
    (hmsg : toMessage P.codecs.registerRequest r = .ok reg)
    (hval : validateEdgeClaimedMACAddr P r.edgeMACAddr reg.msg.encryptedMachineId
      reg.msg.communityName = .ok id)
    (hgroup : s.registry.group r.communityHash = some cm)
    (hname : s.registry.name cm = reg.msg.communityName)
    (hmember : s.registry.member cm r.edgeMACAddr = some ref)
    (hwrite : s1.registry = s.registry.write ref (reRegistered env (s.registry.record ref) reg)) :
    Served P env s r ((s1.setWSSConnID ref r.fromAddr).indexEdge ref) := by
  have hlisted : s.registry.Listed cm r.edgeMACAddr ref := ⟨⟨_, hgroup⟩, hmember⟩
  have hkey : Filed.key (withConn r.fromAddr (reRegistered env (s.registry.record ref) reg)) =
      Filed.key (s.registry.record ref) := macAddr_withConn _ _
  have hhome : Filed.home (withConn r.fromAddr (reRegistered env (s.registry.record ref) reg)) =
      Filed.home (s.registry.record ref) := community_withConn _ _
  have hen : s.registry.Enabled hashCommunity
      (.rejoin ref (withConn r.fromAddr (reRegistered env (s.registry.record ref) reg))) := by
    refine ⟨cm, ?_, hkey, hhome⟩
    rw [hkey, v.listed_key hlisted]
    exact hlisted
  exact served_singleton hen ⟨reg, id, cm, hmsg, hval, hgroup, hname, hmember, rfl⟩
    (registry_rejoin hwrite r.fromAddr)

theorem registration_served (v : s.registry.Valid hashCommunity)
    {res : Except Err (EdgeRef × CommunityRef)}
    (hmsg : toMessage P.codecs.registerRequest r = .ok reg)
    (h : registerEdge P env s reg = .ok (s1, res)) :
    (∀ e, res = .error e → Served P env s r s1) ∧
      ∀ ref cm, res = .ok (ref, cm) →
        Served P env s r ((s1.setWSSConnID ref r.fromAddr).indexEdge ref) := by
  obtain rfl : reg.toRawMessage = r := toMessage_ok hmsg
  rcases registerEdge_ok h with ⟨⟨e, rfl⟩, hsame⟩ | ⟨cm, s0, hcommunity, hcases⟩
  · exact ⟨fun _ _ => served_of_registry_eq hsame, fun _ _ h => (by cases h)⟩
  rcases registerCommunity_ok hcommunity with ⟨⟨e, he⟩, -⟩ | ⟨cm', hcm', hhash, hfound⟩
  · cases he
  cases hcm'
  rcases hfound with ⟨rfl, hgroup, hname⟩ | ⟨hfree, rfl, hcreate⟩
  · -- the community was there
    rcases hcases with ⟨⟨e, rfl⟩, hsame⟩ | ⟨id, hval, ⟨vip, hmember, rfl, henroll⟩ |
      ⟨ref, hmember, rfl, hwrite⟩⟩
    · exact ⟨fun _ _ => served_of_registry_eq hsame, fun _ _ h => (by cases h)⟩
    · refine ⟨fun _ h => (by cases h), fun ref cm' hres => ?_⟩
      cases hres
      exact join_served hmsg hval hhash hgroup hmember rfl rfl henroll
    · refine ⟨fun _ h => (by cases h), fun ref cm' hres => ?_⟩
      cases hres
      exact rejoin_served v hmsg hval hgroup hname hmember hwrite
  · -- the community is created first, so it lists nobody
    have hempty : s0.registry.member s.cms.next reg.edgeMACAddr = none := by
      rw [hcreate, show s.cms.next = s.registry.groups from rfl]
      simp [Registry.create]
    rcases hcases with ⟨⟨e, rfl⟩, hsame⟩ | ⟨id, hval, ⟨vip, -, rfl, henroll⟩ | ⟨ref, hmember, -⟩⟩
    · refine ⟨fun _ _ => ⟨[.create reg.communityHash reg.msg.communityName],
        .cons ⟨hfree, hhash.symm⟩ ?_, trivial, by simp⟩, fun _ _ h => (by cases h)⟩
      rw [hsame, hcreate]
      exact .nil _
    · refine ⟨fun _ h => (by cases h), fun ref cm' hres => ?_⟩
      cases hres
      exact create_join_served hmsg hval hhash hfree hcreate rfl rfl henroll
    · rw [hempty] at hmember
      cases hmember

end Accepted

/-- A registration that `RegisterEdge` accepts is indexed, answered and announced. -/
theorem handleRegisterMessage_accepted {reg : Message RegisterRequest} {s1 s2 : Supernode}
    {ref : EdgeRef} {cm : CommunityRef} (hmsg : toMessage P.codecs.registerRequest r = .ok reg)
    (hreg : registerEdge P env s reg = .ok (s1, .ok (ref, cm)))
    (hs2 : s2 = (s1.setWSSConnID ref r.fromAddr).indexEdge ref) :
    ∃ f : Tally 0, ∃ out err, handleRegisterMessage P env s r = .ok (s2.count f,
        out ++ announcement P.codecs.peerInfoList env s2 out.length
          (newPeerInfoEvent typeRegister (s2.edges.cell ref)) cm r.edgeMACAddr, err) ∧
      ∃ err', sendStruct P.codecs.registerResponse env s2 []
        ⟨true, (s2.edges.cell ref).virtualIP.string, (s2.edges.cell ref).vNetMaskLen⟩
        reg.msg.communityName r.fromAddr = .ok (out, err') := by
  obtain ⟨f, out, err, hans, hsend⟩ :=
    answerRegister_ok P env r reg.msg.communityName s1 ref cm hs2
  refine ⟨f, out, err, ?_, hsend⟩
  unfold handleRegisterMessage withMessage
  rw [hmsg]
  exact bind_eq_ok.mpr ⟨_, hreg, hans⟩

theorem handleRegisterMessage_handled
    (h : handleRegisterMessage P env s r = .ok (s', out, err)) : Handled P env s r s' out err := by
  cases hmsg : toMessage P.codecs.registerRequest r with
  | error e =>
    rw [handleRegisterMessage, withMessage, hmsg] at h
    cases h
    exact .idle (.refl s) fun _ => rfl
  | ok reg =>
    have h' := h
    rw [handleRegisterMessage, withMessage, hmsg] at h'
    obtain ⟨⟨s1, e | ⟨ref, cm⟩⟩, hreg, hans'⟩ := bind_eq_ok.mp h'
    · obtain ⟨f, out1, err1, hans, hsend⟩ :=
        answerRegister_error P env r reg.msg.communityName s1 e
      rw [hans] at hans'
      cases hans'
      exact .refused f hmsg hreg hsend
    · obtain ⟨f, out1, err1, haccepted, err2, hsend⟩ := handleRegisterMessage_accepted hmsg hreg rfl
      rw [haccepted] at h
      cases h
      exact .registered f hmsg hreg rfl hsend

theorem Handled.served (v : s.registry.Valid hashCommunity) (h : Handled P env s r s' out err) :
    Served P env s r s' := by
  cases h with
  | idle hidle _ => exact served_of_registry_eq hidle.registry_eq
  | refused f hmsg hreg _ => exact (registration_served v hmsg hreg).1 _ rfl
  | registered f hmsg hreg hs2 _ =>
    rw [hs2]
    exact (registration_served v hmsg hreg).2 _ _ rfl
  | @refreshed pulse cm ref f hmsg hgroup hmember hdec =>
    have hlisted : s.registry.Listed cm r.edgeMACAddr ref := ⟨⟨_, hgroup⟩, hmember⟩
    rw [← v.listed_key hlisted] at hlisted
    have hen : s.registry.Enabled hashCommunity
        (.refresh ref (Supernode.refreshed env (s.registry.record ref) pulse)) :=
      ⟨cm, hlisted, rfl, rfl⟩
    exact served_singleton hen ⟨pulse, cm, hmsg, hgroup, hmember, hdec, rfl⟩ rfl
  | @removed unReg id cm s1 s2 pil f hmsg hval hgroup hun hunindex =>
    obtain ⟨⟨ref, hmember⟩, hindexed, hleave⟩ := registry_removed hun hunindex
    have hen : s.registry.Enabled hashCommunity (.leave cm r.edgeMACAddr) :=
      ⟨⟨ref, ⟨_, hgroup⟩, hmember⟩, hindexed⟩
    exact served_singleton hen ⟨unReg, id, hmsg, hval, hgroup, rfl⟩ hleave

/-! ## What no message changes -/

/-- The configuration, the key and the connections are the same. -/
structure SameSetup (s s' : Supernode) : Prop where
  netAllocator : s'.netAllocator = s.netAllocator
  config : s'.config = s.config
  pem : s'.pem = s.pem
  wssConnections : s'.wssConnections = s.wssConnections

theorem SameSetup.refl (s : Supernode) : SameSetup s s := ⟨rfl, rfl, rfl, rfl⟩

theorem SameSetup.trans {s1 : Supernode} (h : SameSetup s s1) (h' : SameSetup s1 s') :
    SameSetup s s' :=
  ⟨h'.netAllocator.trans h.netAllocator, h'.config.trans h.config, h'.pem.trans h.pem,
    h'.wssConnections.trans h.wssConnections⟩

theorem SameSetup.count (h : SameSetup s s') (f : SupernodeStats → SupernodeStats) :
    SameSetup s (s'.count f) := ⟨h.netAllocator, h.config, h.pem, h.wssConnections⟩

theorem Idle.sameSetup (h : Idle s s') : SameSetup s s' := by
  cases h with
  | count f => exact (SameSetup.refl s).count f
  | report infos _ => exact ⟨rfl, rfl, rfl, rfl⟩

theorem sameSetup_unregister {cm : CommunityRef} {mac : Bytes} {found : Bool}
    (h : unregister env s cm mac = (s', found)) : SameSetup s s' := by
  unfold unregister at h
  simp only at h
  split at h
  · cases h
    exact .refl s
  · cases h
    exact ⟨rfl, rfl, rfl, rfl⟩

theorem sameSetup_unindexEdge {mac : Bytes} {pil : PeerInfoList}
    (h : s.unindexEdge mac = .ok (s', pil)) : SameSetup s s' := by
  obtain ⟨⟨ref, href⟩, -⟩ := unindexEdge_ok h
  rw [unindexEdge_eq href] at h
  cases h
  exact ⟨rfl, rfl, rfl, rfl⟩

theorem sameSetup_registerCommunity {name : Bytes} {hash : UInt32} {res : Except Err CommunityRef}
    (h : registerCommunity P s name hash = .ok (s', res)) : SameSetup s s' := by
  cases registerCommunity_found h with
  | failed e => exact .refl s
  | existing _ _ _ => exact .refl s
  | created _ _ _ hpool =>
    rcases poolFor_eq_some hpool with ⟨rfl, -⟩ | ⟨pool, -, -, -, rfl⟩
    · exact ⟨rfl, rfl, rfl, rfl⟩
    · exact ⟨rfl, rfl, rfl, rfl⟩

theorem sameSetup_edgeUpdate {cm : CommunityRef} {regMsg : Message RegisterRequest}
    {res : Except Err EdgeRef} (h : edgeUpdate P env s cm regMsg = (s', res)) : SameSetup s s' := by
  cases edgeUpdate_updated h with
  | noLease e _ _ => exact ⟨rfl, rfl, rfl, rfl⟩
  | joined _ _ _ => exact ⟨rfl, rfl, rfl, rfl⟩
  | mismatch e => exact .refl s
  | rejoined _ => exact ⟨rfl, rfl, rfl, rfl⟩

theorem sameSetup_registerEdge {reg : Message RegisterRequest}
    {res : Except Err (EdgeRef × CommunityRef)} (h : registerEdge P env s reg = .ok (s', res)) :
    SameSetup s s' := by
  cases registerEdge_registered h with
  | invalid e => exact .refl s
  | noCommunity hcommunity => exact sameSetup_registerCommunity hcommunity
  | noEdge _ hcommunity hup =>
    exact (sameSetup_registerCommunity hcommunity).trans (sameSetup_edgeUpdate hup)
  | edge f _ hcommunity hup =>
    exact ((sameSetup_registerCommunity hcommunity).trans (sameSetup_edgeUpdate hup)).count f

theorem sameSetup_indexed (s : Supernode) (ref : EdgeRef) (addr : NetAddr) :
    SameSetup s ((s.setWSSConnID ref addr).indexEdge ref) := by
  cases addr <;> exact ⟨rfl, rfl, rfl, rfl⟩

theorem Handled.sameSetup (h : Handled P env s r s' out err) : SameSetup s s' := by
  cases h with
  | idle hidle _ => exact hidle.sameSetup
  | refused f _ hreg _ => exact (sameSetup_registerEdge hreg).count f
  | registered f _ hreg hs2 _ =>
    rw [hs2]
    exact ((sameSetup_registerEdge hreg).trans (sameSetup_indexed ..)).count f
  | refreshed f _ _ _ _ => exact ⟨rfl, rfl, rfl, rfl⟩
  | removed f _ _ _ hun hunindex =>
    exact ((sameSetup_unregister hun).trans (sameSetup_unindexEdge hunindex)).count f

/-! ## Whole events -/

/-- What holds of every handler's reply holds of the reply to the message. Only the two
requests that can panic are told apart by their type. -/
theorem handle_induction {C : Go Reply → Prop}
    (hregister : r.header.packetType = typeRegisterRequest → C (handleRegisterMessage P env s r))
    (hunregister : r.header.packetType = typeUnregisterRequest →
      C (handleUnregisterMessage P env s r))
    (hheartbeat : r.header.packetType = typeHeartbeat → C (handleHeartbeatMessage P env s r))
    (hharmless : ¬ AboutMembership r → ∀ x, Harmless s x → C x)
    (hraw : IsProtoV r.rawPacket) : C (handle P env s r) := by
  unfold handle
  refine iteInduction (motive := C) hregister fun h1 => ?_
  refine iteInduction (motive := C) hunregister fun h2 => ?_
  refine iteInduction (motive := C) hheartbeat fun h3 => ?_
  have hrest := hharmless fun h => h.elim h1 fun h => h.elim h2 h3
  refine iteInduction (motive := C) (fun _ => hrest _ (harmless_handleDataMessage hraw)) fun _ => ?_
  refine iteInduction (motive := C) (fun _ => hrest _ harmless_handlePeerRequestMessage) fun _ => ?_
  refine iteInduction (motive := C) (fun _ => hrest _ (harmless_handlePingMessage hraw)) fun _ => ?_
  refine iteInduction (motive := C) (fun _ => hrest _ harmless_handleP2PStateInfoMessage) fun _ => ?_
  refine iteInduction (motive := C) (fun _ => hrest _ harmless_handleP2PFullStateMessage) fun _ => ?_
  refine iteInduction (motive := C) (fun _ => hrest _ harmless_handleLeasesInfosMessage) fun _ => ?_
  exact iteInduction (motive := C) (fun _ => hrest _ harmless_handleSNPublicSecretMessage)
    fun _ => hrest _ (harmless_same _ _)

/-! The handler of each type of message. -/

theorem handle_register (h : r.header.packetType = typeRegisterRequest) :
    handle P env s r = handleRegisterMessage P env s r := by
  unfold handle
  simp only [h, if_pos]

theorem handle_heartbeat (h : r.header.packetType = typeHeartbeat) :
    handle P env s r = handleHeartbeatMessage P env s r := by
  unfold handle
  simp only [h]
  rfl

theorem handle_peerListRequest (h : r.header.packetType = typePeerListRequest) :
    handle P env s r = handlePeerRequestMessage P env s r := by
  unfold handle
  simp only [h]
  rfl

theorem handle_snPublicSecret (h : r.header.packetType = typeSNPublicSecret) :
    handle P env s r = handleSNPublicSecretMessage P env s r := by
  unfold handle
  simp only [h]
  rfl

/-- **What a message does.** Every handler's work is one of the outcomes above. -/
theorem handle_handled (hraw : IsProtoV r.rawPacket)
    (h : handle P env s r = .ok (s', out, err)) : Handled P env s r s' out err := by
  revert h
  refine handle_induction (C := fun x => x = .ok (s', out, err) → Handled P env s r s' out err)
    (fun _ => handleRegisterMessage_handled) (fun _ => handleUnregisterMessage_handled)
    (fun _ h => ?_) (fun hr _ hx => hx.handled hr) hraw
  obtain ⟨s1, out1, err1, h1, hhandled⟩ := handleHeartbeatMessage_returns P env s r
  rw [h1] at h
  cases h
  exact hhandled

/-- The registry operations that an event asks for in state `s`. -/
def Requests (P : Platform) (s : Supernode) : Event → Op → Prop
  | .packet env packet addr, op =>
    ∃ r, newRawMessage packet addr = .ok (.ok r) ∧ Requested P env s r op
  | .cleanup env, op => ∃ cm mac, (cm, mac) ∈ staleEdges env s ∧ op = .leave cm mac
  | _, _ => False

/-- The state in which the handlers see a packet: it has been counted. -/
def counted (s : Supernode) : Supernode :=
  s.count fun st => { st with packetsProcessed := st.packetsProcessed + 1 }

variable {out' : List Sent}

theorem askForRegistration_ok {addr : NetAddr} (h : askForRegistration env s out addr = .ok out') :
    ∃ xs, out' = out ++ xs ∧ ∀ x ∈ xs, x.packet = snPacket env typeRetryRegisterRequest [] [] := by
  cases addr with
  | wss connID =>
    cases h
    exact ⟨[], (List.append_nil out).symm, by simp⟩
  | udp a =>
    obtain ⟨xs, err, hwrite, hxs⟩ :=
      writePacket_returns env s out typeRetryRegisterRequest [] [] (.udp a)
    simp only [askForRegistration, hwrite, ok_bind] at h
    cases h
    exact ⟨xs, rfl, hxs⟩

section

variable {packet : Bytes} {addr : NetAddr}

/-- A packet that makes a message is counted and handled. An error may add a send to those
of the handler. -/
theorem processPacket_message (hraw : newRawMessage packet addr = .ok (.ok r))
    (h : processPacket P env s packet addr = .ok (s', out)) :
    ∃ out1 err, handle P env s.counted r = .ok (s', out1, err) ∧
      (out = out1 ∨ askForRegistration env s' out1 addr = .ok out) := by
  obtain ⟨⟨-, hver⟩, -⟩ := newRawMessage_ok hraw
  have hv : index packet 0 = .ok versionV := by
    cases packet with
    | nil => cases hver
    | cons b rest => rw [index_cons_zero, Option.some.inj hver]
  unfold processPacket at h
  simp only [hv, ok_bind, if_neg (show ¬ versionV = versionVFuze by decide), hraw] at h
  obtain ⟨⟨s1, out1, err1⟩, hhandle, h⟩ := bind_eq_ok.mp h
  cases err1 with
  | ok u =>
    cases h
    exact ⟨_, _, hhandle, Or.inl rfl⟩
  | error e =>
    simp only at h
    split at h
    · obtain ⟨out2, hask, h⟩ := bind_eq_ok.mp h
      cases h
      exact ⟨out1, _, hhandle, Or.inr hask⟩
    · cases h
      exact ⟨_, _, hhandle, Or.inl rfl⟩

theorem processPacket_other (hraw : ∀ r, newRawMessage packet addr ≠ .ok (.ok r))
    (h : processPacket P env s packet addr = .ok (s', out)) : s' = s.counted := by
  unfold processPacket at h
  obtain ⟨version, -, h⟩ := bind_eq_ok.mp h
  split at h
  · obtain ⟨out1, -, h⟩ := bind_eq_ok.mp h
    cases h
    rfl
  · obtain ⟨raw, hraw', h⟩ := bind_eq_ok.mp h
    cases raw with
    | error e =>
      cases h
      rfl
    | ok r => exact absurd hraw' (hraw r)

theorem processPacket_ok (h : processPacket P env s packet addr = .ok (s', out)) :
    s' = s.counted ∨
      ∃ r out1 err, newRawMessage packet addr = .ok (.ok r) ∧
        Handled P env s.counted r s' out1 err ∧
        (out = out1 ∨ askForRegistration env s' out1 addr = .ok out) := by
  by_cases hraw : ∃ r, newRawMessage packet addr = .ok (.ok r)
  · obtain ⟨r, hraw⟩ := hraw
    obtain ⟨out1, err, hhandle, hout⟩ := processPacket_message hraw h
    obtain ⟨hp, rfl⟩ := newRawMessage_ok hraw
    exact Or.inr ⟨_, out1, err, hraw, handle_handled hp hhandle, hout⟩
  · exact Or.inl (processPacket_other (fun r hr => hraw ⟨r, hr⟩) h)

theorem sameSetup_processPacket (h : processPacket P env s packet addr = .ok (s', out)) :
    SameSetup s s' := by
  rcases processPacket_ok h with rfl | ⟨r, out1, err, -, hhandled, -⟩
  · exact (SameSetup.refl s).count _
  · exact ((SameSetup.refl s).count _).trans hhandled.sameSetup

end

theorem processPacket_served (v : s.registry.Valid hashCommunity) {packet : Bytes} {addr : NetAddr}
    (h : processPacket P env s packet addr = .ok (s', out)) :
    s'.registry = s.registry ∨
      ∃ r, newRawMessage packet addr = .ok (.ok r) ∧ Served P env s r s' := by
  rcases processPacket_ok h with rfl | ⟨r, out1, err, hraw, hhandled, -⟩
  · exact Or.inl rfl
  · have hserved : Served P env s.counted r s' := hhandled.served v
    exact Or.inr ⟨r, hraw, hserved⟩

variable {stales : List (CommunityRef × Bytes)}

/-- The removals of a cleanup, one after the other: what each of them keeps, all of them do.
The removals are announced in between. -/
theorem cleanupLoop_induction {I : Supernode → List Sent → Prop}
    (hremove : ∀ s s1 s2 out cm mac pil, ∀ f : Tally 2, (cm, mac) ∈ stales → I s out →
      unregister env s cm mac = (s1, true) → s1.unindexEdge mac = .ok (s2, pil) →
      I (s2.count f) (out ++ announcement P.codecs.peerInfoList env s2 out.length pil cm mac))
    (h : cleanupLoop P env stales s out = .ok (s', out')) (h0 : I s out) : I s' out' := by
  induction stales generalizing s out with
  | nil =>
    cases h
    exact h0
  | cons stale stales ih =>
    obtain ⟨cm, mac⟩ := stale
    have hrest := fun s s1 s2 out cm mac pil f hmem =>
      hremove s s1 s2 out cm mac pil f (List.mem_cons_of_mem _ hmem)
    unfold cleanupLoop at h
    rcases hun : unregister env s cm mac with ⟨s1, found⟩
    rw [hun] at h
    cases found with
    | false =>
      rw [(unregister_false hun).1] at h
      exact ih hrest h h0
    | true =>
      obtain ⟨⟨s2, out2⟩, hon, h⟩ := bind_eq_ok.mp h
      obtain ⟨s3, pil, f, hunindex, rfl, rfl⟩ := onEdgeUnregistered_eq hon
      obtain ⟨s2, hunindexed, rfl⟩ := unindexEdge_count hunindex
      refine ih hrest h ?_
      rw [announcement_count]
      exact hremove s s1 s2 out cm mac pil (Tally.unregister.andThen f) (by simp) h0 hun hunindexed

theorem cleanupLoop_run (h : cleanupLoop P env stales s out = .ok (s', out'))
    (hknown : ∀ cm mac, (cm, mac) ∈ stales → ∃ hash, s.registry.group hash = some cm) :
    ∃ ops, Registry.Run hashCommunity s.registry ops s'.registry ∧ Registry.Mild ops ∧
      ∀ op ∈ ops, ∃ cm mac, (cm, mac) ∈ stales ∧ op = .leave cm mac := by
  obtain ⟨ops, hrun, hgroup, hops⟩ := cleanupLoop_induction
    (I := fun s' _ => ∃ ops, Registry.Run hashCommunity s.registry ops s'.registry ∧
      s'.registry.group = s.registry.group ∧
      ∀ op ∈ ops, ∃ cm mac, (cm, mac) ∈ stales ∧ op = .leave cm mac)
    (fun s1 s2 s3 out cm mac pil f hmem ⟨ops, hrun, hgroup, hops⟩ hun hunindex => by
      obtain ⟨⟨ref, hmember⟩, hindexed, hleave⟩ := registry_removed hun hunindex
      have hen : s1.registry.Enabled hashCommunity (.leave cm mac) :=
        ⟨⟨ref, by rw [hgroup]; exact hknown cm mac hmem, hmember⟩, hindexed⟩
      refine ⟨ops ++ [.leave cm mac], ?_, ?_, fun op hop => ?_⟩
      · rw [registry_count, hleave]
        exact hrun.concat hen
      · rw [registry_count, hleave]
        exact (Registry.group_unindex (m := s1.registry.expel cm mac)).trans hgroup
      · rcases List.mem_append.mp hop with hop | hop
        · exact hops op hop
        · exact ⟨cm, mac, hmem, List.mem_singleton.mp hop⟩)
    h ⟨[], .nil _, rfl, by simp⟩
  refine ⟨ops, hrun, Registry.mild_of_quiet fun op hop => ?_, hops⟩
  obtain ⟨cm, mac, -, rfl⟩ := hops op hop
  trivial

theorem group_of_mem_staleEdges {cm : CommunityRef} {mac : Bytes}
    (h : (cm, mac) ∈ staleEdges env s) : ∃ hash, s.registry.group hash = some cm := by
  unfold staleEdges at h
  simp only [List.mem_flatMap, MapOrder.mem_visit, Table.mem_values_iff, List.mem_map,
    Prod.mk.injEq] at h
  obtain ⟨cm', ⟨hash, hlook⟩, id, -, rfl, rfl⟩ := h
  exact ⟨hash, hlook⟩

theorem cleanupStaleEdges_run (h : cleanupStaleEdges P env s = .ok (s', out)) :
    ∃ ops, Registry.Run hashCommunity s.registry ops s'.registry ∧ Registry.Mild ops ∧
      ∀ op ∈ ops, ∃ cm mac, (cm, mac) ∈ staleEdges env s ∧ op = .leave cm mac := by
  obtain ⟨⟨s1, out1⟩, hloop, h⟩ := bind_eq_ok.mp h
  cases h
  rw [registry_count]
  exact cleanupLoop_run hloop fun cm mac hmem => group_of_mem_staleEdges hmem

theorem sameSetup_cleanupStaleEdges (h : cleanupStaleEdges P env s = .ok (s', out)) :
    SameSetup s s' := by
  obtain ⟨⟨s1, out1⟩, hloop, h⟩ := bind_eq_ok.mp h
  cases h
  refine (cleanupLoop_induction (I := fun s1 _ => SameSetup s s1) ?_ hloop (.refl s)).count _
  intro s1 s2 s3 out cm mac pil f _ hsame hun hunindex
  exact ((hsame.trans (sameSetup_unregister hun)).trans (sameSetup_unindexEdge hunindex)).count f

/-- **An event does to the registry what it requests**, and may create a community. -/
theorem step_registry (v : s.registry.Valid hashCommunity) {ev : Event}
    (h : step P s ev = .ok (s', out)) :
    ∃ ops, Registry.Run hashCommunity s.registry ops s'.registry ∧ Registry.Mild ops ∧
      ∀ op ∈ ops, (∃ h n, op = .create h n) ∨ Requests P s ev op := by
  cases ev with
  | packet env packet addr =>
    rcases processPacket_served v h with hsame | ⟨r, hraw, ops, hrun, hmild, hops⟩
    · exact ⟨[], by rw [hsame]; exact .nil _, trivial, by simp⟩
    · refine ⟨ops, hrun, hmild, fun op hop => ?_⟩
      rcases hops op hop with hcreate | hreq
      · exact Or.inl hcreate
      · exact Or.inr ⟨r, hraw, hreq⟩
  | cleanup env =>
    obtain ⟨ops, hrun, hmild, hops⟩ := cleanupStaleEdges_run h
    exact ⟨ops, hrun, hmild, fun op hop => Or.inr (hops op hop)⟩
  | connect connID conn =>
    cases h
    exact ⟨[], .nil _, trivial, by simp⟩
  | disconnect connID =>
    cases h
    exact ⟨[], .nil _, trivial, by simp⟩

/-! ## Reachable states -/

/-- A supernode that has just started. -/
def Initial (s : Supernode) : Prop :=
  ∃ config netAllocator pem noCommunity noEdge noPool,
    s = newSupernodeWithConfig config netAllocator pem noCommunity noEdge noPool

/-- The states of a supernode that any events can lead to. -/
def Reachable (P : Platform) : Supernode → Prop := Reach (step P) Initial fun _ _ => True

theorem valid_initial (h : Initial s) : s.registry.Valid hashCommunity := by
  obtain ⟨config, netAllocator, pem, noCommunity, noEdge, noPool, rfl⟩ := h
  constructor <;> simp [newSupernodeWithConfig, registry, Registry.Listed]

/-- **The registry of a reachable supernode is valid.** -/
theorem Reachable.valid (h : Reachable P s) : s.registry.Valid hashCommunity :=
  Reach.invariant (I := fun s => s.registry.Valid hashCommunity) (fun _ => valid_initial)
    (fun _ _ _ _ v _ hstep => by
      obtain ⟨ops, hrun, -⟩ := step_registry v hstep
      exact v.run hrun) h

end N2nGo.Supernode
