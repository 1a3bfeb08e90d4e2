import N2nGo.Lib.Replica
import N2nGo.Model.PeerView
import N2nGo.Analysis.Agreement
import N2nGo.Analysis.EdgeEvents
import N2nGo.Analysis.Peers

/-!
# What the supernode tells the members of a community

A peer list is a complete copy of the members of a community, and an announcement a change
of one entry. The supernode tells every member but the one concerned. `Carries` says what a
packet means to an edge, and `Told` that the packets sent in a step mean what the step has
changed; `told_handled` and `told_cleanup` show it of every message about membership and of
the removal of stale edges.
-/

set_option autoImplicit false

namespace N2nGo

open N2nGo.Lib N2nGo.Protocol N2nGo.Messages

namespace PeerView

open PeerRegistry

/-! ## What a packet means to an edge -/

/-- The data of the peers, without what the edge has found out about reaching them. -/
def infosOf (v : Bytes → Option Peer) (mac : Bytes) : Option PeerInfo := (v mac).map Peer.infos

/-- The packet makes an edge apply `feed`. -/
def Carries (Q : EdgeClient.Platform) (packet : Bytes) (feed : Feed Bytes PeerInfo) : Prop :=
  ∀ addr, ∃ r m, newRawMessage packet addr = .ok (.ok r) ∧
    toMessage Q.codecs.peerInfoList r = .ok m ∧
    ∀ now v, infosOf (applyList now m.msg v) = feed.apply (infosOf v)

variable {pil : PeerInfoList}

section Edge

variable {Q : EdgeClient.Platform} {env : EdgeClient.Env} {e e' : EdgeClient} {packet : Bytes}
  {feed : Feed Bytes PeerInfo}

theorem Carries.read (h : Carries Q packet feed) (k : e.peers.Kept) {addr : NetAddr}
    {out : List EdgeClient.Output} (hread : e.handlePacket Q env packet addr = .ok (e', out)) :
    e'.peers.Kept ∧ infosOf e'.peers.view = feed.apply (infosOf e.peers.view) := by
  obtain ⟨r, m, hraw, hm, hfeed⟩ := h addr
  rcases EdgeClient.handlePacket_ok hread with ⟨⟨err, hraw'⟩, -⟩ | ⟨r', err, hraw', hhandle⟩
  · rw [hraw] at hraw'
    cases hraw'
  · rw [hraw] at hraw'
    cases hraw'
    obtain ⟨reg, res, happly, rfl, -⟩ := EdgeClient.handle_peerInfoList hm hhandle
    obtain ⟨k', hview⟩ := k.handlePeerInfoList happly
    refine ⟨k', ?_⟩
    rw [← hfeed env.now, ← hview]
    rfl

theorem infosOf_announce (now : ℤ) (v : Bytes → Option Peer) (info : PeerInfo) :
    infosOf (announce now v info) = Function.update (infosOf v) info.key (some info) := by
  funext mac
  unfold infosOf announce
  rw [Function.update_apply, Function.update_apply]
  split
  · exact congrArg some (infos_announcedPeer _ info)
  · rfl

/-- Every entry of a list ends up in the map, when no two are for one address. -/
theorem infosOf_announces {now : ℤ} {infos : List PeerInfo} {v : Bytes → Option Peer}
    {info : PeerInfo} (hinfo : info ∈ infos ∨ infosOf v info.key = some info)
    (hone : ∀ info' ∈ infos, info'.key = info.key → info' = info) :
    infosOf (infos.foldl (announce now) v) info.key = some info := by
  induction infos generalizing v with
  | nil => exact hinfo.resolve_left List.not_mem_nil
  | cons info' infos ih =>
    refine ih ?_ fun i hi => hone i (List.mem_cons_of_mem _ hi)
    rw [infosOf_announce, Function.update_apply]
    by_cases hkey : info.key = info'.key
    · right
      rw [if_pos hkey, hone info' List.mem_cons_self hkey.symm]
    · rw [if_neg hkey]
      refine hinfo.imp_left fun hmem => (List.mem_cons.mp hmem).resolve_left ?_
      rintro rfl
      exact hkey rfl

theorem infosOf_list (htype : pil.eventType.toUInt8 = typeList) {m : Bytes → Option PeerInfo}
    (hm : ∀ mac info, m mac = some info ↔ info ∈ pil.peerInfos ∧ info.key = mac) (now : ℤ)
    (v : Bytes → Option Peer) : infosOf (applyList now pil v) = m := by
  unfold applyList
  simp only [if_pos htype]
  funext mac
  unfold infosOf
  beta_reduce
  cases hmac : m mac with
  | none =>
    rw [if_neg]
    · rfl
    · intro hkey
      obtain ⟨info, hinfo, hkey⟩ := List.mem_map.mp hkey
      rw [(hm mac info).mpr ⟨hinfo, hkey⟩] at hmac
      cases hmac
  | some info =>
    obtain ⟨hinfo, rfl⟩ := (hm mac info).mp hmac
    rw [if_pos (List.mem_map_of_mem hinfo)]
    refine infosOf_announces (Or.inl hinfo) fun info' hinfo' hkey => ?_
    have hsame := (hm info.key info').mpr ⟨hinfo', hkey⟩
    rw [hmac] at hsame
    exact (Option.some.inj hsame).symm

theorem infosOf_register (now : ℤ) (edge : Edge) (v : Bytes → Option Peer) :
    infosOf (applyList now (Supernode.newPeerInfoEvent typeRegister edge) v) =
      Function.update (infosOf v) edge.peerInfo.key (some edge.peerInfo) :=
  infosOf_announce now v edge.peerInfo

theorem infosOf_unregister (now : ℤ) (edge : Edge) (v : Bytes → Option Peer) :
    infosOf (applyList now (Supernode.newPeerInfoEvent typeUnregister edge) v) =
      Function.update (infosOf v) edge.peerInfo.key none := by
  have happly : applyList now (Supernode.newPeerInfoEvent typeUnregister edge) v =
      fun mac => if mac ∈ [edge.peerInfo.key] then none else v mac := rfl
  rw [happly]
  funext mac
  rw [Function.update_apply]
  unfold infosOf
  simp only [List.mem_singleton]
  split
  · rfl
  · rfl

end Edge

/-! ## What the supernode sends -/

open Supernode

/-- The peers of the list are records of the registry. -/
def OfRecords (m : Registry UInt32 Bytes Bytes Bytes Edge) (pil : PeerInfoList) : Prop :=
  ∀ info, pil.origin = some info ∨ info ∈ pil.peerInfos →
    ∃ ref, m.Known ref ∧ (m.record ref).peerInfo = info

/-- Protobuf carries the list from the supernode to the edges. -/
def Carried (P : Supernode.Platform) (Q : EdgeClient.Platform) (pil : PeerInfoList) : Prop :=
  ∃ payload, P.codecs.peerInfoList.encode pil = some payload ∧
    Q.codecs.peerInfoList.decode payload = some pil

/-- Protobuf carries the peer lists that a supernode with this registry builds. -/
def Transmits (P : Supernode.Platform) (Q : EdgeClient.Platform)
    (m : Registry UInt32 Bytes Bytes Bytes Edge) : Prop := ∀ pil, OfRecords m pil → Carried P Q pil

section Packets

variable {P : Supernode.Platform} {Q : EdgeClient.Platform} {env : Supernode.Env} {s : Supernode}
  {out : List Sent} {cm : CommunityRef} {mac : Bytes}

theorem isPeerInfo_snPacket (env : Supernode.Env) (pt : PacketType) (name payload : Bytes) :
    isPeerInfo (snPacket env pt name payload) = decide (pt = typePeerInfo) := by
  unfold isPeerInfo snPacket
  rw [unpack_pack rfl]
  rfl

theorem carries_snPacket {payload : Bytes} (feed : Feed Bytes PeerInfo)
    (hdec : Q.codecs.peerInfoList.decode payload = some pil)
    (hfeed : ∀ now v, infosOf (applyList now pil v) = feed.apply (infosOf v)) (env : Supernode.Env)
    (name : Bytes) : Carries Q (snPacket env typePeerInfo name payload) feed := by
  intro addr
  let r : RawMessage :=
    ⟨snHeader env typePeerInfo name, payload, addr, snPacket env typePeerInfo name payload⟩
  have hraw : newRawMessage (snPacket env typePeerInfo name payload) addr = .ok (.ok r) :=
    newRawMessage_pack rfl payload addr
  exact ⟨r, _, hraw, toMessage_of_decode rfl hdec, hfeed⟩

theorem arrivals_append (asking : Option Bytes) (out out' : List Sent) (mac : Bytes) :
    arrivals asking (out ++ out') mac = arrivals asking out mac ++ arrivals asking out' mac := by
  unfold arrivals
  rw [List.filter_append, List.map_append]

theorem exists_of_mem_arrivals {asking : Option Bytes} {packet : Bytes}
    (h : packet ∈ arrivals asking out mac) :
    ∃ x ∈ out, recipient asking x = some mac ∧ x.packet = packet := by
  obtain ⟨x, hx, hpacket⟩ := List.mem_map.mp h
  obtain ⟨hmem, htest⟩ := List.mem_filter.mp hx
  exact ⟨x, hmem, of_decide_eq_true (Bool.and_eq_true_iff.mp htest).1, hpacket⟩

theorem arrivals_of_ne {pt : PacketType} {out : List Sent} (hpt : pt ≠ typePeerInfo)
    (h : ∀ x ∈ out, ∃ env name payload, x.packet = snPacket env pt name payload)
    (asking : Option Bytes) (mac : Bytes) : arrivals asking out mac = [] := by
  unfold arrivals
  rw [List.map_eq_nil_iff, List.filter_eq_nil_iff]
  intro x hx
  obtain ⟨env, name, payload, hpacket⟩ := h x hx
  rw [hpacket, isPeerInfo_snPacket]
  simp [hpt]

theorem arrivals_sendStruct {T : Type} [PacketTyped T] {codec : Codec T} {p : T} {name : Bytes}
    {addr : NetAddr} {err : Except Supernode.Err Unit}
    (hpt : PacketTyped.packetType T ≠ typePeerInfo)
    (h : sendStruct codec env s [] p name addr = .ok (out, err)) :
    arrivals none out = fun _ => [] := by
  obtain ⟨xs, err', h', hxs⟩ := sendStruct_returns codec env s [] p name addr
  rw [h, List.nil_append] at h'
  cases h'
  funext mac
  refine arrivals_of_ne hpt (fun x hx => ?_) none mac
  obtain ⟨payload, -, hpacket⟩ := hxs x hx
  exact ⟨env, name, payload, hpacket⟩

theorem arrivals_attempts {packet : Bytes} (hpacket : isPeerInfo packet = true) (n : ℕ)
    (targets : List Edge) (mac : Bytes) :
    arrivals none (attempts env s packet n targets) mac =
      (targets.filter (·.macAddr = mac)).map fun _ => packet := by
  induction targets generalizing n with
  | nil => rfl
  | cons target targets ih =>
    have hcons : arrivals none (attempts env s packet n (target :: targets)) mac =
        arrivals none [attempt env s packet n target] mac ++
          arrivals none (attempts env s packet (n + 1) targets) mac :=
      arrivals_append none [attempt env s packet n target] _ mac
    rw [hcons, ih]
    unfold arrivals recipient attempt
    by_cases hmac : target.macAddr = mac
    · simp [hmac, hpacket]
    · simp [hmac]

section

variable (v : s.registry.Valid hashCommunity) (hcm : ∃ hash, s.communities.lookup hash = some cm)
include v hcm

theorem filter_getAllEdges (env : Supernode.Env) (mac : Bytes) :
    (getAllEdges env s cm).filter (·.macAddr = mac) = (s.registry.content cm mac).toList := by
  have hvalues : ((s.cms.cell cm).edges.values.map s.edges.cell).filter (·.macAddr = mac) =
      (s.registry.content cm mac).toList := by
    rw [List.filter_map]
    have hfilter := Table.filter_values (t := (s.cms.cell cm).edges)
      (f := fun ref => (s.edges.cell ref).macAddr)
      (fun k ref hk => v.listed_key ⟨hcm, hk⟩) mac
    rw [show (fun edge : Edge => decide (edge.macAddr = mac)) ∘ s.edges.cell =
      fun ref => decide ((s.edges.cell ref).macAddr = mac) from rfl, hfilter]
    exact Option.toList_map.symm
  have hperm : ((getAllEdges env s cm).filter (·.macAddr = mac)).Perm
      (s.registry.content cm mac).toList := by
    rw [← hvalues]
    exact ((env.order.visit_perm _).map _).filter _
  cases hcontent : s.registry.content cm mac with
  | none =>
    rw [hcontent] at hperm
    exact hperm.eq_nil
  | some edge =>
    rw [hcontent] at hperm
    exact hperm.eq_singleton

/-- A member that is not the sender receives an announcement once, and nobody else does. -/
theorem arrivals_announcement {payload : Bytes}
    (hencode : P.codecs.peerInfoList.encode pil = some payload) (n : ℕ) (sender mac : Bytes) :
    arrivals none (announcement P.codecs.peerInfoList env s n pil cm sender) mac =
      if mac = sender then []
      else (s.registry.content cm mac).toList.map fun _ =>
        snPacket env typePeerInfo (s.cms.cell cm).name payload := by
  have hpacket : isPeerInfo (snPacket env typePeerInfo (s.cms.cell cm).name payload) = true := by
    rw [isPeerInfo_snPacket]
    rfl
  unfold announcement
  rw [hencode, Option.elim_some]
  rw [show PacketTyped.packetType PeerInfoList = typePeerInfo from rfl,
    arrivals_attempts hpacket, List.filter_filter]
  split
  · next heq =>
    subst heq
    rw [List.filter_eq_nil_iff.mpr, List.map_nil]
    intro edge _
    simp
  · next hne =>
    rw [← filter_getAllEdges v hcm env mac]
    congr 1
    refine List.filter_congr fun edge _ => ?_
    by_cases hmac : edge.macAddr = mac
    · simp [hmac, hne]
    · simp [hmac]

end

end Packets

/-! ## What a step tells the members -/

/-- The data of the members of a community. -/
def members (m : Registry UInt32 Bytes Bytes Bytes Edge) (cm : CommunityRef) (mac : Bytes) :
    Option PeerInfo := (m.content cm mac).map Edge.peerInfo

/-- The packets in `inbox` tell every member but the new ones how its community has changed. -/
def Told (Q : EdgeClient.Platform) (new : Bytes → Prop)
    (m m' : Registry UInt32 Bytes Bytes Bytes Edge) (inbox : Bytes → List Bytes) : Prop :=
  ∀ mac, ∃ feeds, List.Forall₂ (Carries Q) (inbox mac) feeds ∧
    ∀ cm, (∃ ref, m'.Listed cm mac ref) → ¬ new mac →
      (∃ ref, m.Listed cm mac ref) ∧
        replay feeds (hide mac (members m cm)) = hide mac (members m' cm)

section Told

variable {P : Supernode.Platform} {Q : EdgeClient.Platform} {env : Supernode.Env}
  {new : Bytes → Prop} {m m' m'' : Registry UInt32 Bytes Bytes Bytes Edge}
  {inbox inbox' : Bytes → List Bytes} {s : Supernode} {cm : CommunityRef} {mac : Bytes}

theorem Told.silent
    (h : ∀ cm mac, (∃ ref, m'.Listed cm mac ref) →
      (∃ ref, m.Listed cm mac ref) ∧ members m' cm = members m cm) :
    Told Q new m m' fun _ => [] := by
  refine fun mac => ⟨[], .nil, fun cm hl _ => ?_⟩
  obtain ⟨hold, hsame⟩ := h cm mac hl
  exact ⟨hold, by rw [replay_nil, hsame]⟩

theorem Told.refl (m : Registry UInt32 Bytes Bytes Bytes Edge) : Told Q new m m fun _ => [] :=
  .silent fun _ _ hl => ⟨hl, rfl⟩

theorem Told.trans (h : Told Q new m m' inbox) (h' : Told Q new m' m'' inbox') :
    Told Q new m m'' fun mac => inbox mac ++ inbox' mac := by
  intro mac
  obtain ⟨feeds, hfeeds, htold⟩ := h mac
  obtain ⟨feeds', hfeeds', htold'⟩ := h' mac
  refine ⟨feeds ++ feeds', List.rel_append hfeeds hfeeds', fun cm hl hnew => ?_⟩
  obtain ⟨hl', hreplay'⟩ := htold' cm hl hnew
  obtain ⟨hold, hreplay⟩ := htold cm hl' hnew
  exact ⟨hold, by rw [replay_append, hreplay, hreplay']⟩

theorem Told.append {out out' : List Sent} (h : Told Q new m m' (arrivals none out))
    (h' : Told Q new m' m'' (arrivals none out')) : Told Q new m m'' (arrivals none (out ++ out')) := by
  intro mac
  rw [arrivals_append]
  exact h.trans h' mac

theorem told_create (v : m.Valid hashCommunity) {hash : UInt32} (hfree : m.group hash = none)
    (name : Bytes) : Told Q new m (m.create hash name) fun _ => [] := by
  refine .silent fun cm mac hl => ?_
  obtain ⟨ref, hl⟩ := hl
  have hold := (Registry.listed_create v hfree).mp hl
  obtain ⟨hash', hgroup⟩ := hold.1
  have hsame : (m.create hash name).content cm = m.content cm :=
    Registry.content_create (Nat.ne_of_lt (v.group_lt hgroup)) hash name
  refine ⟨⟨ref, hold⟩, ?_⟩
  unfold members
  rw [hsame]

/-- **One change and its announcement.** The operation leaves `o` under `sender` in one
community, and the announcement says so. -/
theorem told_announcement (hcarried : Carried P Q pil) (v : m.Valid hashCommunity)
    (v' : s.registry.Valid hashCommunity) (ha' : s.registry.Agrees) {op : Op} {sender : Bytes}
    {o : Option Edge} (hsets : op.Sets m cm sender o) (hop : s.registry = m.apply op)
    (hcm : ∃ hash, m.group hash = some cm) (hpil : ∀ now v, infosOf (applyList now pil v) =
      Function.update (infosOf v) sender (o.map Edge.peerInfo))
    (hnew : (∃ ref, m.Listed cm sender ref) ∨ new sender) (n : ℕ) :
    Told Q new m s.registry
      (arrivals none (announcement P.codecs.peerInfoList env s n pil cm sender)) := by
  intro mac
  obtain ⟨payload, hencode, hdecode⟩ := hcarried
  have hgroup : s.registry.group = m.group := hop ▸ Registry.group_apply_of_sets hsets
  have hcontent : ∀ cm', (∃ hash, m.group hash = some cm') → s.registry.content cm' =
      if cm' = cm then Function.update (m.content cm') sender o else m.content cm' :=
    fun cm' hg => hop ▸ Registry.content_apply v hsets hg
  have hmembers : members s.registry cm =
      Function.update (members m cm) sender (o.map Edge.peerInfo) := by
    funext mac'
    unfold members
    rw [hcontent cm hcm, if_pos rfl, Function.update_apply, Function.update_apply]
    split <;> rfl
  -- a community that is not concerned stays as it is
  have hother : ∀ cm', (∃ ref, s.registry.Listed cm' mac ref) → cm' ≠ cm →
      (∃ ref, m.Listed cm' mac ref) ∧
        hide mac (members m cm') = hide mac (members s.registry cm') := by
    intro cm' hl hne
    obtain ⟨hg, edge, hedge⟩ := Registry.listed_iff_content.mp hl
    rw [hgroup] at hg
    have hsame := hcontent cm' hg
    rw [if_neg hne] at hsame
    refine ⟨Registry.listed_iff_content.mpr ⟨hg, edge, hsame ▸ hedge⟩, ?_⟩
    unfold members
    rw [hsame]
  rw [arrivals_announcement v' (by rw [← hgroup] at hcm; exact hcm) hencode]
  by_cases hmac : mac = sender
  · subst hmac
    rw [if_pos rfl]
    refine ⟨[], .nil, fun cm' hl hold => ?_⟩
    by_cases hcm' : cm' = cm
    · subst hcm'
      refine ⟨hnew.resolve_right hold, ?_⟩
      rw [hmembers, hide_update_self, replay_nil]
    · exact hother cm' hl hcm'
  · rw [if_neg hmac]
    have hsame : s.registry.content cm mac = m.content cm mac := by
      rw [hcontent cm hcm, if_pos rfl, Function.update_of_ne hmac]
    cases hedge : s.registry.content cm mac with
    | none =>
      refine ⟨[], .nil, fun cm' hl _ => hother cm' hl ?_⟩
      rintro rfl
      obtain ⟨-, edge, hedge'⟩ := Registry.listed_iff_content.mp hl
      rw [hedge] at hedge'
      cases hedge'
    | some edge =>
      have hcarries := carries_snPacket (.change sender (o.map Edge.peerInfo)) hdecode hpil env
        (s.cms.cell cm).name
      refine ⟨[_], .cons hcarries .nil, fun cm' hl _ => ?_⟩
      have hlisted : ∃ ref, s.registry.Listed cm mac ref :=
        Registry.listed_iff_content.mpr ⟨by rw [hgroup]; exact hcm, edge, hedge⟩
      obtain ⟨ref, hl⟩ := hl
      obtain ⟨ref', hl'⟩ := hlisted
      obtain rfl : cm' = cm := ha'.group_unique v' hl' hl
      refine ⟨Registry.listed_iff_content.mpr ⟨hcm, edge, hsame ▸ hedge⟩, ?_⟩
      rw [hmembers, hide_update_of_ne hmac]
      rfl

theorem Transmits.leave (h : Transmits P Q m) (cm : CommunityRef) (mac : Bytes) :
    Transmits P Q (m.apply (.leave cm mac)) := by
  refine fun pil hof => h pil fun info hinfo => ?_
  obtain ⟨ref, hk, rfl⟩ := hof info hinfo
  have hrecord : (m.apply (.leave cm mac)).record = m.record := Registry.record_unindex
  exact ⟨ref, Registry.known_leave hk, by rw [hrecord]⟩

theorem Transmits.event (h : Transmits P Q m) {ref : EdgeRef} (hk : m.Known ref) (eventType : UInt8) :
    Carried P Q (newPeerInfoEvent eventType (m.record ref)) := by
  refine h _ fun info hinfo => ?_
  rcases hinfo with horigin | hmem
  · cases horigin
  · exact ⟨ref, hk, (List.mem_singleton.mp hmem).symm⟩

end Told

/-! ## The addresses of members -/

/-- The text of a MAC address. -/
def IsMAC (mac : Bytes) : Prop := ∃ id : MacID, mac = Net.hardwareAddrString id.bytes

theorem key_peerInfo {edge : Edge} (h : IsMAC edge.macAddr) : edge.peerInfo.key = edge.macAddr := by
  obtain ⟨id, hid⟩ := h
  unfold Edge.peerInfo PeerInfo.key
  simp only
  rw [hid, Net.parseMAC_hardwareAddrString id.length_eq]
  rfl

theorem isMAC_of_validate {P : Supernode.Platform} {mac encryptedID name id : Bytes}
    (h : validateEdgeClaimedMACAddr P mac encryptedID name = .ok id) : IsMAC mac := by
  unfold validateEdgeClaimedMACAddr at h
  cases hdec : decryptMachineID P encryptedID with
  | error e =>
    rw [hdec] at h
    cases h
  | ok machineID =>
    rw [hdec] at h
    simp only at h
    split at h
    · cases h
    · next hmac => exact ⟨_, (not_ne_iff.mp hmac).symm⟩

/-- The registry is valid, no MAC is a member of two communities, and members are found
under MAC addresses. -/
structure Proper (m : Registry UInt32 Bytes Bytes Bytes Edge) : Prop where
  valid : m.Valid hashCommunity
  agrees : m.Agrees
  isMAC : ∀ {cm mac ref}, m.Listed cm mac ref → IsMAC mac

section Members

variable {P : Supernode.Platform} {Q : EdgeClient.Platform} {env : Supernode.Env}
  {s s' s1 s2 : Supernode} {ev : Supernode.Event} {out : List Sent} {r : RawMessage}
  {err : Except Supernode.Err Unit} {cm : CommunityRef} {mac : Bytes} {ref : EdgeRef}

theorem proper_step (p : Proper s.registry) (hadm : JoinsOneCommunity P s ev)
    (h : Supernode.step P s ev = .ok (s', out)) : Proper s'.registry := by
  obtain ⟨ops, hrun, -, hops⟩ := step_registry p.valid h
  refine ⟨p.valid.run hrun, agrees_step p.valid p.agrees hadm h, fun hl => ?_⟩
  rcases Registry.listed_of_run p.valid hrun hl with ⟨j, hold⟩ | ⟨edge, hjoin, rfl⟩
  · exact p.isMAC hold
  · rcases hops _ hjoin with ⟨hash, name, hop⟩ | hreq
    · cases hop
    · cases ev with
      | packet env packet addr =>
        obtain ⟨r, -, reg, id, -, hval, -, hmac, -⟩ := hreq
        show IsMAC edge.macAddr
        rw [hmac]
        exact isMAC_of_validate hval
      | cleanup env =>
        obtain ⟨cm, mac, -, hop⟩ := hreq
        cases hop
      | connect connID conn => exact hreq.elim
      | disconnect connID => exact hreq.elim

theorem peerInfo_refreshed {edge : Edge} {pulse : Message HeartbeatPulse}
    (h : addressChanged edge pulse = false) :
    (Supernode.refreshed env edge pulse).peerInfo = edge.peerInfo := by
  unfold addressChanged at h
  simp only [Bool.or_eq_false_iff, bne_eq_false_iff_eq, Bool.not_eq_false'] at h
  obtain ⟨hport, hip⟩ := h
  have hstring : Net.ipString (Supernode.refreshed env edge pulse).publicIP =
      Net.ipString edge.publicIP := by
    refine Eq.trans (congrArg Net.ipString ?_) (Net.ipString_eq_of_ipEqual hip).symm
    unfold Supernode.refreshed
    simp only
    cases pulse.fromAddr with
    | wss connID => rfl
    | udp a =>
      -- an empty IP has no text that parses, so both are empty
      show a.ip = if a.ip = [] then Net.parseIP a.string else a.ip
      by_cases hnil : a.ip = []
      · rw [if_pos hnil, hnil]
        exact (Net.parseIP_string_of_nil hnil).symm
      · rw [if_neg hnil]
  have hportEq : (Supernode.refreshed env edge pulse).publicPort = edge.publicPort := hport.symm
  unfold Edge.peerInfo
  rw [hstring, hportEq]
  rfl

/-- The registry in which an edge is entered: its community is created if need be. -/
inductive Prepared (m : Registry UInt32 Bytes Bytes Bytes Edge) :
    Registry UInt32 Bytes Bytes Bytes Edge → Prop where
  | same : Prepared m m
  | created {hash : UInt32} {name : Bytes} : m.group hash = none → hashCommunity name = hash →
      Prepared m (m.create hash name)

section

variable {m m' : Registry UInt32 Bytes Bytes Bytes Edge}

theorem Prepared.valid (h : Prepared m m') (v : m.Valid hashCommunity) :
    m'.Valid hashCommunity := by
  cases h with
  | same => exact v
  | created hfree hname => exact v.create hfree hname

theorem Prepared.listed_iff (h : Prepared m m') (v : m.Valid hashCommunity) :
    m'.Listed cm mac ref ↔ m.Listed cm mac ref := by
  cases h with
  | same => rfl
  | created hfree _ => exact Registry.listed_create v hfree

theorem Prepared.told {new : Bytes → Prop} (h : Prepared m m') (v : m.Valid hashCommunity) :
    Told Q new m m' fun _ => [] := by
  cases h with
  | same => exact .refl m
  | created hfree _ => exact told_create v hfree _

end

theorem prepared_of_registerCommunity {name : Bytes} {hash : UInt32}
    (h : registerCommunity P s name hash = .ok (s', .ok cm)) :
    Prepared s.registry s'.registry ∧ ∃ hash, s'.registry.group hash = some cm := by
  rcases registerCommunity_ok h with ⟨⟨e, he⟩, -⟩ | ⟨cm0, hcm0, hhash, hfound⟩
  · cases he
  cases hcm0
  rcases hfound with ⟨rfl, hgroup, -⟩ | ⟨hfree, rfl, hcreate⟩
  · exact ⟨.same, hash, hgroup⟩
  · rw [hcreate]
    refine ⟨.created hfree hhash.symm, hash, ?_⟩
    simp only [Registry.create, Function.update_self]
    rfl

theorem prepared_of_refused {reg : Message RegisterRequest} {e : Supernode.Err}
    (h : registerEdge P env s reg = .ok (s', .error e)) : Prepared s.registry s'.registry := by
  rcases registerEdge_ok h with ⟨-, hsame⟩ | ⟨cm, s0, hcommunity, ⟨-, hsame⟩ | ⟨id, -, hcases⟩⟩
  · rw [hsame]
    exact .same
  · rw [hsame]
    exact (prepared_of_registerCommunity hcommunity).1
  · rcases hcases with ⟨vip, -, hres, -⟩ | ⟨ref, -, hres, -⟩
    · cases hres
    · cases hres

theorem registration_sets (v : s.registry.Valid hashCommunity) {reg : Message RegisterRequest}
    (hmsg : toMessage P.codecs.registerRequest r = .ok reg)
    (hreg : registerEdge P env s reg = .ok (s1, .ok (ref, cm)))
    (hs2 : s2 = (s1.setWSSConnID ref r.fromAddr).indexEdge ref) :
    (s2.edges.cell ref).macAddr = r.edgeMACAddr ∧
      ∃ m op, Prepared s.registry m ∧ (∃ hash, m.group hash = some cm) ∧
        op.Sets m cm r.edgeMACAddr (some (s2.edges.cell ref)) ∧ s2.registry = m.apply op := by
  obtain rfl : reg.toRawMessage = r := toMessage_ok hmsg
  rcases registerEdge_ok hreg with ⟨⟨e, he⟩, -⟩ | ⟨cm', s0, hcommunity, hcases⟩
  · cases he
  have hprepared := prepared_of_registerCommunity hcommunity
  rcases hcases with ⟨⟨e, he⟩, -⟩ | ⟨id, hval, hcases⟩
  · cases he
  rcases hcases with ⟨vip, hmember, hres, henroll⟩ | ⟨ref', hmember, hres, hwrite⟩
  · cases hres
    have hjoin := registry_join henroll reg.fromAddr
    rw [← hs2] at hjoin
    have hcell : s2.edges.cell s0.edges.next = withConn reg.fromAddr (newEdge env (s0.cms.cell cm)
        { reg with msg := { reg.msg with clearMachineId := id } } vip) := by
      show s2.registry.record s0.registry.records = _
      rw [hjoin]
      simp [Registry.apply, Registry.index, Registry.enroll]
    have hmac : (s2.edges.cell s0.edges.next).macAddr = reg.edgeMACAddr := by
      rw [hcell, macAddr_withConn]
      rfl
    refine ⟨hmac, s0.registry, .join cm (s2.edges.cell s0.edges.next), hprepared.1, hprepared.2,
      ⟨rfl, hmac, rfl⟩, ?_⟩
    rw [hcell]
    exact hjoin
  · cases hres
    have hrejoin := registry_rejoin hwrite reg.fromAddr
    rw [← hs2] at hrejoin
    have hlisted : s0.registry.Listed cm reg.edgeMACAddr ref := ⟨hprepared.2, hmember⟩
    have hcell : s2.edges.cell ref =
        withConn reg.fromAddr (reRegistered env (s0.registry.record ref) reg) := by
      show s2.registry.record ref = _
      rw [hrejoin]
      simp [Registry.apply, Registry.index, Registry.write]
    have hmac : (s2.edges.cell ref).macAddr = reg.edgeMACAddr := by
      rw [hcell, macAddr_withConn]
      exact (hprepared.1.valid v).listed_key hlisted
    refine ⟨hmac, s0.registry, .rejoin ref (s2.edges.cell ref), hprepared.1, hprepared.2,
      ⟨hlisted, rfl⟩, ?_⟩
    rw [hcell]
    exact hrejoin

/-- The MAC is not registered. -/
def Unregistered (m : Registry UInt32 Bytes Bytes Bytes Edge) (mac : Bytes) : Prop :=
  ∀ cm ref, ¬ m.Listed cm mac ref

/-- Who is listed after one operation and is not new was listed there before, or else it
would be listed in two communities. -/
theorem listed_or_unregistered {m m' : Registry UInt32 Bytes Bytes Bytes Edge} {op : Op}
    {o : Option Edge} (v : m.Valid hashCommunity) (v' : m'.Valid hashCommunity) (ha' : m'.Agrees)
    (hsets : op.Sets m cm mac o) (hop : m' = m.apply op) (hl' : ∃ ref, m'.Listed cm mac ref) :
    (∃ ref, m.Listed cm mac ref) ∨ Unregistered m mac := by
  refine or_iff_not_imp_right.mpr fun hold => ?_
  unfold Unregistered at hold
  push Not at hold
  obtain ⟨cm0, ref0, hl0⟩ := hold
  by_cases hcm : cm0 = cm
  · exact ⟨ref0, hcm ▸ hl0⟩
  · obtain ⟨hgroup, edge, hedge⟩ := Registry.listed_iff_content.mp ⟨ref0, hl0⟩
    have hcontent := Registry.content_apply v hsets hgroup
    rw [if_neg hcm, ← hop] at hcontent
    have hgroup' : ∃ hash, m'.group hash = some cm0 := by
      rw [hop, Registry.group_apply_of_sets hsets]
      exact hgroup
    obtain ⟨ref1, hl1⟩ := Registry.listed_iff_content.mpr ⟨hgroup', edge, hcontent ▸ hedge⟩
    obtain ⟨ref', hl'⟩ := hl'
    exact absurd (ha'.group_unique v' hl' hl1) hcm

theorem Proper.leave (p : Proper s.registry) (hen : s.registry.Enabled hashCommunity (.leave cm mac)) :
    Proper (s.registry.apply (.leave cm mac)) := by
  refine ⟨p.valid.apply hen, p.agrees.apply p.valid hen trivial, fun hl => ?_⟩
  rcases Registry.listed_of_apply p.valid hen hl with ⟨j, hold⟩ | ⟨edge, hjoin, -⟩
  · exact p.isMAC hold
  · cases hjoin

theorem told_removed (hPQ : Transmits P Q s.registry) (p : Proper s.registry) {new : Bytes → Prop}
    (hcm : ∃ hash, s.registry.group hash = some cm) (hun : unregister env s cm mac = (s1, true))
    (hunindex : s1.unindexEdge mac = .ok (s2, pil)) (n : ℕ) :
    Proper s2.registry ∧ Transmits P Q s2.registry ∧ s2.registry.group = s.registry.group ∧
      Told Q new s.registry s2.registry
        (arrivals none (announcement P.codecs.peerInfoList env s2 n pil cm mac)) := by
  obtain ⟨⟨ref, hmember⟩, hindexed, hleave⟩ := registry_removed hun hunindex
  have hlisted : s.registry.Listed cm mac ref := ⟨hcm, hmember⟩
  have p' : Proper s2.registry := by
    rw [hleave]
    exact p.leave ⟨⟨ref, hlisted⟩, hindexed⟩
  have hsets : (Registry.Op.leave cm mac : Op).Sets s.registry cm mac none := ⟨rfl, rfl, rfl⟩
  refine ⟨p', by rw [hleave]; exact hPQ.leave cm mac,
    by rw [hleave, Registry.group_apply_of_sets hsets], ?_⟩
  obtain ⟨⟨ref', hkey⟩, -⟩ := unindexEdge_ok hunindex
  have hexpel : s1.registry = s.registry.expel cm mac := (unregister_true hun).2
  have hmac : (s1.registry.record ref').macAddr = mac := by
    have v1 : s1.registry.Valid hashCommunity := by
      rw [hexpel]
      exact p.valid.expel cm mac
    exact v1.byKey_key hkey
  have hcarried : Carried P Q (newPeerInfoEvent typeUnregister (s1.registry.record ref')) := by
    have hkey' : s1.registry.byKey mac = some ref' := hkey
    rw [hexpel] at hkey' ⊢
    exact hPQ.event (Or.inr ⟨mac, hkey'⟩) typeUnregister
  rw [unindexEdge_eq hkey] at hunindex
  cases hunindex
  refine told_announcement hcarried p.valid p'.valid p'.agrees hsets hleave hcm (fun now v => ?_)
    (Or.inl ⟨ref, hlisted⟩) n
  rw [infosOf_unregister, key_peerInfo (hmac.symm ▸ p.isMAC hlisted), hmac]
  rfl

theorem told_set (hPQ : Transmits P Q s.registry) {m : Registry UInt32 Bytes Bytes Bytes Edge}
    (v : m.Valid hashCommunity) (p' : Proper s.registry) {op : Op} {edge : Edge}
    (hmac : edge.macAddr = mac) (hsets : op.Sets m cm mac (some edge))
    (hop : s.registry = m.apply op) (hcm : ∃ hash, m.group hash = some cm) {new : Bytes → Prop}
    (hnew : Unregistered m mac → new mac) (n : ℕ) :
    Told Q new m s.registry (arrivals none (announcement P.codecs.peerInfoList env s n
      (newPeerInfoEvent typeRegister edge) cm mac)) := by
  have hgroup : ∃ hash, s.registry.group hash = some cm := by
    rw [hop, Registry.group_apply_of_sets hsets]
    exact hcm
  have hcontent : s.registry.content cm mac = some edge := by
    rw [hop, Registry.content_apply v hsets hcm, if_pos rfl, Function.update_self]
  obtain ⟨ref, hmember, hrecord⟩ := Option.map_eq_some_iff.mp hcontent
  have hl : s.registry.Listed cm mac ref := ⟨hgroup, hmember⟩
  have hcarried : Carried P Q (newPeerInfoEvent typeRegister edge) :=
    hrecord ▸ hPQ.event (Or.inl ⟨cm, mac, hl⟩) typeRegister
  have hold : (∃ ref, m.Listed cm mac ref) ∨ new mac :=
    (listed_or_unregistered v p'.valid p'.agrees hsets hop ⟨ref, hl⟩).imp_right hnew
  refine told_announcement hcarried v p'.valid p'.agrees hsets hop hcm (fun now v => ?_) hold n
  rw [infosOf_register, key_peerInfo (hmac.symm ▸ p'.isMAC hl), hmac]
  rfl

theorem told_unchanged (v : s.registry.Valid hashCommunity) {pulse : Message HeartbeatPulse}
    {new : Bytes → Prop} (hlisted : s.registry.Listed cm mac ref)
    (hsame : addressChanged (s.edges.cell ref) pulse = false) :
    Told Q new s.registry (s.registry.apply
      (.refresh ref (Supernode.refreshed env (s.edges.cell ref) pulse))) fun _ => [] := by
  refine .silent fun cm' mac' hl => ⟨hl, ?_⟩
  obtain ⟨ref', hl⟩ := hl
  have hsets : (Registry.Op.refresh ref (Supernode.refreshed env (s.edges.cell ref) pulse) : Op).Sets
      s.registry cm mac (some (Supernode.refreshed env (s.edges.cell ref) pulse)) := ⟨hlisted, rfl⟩
  funext mac''
  unfold members
  rw [Registry.content_apply v hsets hl.1]
  split
  · next hcm =>
    subst hcm
    rw [Function.update_apply]
    split
    · next hmac =>
      subst hmac
      have hcontent : s.registry.content cm' mac'' = some (s.edges.cell ref) := by
        unfold Registry.content
        rw [hlisted.2]
        rfl
      rw [hcontent, Option.map_some, Option.map_some, peerInfo_refreshed hsame]
    · rfl
  · rfl

/-- **What the members are told of a message about membership** is what has changed. -/
theorem told_handled (hPQ : Transmits P Q s.registry) (hPQ' : Transmits P Q s'.registry)
    (p : Proper s.registry) (p' : Proper s'.registry)
    (hr : AboutMembership r) (h : Handled P env s r s' out err) :
    Told Q (Unregistered s.registry) s.registry s'.registry (arrivals none out) := by
  cases h with
  | idle hidle hout =>
    rw [hidle.registry_eq, hout hr]
    exact .refl _
  | @refused reg s1 e out err f hmsg hreg hsend =>
    rw [arrivals_sendStruct (by decide) hsend]
    exact (prepared_of_refused hreg).told p.valid
  | @registered reg s1 s2 ref cm out err err' f hmsg hreg hs2 hsend =>
    obtain ⟨hmac, m, op, hprepared, hcm, hsets, hop⟩ := registration_sets p.valid hmsg hreg hs2
    have hnew : Unregistered m r.edgeMACAddr → Unregistered s.registry r.edgeMACAddr :=
      fun h cm' ref' hl => h cm' ref' ((hprepared.listed_iff p.valid).mpr hl)
    have hprep : Told Q (Unregistered s.registry) s.registry m (arrivals none out) := by
      rw [arrivals_sendStruct (by decide) hsend]
      exact hprepared.told p.valid
    have p2 : Proper s2.registry := p'
    exact hprep.append
      (told_set (s := s2) hPQ' (hprepared.valid p.valid) p2 hmac hsets hop hcm hnew out.length)
  | @refreshed pulse cm ref f hmsg hgroup hmember hdec =>
    have hlisted : s.registry.Listed cm r.edgeMACAddr ref := ⟨⟨_, hgroup⟩, hmember⟩
    have hsets : (Registry.Op.refresh ref (Supernode.refreshed env (s.edges.cell ref) pulse) :
        Op).Sets s.registry cm r.edgeMACAddr
        (some (Supernode.refreshed env (s.edges.cell ref) pulse)) := ⟨hlisted, rfl⟩
    have hmac : (Supernode.refreshed env (s.edges.cell ref) pulse).macAddr = r.edgeMACAddr :=
      p.valid.listed_key hlisted
    have p1 : Proper (s.withRecord ref
        (Supernode.refreshed env (s.edges.cell ref) pulse)).registry := p'
    split
    · exact told_set (s := s.withRecord ref _) hPQ' p.valid p1 hmac hsets rfl ⟨_, hgroup⟩
        (fun h => absurd hlisted (h cm ref)) 0
    · next hsame => exact told_unchanged p.valid hlisted (Bool.eq_false_of_not_eq_true hsame)
  | @removed unReg id cm s1 s2 pil f hmsg hval hgroup hun hunindex =>
    exact (told_removed hPQ p ⟨_, hgroup⟩ hun hunindex 0).2.2.2

theorem told_cleanup (hPQ : Transmits P Q s.registry) (p : Proper s.registry)
    (h : cleanupStaleEdges P env s = .ok (s', out)) :
    Told Q (Unregistered s.registry) s.registry s'.registry (arrivals none out) := by
  obtain ⟨⟨s1, out1⟩, hloop, h⟩ := bind_eq_ok.mp h
  cases h
  refine (cleanupLoop_induction (I := fun s1 out1 => Proper s1.registry ∧
    Transmits P Q s1.registry ∧ s1.registry.group = s.registry.group ∧
      Told Q (Unregistered s.registry) s.registry s1.registry (arrivals none out1)) ?_ hloop
    ⟨p, hPQ, rfl, .refl _⟩).2.2.2
  rintro s1 s2 s3 out1 cm mac pil f hmem ⟨p1, hPQ1, hgroup, htold⟩ hun hunindex
  have hcm : ∃ hash, s1.registry.group hash = some cm := by
    rw [hgroup]
    exact group_of_mem_staleEdges hmem
  obtain ⟨p3, hPQ3, hgroup3, htold3⟩ := told_removed hPQ1 p1 hcm hun hunindex out1.length
  exact ⟨p3, hPQ3, hgroup3.trans hgroup, htold.append htold3⟩

/-! ## Peer lists -/

/-- The record of a member is the one edge with its address. -/
theorem content_eq_some_iff (v : s.registry.Valid hashCommunity)
    (hcm : ∃ hash, s.registry.group hash = some cm) (env : Supernode.Env) {edge : Edge} :
    s.registry.content cm mac = some edge ↔ edge ∈ getAllEdges env s cm ∧ edge.macAddr = mac := by
  rw [← Option.mem_toList.trans Option.mem_def, ← filter_getAllEdges v hcm env mac,
    List.mem_filter, decide_eq_true_iff]

theorem ofRecords_getPeerInfoList (v : s.registry.Valid hashCommunity)
    (hcm : ∃ hash, s.registry.group hash = some cm) (asking : Bytes) (full : Bool) :
    OfRecords s.registry (getPeerInfoList env s cm asking full) := by
  have hall : ∀ edge ∈ getAllEdges env s cm,
      ∃ ref, s.registry.Known ref ∧ (s.registry.record ref).peerInfo = edge.peerInfo := by
    intro edge hedge
    obtain ⟨ref, hmember, hrecord⟩ :=
      Option.map_eq_some_iff.mp ((content_eq_some_iff v hcm env).mpr ⟨hedge, rfl⟩)
    exact ⟨ref, Or.inl ⟨cm, _, hcm, hmember⟩, congrArg Edge.peerInfo hrecord⟩
  intro info hinfo
  rcases hinfo with horigin | hmem
  · obtain ⟨edge, hfound, rfl⟩ := Option.map_eq_some_iff.mp horigin
    split at hfound
    · exact hall edge (List.mem_reverse.mp (List.mem_of_find?_eq_some hfound))
    · cases hfound
  · obtain ⟨edge, hedge, rfl⟩ := List.mem_map.mp hmem
    exact hall edge (List.mem_filter.mp hedge).1

theorem mem_getPeerInfoList (p : Proper s.registry) (hcm : ∃ hash, s.registry.group hash = some cm)
    (asking mac : Bytes) (info : PeerInfo) :
    hide asking (members s.registry cm) mac = some info ↔
      info ∈ (getPeerInfoList env s cm asking true).peerInfos ∧ info.key = mac := by
  have hmem : ∀ mac edge, s.registry.content cm mac = some edge ↔
      edge ∈ getAllEdges env s cm ∧ edge.macAddr = mac :=
    fun mac edge => content_eq_some_iff p.valid hcm env
  have hkey : ∀ edge ∈ getAllEdges env s cm, edge.peerInfo.key = edge.macAddr := by
    intro edge hedge
    obtain ⟨ref, hl⟩ := Registry.listed_iff_content.mpr
      ⟨hcm, edge, (hmem edge.macAddr edge).mpr ⟨hedge, rfl⟩⟩
    exact key_peerInfo (p.isMAC hl)
  have hinfos : info ∈ (getPeerInfoList env s cm asking true).peerInfos ↔
      ∃ edge ∈ getAllEdges env s cm, edge.macAddr ≠ asking ∧ edge.peerInfo = info := by
    unfold getPeerInfoList
    simp only [List.mem_map, List.mem_filter, decide_eq_true_iff, and_assoc]
  rw [hide_apply, hinfos]
  constructor
  · intro h
    split at h
    · cases h
    · next hne =>
      obtain ⟨edge, hedge, rfl⟩ := Option.map_eq_some_iff.mp h
      obtain ⟨hall, rfl⟩ := (hmem mac edge).mp hedge
      exact ⟨⟨edge, hall, hne, rfl⟩, hkey edge hall⟩
  · rintro ⟨⟨edge, hall, hne, rfl⟩, rfl⟩
    rw [hkey edge hall, if_neg hne]
    exact Option.map_eq_some_iff.mpr ⟨edge, (hmem _ edge).mpr ⟨hall, rfl⟩, rfl⟩

theorem handlePeerRequestMessage_ok (h : handlePeerRequestMessage P env s r = .ok (s', out, err)) :
    s' = s ∧ ∀ x ∈ out, ∃ cm name payload, s.getCommunity r = .ok cm ∧
      P.codecs.peerInfoList.encode (getPeerInfoList env s cm r.edgeMACAddr true) = some payload ∧
      x.packet = snPacket env typePeerInfo name payload := by
  unfold handlePeerRequestMessage withMessage at h
  cases hmsg : toMessage P.codecs.peerListRequest r with
  | error e =>
    rw [hmsg] at h
    cases h
    exact ⟨rfl, by simp⟩
  | ok req =>
    rw [hmsg] at h
    simp only at h
    cases hcm : s.getCommunity r with
    | error e =>
      rw [hcm] at h
      cases h
      exact ⟨rfl, by simp⟩
    | ok cm =>
      rw [hcm] at h
      simp only at h
      obtain ⟨out', err', hans, hout⟩ := answerMember_returns P.codecs.peerInfoList env s cm
        r.edgeMACAddr (getPeerInfoList env s cm r.edgeMACAddr true) req.msg.communityName
      rw [hans] at h
      cases h
      refine ⟨rfl, fun x hx => ?_⟩
      obtain ⟨payload, hencode, hpacket⟩ := hout x hx
      exact ⟨cm, req.msg.communityName, payload, rfl, hencode, hpacket⟩

/-- **A peer list is a complete copy**, for the member that asks and nobody else. -/
theorem told_list (hPQ : Transmits P Q s.registry) (p : Proper s.registry)
    (h : handlePeerRequestMessage P env s r = .ok (s', out, err)) (mac : Bytes) :
    ∃ feeds, List.Forall₂ (Carries Q) (arrivals (some r.edgeMACAddr) out mac) feeds ∧
      ∀ cm, (∃ ref, s.registry.Listed cm mac ref) →
        ∀ feed ∈ feeds, feed = .all (hide mac (members s.registry cm)) := by
  obtain ⟨-, hout⟩ := handlePeerRequestMessage_ok h
  cases hcm : s.getCommunity r with
  | error e =>
    have hnil : out = [] := List.eq_nil_iff_forall_not_mem.mpr fun x hx => by
      obtain ⟨cm, -, -, hcm', -⟩ := hout x hx
      rw [hcm] at hcm'
      cases hcm'
    rw [hnil]
    exact ⟨[], .nil, by simp⟩
  | ok cm =>
    obtain ⟨hgroup, ref, hmember⟩ := getCommunity_eq_ok_iff.mp hcm
    have hlisted : s.registry.Listed cm r.edgeMACAddr ref := ⟨⟨_, hgroup⟩, hmember⟩
    refine ⟨(arrivals (some r.edgeMACAddr) out mac).map fun _ =>
      .all (hide mac (members s.registry cm)), ?_, ?_⟩
    · rw [List.forall₂_map_right_iff, List.forall₂_same]
      intro packet hpacket
      obtain ⟨x, hx, hmac, rfl⟩ := exists_of_mem_arrivals hpacket
      obtain rfl : r.edgeMACAddr = mac := Option.some.inj hmac
      obtain ⟨cm', name, payload, hcm', hencode, hx⟩ := hout x hx
      rw [hcm] at hcm'
      cases hcm'
      obtain ⟨payload', hencode', hdecode⟩ :=
        hPQ _ (ofRecords_getPeerInfoList p.valid ⟨_, hgroup⟩ r.edgeMACAddr true)
      rw [hencode] at hencode'
      cases hencode'
      rw [hx]
      exact carries_snPacket _ hdecode
        (infosOf_list rfl (mem_getPeerInfoList p ⟨_, hgroup⟩ r.edgeMACAddr)) env name
    · rintro cm' ⟨ref', hl'⟩ feed hfeed
      obtain ⟨packet, hpacket, rfl⟩ := List.mem_map.mp hfeed
      obtain ⟨x, -, hmac, -⟩ := exists_of_mem_arrivals hpacket
      obtain rfl : r.edgeMACAddr = mac := Option.some.inj hmac
      rw [p.agrees.group_unique p.valid hlisted hl']

theorem arrivals_askForRegistration {out' : List Sent} {addr : NetAddr}
    (h : askForRegistration env s out addr = .ok out') (asking : Option Bytes) :
    arrivals asking out' = arrivals asking out := by
  obtain ⟨xs, rfl, hxs⟩ := askForRegistration_ok h
  funext mac
  rw [arrivals_append, arrivals_of_ne (show typeRetryRegisterRequest ≠ typePeerInfo by decide)
    (fun x hx => ⟨env, [], [], hxs x hx⟩), List.append_nil]

end Members

end PeerView

end N2nGo
