import N2nGo.Analysis.EdgeEvents
import N2nGo.Analysis.Peers

/-!
# The status of a peer

An edge writes the status and the check ID of a peer when it pings it, when a pong or a
report arrives, and when a list announces the peer. `Revised` is what a message does to
the records, `Checked` what a round of pings does: records keep their addresses, a ping
makes no peer available, and a new check ID stands in a ping that was written.
-/

set_option autoImplicit false

namespace N2nGo

open N2nGo.Lib N2nGo.Protocol N2nGo.Messages

/-! ## Updates of one record -/

namespace Peer

variable {now : ℤ} {q : Peer} {status : P2PCapacity} {checkid : Bytes}

theorem checkID_updateP2PStatus (now : ℤ) (q : Peer) (status : P2PCapacity) (checkid : Bytes) :
    (q.updateP2PStatus now status checkid).1.p2pCheckID = [] ∨
      (q.updateP2PStatus now status checkid).1.p2pCheckID = checkid := by
  unfold updateP2PStatus
  simp only
  generalize (if q.p2pStatus = status then _ else _ : Peer) = q'
  split
  · exact Or.inl rfl
  · exact Or.inr rfl

theorem status_of_available_updateP2PStatus
    (h : (q.updateP2PStatus now status checkid).1.p2pStatus = .available) : status = .available := by
  unfold updateP2PStatus at h
  simp only at h
  generalize (if q.p2pStatus = status then _ else _ : Peer) = q' at h
  split at h
  · cases h
  · exact h

theorem updateP2PStatus_available :
    (q.updateP2PStatus now .available checkid).1 =
      if q.pendingTTL < 1 then
        { q with p2pCheckID := [], p2pStatus := .unavailable, updatedAt := now }
      else { q with p2pCheckID := checkid, p2pStatus := .available, updatedAt := now } := by
  unfold updateP2PStatus
  have hkeep : (if q.p2pStatus = .available then
      if P2PCapacity.available = .pending then { q with pendingTTL := q.pendingTTL - 1 } else q
      else if q.p2pStatus = .unknown ∧ P2PCapacity.available = .pending then q.resetPendingTTL
      else q) = q := by
    simp
  simp only [hkeep]
  split <;> rfl

end Peer

namespace PeerRegistry

variable {reg reg' reg'' : PeerRegistry} {A : Bytes → Prop} {mac : Bytes} {p : PeerRef} {now : ℤ}

/-- Records keep their addresses, lose or keep their check IDs, and only those in `A` become
available. -/
structure Revised (reg : PeerRegistry) (A : Bytes → Prop) (reg' : PeerRegistry) : Prop where
  kept : reg'.Kept
  record : ∀ mac q', reg'.view mac = some q' → ∃ q, reg.view mac = some q ∧ q'.infos = q.infos ∧
    (q'.p2pCheckID = [] ∨ q'.p2pCheckID = q.p2pCheckID) ∧
    (q'.p2pStatus = .available → q.p2pStatus = .available ∨ A mac)

theorem Revised.of_view (k : reg'.Kept)
    (h : ∀ mac q, reg'.view mac = some q → reg.view mac = some q) : Revised reg A reg' :=
  ⟨k, fun mac q hq => ⟨q, h mac q hq, rfl, Or.inr rfl, Or.inl⟩⟩

theorem Revised.of_same (k : reg.Kept) (hpeers : reg'.peers = reg.peers)
    (hrecords : reg'.records = reg.records) : Revised reg A reg' := by
  obtain ⟨k', hview⟩ := k.of_same hpeers hrecords
  exact .of_view k' fun mac q hq => by rwa [← hview]

theorem Revised.refl (k : reg.Kept) : Revised reg A reg := .of_view k fun _ _ hq => hq

theorem Revised.trans (h : Revised reg A reg') (h' : Revised reg' A reg'') : Revised reg A reg'' := by
  refine ⟨h'.kept, fun mac q'' hq'' => ?_⟩
  obtain ⟨q', hq', hinfos', hcheck', havail'⟩ := h'.record mac q'' hq''
  obtain ⟨q, hq, hinfos, hcheck, havail⟩ := h.record mac q' hq'
  refine ⟨q, hq, hinfos'.trans hinfos, ?_, fun hav => (havail' hav).elim havail Or.inr⟩
  rcases hcheck' with hnil | heq
  · exact Or.inl hnil
  · rwa [heq]

theorem Revised.mono {B : Bytes → Prop} (h : Revised reg A reg') (hAB : ∀ mac, A mac → B mac) :
    Revised reg B reg' := by
  refine ⟨h.kept, fun mac q' hq' => ?_⟩
  obtain ⟨q, hq, hinfos, hcheck, hav⟩ := h.record mac q' hq'
  exact ⟨q, hq, hinfos, hcheck, fun hnow => (hav hnow).imp_right (hAB mac)⟩

theorem Revised.of_update (hp : reg.peers.lookup mac = some p) (k' : reg'.Kept)
    {q' : Peer} (hview : reg'.view = Function.update reg.view mac (some q'))
    (hinfos : q'.infos = (reg.records.cell p).infos)
    (hcheck : q'.p2pCheckID = [] ∨ q'.p2pCheckID = (reg.records.cell p).p2pCheckID)
    (havail : q'.p2pStatus = .available → (reg.records.cell p).p2pStatus = .available ∨ A mac) :
    Revised reg A reg' := by
  refine ⟨k', fun mac' q hq => ?_⟩
  rw [hview, Function.update_apply] at hq
  split at hq
  · next heq =>
    cases hq
    rw [heq]
    exact ⟨_, Table.follow_eq_some hp, hinfos, hcheck, havail⟩
  · exact ⟨q, hq, rfl, Or.inr rfl, Or.inl⟩

theorem Revised.removePeer (k : reg.Kept) (services : Bytes → Option ℕ) (mac : Bytes) :
    Revised reg A (PeerRegistry.removePeer services reg mac) := by
  obtain ⟨k', hview⟩ := k.removePeer services mac
  refine .of_view k' fun mac' q hq => ?_
  rw [hview, Function.update_apply] at hq
  split at hq
  · cases hq
  · exact hq

theorem Revised.updateP2PCommunityDatas (k : reg.Kept)
    (reachables : Option (Table Bytes PeerP2PInfos))
    (unreachables : Option (Table Bytes PeerCachedInfo)) :
    Revised reg A (reg.updateP2PCommunityDatas reachables unreachables).1 := by
  cases reachables with
  | none => exact .refl k
  | some reachables => exact .of_same k rfl rfl

@[simp] theorem peers_setPendingChangesIf (changed : Bool) :
    (reg.setPendingChangesIf changed).peers = reg.peers := by
  cases changed <;> rfl

@[simp] theorem records_setPendingChangesIf (changed : Bool) :
    (reg.setPendingChangesIf changed).records = reg.records := by
  cases changed <;> rfl

@[simp] theorem peers_updateStatus (status : P2PCapacity) (checkid : Bytes) :
    (reg.updateStatus now p status checkid).peers = reg.peers :=
  peers_setPendingChangesIf _

theorem records_updateStatus (status : P2PCapacity) (checkid : Bytes) :
    (reg.updateStatus now p status checkid).records =
      reg.records.store p ((reg.records.cell p).updateP2PStatus now status checkid).1 :=
  records_setPendingChangesIf _

theorem Revised.updateStatus (k : reg.Kept) (hp : reg.peers.lookup mac = some p) (now : ℤ)
    {status : P2PCapacity} {checkid : Bytes}
    (hcheck : checkid = [] ∨ checkid = (reg.records.cell p).p2pCheckID)
    (hA : status = .available → A mac) :
    Revised reg A (reg.updateStatus now p status checkid) := by
  obtain ⟨k', hview⟩ := k.updateStatus hp now status checkid
  refine .of_update hp k' hview (infos_updateP2PStatus _ _ _) ?_ fun hav =>
    Or.inr (hA (Peer.status_of_available_updateP2PStatus hav))
  rcases Peer.checkID_updateP2PStatus now (reg.records.cell p) status checkid with hnil | heq
  · exact Or.inl hnil
  · rwa [heq]

theorem Revised.updateFullDuplex (k : reg.Kept) (hp : reg.peers.lookup mac = some p) (value : Bool) :
    Revised reg A (reg.updateFullDuplex p value) := by
  obtain ⟨k', duplex, hview⟩ := k.updateFullDuplex hp value
  exact .of_update hp k' hview rfl (Or.inr rfl) Or.inl

end PeerRegistry

namespace EdgeClient

open PeerRegistry

variable {P : Platform} {env : Env} {e e' e'' : EdgeClient} {out out' out'' : List Output}
  {reg : PeerRegistry} {now : ℤ} {mac : Bytes} {p : PeerRef}

/-! ## Messages -/

theorem revised_markAvailable {A : Bytes → Prop} (k : reg.Kept) (now : ℤ) (hA : A mac) :
    Revised reg A (markAvailable now reg mac) := by
  unfold markAvailable PeerRegistry.getPeer
  cases hp : reg.peers.lookup mac with
  | none => exact .refl k
  | some p => exact .updateStatus k hp now (Or.inl rfl) fun _ => hA

theorem revised_markAvailables {A : Bytes → Prop} (now : ℤ) (macs : List Bytes) (k : reg.Kept)
    (hA : ∀ m ∈ macs, A m) : Revised reg A (macs.foldl (markAvailable now) reg) := by
  induction macs generalizing reg with
  | nil => exact .refl k
  | cons m macs ih =>
    have hm := revised_markAvailable k now (hA m List.mem_cons_self)
    exact hm.trans (ih hm.kept fun m' hm' => hA m' (List.mem_cons_of_mem m hm'))

/-- The peers that a report names: its sender, when it says where it is from, and those it
lists. -/
def Named (m : Message PeerP2PInfos) (mac : Bytes) : Prop :=
  (m.msg.fromPeer ≠ none ∧ m.edgeMACAddr = mac) ∨ ∃ info ∈ m.msg.toPeers, info.key = mac

theorem revised_reportedPeers (k : reg.Kept) (now : ℤ) (m : Message PeerP2PInfos) :
    Revised reg (Named m) (reportedPeers now reg m) := by
  have hlisted : ∀ mac ∈ m.msg.toPeers.map fun info => Net.hardwareAddrString info.macAddr,
      Named m mac := fun mac hmac => by
    obtain ⟨info, hinfo, rfl⟩ := List.mem_map.mp hmac
    exact Or.inr ⟨info, hinfo, rfl⟩
  unfold reportedPeers
  cases hfrom : m.msg.fromPeer with
  | none => exact revised_markAvailables now _ k hlisted
  | some info =>
    have hsender : Named m m.edgeMACAddr := Or.inl ⟨by simp [hfrom], rfl⟩
    have h := revised_markAvailable k now hsender
    exact h.trans (revised_markAvailables now _ h.kept hlisted)

theorem revised_recordPong (k : reg.Kept) (hp : reg.peers.lookup mac = some p) (now : ℤ)
    (checkId : Bytes) (fromSupernode : Bool) :
    Revised reg (fun mac' => mac' = mac ∧ (reg.records.cell p).p2pCheckID = checkId)
      (recordPong now reg p checkId fromSupernode) := by
  have hduplex : ∀ status checkid, Revised reg
        (fun mac' => mac' = mac ∧ (reg.records.cell p).p2pCheckID = checkId)
        (reg.updateStatus now p status checkid) → Revised reg
        (fun mac' => mac' = mac ∧ (reg.records.cell p).p2pCheckID = checkId)
        (if ((reg.updateStatus now p status checkid).records.cell p).p2pStatus = .available then
          (reg.updateStatus now p status checkid).updateFullDuplex p (!fromSupernode)
        else reg.updateStatus now p status checkid) := by
    intro status checkid h
    split
    · exact h.trans (.updateFullDuplex h.kept ((peers_updateStatus _ _).symm ▸ hp) _)
    · exact h
  unfold recordPong
  by_cases hcheck : (reg.records.cell p).p2pCheckID = checkId
  · simp only [if_pos hcheck]
    exact hduplex .available checkId
      (.updateStatus k hp now (Or.inr hcheck.symm) fun _ => ⟨rfl, hcheck⟩)
  · simp only [if_neg hcheck]
    exact hduplex .unknown [] (.updateStatus k hp now (Or.inl rfl) fun h => by cases h)

/-! ## Pings -/

/-- Among the writes is a ping to the peer with this check ID, which went out unless the peer
has no address or the system refused it (`write`). -/
def PingIn (P : Platform) (env : Env) (mac checkId : Bytes) (out : List Output) : Prop :=
  ∃ before dest header payload, write env before dest (packProtoVDatagram header payload) ∈ out ∧
    header.packetType = typePing ∧ Net.hardwareAddrString header.destID.bytes = mac ∧
    P.codecs.peerToPing.encode ⟨checkId, false⟩ = some payload

/-- A round of pings: records keep their addresses, no new one is available, and a new check
ID stands in a ping that was written. -/
structure Checked (P : Platform) (env : Env) (e : EdgeClient) (out : List Output)
    (e' : EdgeClient) (out' : List Output) : Prop where
  kept : e'.peers.Kept
  peers : e'.peers.peers = e.peers.peers
  host : SameHost e e'
  id : e'.id = e.id
  wrote : ∃ more, out' = out ++ more
  record : ∀ mac q', e'.peers.view mac = some q' → ∃ q, e.peers.view mac = some q ∧
    q'.infos = q.infos ∧ (q'.p2pStatus = .available → q.p2pStatus = .available) ∧
    (q'.p2pCheckID = [] ∨ q'.p2pCheckID = q.p2pCheckID ∨
      ∀ id : MacID, mac = Net.hardwareAddrString id.bytes → PingIn P env mac q'.p2pCheckID out')

theorem Checked.refl (k : e.peers.Kept) (out : List Output) : Checked P env e out e out where
  kept := k
  peers := rfl
  host := .refl e
  id := rfl
  wrote := ⟨[], (List.append_nil out).symm⟩
  record := fun _ q hq => ⟨q, hq, rfl, fun h => h, Or.inr (Or.inl rfl)⟩

theorem Checked.trans (h : Checked P env e out e' out') (h' : Checked P env e' out' e'' out'') :
    Checked P env e out e'' out'' where
  kept := h'.kept
  peers := h'.peers.trans h.peers
  host := h.host.trans h'.host
  id := h'.id.trans h.id
  wrote := by
    obtain ⟨more, rfl⟩ := h.wrote
    obtain ⟨more', rfl⟩ := h'.wrote
    exact ⟨more ++ more', List.append_assoc _ _ _⟩
  record := fun mac q'' hq'' => by
    obtain ⟨q', hq', hinfos', hav', hcheck'⟩ := h'.record mac q'' hq''
    obtain ⟨q, hq, hinfos, hav, hcheck⟩ := h.record mac q' hq'
    refine ⟨q, hq, hinfos'.trans hinfos, fun h => hav (hav' h), ?_⟩
    rcases hcheck' with hnil | heq | hping
    · exact Or.inl hnil
    · rw [heq]
      refine hcheck.imp_right (Or.imp_right fun hping id hid => ?_)
      obtain ⟨before, dest, header, payload, hw, hrest⟩ := hping id hid
      obtain ⟨more, rfl⟩ := h'.wrote
      exact ⟨before, dest, header, payload, List.mem_append_left _ hw, hrest⟩
    · exact Or.inr (Or.inr hping)

/-- The first ping is written, whatever becomes of the others. -/
theorem sendPings_written {checkId payload : Bytes} {dst : Option Bytes} {id : MacID}
    {udpSocket : Option Net.UDPAddr} (hlink : e.conn = true ∨ e.wssTransport = true)
    (haddr : e.udpAddrWithStrategy P dst .enforceP2P = .ok udpSocket) (hid : destID dst = .ok id)
    (hencode : P.codecs.peerToPing.encode ⟨checkId, false⟩ = some payload) (env : Env) (n : ℕ)
    (out : List Output) :
    PingIn P env (Net.hardwareAddrString id.bytes) checkId
      (sendPings P env ⟨checkId, false⟩ dst (n + 1) e out).2.1 := by
  obtain ⟨seq, header, dest, err, hsend, htype, hdest⟩ :=
    sendStruct_written hlink haddr hid hencode env out
  obtain ⟨seq', more, fault, hrest⟩ := sendPings_ok P env ⟨checkId, false⟩ dst n (e.withSeq seq)
    (out ++ [write env out dest (packProtoVDatagram header payload)])
  unfold sendPings
  rw [hsend]
  simp only [hrest]
  refine ⟨out, dest, header, payload, by simp, htype, ?_, hencode⟩
  rw [hdest]

/-- A peer that is pinged as available has been available, or has no budget left to become so. -/
def MayPing (reg : PeerRegistry) (status : P2PCapacity) (p : PeerRef) : Prop :=
  (∃ mac, reg.peers.lookup mac = some p) ∧
    (status = .available →
      (reg.records.cell p).p2pStatus = .available ∨ (reg.records.cell p).pendingTTL < 1)

/-- The pings to the peers of the edge have an encoding. -/
def EncodesPings (P : Platform) (e : EdgeClient) : Prop :=
  ∀ mac q, e.peers.view mac = some q →
    ∃ payload, P.codecs.peerToPing.encode ⟨e.checkID q, false⟩ = some payload

theorem Checked.encodesPings (h : Checked P env e out e' out') (hP : EncodesPings P e) :
    EncodesPings P e' := by
  intro mac q' hq'
  obtain ⟨q, hq, hinfos, -⟩ := h.record mac q' hq'
  have hcheck : e'.checkID q' = e.checkID q := by
    unfold checkID
    rw [h.id, h.host.macAddr, hinfos]
  rw [hcheck]
  exact hP mac q hq

/-- The edge has a socket or a WebSocket. -/
def Linked (e : EdgeClient) : Prop := e.conn = true ∨ e.wssTransport = true

theorem SameHost.linked (h : SameHost e e') (hlink : e.Linked) : e'.Linked := by
  unfold Linked
  rw [h.conn, h.wssTransport]
  exact hlink

theorem hardwareAddr_bytes (id : MacID) : hardwareAddr id.bytes = some id.bytes := by
  unfold hardwareAddr
  refine if_neg fun hnil => ?_
  have hlen := id.length_eq
  rw [hnil] at hlen
  cases hlen

theorem destID_bytes (id : MacID) : destID (some id.bytes) = .ok id := by
  have hlen := id.length_eq
  unfold destID macID
  simp only
  rw [dif_pos hlen.ge]
  congr 1
  exact MacID.ext (List.take_of_length_le hlen.le)

theorem udpAddrWithStrategy_enforceP2P {dst : Bytes}
    (hlook : e.peers.peers.lookup (Net.hardwareAddrString dst) = some p) (P : Platform) :
    ∃ udpSocket, e.udpAddrWithStrategy P (some dst) .enforceP2P = .ok udpSocket := by
  unfold udpAddrWithStrategy PeerRegistry.getPeer
  split
  · exact ⟨_, rfl⟩
  · simp only [hlook]
    split
    · exact ⟨_, rfl⟩
    · exact ⟨_, rfl⟩

theorem checked_pingPeer {status : P2PCapacity} (hP : EncodesPings P e) (hlink : e.Linked)
    (k : e.peers.Kept) (hp : MayPing e.peers status p) (env : Env) (out : List Output) (n : ℕ) :
    Checked P env e out (e.pingPeer P env out p n status).1 (e.pingPeer P env out p n status).2.1 := by
  obtain ⟨⟨mac, hlook⟩, hav⟩ := hp
  let q := e.peers.records.cell p
  let reg := e.peers.updateStatus env.now p status (e.checkID q)
  have hpeers : reg.peers = e.peers.peers := peers_updateStatus _ _
  obtain ⟨kreg, hview⟩ := k.updateStatus hlook env.now status (e.checkID q)
  -- the ping that has to be shown, when the address of the peer has six bytes
  have hwritten : ∀ id : MacID, mac = Net.hardwareAddrString id.bytes →
      PingIn P env mac (e.checkID q) (e.pingPeer P env out p n status).2.1 := by
    intro id hid
    have haddr : q.infos.macAddr = id.bytes :=
      Net.hardwareAddrString_injective ((k.key_cell hlook).trans hid)
    have hdst : hardwareAddr q.infos.macAddr = some id.bytes := by rw [haddr, hardwareAddr_bytes]
    have hlook' : (e.withPeers reg).peers.peers.lookup (Net.hardwareAddrString id.bytes) = some p := by
      rw [← hid, ← hlook, ← hpeers]
      rfl
    obtain ⟨payload, hencode⟩ := hP mac q (Table.follow_eq_some hlook)
    obtain ⟨udpSocket, hsocket⟩ := udpAddrWithStrategy_enforceP2P hlook' P
    have h := sendPings_written (e := e.withPeers reg) hlink hsocket (destID_bytes id)
      hencode env n out
    rw [← hid, ← hdst] at h
    exact h
  obtain ⟨seq, more, fault, hping⟩ := pingPeer_eq P env e out p n status
  rw [hping] at hwritten ⊢
  refine ⟨kreg, hpeers, ⟨rfl, rfl, rfl, rfl, rfl, rfl⟩, rfl, ⟨more, rfl⟩, fun mac' q' hq' => ?_⟩
  have hq'' : Function.update e.peers.view mac
      (some (q.updateP2PStatus env.now status (e.checkID q)).1) mac' = some q' := by
    rw [← hview]
    exact hq'
  rw [Function.update_apply] at hq''
  split at hq''
  · next heq =>
    cases hq''
    rw [heq]
    refine ⟨q, Table.follow_eq_some hlook, infos_updateP2PStatus _ _ _, fun hnow => ?_, ?_⟩
    · obtain rfl := Peer.status_of_available_updateP2PStatus hnow
      refine (hav rfl).resolve_right fun hspent => ?_
      rw [Peer.updateP2PStatus_available, if_pos hspent] at hnow
      cases hnow
    · rcases Peer.checkID_updateP2PStatus env.now q status (e.checkID q) with hnil | hnew
      · exact Or.inl hnil
      · rw [hnew]
        exact Or.inr (Or.inr hwritten)
  · exact ⟨q', hq'', rfl, fun h => h, Or.inr (Or.inl rfl)⟩

theorem peers_pingPeer (env : Env) (out : List Output) (n : ℕ) (status : P2PCapacity) :
    (e.pingPeer P env out p n status).1.peers =
      e.peers.updateStatus env.now p status (e.checkID (e.peers.records.cell p)) := by
  obtain ⟨seq, more, fault, hping⟩ := pingPeer_eq P env e out p n status
  rw [hping]
  rfl

theorem MayPing.updateStatus {status : P2PCapacity} {p' : PeerRef} (h : MayPing reg status p')
    (now : ℤ) (p : PeerRef) (checkid : Bytes) :
    MayPing (reg.updateStatus now p status checkid) status p' := by
  refine ⟨by rw [peers_updateStatus]; exact h.1, ?_⟩
  rintro rfl
  rw [records_updateStatus]
  by_cases hp : p' = p
  · subst hp
    rw [Heap.cell_store_self, Peer.updateP2PStatus_available]
    split
    · next hspent => exact Or.inr hspent
    · exact Or.inl rfl
  · rw [Heap.cell_store, if_neg hp]
    exact h.2 rfl

theorem checked_pingPeers {status : P2PCapacity} {ps : List PeerRef} (hP : EncodesPings P e)
    (hlink : e.Linked) (k : e.peers.Kept) (hps : ∀ p ∈ ps, MayPing e.peers status p) (env : Env)
    (out : List Output) :
    Checked P env e out (pingPeers P env status ps e out).1
      (pingPeers P env status ps e out).2.1 := by
  induction ps generalizing e out with
  | nil => exact .refl k out
  | cons p ps ih =>
    have h1 := checked_pingPeer hP hlink k (hps p List.mem_cons_self) env out 3
    unfold pingPeers
    split
    · next e1 out1 fault hping =>
      rw [hping] at h1
      exact h1
    · next e1 out1 hping =>
      rw [hping] at h1
      refine h1.trans (ih (h1.encodesPings hP) (h1.host.linked hlink) h1.kept (fun p' hp' => ?_) out1)
      have hpeers := peers_pingPeer (P := P) (e := e) (p := p) env out 3 status
      rw [hping] at hpeers
      simp only at hpeers
      rw [hpeers]
      exact (hps p' (List.mem_cons_of_mem p hp')).updateStatus env.now p _

theorem Checked.of_revised {reg' : PeerRegistry} (h : Revised e.peers (fun _ => False) reg')
    (hpeers : reg'.peers = e.peers.peers) (out : List Output) :
    Checked P env e out (e.withPeers reg') out where
  kept := h.kept
  peers := hpeers
  host := ⟨rfl, rfl, rfl, rfl, rfl, rfl⟩
  id := rfl
  wrote := ⟨[], (List.append_nil out).symm⟩
  record := fun mac q' hq' => by
    obtain ⟨q, hq, hinfos, hcheck, hav⟩ := h.record mac q' hq'
    exact ⟨q, hq, hinfos, fun h => (hav h).resolve_right (fun h => h), hcheck.imp_right Or.inl⟩

theorem revised_getP2PendingPeersLoop (now : ℤ) {ps : List PeerRef} (acc : List PeerRef)
    (k : reg.Kept) (hps : ∀ p ∈ ps, ∃ mac, reg.peers.lookup mac = some p) :
    Revised reg (fun _ => False) (getP2PendingPeersLoop now ps reg acc).1 ∧
      (getP2PendingPeersLoop now ps reg acc).1.peers = reg.peers ∧
      ∀ p ∈ (getP2PendingPeersLoop now ps reg acc).2, p ∈ acc ∨ p ∈ ps := by
  induction ps generalizing reg acc with
  | nil => exact ⟨.refl k, rfl, fun p hp => Or.inl hp⟩
  | cons p ps ih =>
    have hrest : ∀ p' ∈ ps, ∃ mac, reg.peers.lookup mac = some p' :=
      fun p' hp' => hps p' (List.mem_cons_of_mem p hp')
    unfold getP2PendingPeersLoop
    simp only
    split
    · split
      · obtain ⟨h, hpeers, hmem⟩ := ih (acc ++ [p]) k hrest
        refine ⟨h, hpeers, fun p' hp' => ?_⟩
        have := hmem p' hp'
        simp only [List.mem_append, List.mem_cons] at this ⊢
        tauto
      · obtain ⟨mac, hlook⟩ := hps p List.mem_cons_self
        have hinfos : ((reg.records.cell p).updateP2PStatus now .unavailable []).1.infos =
            (reg.records.cell p).infos := infos_updateP2PStatus _ _ _
        obtain ⟨k1, hview⟩ := k.store hlook ((congrArg PeerInfo.key hinfos).trans (k.key_cell hlook))
        have h1 : Revised reg (fun _ => False)
            (reg.store p ((reg.records.cell p).updateP2PStatus now .unavailable []).1) :=
          .of_update hlook k1 hview hinfos (Or.inl (or_self_iff.mp (Peer.checkID_updateP2PStatus _ _ _ _)))
            fun hav => by cases Peer.status_of_available_updateP2PStatus hav
        obtain ⟨h, hpeers, hmem⟩ := ih acc k1 hrest
        exact ⟨h1.trans h, hpeers, fun p' hp' => (hmem p' hp').imp_right (List.mem_cons_of_mem p)⟩
    · obtain ⟨h, hpeers, hmem⟩ := ih acc k hrest
      exact ⟨h, hpeers, fun p' hp' => (hmem p' hp').imp_right (List.mem_cons_of_mem p)⟩

theorem exists_lookup_of_mem_visit {order : MapOrder} (h : p ∈ order.visit reg.peers.values) :
    ∃ mac, reg.peers.lookup mac = some p :=
  Table.mem_values_iff.mp ((MapOrder.mem_visit _ _ _).mp h)

theorem revised_getP2PendingPeers (k : reg.Kept) (now : ℤ) (order : MapOrder) :
    Revised reg (fun _ => False) (reg.getP2PendingPeers now order).1 ∧
      (reg.getP2PendingPeers now order).1.peers = reg.peers ∧
      ∀ p ∈ (reg.getP2PendingPeers now order).2,
        MayPing (reg.getP2PendingPeers now order).1 .pending p := by
  obtain ⟨h, hpeers, hmem⟩ := revised_getP2PendingPeersLoop now [] k
    fun p (hp : p ∈ order.visit reg.peers.values) => exists_lookup_of_mem_visit hp
  refine ⟨h, hpeers, fun p hp => ?_⟩
  obtain ⟨mac, hlook⟩ := exists_lookup_of_mem_visit ((hmem p hp).resolve_left List.not_mem_nil)
  exact ⟨⟨mac, (congrArg (AList.lookup mac) hpeers).trans hlook⟩, fun h => by cases h⟩

/-- **A tick makes no peer available**, and records no check ID without a ping. -/
theorem checked_handleP2PUpdates (hP : EncodesPings P e) (hlink : e.Linked) (k : e.peers.Kept)
    (env : Env) :
    Checked P env e [] (e.handleP2PUpdates P env).1 (e.handleP2PUpdates P env).2 := by
  have hunknown : ∀ p ∈ e.peers.getP2PUnknownPeers env.order, MayPing e.peers .pending p :=
    fun p hp => ⟨exists_lookup_of_mem_visit (List.mem_of_mem_filter hp), fun h => by cases h⟩
  have h1 := checked_pingPeers hP hlink k hunknown env []
  unfold handleP2PUpdates updatePeersP2PStates
  split
  · next e1 out1 fault hphase =>
    rw [hphase] at h1
    exact h1
  · next e1 out1 hphase =>
    rw [hphase] at h1
    obtain ⟨hrevised, hpeers, hpending⟩ := revised_getP2PendingPeers h1.kept env.now env.order
    have h2 := h1.trans (.of_revised hrevised hpeers out1)
    have h3 := h2.trans (checked_pingPeers (h2.encodesPings hP) (h2.host.linked hlink)
      h2.kept hpending env out1)
    simp only
    split
    · next e3 out3 fault hphase' =>
      rw [hphase'] at h3
      exact h3
    · next e3 out3 hphase' =>
      rw [hphase'] at h3
      refine h3.trans (checked_pingPeers (h3.encodesPings hP) (h3.host.linked hlink) h3.kept
        (fun p hp => ?_) env out3)
      obtain ⟨hmem, hav⟩ := List.mem_filter.mp hp
      exact ⟨exists_lookup_of_mem_visit hmem, fun _ => Or.inl (of_decide_eq_true hav)⟩

end EdgeClient

end N2nGo
