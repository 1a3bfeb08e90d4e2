import N2nGo.Model.Edge.Ticks

/-!
# The registry of an edge as a map

The peers of a registry are records behind pointers. Read through its table, a registry
is a map from MAC addresses to records (`view`), and every operation on it is an update
of that map at single addresses. `Kept.handlePeerInfoList` says this of a whole message
from the supernode.
-/

set_option autoImplicit false

namespace N2nGo

open N2nGo.Lib N2nGo.Protocol N2nGo.Messages

/-- The text under which a peer is kept. -/
def Messages.PeerInfo.key (info : PeerInfo) : Bytes := Net.hardwareAddrString info.macAddr

namespace PeerRegistry

/-- The record kept under a MAC address. -/
def view (reg : PeerRegistry) : Bytes → Option Peer := Table.follow reg.peers reg.records

/-- Different addresses have different records, and each record names its address. -/
structure Kept (reg : PeerRegistry) : Prop where
  linked : Table.Linked reg.peers reg.records
  keyed : ∀ mac q, reg.view mac = some q → q.infos.key = mac

variable {services : Bytes → Option ℕ} {now : ℤ} {order : MapOrder} {reg reg' : PeerRegistry}
  {mac : Bytes} {p : PeerRef}

theorem kept_of_empty (h : reg.peers = ∅) : reg.Kept := by
  refine ⟨⟨fun k r hk => ?_, fun k k' r hk => ?_⟩, fun mac q hq => ?_⟩
  · rw [h] at hk
    cases hk
  · rw [h] at hk
    cases hk
  · unfold view Table.follow at hq
    rw [h] at hq
    cases hq

theorem Kept.of_same (k : reg.Kept) (hpeers : reg'.peers = reg.peers)
    (hrecords : reg'.records = reg.records) : reg'.Kept ∧ reg'.view = reg.view := by
  have hview : reg'.view = reg.view := by
    unfold view
    rw [hpeers, hrecords]
  refine ⟨⟨?_, ?_⟩, hview⟩
  · rw [hpeers, hrecords]
    exact k.linked
  · rw [hview]
    exact k.keyed

/-! ## Single records -/

theorem Kept.store (k : reg.Kept) (hp : reg.peers.lookup mac = some p) {q : Peer}
    (hq : q.infos.key = mac) :
    (reg.store p q).Kept ∧ (reg.store p q).view = Function.update reg.view mac (some q) := by
  have hview : (reg.store p q).view = Function.update reg.view mac (some q) :=
    Table.follow_store k.linked hp q
  refine ⟨⟨k.linked.store p q, fun mac' q' hq' => ?_⟩, hview⟩
  rw [hview, Function.update_apply] at hq'
  split at hq'
  · next heq =>
    cases hq'
    exact hq.trans heq.symm
  · exact k.keyed mac' q' hq'

theorem Kept.setPendingChangesIf (k : reg.Kept) (changed : Bool) :
    (reg.setPendingChangesIf changed).Kept ∧ (reg.setPendingChangesIf changed).view = reg.view := by
  cases changed with
  | true => exact k.of_same rfl rfl
  | false => exact k.of_same rfl rfl

theorem Kept.key_cell (k : reg.Kept) (hp : reg.peers.lookup mac = some p) :
    (reg.records.cell p).infos.key = mac := k.keyed mac _ (Table.follow_eq_some hp)

@[simp] theorem infos_updateP2PStatus (q : Peer) (status : P2PCapacity) (checkid : Bytes) :
    (q.updateP2PStatus now status checkid).1.infos = q.infos := by
  unfold Peer.updateP2PStatus
  simp only
  split <;> split <;> (try split) <;> rfl

theorem Kept.updateStatus (k : reg.Kept) (hp : reg.peers.lookup mac = some p) (now : ℤ)
    (status : P2PCapacity) (checkid : Bytes) :
    (reg.updateStatus now p status checkid).Kept ∧ (reg.updateStatus now p status checkid).view =
      Function.update reg.view mac
        (some ((reg.records.cell p).updateP2PStatus now status checkid).1) := by
  obtain ⟨k1, hview⟩ := k.store hp
    (q := ((reg.records.cell p).updateP2PStatus now status checkid).1) (by
      rw [infos_updateP2PStatus]
      exact k.key_cell hp)
  obtain ⟨k2, hview'⟩ := k1.setPendingChangesIf
    ((reg.records.cell p).updateP2PStatus now status checkid).2
  exact ⟨k2, hview'.trans hview⟩

theorem Kept.updateFullDuplex (k : reg.Kept) (hp : reg.peers.lookup mac = some p) (value : Bool) :
    (reg.updateFullDuplex p value).Kept ∧ ∃ duplex, (reg.updateFullDuplex p value).view =
      Function.update reg.view mac (some { reg.records.cell p with isFullDuplex := duplex }) := by
  unfold PeerRegistry.updateFullDuplex Peer.setFullDuplex
  split
  · next herr =>
    split at herr
    · refine ⟨k, (reg.records.cell p).isFullDuplex, ?_⟩
      exact (Function.update_eq_self_iff.mpr (Table.follow_eq_some hp).symm).symm
    · cases herr
  · next hok =>
    split at hok
    · cases hok
    · cases hok
      obtain ⟨k1, hview⟩ := k.store hp (q := { reg.records.cell p with isFullDuplex := value })
        (k.key_cell hp)
      obtain ⟨k2, hview'⟩ := k1.setPendingChangesIf (value != (reg.records.cell p).isFullDuplex)
      exact ⟨k2, value, hview'.trans hview⟩

/-! ## Announcements -/

/-- The record of a peer after it has been announced. -/
def announcedPeer (now : ℤ) : Option Peer → PeerInfo → Peer
  | some q, info => overwritten now q info
  | none, info => ⟨info, .unknown, false, [], 0, now⟩

/-- One peer is announced. -/
def announce (now : ℤ) (v : Bytes → Option Peer) (info : PeerInfo) : Bytes → Option Peer :=
  Function.update v info.key (some (announcedPeer now (v info.key) info))

@[simp] theorem infos_overwritten (q : Peer) (info : PeerInfo) : (overwritten now q info).infos = info := by
  unfold overwritten
  split <;> rfl

@[simp] theorem infos_announcedPeer (q : Option Peer) (info : PeerInfo) :
    (announcedPeer now q info).infos = info := by
  cases q with
  | none => rfl
  | some q => exact infos_overwritten q info

theorem Kept.addPeer (k : reg.Kept) (services : Bytes → Option ℕ) (now : ℤ) (info : PeerInfo) :
    ∃ reg' ref, PeerRegistry.addPeer services now reg info true = (reg', .ok ref) ∧ reg'.Kept ∧
      reg'.view = announce now reg.view info := by
  unfold PeerRegistry.addPeer announce
  cases hlook : reg.peers.lookup (Net.hardwareAddrString info.macAddr) with
  | some ref =>
    have hcell : reg.view info.key = some (reg.records.cell ref) := Table.follow_eq_some hlook
    obtain ⟨k1, hview⟩ := k.store hlook (q := overwritten now (reg.records.cell ref) info)
      (congrArg PeerInfo.key (infos_overwritten _ info))
    simp only [hcell, hlook, not_true_eq_false, if_false]
    refine ⟨_, ref, rfl, ?_⟩
    refine And.imp_right (Eq.trans · hview) ?_
    exact k1.of_same rfl rfl
  | none =>
    have hnone : reg.view info.key = none := by
      unfold view Table.follow
      rw [show reg.peers.lookup info.key = none from hlook]
      rfl
    have hview := Table.follow_alloc k.linked info.key
      (⟨info, .unknown, false, [], 0, now⟩ : Peer)
    simp only [hnone, hlook]
    refine ⟨_, _, rfl, ?_⟩
    refine ⟨⟨k.linked.alloc _ _, fun mac q hq => ?_⟩, hview⟩
    have hq' : Function.update reg.view info.key
        (some ⟨info, .unknown, false, [], 0, now⟩) mac = some q := by
      rw [← hq]
      exact (congrFun hview mac).symm
    rw [Function.update_apply] at hq'
    split at hq'
    · next heq =>
      cases hq'
      exact heq.symm
    · exact k.keyed mac q hq'

theorem Kept.addPeers (k : reg.Kept) (services : Bytes → Option ℕ) (now : ℤ)
    (infos : List PeerInfo) :
    ∃ reg', PeerRegistry.addPeers services now true infos reg = (reg', .ok ()) ∧ reg'.Kept ∧
      reg'.view = infos.foldl (announce now) reg.view := by
  induction infos generalizing reg with
  | nil => exact ⟨reg, rfl, k, rfl⟩
  | cons info infos ih =>
    obtain ⟨reg1, ref, hadd, k1, hview⟩ := k.addPeer services now info
    obtain ⟨reg2, hrest, k2, hview'⟩ := ih k1
    refine ⟨reg2, ?_, k2, by rw [hview', hview, List.foldl_cons]⟩
    rw [PeerRegistry.addPeers, hadd]
    exact hrest

theorem addPeers_invariant {I : PeerRegistry → Prop} (services : Bytes → Option ℕ) (now : ℤ)
    (overwrite : Bool) (infos : List PeerInfo)
    (hadd : ∀ reg, ∀ info ∈ infos, I reg → I (PeerRegistry.addPeer services now reg info overwrite).1)
    (h : I reg) : I (PeerRegistry.addPeers services now overwrite infos reg).1 := by
  induction infos generalizing reg with
  | nil => exact h
  | cons info infos ih =>
    have h1 := hadd reg info List.mem_cons_self h
    unfold PeerRegistry.addPeers
    split
    · next reg1 e heq =>
      rw [heq] at h1
      exact h1
    · next reg1 ref heq =>
      rw [heq] at h1
      exact ih (fun reg i hi => hadd reg i (List.mem_cons_of_mem info hi)) h1

/-! ## Removals -/

section

variable (k : reg.Kept) (services : Bytes → Option ℕ)
include k

theorem Kept.removePeer (mac : Bytes) :
    (PeerRegistry.removePeer services reg mac).Kept ∧
      (PeerRegistry.removePeer services reg mac).view = Function.update reg.view mac none := by
  unfold PeerRegistry.removePeer
  cases hlook : reg.peers.lookup mac with
  | none =>
    refine ⟨k, (Function.update_eq_self_iff.mpr ?_).symm⟩
    unfold view Table.follow
    rw [hlook]
    rfl
  | some ref =>
    have hview := Table.follow_erase reg.peers reg.records mac
    refine ⟨⟨k.linked.erase mac, fun mac' q hq => ?_⟩, hview⟩
    have hq' : Function.update reg.view mac none mac' = some q := by
      rw [← hq]
      exact (congrFun hview mac').symm
    rw [Function.update_apply] at hq'
    split at hq'
    · cases hq'
    · exact k.keyed mac' q hq'

theorem Kept.removePeers (macs : List Bytes) :
    (macs.foldl (PeerRegistry.removePeer services) reg).Kept ∧
      ∀ mac, (macs.foldl (PeerRegistry.removePeer services) reg).view mac =
        if mac ∈ macs then none else reg.view mac := by
  induction macs generalizing reg with
  | nil => exact ⟨k, fun mac => by simp⟩
  | cons m macs ih =>
    obtain ⟨k1, hview⟩ := k.removePeer services m
    obtain ⟨k2, hview'⟩ := ih k1
    refine ⟨k2, fun mac => ?_⟩
    rw [List.foldl_cons, hview', hview, Function.update_apply]
    by_cases hm : mac = m
    · simp [hm]
    · simp [hm]

theorem Kept.removeUnlisted (order : MapOrder) (infos : List PeerInfo) :
    (PeerRegistry.removeUnlisted services order infos reg).Kept ∧
      ∀ mac, (PeerRegistry.removeUnlisted services order infos reg).view mac =
        if mac ∈ infos.map PeerInfo.key then reg.view mac else none := by
  unfold PeerRegistry.removeUnlisted
  obtain ⟨k1, hview⟩ := k.removePeers services
    ((order.visit reg.peers.keys).filter (· ∉ infos.map PeerInfo.key))
  refine ⟨k1, fun mac => (hview mac).trans ?_⟩
  have hmem : mac ∈ (order.visit reg.peers.keys).filter (· ∉ infos.map PeerInfo.key) ↔
      mac ∈ reg.peers.keys ∧ mac ∉ infos.map PeerInfo.key := by
    rw [List.mem_filter, MapOrder.mem_visit, decide_eq_true_iff]
  rw [if_congr hmem rfl rfl]
  by_cases hlisted : mac ∈ infos.map PeerInfo.key
  · rw [if_pos hlisted, if_neg fun hgone => hgone.2 hlisted]
  · rw [if_neg hlisted]
    by_cases hkey : mac ∈ reg.peers.keys
    · rw [if_pos ⟨hkey, hlisted⟩]
    · have hnone : reg.peers.lookup mac = none :=
        AList.lookup_eq_none.mpr fun hmem => hkey (AList.mem_keys.mp hmem)
      split
      · rfl
      · unfold view Table.follow
        rw [hnone]
        rfl

end

/-! ## Whole messages -/

/-- What a list of peers from the supernode does to the map.
GOLINE: p2p/p2p.go:347-406 -/
def applyList (now : ℤ) (pil : PeerInfoList) (v : Bytes → Option Peer) : Bytes → Option Peer :=
  let eventType := pil.eventType.toUInt8
  let keys := pil.peerInfos.map PeerInfo.key
  if eventType = typeList then fun mac =>
    if mac ∈ keys then pil.peerInfos.foldl (announce now) v mac else none
  else if eventType = typeRegister then pil.peerInfos.foldl (announce now) v
  else if eventType = typeUnregister then fun mac => if mac ∈ keys then none else v mac
  else v

/-- **A message about peers updates the map** as `applyList` says. -/
theorem Kept.handlePeerInfoList (k : reg.Kept) {pil : PeerInfoList} {res : Except P2P.Err Unit}
    (h : PeerRegistry.handlePeerInfoList services now order reg pil false true = .ok (reg', res)) :
    reg'.Kept ∧ reg'.view = applyList now pil reg.view := by
  unfold PeerRegistry.handlePeerInfoList at h
  unfold applyList
  simp only at h ⊢
  split at h
  · next hlist =>
    rw [if_pos hlist]
    obtain ⟨reg1, horigin, h⟩ := bind_eq_ok.mp h
    have hsame : reg1.peers = reg.peers ∧ reg1.records = reg.records := by
      unfold setOrigin at horigin
      split at horigin
      · obtain ⟨infos, -, horigin⟩ := bind_eq_ok.mp horigin
        cases horigin
        exact ⟨rfl, rfl⟩
      · cases horigin
        exact ⟨rfl, rfl⟩
    obtain ⟨k1, hview1⟩ := k.of_same hsame.1 hsame.2
    obtain ⟨reg2, hadd, k2, hview2⟩ :=
      k1.addPeers services now pil.peerInfos
    obtain ⟨k3, hview3⟩ := k2.removeUnlisted services order pil.peerInfos
    rw [syncPeers, hadd] at h
    cases h
    refine ⟨k3, funext fun mac => ?_⟩
    rw [← hview1, ← hview2]
    exact hview3 mac
  · next hlist =>
    rw [if_neg hlist]
    split at h
    · next hregister =>
      rw [if_pos hregister]
      obtain ⟨reg1, hadd, k1, hview⟩ := k.addPeers services now pil.peerInfos
      rw [hadd] at h
      cases h
      exact ⟨k1, hview⟩
    · next hregister =>
      rw [if_neg hregister]
      split at h
      · next hunregister =>
        rw [if_pos hunregister]
        cases h
        obtain ⟨k1, hview⟩ :=
          k.removePeers services (pil.peerInfos.map PeerInfo.key)
        exact ⟨k1, funext hview⟩
      · next hunregister =>
        rw [if_neg hunregister]
        cases h
        exact ⟨k, rfl⟩

end PeerRegistry

end N2nGo
