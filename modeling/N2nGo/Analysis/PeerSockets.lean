import N2nGo.Analysis.Peers
import N2nGo.Lib.Run

/-!
# The index of peers by socket

`peerBySocket` leads from the text of a UDP address to the peer that has it. An entry is
overwritten when another peer comes with the same socket, and deleted when a peer that has
the socket goes or gets another one, whoever the entry leads to. So every entry leads to a
present peer under its own socket, whatever is called (`indexSound_of_reach`), but a peer
that shares its socket can lose its entry. It does not as long as no call takes a socket
from a peer while another one has it (`peerSockets_consistent`).
-/

set_option autoImplicit false

namespace N2nGo.PeerRegistry

open N2nGo.Lib N2nGo.Protocol N2nGo.Messages

/-! ## Sockets -/

/-- The text under which a peer with these infos is indexed. -/
def socketText (services : Bytes → Option ℕ) (info : PeerInfo) : Bytes :=
  Net.udpAddrString (P2P.parseUDPAddr services info.pubSocket)

/-- The socket can be parsed. -/
def Parsable (services : Bytes → Option ℕ) (info : PeerInfo) : Prop :=
  ∃ addr, P2P.parseUDPAddr services info.pubSocket = some addr

/-- Both have a socket, and it is the same. -/
def Share (services : Bytes → Option ℕ) (info info' : PeerInfo) : Prop :=
  Parsable services info ∧ Parsable services info' ∧ socketText services info = socketText services info'

/-- The registry has a peer with these infos under this address. -/
def Entry (reg : PeerRegistry) (mac : Bytes) (info : PeerInfo) : Prop :=
  ∃ p, reg.peers.lookup mac = some p ∧ (reg.records.cell p).infos = info

/-- Every indexed peer is present and indexed under its own socket. -/
def IndexSound (services : Bytes → Option ℕ) (reg : PeerRegistry) : Prop :=
  ∀ socket p, reg.peerBySocket.lookup socket = some p →
    ∃ mac, reg.peers.lookup mac = some p ∧ socketText services (reg.records.cell p).infos = socket

/-- Every socket of a present peer is indexed. -/
def IndexComplete (services : Bytes → Option ℕ) (reg : PeerRegistry) : Prop :=
  ∀ mac info, reg.Entry mac info → Parsable services info →
    ∃ p, reg.peerBySocket.lookup (socketText services info) = some p

/-- Every value of `peerBySocket` is a peer in `Peers` stored under its own socket, and the
socket of every peer in `Peers` leads to a peer in `Peers` that has it. -/
structure IndexConsistent (services : Bytes → Option ℕ) (reg : PeerRegistry) : Prop where
  values : ∀ socket p, reg.peerBySocket.lookup socket = some p → ∃ mac,
    reg.peers.lookup mac = some p ∧ Net.udpAddrString ((reg.records.cell p).udpAddr services) = socket
  found : ∀ mac p addr, reg.peers.lookup mac = some p →
    (reg.records.cell p).udpAddr services = some addr → ∃ p' mac',
      reg.getPeerBySocket (some addr) = .ok p' ∧ reg.peers.lookup mac' = some p' ∧
        Net.udpAddrString ((reg.records.cell p').udpAddr services) = addr.string

section Steps

variable {services : Bytes → Option ℕ} {now : ℤ} {order : MapOrder} {reg : PeerRegistry}
  {mac : Bytes} {info info' : PeerInfo} {overwrite : Bool}

theorem colon_mem_joinHostPort (host port : Bytes) : (58 : UInt8) ∈ Net.joinHostPort host port := by
  unfold Net.joinHostPort
  split
  · simp
  · simp

theorem udpAddrString_some_ne (addr : Net.UDPAddr) :
    Net.udpAddrString (some addr) ≠ Net.udpAddrString none := by
  have hcolon : (58 : UInt8) ∈ addr.string := colon_mem_joinHostPort _ _
  intro heq
  rw [show Net.udpAddrString (some addr) = addr.string from rfl] at heq
  rw [heq] at hcolon
  exact absurd hcolon (by decide)

theorem share_of_socketText_eq (hparsable : Parsable services info')
    (heq : socketText services info = socketText services info') : Share services info info' := by
  refine ⟨?_, hparsable, heq⟩
  obtain ⟨addr', haddr'⟩ := hparsable
  unfold socketText at heq
  rw [haddr'] at heq
  cases haddr : P2P.parseUDPAddr services info.pubSocket with
  | some addr => exact ⟨addr, haddr⟩
  | none =>
    rw [haddr] at heq
    exact absurd heq.symm (udpAddrString_some_ne addr')

theorem IndexSound.consistent (hs : IndexSound services reg) (hc : IndexComplete services reg) :
    IndexConsistent services reg := by
  refine ⟨hs, fun mac p addr hp haddr => ?_⟩
  obtain ⟨p', hp'⟩ := hc mac _ ⟨p, hp, rfl⟩ ⟨addr, haddr⟩
  have htext : socketText services (reg.records.cell p).infos = addr.string := by
    unfold socketText
    rw [show P2P.parseUDPAddr services (reg.records.cell p).infos.pubSocket = some addr from haddr]
    rfl
  rw [htext] at hp'
  obtain ⟨mac', hmac', hsocket⟩ := hs _ p' hp'
  refine ⟨p', mac', ?_, hmac', hsocket⟩
  unfold getPeerBySocket
  simp only [hp']

/-! ## One peer -/

section

variable (services : Bytes → Option ℕ) (now : ℤ) (reg : PeerRegistry) (info : PeerInfo)

/-- `AddPeer` refuses a known peer that it must not overwrite, and else does what it does
with permission to overwrite. -/
theorem addPeer_eq (overwrite : Bool) :
    (∃ e, addPeer services now reg info overwrite = (reg, .error e)) ∨
      (overwrite = true ∨ reg.peers.lookup info.key = none) ∧
        addPeer services now reg info overwrite = addPeer services now reg info true := by
  cases overwrite with
  | true => exact Or.inr ⟨Or.inl rfl, rfl⟩
  | false =>
    cases hlook : reg.peers.lookup info.key with
    | none =>
      refine Or.inr ⟨Or.inr rfl, ?_⟩
      have hlook : reg.peers.lookup (Net.hardwareAddrString info.macAddr) = none := hlook
      unfold addPeer
      simp only [hlook]
    | some p =>
      have hlook : reg.peers.lookup (Net.hardwareAddrString info.macAddr) = some p := hlook
      refine Or.inl ⟨.peerExists (Net.hardwareAddrString info.macAddr), ?_⟩
      unfold addPeer
      simp only [hlook, Bool.false_eq_true, not_false_eq_true, if_true]

/-- The two ways in which a peer is taken in. -/
theorem addPeer_true :
    (∃ p, reg.peers.lookup info.key = some p ∧
      (addPeer services now reg info true).1 = ({ reg with
        records := reg.records.store p (overwritten now (reg.records.cell p) info)
        peerBySocket := (reg.peerBySocket.erase (socketText services (reg.records.cell p).infos)).insert
          (socketText services info) p } : PeerRegistry).setPendingChanges) ∨
      reg.peers.lookup info.key = none ∧
      (addPeer services now reg info true).1 = ({ reg with
        records := reg.records.alloc ⟨info, .unknown, false, [], 0, now⟩
        peers := reg.peers.insert info.key reg.records.next
        peerBySocket := reg.peerBySocket.insert (socketText services info) reg.records.next } :
          PeerRegistry).setPendingChanges := by
  unfold addPeer
  cases hlook : reg.peers.lookup (Net.hardwareAddrString info.macAddr) with
  | some p =>
    refine Or.inl ⟨p, hlook, ?_⟩
    simp only [hlook, not_true_eq_false, if_false]
    have htext : Net.udpAddrString ((overwritten now (reg.records.cell p) info).udpAddr services) =
        socketText services info := by
      unfold Peer.udpAddr socketText
      rw [infos_overwritten]
    rw [htext]
    rfl
  | none =>
    refine Or.inr ⟨hlook, ?_⟩
    simp only [hlook]
    rfl

end

theorem IndexSound.addPeer (hs : IndexSound services reg) (k : reg.Kept) (now : ℤ) (info : PeerInfo)
    (overwrite : Bool) :
    IndexSound services (PeerRegistry.addPeer services now reg info overwrite).1 := by
  rcases addPeer_eq services now reg info overwrite with ⟨e, heq⟩ | ⟨-, heq⟩
  · rw [heq]
    exact hs
  rw [heq]
  intro socket p hsocket
  rcases addPeer_true services now reg info with ⟨ref, href, hreg⟩ | ⟨hnone, hreg⟩
  · rw [hreg] at hsocket ⊢
    have hsocket : ((reg.peerBySocket.erase (socketText services (reg.records.cell ref).infos)).insert
      (socketText services info) ref).lookup socket = some p := hsocket
    rw [Table.lookup_insert_if] at hsocket
    show ∃ mac, reg.peers.lookup mac = some p ∧
      socketText services ((reg.records.store ref _).cell p).infos = socket
    split at hsocket
    · next hnew =>
      cases hsocket
      refine ⟨info.key, href, ?_⟩
      rw [Heap.cell_store_self, infos_overwritten, hnew]
    · rw [Table.lookup_erase_if] at hsocket
      split at hsocket
      · cases hsocket
      · next hold =>
        obtain ⟨mac, hmac, htext⟩ := hs socket p hsocket
        have hne : p ≠ ref := by
          rintro rfl
          exact hold htext.symm
        refine ⟨mac, hmac, ?_⟩
        rw [Heap.cell_store, if_neg hne, htext]
  · rw [hreg] at hsocket ⊢
    have hsocket : (reg.peerBySocket.insert (socketText services info) reg.records.next).lookup
      socket = some p := hsocket
    rw [Table.lookup_insert_if] at hsocket
    show ∃ mac, (reg.peers.insert info.key reg.records.next).lookup mac = some p ∧
      socketText services ((reg.records.alloc _).cell p).infos = socket
    split at hsocket
    · next hnew =>
      cases hsocket
      refine ⟨info.key, AList.lookup_insert _, ?_⟩
      rw [Heap.cell_alloc, if_pos rfl, hnew]
    · obtain ⟨mac, hmac, htext⟩ := hs socket p hsocket
      have hne : mac ≠ info.key := by
        rintro rfl
        rw [hnone] at hmac
        cases hmac
      refine ⟨mac, by rw [AList.lookup_insert_ne hne, hmac], ?_⟩
      rw [Heap.cell_alloc, if_neg (Nat.ne_of_lt (k.linked.lt mac p hmac)), htext]

theorem IndexSound.removePeer (hs : IndexSound services reg) (mac : Bytes) :
    IndexSound services (PeerRegistry.removePeer services reg mac) := by
  unfold PeerRegistry.removePeer
  cases hlook : reg.peers.lookup mac with
  | none => exact hs
  | some ref =>
    intro socket p hsocket
    have hsocket : (reg.peerBySocket.erase (socketText services (reg.records.cell ref).infos)).lookup
      socket = some p := hsocket
    rw [Table.lookup_erase_if] at hsocket
    split at hsocket
    · cases hsocket
    · next hother =>
      obtain ⟨mac', hmac', htext⟩ := hs socket p hsocket
      have hne : mac' ≠ mac := by
        rintro rfl
        cases hlook.symm.trans hmac'
        exact hother htext.symm
      exact ⟨mac', (AList.lookup_erase_ne hne).trans hmac', htext⟩

/-- A peer that is taken in gets its entry. Another one loses its own only if it shares the
socket that the peer had before. -/
theorem IndexComplete.addPeer (hc : IndexComplete services reg) (k : reg.Kept) (now : ℤ)
    (info : PeerInfo) (overwrite : Bool)
    (hfree : overwrite = true → ∀ old, reg.Entry info.key old →
      socketText services info ≠ socketText services old → ∀ mac' info', mac' ≠ info.key →
      reg.Entry mac' info' → ¬ Share services old info') :
    IndexComplete services (PeerRegistry.addPeer services now reg info overwrite).1 := by
  rcases addPeer_eq services now reg info overwrite with ⟨e, heq⟩ | ⟨hallowed, heq⟩
  · rw [heq]
    exact hc
  rw [heq]
  rintro mac info' ⟨p, hp, hinfo⟩ hparsable
  rcases addPeer_true services now reg info with ⟨ref, href, hreg⟩ | ⟨hnone, hreg⟩
  · rw [hreg] at hp hinfo ⊢
    have hp : reg.peers.lookup mac = some p := hp
    have hinfo : ((reg.records.store ref (overwritten now (reg.records.cell ref) info)).cell p).infos =
      info' := hinfo
    show ∃ p', ((reg.peerBySocket.erase (socketText services (reg.records.cell ref).infos)).insert
      (socketText services info) ref).lookup (socketText services info') = some p'
    rw [Table.lookup_insert_if]
    split
    · exact ⟨ref, rfl⟩
    · next hnew =>
      have hmac : mac ≠ info.key := by
        rintro rfl
        cases href.symm.trans hp
        rw [Heap.cell_store_self, infos_overwritten] at hinfo
        exact hnew (congrArg _ hinfo.symm)
      have hne : p ≠ ref := by
        rintro rfl
        exact hmac (k.linked.inj _ _ _ hp href)
      rw [Heap.cell_store, if_neg hne] at hinfo
      have hentry : reg.Entry mac info' := ⟨p, hp, hinfo⟩
      rw [Table.lookup_erase_if]
      split
      · next hold =>
        have htrue : overwrite = true := hallowed.resolve_right fun hnone => by
          rw [hnone] at href
          cases href
        have hchanged : socketText services info ≠ socketText services (reg.records.cell ref).infos :=
          fun hsame => hnew (hold.trans hsame.symm)
        exact absurd (share_of_socketText_eq hparsable hold.symm)
          (hfree htrue _ ⟨ref, href, rfl⟩ hchanged mac info' hmac hentry)
      · exact hc mac info' hentry hparsable
  · rw [hreg] at hp hinfo ⊢
    have hp : (reg.peers.insert info.key reg.records.next).lookup mac = some p := hp
    have hinfo : ((reg.records.alloc ⟨info, .unknown, false, [], 0, now⟩).cell p).infos = info' := hinfo
    show ∃ p', (reg.peerBySocket.insert (socketText services info) reg.records.next).lookup
      (socketText services info') = some p'
    rw [Table.lookup_insert_if]
    split
    · exact ⟨_, rfl⟩
    · next hnew =>
      rw [Table.lookup_insert_if] at hp
      split at hp
      · cases hp
        rw [Heap.cell_alloc, if_pos rfl] at hinfo
        exact absurd (congrArg _ hinfo.symm) hnew
      · rw [Heap.cell_alloc, if_neg (Nat.ne_of_lt (k.linked.lt mac p hp))] at hinfo
        exact hc mac info' ⟨p, hp, hinfo⟩ hparsable

theorem IndexComplete.removePeer (hc : IndexComplete services reg) (mac : Bytes)
    (hfree : ∀ old, reg.Entry mac old → ∀ mac' info', mac' ≠ mac → reg.Entry mac' info' →
      ¬ Share services old info') :
    IndexComplete services (PeerRegistry.removePeer services reg mac) := by
  unfold PeerRegistry.removePeer
  cases hlook : reg.peers.lookup mac with
  | none => exact hc
  | some ref =>
    rintro mac' info' ⟨p, hp, hinfo⟩ hparsable
    have hp : (reg.peers.erase mac).lookup mac' = some p := hp
    rw [Table.lookup_erase_if] at hp
    split at hp
    · cases hp
    · next hne =>
      have hentry : reg.Entry mac' info' := ⟨p, hp, hinfo⟩
      show ∃ p', (reg.peerBySocket.erase (socketText services (reg.records.cell ref).infos)).lookup
        (socketText services info') = some p'
      rw [Table.lookup_erase_if]
      split
      · next hshared =>
        exact absurd (share_of_socketText_eq hparsable hshared.symm)
          (hfree _ ⟨ref, hlook, rfl⟩ mac' info' hne hentry)
      · exact hc mac' info' hentry hparsable

theorem entry_iff_view : reg.Entry mac info ↔ ∃ q, reg.view mac = some q ∧ q.infos = info := by
  constructor
  · rintro ⟨p, hp, hinfo⟩
    exact ⟨_, Table.follow_eq_some hp, hinfo⟩
  · rintro ⟨q, hq, hinfo⟩
    obtain ⟨p, hp, hcell⟩ := Table.exists_lookup_of_follow hq
    exact ⟨p, hp, by rw [hcell, hinfo]⟩

theorem Kept.addPeer_entry (k : reg.Kept) (services : Bytes → Option ℕ) (now : ℤ) (info : PeerInfo)
    (overwrite : Bool) :
    (PeerRegistry.addPeer services now reg info overwrite).1.Kept ∧ ∀ mac info',
      (PeerRegistry.addPeer services now reg info overwrite).1.Entry mac info' →
        reg.Entry mac info' ∨ mac = info.key ∧ info' = info := by
  rcases addPeer_eq services now reg info overwrite with ⟨e, heq⟩ | ⟨-, heq⟩
  · rw [heq]
    exact ⟨k, fun mac info' hentry => Or.inl hentry⟩
  · obtain ⟨reg', ref, hadd, k', hview⟩ := k.addPeer services now info
    rw [heq, hadd]
    refine ⟨k', fun mac info' hentry => ?_⟩
    obtain ⟨q, hq, hinfo⟩ := entry_iff_view.mp hentry
    rw [hview, announce, Function.update_apply] at hq
    split at hq
    · next hmac =>
      cases hq
      rw [infos_announcedPeer] at hinfo
      exact Or.inr ⟨hmac, hinfo.symm⟩
    · exact Or.inl (entry_iff_view.mpr ⟨q, hq, hinfo⟩)

theorem Kept.removePeer_entry (k : reg.Kept) (services : Bytes → Option ℕ) (mac : Bytes) :
    (PeerRegistry.removePeer services reg mac).Kept ∧ ∀ mac' info',
      (PeerRegistry.removePeer services reg mac).Entry mac' info' → reg.Entry mac' info' := by
  obtain ⟨k', hview⟩ := k.removePeer services mac
  refine ⟨k', fun mac' info' hentry => ?_⟩
  obtain ⟨q, hq, hinfo⟩ := entry_iff_view.mp hentry
  rw [hview, Function.update_apply] at hq
  split at hq
  · cases hq
  · exact entry_iff_view.mpr ⟨q, hq, hinfo⟩

/-! ## Several peers -/

/-- The infos under an address do not change its socket if another address shares it. -/
def Stable (services : Bytes → Option ℕ) (U : Bytes → PeerInfo → Prop) (mac : Bytes) : Prop :=
  ∀ mac' info info', mac' ≠ mac → U mac info → U mac' info' → Share services info info' →
    ∀ other, U mac other → socketText services other = socketText services info

/-- No other address shares the socket of this one. -/
def Alone (services : Bytes → Option ℕ) (U : Bytes → PeerInfo → Prop) (mac : Bytes) : Prop :=
  ∀ mac' info info', mac' ≠ mac → U mac info → U mac' info' → ¬ Share services info info'

/-- A registry in the course of a call, when `U` lists the infos of the peers that were there
and of those that come. The index is complete if the calls so far were `safe`. -/
structure Indexed (services : Bytes → Option ℕ) (safe : Prop) (U : Bytes → PeerInfo → Prop)
    (reg : PeerRegistry) : Prop where
  kept : reg.Kept
  sound : IndexSound services reg
  complete : safe → IndexComplete services reg
  entries : ∀ mac info, reg.Entry mac info → U mac info

variable {safe : Prop} {U : Bytes → PeerInfo → Prop}

theorem Indexed.addPeer (h : Indexed services safe U reg) (now : ℤ) (hinfo : U info.key info)
    (hstable : safe → overwrite = true → Stable services U info.key) :
    Indexed services safe U (PeerRegistry.addPeer services now reg info overwrite).1 := by
  obtain ⟨k, hentries⟩ := h.kept.addPeer_entry services now info overwrite
  refine ⟨k, h.sound.addPeer h.kept now info overwrite, fun hsafe => ?_, fun mac info' hentry => ?_⟩
  · refine (h.complete hsafe).addPeer h.kept now info overwrite fun htrue old hold hchanged mac' info'
      hne hentry hshare => hchanged ?_
    exact hstable hsafe htrue mac' old info' hne (h.entries _ _ hold) (h.entries _ _ hentry) hshare info hinfo
  · rcases hentries mac info' hentry with hold | ⟨rfl, rfl⟩
    · exact h.entries mac info' hold
    · exact hinfo

theorem Indexed.removePeer (h : Indexed services safe U reg)
    (halone : safe → Alone services U mac) :
    Indexed services safe U (PeerRegistry.removePeer services reg mac) := by
  obtain ⟨k, hentries⟩ := h.kept.removePeer_entry services mac
  refine ⟨k, h.sound.removePeer mac, fun hsafe => ?_, fun mac' info' hentry =>
    h.entries mac' info' (hentries mac' info' hentry)⟩
  exact (h.complete hsafe).removePeer mac fun old hold mac' info' hne hentry =>
    halone hsafe mac' old info' hne (h.entries _ _ hold) (h.entries _ _ hentry)

end Steps

/-! ## Calls -/

namespace Call

/-- The call empties the registry first. -/
def resets : Call → Bool
  | .handlePeerInfoList _ _ pil reset _ => pil.eventType.toUInt8 = typeList && reset
  | _ => false

/-- The peers that the call takes in. -/
def brings : Call → List PeerInfo
  | .addPeer _ info _ => [info]
  | .removePeer _ => []
  | .handlePeerInfoList _ _ pil _ _ =>
    if pil.eventType.toUInt8 = typeList ∨ pil.eventType.toUInt8 = typeRegister then pil.peerInfos
    else []

def overwrites : Call → Bool
  | .addPeer _ _ overwrite | .handlePeerInfoList _ _ _ _ overwrite => overwrite
  | .removePeer _ => false

/-- The call removes the peer with this address. -/
def drops (mac : Bytes) : Call → Bool
  | .addPeer _ _ _ => false
  | .removePeer mac' => mac = mac'
  | .handlePeerInfoList _ _ pil reset _ =>
    let listed := (pil.peerInfos.map PeerInfo.key).contains mac
    if pil.eventType.toUInt8 = typeList then !reset && !listed
    else pil.eventType.toUInt8 = typeUnregister && listed

end Call

/-- The peer with these infos is there when the call begins, or the call takes it in. -/
def Concerns (reg : PeerRegistry) (c : Call) (mac : Bytes) (info : PeerInfo) : Prop :=
  (c.resets = false ∧ reg.Entry mac info) ∨ info ∈ c.brings ∧ info.key = mac

/-- The call takes no socket from a peer that shares it: of two peers with the same socket,
in the registry or in the list that comes, none is removed or gets another socket. -/
def TakesNoShared (services : Bytes → Option ℕ) (reg : PeerRegistry) (c : Call) : Prop :=
  ∀ mac mac' info info', mac' ≠ mac → reg.Concerns c mac info → reg.Concerns c mac' info' →
    Share services info info' → c.drops mac = false ∧
      (c.overwrites = true → ∀ other, reg.Concerns c mac other →
        socketText services other = socketText services info)

section Calls

variable {services : Bytes → Option ℕ} {now : ℤ} {order : MapOrder} {reg reg' : PeerRegistry}
  {c : Call} {mac : Bytes} {safe : Prop} {U : Bytes → PeerInfo → Prop}

theorem TakesNoShared.stable (h : TakesNoShared services reg c) (htrue : c.overwrites = true) :
    Stable services (reg.Concerns c) mac :=
  fun mac' info info' hne hinfo hinfo' hshare =>
    (h mac mac' info info' hne hinfo hinfo' hshare).2 htrue

theorem TakesNoShared.alone (h : TakesNoShared services reg c) (hdrops : c.drops mac = true) :
    Alone services (reg.Concerns c) mac := by
  intro mac' info info' hne hinfo hinfo' hshare
  have hkept := (h mac mac' info info' hne hinfo hinfo' hshare).1
  rw [hdrops] at hkept
  cases hkept

theorem indexed_empty (hpeers : reg.peers = ∅) (hsocket : reg.peerBySocket = ∅) :
    Indexed services safe U reg := by
  have hnone : ∀ mac info, ¬ reg.Entry mac info := by
    rintro mac info ⟨p, hp, -⟩
    rw [hpeers] at hp
    cases hp
  refine ⟨kept_of_empty hpeers, ?_, fun _ mac info hentry => absurd hentry (hnone mac info),
    fun mac info hentry => absurd hentry (hnone mac info)⟩
  intro socket p hp
  rw [hsocket] at hp
  cases hp

theorem Indexed.of_same (h : Indexed services safe U reg)
    (hpeers : reg'.peers = reg.peers) (hrecords : reg'.records = reg.records)
    (hsocket : reg'.peerBySocket = reg.peerBySocket) : Indexed services safe U reg' := by
  have hentry : ∀ mac info, reg'.Entry mac info ↔ reg.Entry mac info := by
    intro mac info
    unfold Entry
    rw [hpeers, hrecords]
  refine ⟨(h.kept.of_same hpeers hrecords).1, ?_, ?_, fun mac info he =>
    h.entries mac info ((hentry mac info).mp he)⟩
  · unfold IndexSound
    rw [hpeers, hrecords, hsocket]
    exact h.sound
  · intro hsafe mac info he hparsable
    rw [hsocket]
    exact h.complete hsafe mac info ((hentry mac info).mp he) hparsable

theorem setOrigin_ok {pil : PeerInfoList} (h : setOrigin now reg pil = .ok reg') :
    reg'.peers = reg.peers ∧ reg'.records = reg.records ∧ reg'.peerBySocket = reg.peerBySocket ∧
      reg'.hasPendingChanges = reg.hasPendingChanges := by
  unfold setOrigin at h
  split at h
  · obtain ⟨infos, -, h⟩ := bind_eq_ok.mp h
    cases h
    exact ⟨rfl, rfl, rfl, rfl⟩
  · cases h
    exact ⟨rfl, rfl, rfl, rfl⟩

/-- What holds after the peers of a list are added, and is kept by every removal of a peer that
is not in the list. -/
theorem syncPeers_invariant {I : PeerRegistry → Prop} {infos : List PeerInfo} {reset overwrite : Bool}
    (hremove : reset = false → ∀ reg1, ∀ mac, mac ∉ infos.map PeerInfo.key → I reg1 →
      I (removePeer services reg1 mac))
    (h : I (addPeers services now overwrite infos reg).1) :
    I (syncPeers services now order infos reset overwrite reg).1 := by
  unfold syncPeers
  split
  · next reg1 e heq =>
    rw [heq] at h
    exact h
  · next reg1 u heq =>
    rw [heq] at h
    cases reset with
    | true => exact h
    | false =>
      refine List.foldlRecOn _ _ h fun reg2 h2 mac hmac => hremove rfl reg2 mac ?_ h2
      exact of_decide_eq_true (List.mem_filter.mp hmac).2

/-- **What a call keeps.** It empties the registry if it resets, may note its origin, takes in
the peers it brings and removes those it drops. -/
theorem call_invariant {I : PeerRegistry → Prop}
    (hempty : c.resets = true → I { reg with peers := ∅, peerBySocket := ∅ })
    (hstart : c.resets = false → I reg)
    (hsame : ∀ reg1 reg2, reg2.peers = reg1.peers → reg2.records = reg1.records →
      reg2.peerBySocket = reg1.peerBySocket → reg2.hasPendingChanges = reg1.hasPendingChanges →
      I reg1 → I reg2)
    (hadd : ∀ now reg1, ∀ info ∈ c.brings, I reg1 →
      I (addPeer services now reg1 info c.overwrites).1)
    (hremove : ∀ reg1 mac, c.drops mac = true → I reg1 → I (removePeer services reg1 mac)) {u : Unit}
    (hcall : call services reg c = .ok (reg', u)) : I reg' := by
  cases c with
  | addPeer now info overwrite =>
    cases hcall
    exact hadd now reg info (List.mem_singleton_self info) (hstart rfl)
  | removePeer mac =>
    cases hcall
    exact hremove reg mac (by simp [Call.drops]) (hstart rfl)
  | handlePeerInfoList now order pil reset overwrite =>
    obtain ⟨⟨reg2, res⟩, hlist, hcall⟩ := bind_eq_ok.mp hcall
    cases hcall
    have hadds : pil.eventType.toUInt8 = typeList ∨ pil.eventType.toUInt8 = typeRegister →
        ∀ reg1, I reg1 → I (addPeers services now overwrite pil.peerInfos reg1).1 := by
      intro htype reg1 h1
      refine addPeers_invariant services now overwrite pil.peerInfos (fun reg2 info hinfo => ?_) h1
      refine hadd now reg2 info ?_
      simp only [Call.brings, if_pos htype]
      exact hinfo
    unfold handlePeerInfoList at hlist
    simp only at hlist
    split at hlist
    · next htype =>
      obtain ⟨reg1, horigin, hlist⟩ := bind_eq_ok.mp hlist
      obtain ⟨hpeers, hrecords, hsocket, hpending⟩ := setOrigin_ok horigin
      have h1 : I reg1 := by
        refine hsame _ reg1 hpeers hrecords hsocket hpending ?_
        cases reset with
        | true => exact hempty (by simp [Call.resets, htype])
        | false => exact hstart (by simp [Call.resets])
      have h2 : I (syncPeers services now order pil.peerInfos reset overwrite reg1).1 := by
        refine syncPeers_invariant (fun hreset reg2 mac hmac => hremove reg2 mac ?_)
          (hadds (Or.inl htype) reg1 h1)
        simp only [Call.drops, if_pos htype, hreset, List.contains_iff_mem, hmac, Bool.not_false,
          Bool.true_and, Bool.not_eq_true', ← Bool.not_eq_true, not_false_eq_true]
      rw [Except.ok.inj hlist] at h2
      exact h2
    · next htype =>
      have h1 : I reg := hstart (by simp [Call.resets, htype])
      split at hlist
      · next hregister =>
        have h2 := hadds (Or.inr hregister) reg h1
        rw [Except.ok.inj hlist] at h2
        exact h2
      · split at hlist
        · next hunregister =>
          cases hlist
          refine List.foldlRecOn _ _ h1 fun reg2 h2 mac hmac => hremove reg2 mac ?_ h2
          have hlisted : (pil.peerInfos.map PeerInfo.key).contains mac = true :=
            List.contains_iff_mem.mpr hmac
          simp only [Call.drops, if_neg htype, hlisted, Bool.and_true]
          exact decide_eq_true hunregister
        · cases hlist
          exact h1

theorem indexed_call (h : Indexed services safe reg.Entry reg)
    (hadm : safe → TakesNoShared services reg c) {u : Unit}
    (hcall : call services reg c = .ok (reg', u)) : Indexed services safe reg'.Entry reg' := by
  have hend : Indexed services safe (reg.Concerns c) reg' := by
    refine call_invariant (I := Indexed services safe (reg.Concerns c)) (fun _ => indexed_empty rfl rfl)
      (fun hreset => ?_) (fun reg1 reg2 hpeers hrecords hsocket _ h1 =>
        h1.of_same hpeers hrecords hsocket) (fun now reg1 info hinfo h1 => ?_)
      (fun reg1 mac hdrops h1 => h1.removePeer fun hsafe => (hadm hsafe).alone hdrops) hcall
    · exact ⟨h.kept, h.sound, h.complete, fun mac info hentry => Or.inl ⟨hreset, hentry⟩⟩
    · exact h1.addPeer now (Or.inr ⟨hinfo, rfl⟩) fun hsafe htrue => (hadm hsafe).stable htrue
  exact ⟨hend.kept, hend.sound, hend.complete, fun mac info hentry => hentry⟩

end Calls

/-! ## Whole runs -/

/-- A registry as it is made. -/
def New (reg : PeerRegistry) : Prop := ∃ communityName noPeer, reg = newPeerRegistry communityName noPeer

theorem indexed_of_reach {services : Bytes → Option ℕ} {reg : PeerRegistry} (safe : Prop)
    (h : Reach (call services) New (fun reg c => safe → TakesNoShared services reg c) reg) :
    Indexed services safe reg.Entry reg := by
  refine Reach.invariant (I := fun reg => Indexed services safe reg.Entry reg) ?_
    (fun _ _ _ _ hI hadm hcall => indexed_call hI hadm hcall) h
  rintro reg ⟨communityName, noPeer, rfl⟩
  exact indexed_empty rfl rfl

/-- **Whatever is called**, every indexed peer is present and indexed under its own socket. -/
theorem indexSound_of_reach {services : Bytes → Option ℕ} {reg : PeerRegistry}
    (h : Reach (call services) New (fun _ _ => True) reg) : IndexSound services reg :=
  (indexed_of_reach False (h.mono fun _ _ _ hfalse => hfalse.elim)).sound

/-- **The index is consistent** in every registry that calls lead to which take no socket from
a peer that shares it.
GOLINE: p2p/p2p.go:171-183, 230-308, 347-406 -/
theorem peerSockets_consistent (services : Bytes → Option ℕ) (reg : PeerRegistry)
    (h : Reach (call services) New (TakesNoShared services) reg) : IndexConsistent services reg := by
  have hindexed := indexed_of_reach True (h.mono fun _ _ hadm _ => hadm)
  exact hindexed.sound.consistent (hindexed.complete trivial)

/-! ## Two peers with one socket -/

namespace Sample

def noServices : Bytes → Option ℕ := fun _ => none

/-- A peer at 1.2.3.4:5. -/
def peerInfo (n : UInt8) : PeerInfo := ⟨[], n :: [2, 3, 4, 5, 6], ascii "1.2.3.4:5", [], []⟩

def addr : Net.UDPAddr := ⟨Net.v4InV6Prefix ++ [1, 2, 3, 4], 5, []⟩

theorem parseUDPAddr_peerInfo (n : UInt8) :
    P2P.parseUDPAddr (fun _ => none) (peerInfo n).pubSocket = some addr :=
  show P2P.parseUDPAddr (fun _ => none) (ascii "1.2.3.4:5") = some addr by decide

def registry : PeerRegistry := newPeerRegistry [] ⟨peerInfo 0, .unknown, false, [], 0, 0⟩

def adds (n : UInt8) : Call := .addPeer 0 (peerInfo n) true

end Sample

open PeerRegistry.Sample

/-- Peers 1 and 2 come with one socket. -/
theorem indexSound_of_reach_shared :
    ∃ reg, (reg.peerBySocket.lookup addr.string).isSome ∧ IndexSound noServices reg := by
  obtain ⟨reg, hrun, hreg⟩ := exists_of_passes
    (x := runEvents (call noServices) registry [adds 1, adds 2])
    (p := fun reg => (reg.peerBySocket.lookup addr.string).isSome) (by decide +kernel)
  exact ⟨reg, hreg, indexSound_of_reach (.of_runEvents (.init ⟨_, _, rfl⟩) hrun)⟩

/-- Peers 1 and 2 come with one socket: it leads to one of them. -/
theorem peerSockets_consistent_shared :
    ∃ reg, Reach (call noServices) New (TakesNoShared noServices) reg ∧
      reg.Entry (peerInfo 1).key (peerInfo 1) ∧ reg.Entry (peerInfo 2).key (peerInfo 2) ∧
      Share noServices (peerInfo 1) (peerInfo 2) ∧ IndexConsistent noServices reg := by
  let reg1 := (addPeer noServices 0 registry (peerInfo 1) true).1
  let reg2 := (addPeer noServices 0 reg1 (peerInfo 2) true).1
  have k0 : registry.Kept := kept_of_empty rfl
  have hentries : ∀ mac info, reg1.Entry mac info → info = peerInfo 1 := by
    intro mac info hentry
    rcases (k0.addPeer_entry noServices 0 (peerInfo 1) true).2 mac info hentry with ⟨p, hp, -⟩ | hnew
    · cases hp
    · exact hnew.2
  have hadm1 : TakesNoShared noServices registry (adds 1) := by
    have hone : ∀ mac info, registry.Concerns (adds 1) mac info → mac = (peerInfo 1).key := by
      rintro mac info (⟨-, p, hp, -⟩ | ⟨hinfo, rfl⟩)
      · cases hp
      · rw [List.mem_singleton.mp hinfo]
    intro mac mac' info info' hne hinfo hinfo'
    exact absurd ((hone mac' info' hinfo').trans (hone mac info hinfo).symm) hne
  have hadm2 : TakesNoShared noServices reg1 (adds 2) := by
    have hsocket : ∀ mac info, reg1.Concerns (adds 2) mac info → ∃ n, info = peerInfo n := by
      rintro mac info (⟨-, hentry⟩ | ⟨hinfo, -⟩)
      · exact ⟨1, hentries mac info hentry⟩
      · exact ⟨2, List.mem_singleton.mp hinfo⟩
    intro mac mac' info info' _ hinfo _ _
    refine ⟨rfl, fun _ other hother => ?_⟩
    obtain ⟨n, rfl⟩ := hsocket mac info hinfo
    obtain ⟨m, rfl⟩ := hsocket mac other hother
    rfl
  have hreach : Reach (call noServices) New (TakesNoShared noServices) reg2 :=
    .step (.step (.init ⟨_, _, rfl⟩) hadm1 rfl) hadm2 rfl
  exact ⟨reg2, hreach, ⟨0, by decide, rfl⟩, ⟨1, by decide, rfl⟩,
    ⟨⟨addr, parseUDPAddr_peerInfo 1⟩, ⟨addr, parseUDPAddr_peerInfo 2⟩, rfl⟩, peerSockets_consistent noServices reg2 hreach⟩

/-- Peers 1 and 2 come with one socket and peer 2 goes. Peer 1 is there and cannot be found. -/
theorem peerSockets_lost :
    ∃ reg, Reach (call noServices) New (fun _ _ => True) reg ∧
      reg.Entry (peerInfo 1).key (peerInfo 1) ∧
      P2P.parseUDPAddr noServices (peerInfo 1).pubSocket = some addr ∧
      reg.getPeerBySocket (some addr) = .error (.socketNotFound addr.string) ∧
      ¬ IndexConsistent noServices reg := by
  obtain ⟨reg, hrun, hreg⟩ := exists_of_passes
    (x := runEvents (call noServices) registry [adds 1, adds 2, .removePeer (peerInfo 2).key])
    (p := fun reg => decide (reg.peers.lookup (peerInfo 1).key = some 0 ∧
      (reg.records.cell 0).infos = peerInfo 1 ∧ reg.peerBySocket.lookup addr.string = none))
    (by decide +kernel)
  obtain ⟨hpeer, hinfo, hlost⟩ := of_decide_eq_true hreg
  have hget : reg.getPeerBySocket (some addr) = .error (.socketNotFound addr.string) := by
    unfold getPeerBySocket
    simp only [hlost]
  refine ⟨reg, .of_runEvents (.init ⟨_, _, rfl⟩) hrun, ⟨0, hpeer, hinfo⟩, parseUDPAddr_peerInfo 1,
    hget, fun hconsistent => ?_⟩
  have hudp : (reg.records.cell 0).udpAddr noServices = some addr := by
    unfold Peer.udpAddr
    rw [hinfo]
    exact parseUDPAddr_peerInfo 1
  obtain ⟨p', mac', hfound, -⟩ := hconsistent.found _ 0 addr hpeer hudp
  rw [hget] at hfound
  cases hfound

end N2nGo.PeerRegistry
