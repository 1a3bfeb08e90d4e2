import N2nGo.Analysis.PeerRecords

/-!
# Lists of peers

A list of peers replaces what the registry holds: afterwards it has the peers of the list
and no others. What becomes of one peer depends on its own occurrences in the list only
(`foldl_announce`): it ends with the infos of the last one, and with the status it had if
none of them brings another address. A list that announces its origin and has none makes
the edge follow a nil pointer, and this is the only list that is not applied.
-/

set_option autoImplicit false

namespace N2nGo.PeerRegistry

open N2nGo.Lib N2nGo.Protocol N2nGo.Messages Peer

variable {services : Bytes → Option ℕ} {now : ℤ} {order : MapOrder} {reg : PeerRegistry}
  {pil : PeerInfoList} {mac : Bytes} {infos : List PeerInfo}

/-! ## One peer -/

/-- What the list says about one address, in order. -/
def occurrences (mac : Bytes) (infos : List PeerInfo) : List PeerInfo :=
  infos.filter fun info => info.key = mac

/-- A record after it has been announced several times. -/
def announcedAll (now : ℤ) (q : Option Peer) (infos : List PeerInfo) : Option Peer :=
  infos.foldl (fun q info => some (announcedPeer now q info)) q

theorem foldl_announce (now : ℤ) (infos : List PeerInfo) (v : Bytes → Option Peer) (mac : Bytes) :
    infos.foldl (announce now) v mac = announcedAll now (v mac) (occurrences mac infos) := by
  induction infos generalizing v with
  | nil => rfl
  | cons info infos ih =>
    rw [List.foldl_cons, ih]
    unfold occurrences announce
    by_cases hkey : info.key = mac
    · subst hkey
      rw [Function.update_self, List.filter_cons_of_pos (by simp)]
      rfl
    · rw [Function.update_of_ne (Ne.symm hkey), List.filter_cons_of_neg (by simpa using hkey)]

theorem mem_keys_iff : mac ∈ infos.map PeerInfo.key ↔ occurrences mac infos ≠ [] := by
  unfold occurrences
  rw [ne_eq, List.filter_eq_nil_iff]
  simp [List.mem_map]

theorem infos_announcedAll (now : ℤ) (q : Option Peer) (h : infos ≠ []) :
    (announcedAll now q infos).map Peer.infos = infos.getLast? := by
  obtain ⟨before, info, rfl⟩ := (List.eq_nil_or_concat infos).resolve_left h
  unfold announcedAll
  rw [List.concat_eq_append, List.foldl_append, List.getLast?_concat]
  exact congrArg some (infos_announcedPeer _ info)

theorem status_announcedAll (now : ℤ) (q : Peer) (infos : List PeerInfo) :
    (announcedAll now (some q) infos).map Peer.p2pStatus =
      some (if ∀ info ∈ infos, ¬ Readdressed q.infos info then q.p2pStatus else .unknown) := by
  induction infos generalizing q with
  | nil => simp [announcedAll]
  | cons info infos ih =>
    have hnext := ih (overwritten now q info)
    have hfold : announcedAll now (some q) (info :: infos) =
        announcedAll now (some (overwritten now q info)) infos := rfl
    rw [hfold, hnext, infos_overwritten, overwritten_eq]
    refine congrArg some ?_
    by_cases hnew : Readdressed q.infos info
    · simp only [hnew, if_true, ite_self]
      exact (if_neg fun hall => hall info List.mem_cons_self hnew).symm
    · have hsame : ∀ other, Readdressed info other ↔ Readdressed q.infos other := by
        intro other
        unfold Readdressed at hnew ⊢
        push Not at hnew
        rw [hnew.1, hnew.2]
      simp only [hnew, if_false, hsame, List.forall_mem_cons, not_false_eq_true, true_and]

theorem status_announcedAll_none (now : ℤ) (h : infos ≠ []) :
    (announcedAll now none infos).map Peer.p2pStatus = some .unknown := by
  obtain ⟨info, rest, rfl⟩ := List.exists_cons_of_ne_nil h
  have hfold : announcedAll now none (info :: rest) =
      announcedAll now (some ⟨info, .unknown, false, [], 0, now⟩) rest := rfl
  rw [hfold, status_announcedAll, ite_self]

/-- **Announcing the same again changes nothing.** -/
theorem announcedAll_again (now now' : ℤ) (q : Option Peer) (h : infos ≠ []) :
    (announcedAll now' (announcedAll now q infos) infos).map (fun q => (q.infos, q.p2pStatus)) =
      (announcedAll now q infos).map fun q => (q.infos, q.p2pStatus) := by
  have hlast := infos_announcedAll now q h
  obtain ⟨q1, hq1⟩ : ∃ q1, announcedAll now q infos = some q1 := by
    cases hq1 : announcedAll now q infos with
    | none =>
      rw [hq1] at hlast
      exact absurd (List.getLast?_eq_none_iff.mp hlast.symm) h
    | some q1 => exact ⟨q1, rfl⟩
  rw [hq1] at hlast ⊢
  have hmem : q1.infos ∈ infos := List.mem_of_getLast? hlast.symm
  have hstatus2 := status_announcedAll now' q1 infos
  have hlast2 := infos_announcedAll now' (some q1) h
  -- if the announcements differ in the address, both rounds end with an unknown peer
  have hkept : (if ∀ info ∈ infos, ¬ Readdressed q1.infos info then q1.p2pStatus else .unknown) =
      q1.p2pStatus := by
    split
    · rfl
    · next hdiffer =>
      have hunknown : some q1.p2pStatus = some .unknown := by
        cases q with
        | none =>
          have hstatus := status_announcedAll_none now h
          rwa [hq1] at hstatus
        | some q =>
          have hstatus := status_announcedAll now q infos
          rw [hq1, if_neg fun hall => hdiffer fun info hinfo => ?_] at hstatus
          · exact hstatus
          · have h1 := hall info hinfo
            have h2 := hall q1.infos hmem
            unfold Readdressed at h1 h2 ⊢
            push Not at h1 h2 ⊢
            rw [← h2.1, ← h2.2]
            exact h1
      exact (Option.some.inj hunknown).symm
  rw [hkept] at hstatus2
  obtain ⟨q2, hq2⟩ : ∃ q2, announcedAll now' (some q1) infos = some q2 := by
    cases hq2 : announcedAll now' (some q1) infos with
    | none =>
      rw [hq2] at hstatus2
      cases hstatus2
    | some q2 => exact ⟨q2, rfl⟩
  rw [hq2] at hstatus2 hlast2 ⊢
  have hinfos : q2.infos = q1.infos := Option.some.inj (hlast2.trans hlast.symm)
  have hsame : q2.p2pStatus = q1.p2pStatus := Option.some.inj hstatus2
  simp only [Option.map_some, hinfos, hsame]

/-! ## The whole list -/

/-- The origin of the list, if it is announced, is there. -/
def HasItsOrigin (pil : PeerInfoList) : Prop := pil.hasOrigin = true → pil.origin ≠ none

theorem setOrigin_of_hasItsOrigin (h : HasItsOrigin pil) (now : ℤ) (reg : PeerRegistry) :
    ∃ reg', setOrigin now reg pil = .ok reg' := by
  unfold setOrigin
  split
  · next htrue =>
    cases horigin : pil.origin with
    | none => exact absurd horigin (h htrue)
    | some infos => exact ⟨_, rfl⟩
  · exact ⟨reg, rfl⟩

/-- **What a list leaves**, seen through the table. -/
theorem Kept.handleList (k : reg.Kept) (services : Bytes → Option ℕ) (now : ℤ) (order : MapOrder)
    (reset : Bool) (htype : pil.eventType.toUInt8 = typeList) (horigin : HasItsOrigin pil) :
    ∃ reg', PeerRegistry.handlePeerInfoList services now order reg pil reset true = .ok (reg', .ok ()) ∧
      reg'.Kept ∧ ∀ mac, reg'.view mac = if occurrences mac pil.peerInfos = [] then none
        else announcedAll now (if reset then none else reg.view mac) (occurrences mac pil.peerInfos) := by
  unfold PeerRegistry.handlePeerInfoList
  simp only
  rw [if_pos htype]
  cases reset with
  | true =>
    obtain ⟨reg1, hset⟩ := setOrigin_of_hasItsOrigin horigin now
      { reg with peers := ∅, peerBySocket := ∅ }
    obtain ⟨hpeers, -, -⟩ := setOrigin_ok hset
    have k1 : reg1.Kept := kept_of_empty hpeers
    obtain ⟨reg2, hadd, k2, hview⟩ := k1.addPeers services now pil.peerInfos
    refine ⟨reg2, ?_, k2, fun mac => ?_⟩
    · simp only [if_true, hset, ok_bind, syncPeers, hadd]
    · have hnone : reg1.view mac = none := by
        unfold PeerRegistry.view Table.follow
        rw [hpeers]
        rfl
      rw [hview, foldl_announce, hnone]
      split
      · next hnil =>
        rw [hnil]
        rfl
      · rfl
  | false =>
    obtain ⟨reg1, hset⟩ := setOrigin_of_hasItsOrigin horigin now reg
    obtain ⟨hpeers, hrecords, -⟩ := setOrigin_ok hset
    obtain ⟨k1, hview1⟩ := k.of_same hpeers hrecords
    obtain ⟨reg2, hadd, k2, hview⟩ := k1.addPeers services now pil.peerInfos
    obtain ⟨k3, hview3⟩ := k2.removeUnlisted services order pil.peerInfos
    refine ⟨_, ?_, k3, fun mac => ?_⟩
    · simp only [Bool.false_eq_true, if_false, hset, ok_bind, syncPeers, hadd]
    · rw [hview3, if_congr mem_keys_iff rfl rfl, hview, hview1, foldl_announce, ite_not]
      simp

/-- The registry has the peers of the list and no others, each with the infos that come last. -/
structure Lists (reg : PeerRegistry) (infos : List PeerInfo) : Prop where
  keys : ∀ mac, mac ∈ reg.peers ↔ mac ∈ infos.map PeerInfo.key
  last : ∀ mac, (reg.view mac).map Peer.infos = (occurrences mac infos).getLast?

/-- A peer that the list names once, at the addresses it has, keeps its status and check ID. -/
def KeepsUnchanged (infos : List PeerInfo) (reg reg' : PeerRegistry) : Prop :=
  ∀ mac q info, reg.view mac = some q → occurrences mac infos = [info] → ¬ Readdressed q.infos info →
    ∃ q', reg'.view mac = some q' ∧ q'.p2pStatus = q.p2pStatus ∧ q'.p2pCheckID = q.p2pCheckID

theorem mem_peers_iff_view : mac ∈ reg.peers ↔ (reg.view mac).isSome := by
  unfold view Table.follow
  rw [Option.isSome_map, AList.lookup_isSome]

theorem lists_of_view {reg' : PeerRegistry} {v : Bytes → Option Peer}
    (hview : ∀ mac, reg'.view mac = if occurrences mac infos = [] then none
      else announcedAll now (v mac) (occurrences mac infos)) : reg'.Lists infos := by
  have hlast : ∀ mac, (reg'.view mac).map Peer.infos = (occurrences mac infos).getLast? := by
    intro mac
    rw [hview]
    split
    · next hnil =>
      rw [hnil]
      rfl
    · next hne => exact infos_announcedAll now _ hne
  refine ⟨fun mac => ?_, hlast⟩
  rw [mem_peers_iff_view, mem_keys_iff, ← Option.isSome_map (f := Peer.infos), hlast]
  simp

/-- **A list of peers is applied exactly if it has the origin that it announces**: it is no error,
the registry lists the peers of the list as they come last, and without a reset unchanged peers
keep their status, and the same list changes nothing when it comes again.
GOLINE: p2p/p2p.go:230-291, 344-406 -/
theorem list_sync_iff (services : Bytes → Option ℕ) (now : ℤ) (order : MapOrder) (reg : PeerRegistry)
    (k : reg.Kept) (pil : PeerInfoList) (htype : pil.eventType.toUInt8 = typeList) (reset : Bool) :
    (∃ reg', handlePeerInfoList services now order reg pil reset true = .ok (reg', .ok ()) ∧
      reg'.Lists pil.peerInfos ∧
      (reset = false → KeepsUnchanged pil.peerInfos reg reg' ∧
        ∀ now' order', ∃ reg'', handlePeerInfoList services now' order' reg' pil false true =
          .ok (reg'', .ok ()) ∧ ∀ mac, (reg''.view mac).map (fun q => (q.infos, q.p2pStatus)) =
            (reg'.view mac).map fun q => (q.infos, q.p2pStatus))) ↔
      (pil.hasOrigin = true → pil.origin ≠ none) := by
  constructor
  · rintro ⟨reg', hok, -⟩ htrue hnone
    unfold handlePeerInfoList at hok
    simp only at hok
    rw [if_pos htype] at hok
    obtain ⟨reg1, hset, -⟩ := bind_eq_ok.mp hok
    unfold setOrigin at hset
    rw [if_pos htrue, hnone] at hset
    cases hset
  · intro horigin
    obtain ⟨reg', hok, k', hview⟩ := k.handleList services now order reset htype horigin
    refine ⟨reg', hok, lists_of_view hview, ?_⟩
    rintro rfl
    refine ⟨fun mac q info hq honce hsame => ?_, fun now' order' => ?_⟩
    · rw [hview, honce, if_neg (by simp), if_neg (by simp), hq]
      refine ⟨overwritten now q info, rfl, ?_⟩
      rw [overwritten_eq]
      simp only [hsame, if_false, and_self]
    · obtain ⟨reg'', hok', -, hview'⟩ := k'.handleList services now' order' false htype horigin
      refine ⟨reg'', hok', fun mac => ?_⟩
      rw [hview', hview]
      split
      · rfl
      · next hne =>
        simp only [Bool.false_eq_true, if_false]
        exact announcedAll_again now now' (reg.view mac) hne

/-! ## Registries that come up -/

theorem infos_effect (reg : PeerRegistry) (op : Operation) (p : PeerRef) (q : Peer) :
    (reg.effect op p q).infos = q.infos := by
  cases op with
  | call c => rfl
  | ping now p' asAvailable checkid =>
    simp only [effect, apply_ite Peer.infos, infos_updateP2PStatus, ite_self]
  | pong now p' checkId fromSupernode =>
    simp only [effect, pongedPeer, apply_ite Peer.infos, infos_updateP2PStatus, ite_self]
  | report now mac => simp only [effect, apply_ite Peer.infos, infos_updateP2PStatus, ite_self]
  | sweep now order => rfl

theorem Kept.call {c : Call} {reg' : PeerRegistry} {u : Unit} (k : reg.Kept)
    (h : PeerRegistry.call services reg c = .ok (reg', u)) : reg'.Kept := by
  exact call_invariant (I := Kept) (fun _ => kept_of_empty rfl) (fun _ => k)
    (fun reg1 reg2 hpeers hrecords _ _ k1 => (k1.of_same hpeers hrecords).1)
    (fun now reg1 info _ k1 => (k1.addPeer_entry services now info _).1)
    (fun reg1 mac _ k1 => (k1.removePeer services mac).1) h

/-- **Every registry that updates lead to** has different records for different addresses, and
each record names its address. -/
theorem registry_kept (h : Reach (operate services) New (fun _ _ => True) reg) : reg.Kept := by
  have hinv : reg.Sound ∧ reg.Kept := by
    refine h.invariant (I := fun reg => reg.Sound ∧ reg.Kept) (fun reg hnew => ?_) ?_
    · refine ⟨sound_of_new hnew, ?_⟩
      obtain ⟨communityName, noPeer, rfl⟩ := hnew
      exact kept_of_empty rfl
    · rintro reg op reg' u ⟨hs, k⟩ - hop
      refine ⟨hs.operate hop, ?_⟩
      rcases operate_cases hs hop with ⟨c, -, hcall⟩ | ⟨-, hpeers, -, hcell⟩
      · exact k.call hcall
      · refine ⟨(hs.operate hop).linked, fun mac q hq => ?_⟩
        obtain ⟨p, hp, rfl⟩ := Table.exists_lookup_of_follow hq
        rw [hcell, infos_effect]
        exact k.key_cell (hpeers ▸ hp)
  exact hinv.2

/-! ## Two lists -/

namespace Sample

/-- A list that says nothing about its origin. -/
def list (infos : List PeerInfo) : PeerInfoList := ⟨false, none, infos, typeList.toUInt32⟩

/-- A list that announces an origin and has none. -/
def orphan : PeerInfoList := ⟨true, none, [], typeList.toUInt32⟩

end Sample

open PeerRegistry.Sample

/-- Two peers, one of them pinged. -/
theorem registry_kept_pinged :
    ∃ reg : PeerRegistry, (reg.peers.lookup (peerInfo 1).key).isSome ∧ reg.Kept := by
  obtain ⟨reg, hrun, hreg⟩ := exists_of_passes
    (x := runEvents (operate noServices) registry
      [.call (adds 1), .call (adds 2), .ping 0 0 false []])
    (p := fun reg => (reg.peers.lookup (peerInfo 1).key).isSome) (by decide +kernel)
  exact ⟨reg, hreg, registry_kept (.of_runEvents (.init ⟨_, _, rfl⟩) hrun)⟩

/-- A list names peer 2 before peer 1 and peer 1 twice. -/
theorem list_sync_repeated :
    ∃ reg', handlePeerInfoList noServices 0 .stored registry
        (Sample.list [peerInfo 2, { peerInfo 1 with desc := [7] }, peerInfo 1]) false true =
          .ok (reg', .ok ()) ∧
      reg'.Lists [peerInfo 2, { peerInfo 1 with desc := [7] }, peerInfo 1] := by
  obtain ⟨reg', hok, hlists, -⟩ := (list_sync_iff noServices 0 .stored registry (kept_of_empty rfl)
    (Sample.list [peerInfo 2, { peerInfo 1 with desc := [7] }, peerInfo 1]) rfl false).mpr
    fun htrue => by cases htrue
  exact ⟨reg', hok, hlists⟩

/-- The origin is followed although there is none. -/
theorem list_sync_panics :
    handlePeerInfoList noServices 0 .stored registry orphan false true = .error .nilDereference := rfl

end N2nGo.PeerRegistry
