import N2nGo.Model.P2Viz

/-!
# Which pairs the topology shows

The keys of the graph are taken apart by splitting at the arrow and at the comma, and a piece
of a split never contains its separator. So the pairs come out as they went in exactly when
no description of an occurring pair contains an arrow or a comma. Building the graph never
fails, whatever the descriptions are.
-/

set_option autoImplicit false

namespace N2nGo.P2Viz

open N2nGo.Lib N2nGo.Messages

/-! ## Keys -/

theorem arrow_ne_nil : arrow ≠ [] := by decide

theorem comma_ne_nil : comma ≠ [] := by decide

theorem borderless_arrow : Borderless arrow := by
  intro i hpos hlt
  have hlen : arrow.length = 2 := by decide
  obtain rfl : i = 1 := by omega
  decide

theorem borderless_comma : Borderless comma := by
  intro i hpos hlt
  have hlen : comma.length = 1 := by decide
  omega

theorem comma_infix_iff (d : Bytes) : comma <:+: d ↔ 44 ∈ d := List.singleton_infix_iff 44 d

section FirstTwo

variable {sep key a b : Bytes} {err : String}

theorem firstTwo_of_infix (hsep : sep ≠ []) (h : sep <:+: key) :
    ∃ a b, firstTwo sep err key = .ok (a, b) := by
  obtain ⟨a, b, rest, hsplit⟩ := split_of_infix hsep h
  exact ⟨a, b, by rw [firstTwo, hsplit]⟩

theorem firstTwo_join (hsep : sep ≠ []) (hborder : Borderless sep) (ha : ¬ sep <:+: a)
    (hb : ¬ sep <:+: b) : firstTwo sep err (a ++ sep ++ b) = .ok (a, b) := by
  rw [firstTwo, split_append hsep hborder ha, split_of_not_infix hb]

theorem pieces_of_firstTwo (hsep : sep ≠ []) (h : firstTwo sep err key = .ok (a, b)) {p : Bytes}
    (hp : p = a ∨ p = b) : p <:+: key ∧ ¬ sep <:+: p := by
  unfold firstTwo at h
  split at h
  · next x y rest hsplit =>
    cases h
    have hmem : p ∈ split sep key := by
      rw [hsplit]
      rcases hp with rfl | rfl
      · exact List.mem_cons_self
      · exact List.mem_cons_of_mem _ List.mem_cons_self
    exact ⟨infix_of_mem_split hsep hmem, not_infix_of_mem_split hsep hmem⟩
  · cases h

end FirstTwo

theorem newPeerPairKey_of_le {a b : Bytes} (h : byteLe a b = true) :
    newPeerPairKey a b = a ++ comma ++ b ∧ newPeerPairKey b a = a ++ comma ++ b := by
  unfold newPeerPairKey
  refine ⟨?_, if_neg (by rw [h]; exact Bool.noConfusion)⟩
  split
  · rfl
  · next hba =>
    rw [Bool.not_eq_false] at hba
    rw [List.le_antisymm (byteLe_iff.mp h) (byteLe_iff.mp hba)]

theorem exists_newPeerPairKey (f t : Bytes) :
    ∃ a b, byteLe a b = true ∧ (a = f ∧ b = t ∨ a = t ∧ b = f) ∧
      newPeerPairKey f t = a ++ comma ++ b := by
  rcases (List.le_total f t).imp byteLe_iff.mpr byteLe_iff.mpr with h | h
  · exact ⟨f, t, h, Or.inl ⟨rfl, rfl⟩, (newPeerPairKey_of_le h).1⟩
  · exact ⟨t, f, h, Or.inr ⟨rfl, rfl⟩, (newPeerPairKey_of_le h).2⟩

theorem toPeerPairKey_eq_ok_iff {key k : Bytes} :
    toPeerPairKey key = .ok k ↔
      ∃ f t, getDirectedPeers key = .ok (f, t) ∧ newPeerPairKey f t = k := by
  unfold toPeerPairKey
  cases getDirectedPeers key with
  | error e => simp
  | ok peers =>
    obtain ⟨f, t⟩ := peers
    simp

/-! ## What the loops build -/

/-- Peer `f` reports about peer `t`. -/
def Occurs (peerInfos : Table Bytes PeerP2PInfos) (f t : Bytes) : Prop :=
  ∃ peerInfo ∈ peerInfos.values, fromDesc peerInfo = f ∧
    ∃ toPeer ∈ peerInfo.toPeers, toPeer.desc = t

section Connections

variable {data : Table Bytes ConnectionInfo} {k : Bytes} {info : ConnectionInfo}

/-- An entry of the loop over what `f` reports about. -/
theorem lookup_foldl_connections {f : Bytes} {peers : List PeerInfo}
    (h : (peers.foldl (fun data toPeer => data.insert (newPeerDirectedPairKey f toPeer.desc)
      ⟨.unknown, f, toPeer.desc⟩) data).lookup k = some info) :
    data.lookup k = some info ∨
      ∃ p ∈ peers, k = newPeerDirectedPairKey f p.desc ∧ info = ⟨.unknown, f, p.desc⟩ := by
  induction peers generalizing data with
  | nil => exact Or.inl h
  | cons p peers ih =>
    rcases ih h with hlook | ⟨q, hq, hk⟩
    · rw [Table.lookup_insert_if] at hlook
      split at hlook
      · next hk =>
        cases hlook
        exact Or.inr ⟨p, List.mem_cons_self, hk, rfl⟩
      · exact Or.inl hlook
    · exact Or.inr ⟨q, List.mem_cons_of_mem _ hq, hk⟩

theorem mem_foldl_connections {f : Bytes} {peers : List PeerInfo} :
    k ∈ peers.foldl (fun data toPeer => data.insert (newPeerDirectedPairKey f toPeer.desc)
        (⟨.unknown, f, toPeer.desc⟩ : ConnectionInfo)) data ↔
      k ∈ data ∨ ∃ p ∈ peers, k = newPeerDirectedPairKey f p.desc := by
  induction peers generalizing data with
  | nil => simp
  | cons p peers ih =>
    rw [List.foldl_cons, ih, AList.mem_insert, List.exists_mem_cons_iff, or_comm (b := k ∈ data),
      or_assoc]

theorem lookup_connectionData {infos : List PeerP2PInfos}
    (h : (infos.foldl addConnections data).lookup k = some info) :
    data.lookup k = some info ∨ ∃ peerInfo ∈ infos, ∃ p ∈ peerInfo.toPeers,
      k = newPeerDirectedPairKey (fromDesc peerInfo) p.desc ∧
        info = ⟨.unknown, fromDesc peerInfo, p.desc⟩ := by
  induction infos generalizing data with
  | nil => exact Or.inl h
  | cons i infos ih =>
    rcases ih h with hlook | ⟨j, hj, hk⟩
    · rcases lookup_foldl_connections hlook with hlook | hk
      · exact Or.inl hlook
      · exact Or.inr ⟨i, List.mem_cons_self, hk⟩
    · exact Or.inr ⟨j, List.mem_cons_of_mem _ hj, hk⟩

theorem mem_connectionData {infos : List PeerP2PInfos} :
    k ∈ infos.foldl addConnections data ↔ k ∈ data ∨ ∃ peerInfo ∈ infos, ∃ p ∈ peerInfo.toPeers,
      k = newPeerDirectedPairKey (fromDesc peerInfo) p.desc := by
  induction infos generalizing data with
  | nil => simp
  | cons i infos ih =>
    rw [List.foldl_cons, ih, addConnections, mem_foldl_connections, List.exists_mem_cons_iff,
      or_assoc]

end Connections

/-- A loop whose entries can all be made ends with a table of them. -/
theorem fill_ok {V : Type} {entry : Bytes → Except Bytes (Bytes × V)} {keys : List Bytes}
    (h : ∀ key ∈ keys, ∃ k v, entry key = .ok (k, v)) (t : Table Bytes V) :
    ∃ t', fill entry keys t = .ok t' ∧
      (∀ k, k ∈ t' ↔ k ∈ t ∨ ∃ key ∈ keys, ∃ v, entry key = .ok (k, v)) ∧
      ∀ k v, t'.lookup k = some v → t.lookup k = some v ∨ ∃ key ∈ keys, entry key = .ok (k, v) := by
  induction keys generalizing t with
  | nil => exact ⟨t, rfl, by simp, fun k v hlook => Or.inl hlook⟩
  | cons key keys ih =>
    obtain ⟨k0, v0, hentry⟩ := h key List.mem_cons_self
    obtain ⟨t', hfill, hmem, hlookup⟩ :=
      ih (fun key hkey => h key (List.mem_cons_of_mem _ hkey)) (t.insert k0 v0)
    refine ⟨t', by rw [fill, hentry]; exact hfill, fun k => ?_, fun k v hlook => ?_⟩
    · have hfirst : (∃ v, entry key = .ok (k, v)) ↔ k = k0 := by
        rw [hentry]
        simp [eq_comm]
      rw [hmem k, AList.mem_insert, List.exists_mem_cons_iff, hfirst, or_comm (b := k ∈ t),
        or_assoc]
    · rcases hlookup k v hlook with hlook | ⟨key', hkey', heq⟩
      · rw [Table.lookup_insert_if] at hlook
        split at hlook
        · next hk =>
          cases hlook
          exact Or.inr ⟨key, List.mem_cons_self, by rw [hentry, hk]⟩
        · exact Or.inl hlook
      · exact Or.inr ⟨key', List.mem_cons_of_mem _ hkey', heq⟩

theorem pairEntry_eq_ok_iff {c k : Bytes} {v : Bool} :
    pairEntry c = .ok (k, v) ↔ toPeerPairKey c = .ok k ∧ v = true := by
  unfold pairEntry
  cases toPeerPairKey c with
  | error e => simp
  | ok pairKey => simp [eq_comm]

theorem stateEntry_eq_ok_iff {data : Table Bytes ConnectionInfo} {key k : Bytes}
    {v : ConnectionType} :
    stateEntry data key = .ok (k, v) ↔
      ∃ a b, getPeers key = .ok (a, b) ∧ k = key ∧ v = getConnectionType a b data := by
  unfold stateEntry
  cases getPeers key with
  | error e => simp
  | ok peers =>
    obtain ⟨a, b⟩ := peers
    simp [eq_comm]

section Built

variable (byPeer byConn byPair : MapOrder) (peerInfos : Table Bytes PeerP2PInfos)

theorem mem_connections (k : Bytes) :
    k ∈ connections byPeer peerInfos ↔
      ∃ f t, Occurs peerInfos f t ∧ k = newPeerDirectedPairKey f t := by
  rw [connections, mem_connectionData]
  constructor
  · rintro (hmem | ⟨peerInfo, hinfo, p, hp, rfl⟩)
    · exact absurd hmem (AList.notMem_empty k)
    · exact ⟨_, _, ⟨peerInfo, (byPeer.mem_visit _ _).mp hinfo, rfl, p, hp, rfl⟩, rfl⟩
  · rintro ⟨f, t, ⟨peerInfo, hinfo, rfl, p, hp, rfl⟩, rfl⟩
    exact Or.inr ⟨peerInfo, (byPeer.mem_visit _ _).mpr hinfo, p, hp, rfl⟩

theorem lookup_connections {k : Bytes} {info : ConnectionInfo}
    (h : (connections byPeer peerInfos).lookup k = some info) :
    ∃ f t, Occurs peerInfos f t ∧ k = newPeerDirectedPairKey f t ∧ info = ⟨.unknown, f, t⟩ := by
  rcases lookup_connectionData h with hlook | ⟨peerInfo, hinfo, p, hp, hk⟩
  · rw [AList.lookup_empty] at hlook
    cases hlook
  · exact ⟨_, _, ⟨peerInfo, (byPeer.mem_visit _ _).mp hinfo, rfl, p, hp, rfl⟩, hk⟩

/-- Every directed key has an arrow in it, so that it can be taken apart. -/
theorem exists_pairEntry {c : Bytes} (hc : c ∈ connections byPeer peerInfos) :
    ∃ k v, pairEntry c = .ok (k, v) := by
  obtain ⟨f, t, -, rfl⟩ := (mem_connections byPeer peerInfos c).mp hc
  have harrow : arrow <:+: newPeerDirectedPairKey f t := ⟨f, t, rfl⟩
  have hpeers : ∃ a b, getDirectedPeers (newPeerDirectedPairKey f t) = .ok (a, b) :=
    firstTwo_of_infix arrow_ne_nil harrow
  obtain ⟨a, b, hpeers⟩ := hpeers
  exact ⟨newPeerPairKey a b, true, pairEntry_eq_ok_iff.mpr
    ⟨toPeerPairKey_eq_ok_iff.mpr ⟨a, b, hpeers, rfl⟩, rfl⟩⟩

theorem exists_getPeers {c k : Bytes} (h : toPeerPairKey c = .ok k) :
    ∃ a b, getPeers k = .ok (a, b) := by
  obtain ⟨f, t, -, rfl⟩ := toPeerPairKey_eq_ok_iff.mp h
  obtain ⟨a, b, -, -, hkey⟩ := exists_newPeerPairKey f t
  have hcomma : comma <:+: newPeerPairKey f t := ⟨a, b, hkey.symm⟩
  exact firstTwo_of_infix comma_ne_nil hcomma

/-- What the maps of the graph hold. -/
structure Built (viz : CommunityP2PVizDatas) : Prop where
  connectionData : viz.connectionData = connections byPeer peerInfos
  pairs : ∀ k, k ∈ viz.peerPairs ↔ ∃ c ∈ connections byPeer peerInfos, toPeerPairKey c = .ok k
  states : ∀ k ∈ viz.peerPairs, ∀ a b, getPeers k = .ok (a, b) →
    viz.p2pStates.lookup k = some (getConnectionType a b viz.connectionData)

/-- **Building the graph never fails.** -/
theorem newCommunityP2PVizDatas_built (community : Bytes) :
    ∃ viz, newCommunityP2PVizDatas byPeer byConn byPair community peerInfos = .ok viz ∧
      Built byPeer peerInfos viz := by
  have hentries : ∀ c ∈ byConn.visit (connections byPeer peerInfos).keys,
      ∃ k v, pairEntry c = .ok (k, v) := fun c hc =>
    exists_pairEntry byPeer peerInfos (AList.mem_keys.mpr ((byConn.mem_visit _ _).mp hc))
  obtain ⟨pairs, hpairs, hmem, -⟩ := fill_ok hentries ∅
  have hpair : ∀ k, k ∈ pairs ↔
      ∃ c ∈ connections byPeer peerInfos, toPeerPairKey c = .ok k := by
    intro k
    rw [hmem k]
    constructor
    · rintro (hempty | ⟨c, hc, v, heq⟩)
      · exact absurd hempty (AList.notMem_empty k)
      · exact ⟨c, AList.mem_keys.mpr ((byConn.mem_visit _ _).mp hc), (pairEntry_eq_ok_iff.mp heq).1⟩
    · rintro ⟨c, hc, hk⟩
      exact Or.inr ⟨c, (byConn.mem_visit _ _).mpr (AList.mem_keys.mp hc), true,
        pairEntry_eq_ok_iff.mpr ⟨hk, rfl⟩⟩
  have hget : ∀ k ∈ byPair.visit pairs.keys, ∃ k' v,
      stateEntry (connections byPeer peerInfos) k = .ok (k', v) := by
    intro k hk
    obtain ⟨c, -, hck⟩ := (hpair k).mp (AList.mem_keys.mpr ((byPair.mem_visit _ _).mp hk))
    obtain ⟨a, b, hpeers⟩ := exists_getPeers hck
    exact ⟨k, _, stateEntry_eq_ok_iff.mpr ⟨a, b, hpeers, rfl, rfl⟩⟩
  obtain ⟨states, hstates, hstateMem, hstateLookup⟩ := fill_ok hget ∅
  have hviz : newCommunityP2PVizDatas byPeer byConn byPair community peerInfos =
      .ok ⟨community, (byPeer.visit peerInfos.values).foldl
        (fun t peerInfo => t.insert (fromDesc peerInfo) (fromVIP peerInfo)) ∅,
        peerInfos, connections byPeer peerInfos, pairs, states⟩ := by
    unfold newCommunityP2PVizDatas
    simp only [hpairs, hstates]
  refine ⟨_, hviz, rfl, hpair, fun k hk a b hpeers => ?_⟩
  have hvisit := (byPair.mem_visit _ _).mpr (AList.mem_keys.mp hk)
  have hmem : k ∈ states := (hstateMem k).mpr
    (Or.inr ⟨k, hvisit, _, stateEntry_eq_ok_iff.mpr ⟨a, b, hpeers, rfl, rfl⟩⟩)
  obtain ⟨v, hv⟩ := Table.exists_lookup_of_mem hmem
  rcases hstateLookup k v hv with hlook | ⟨k', -, heq⟩
  · rw [AList.lookup_empty] at hlook
    cases hlook
  · obtain ⟨a', b', hpeers', rfl, rfl⟩ := stateEntry_eq_ok_iff.mp heq
    rw [hpeers] at hpeers'
    cases hpeers'
    exact hv

end Built

/-! ## Faithful pairs -/

/-- A description without the separators. -/
def Plain (d : Bytes) : Prop := ¬ arrow <:+: d ∧ ¬ comma <:+: d

/-- One of the two reports about the other. -/
def Paired (peerInfos : Table Bytes PeerP2PInfos) (a b : Bytes) : Prop :=
  Occurs peerInfos a b ∨ Occurs peerInfos b a

/-- What a lookup of the direction from `a` to `b` should find. -/
def Directed (peerInfos : Table Bytes PeerP2PInfos) (viz : CommunityP2PVizDatas) (a b : Bytes) :
    Prop :=
  ∀ info, viz.connectionData.lookup (newPeerDirectedPairKey a b) = some info ↔
    Occurs peerInfos a b ∧ info = ⟨.unknown, a, b⟩

/-- One entry for each unordered pair that occurs, from which its key gives the two
descriptions in ascending order; and the state of the pair comes from its two directions. -/
structure Faithful (peerInfos : Table Bytes PeerP2PInfos) (viz : CommunityP2PVizDatas) : Prop where
  entry : ∀ a b, Paired peerInfos a b → byteLe a b = true →
    ∃! k, k ∈ viz.peerPairs ∧ getPeers k = .ok (a, b)
  only : ∀ k ∈ viz.peerPairs, ∃ a b, Paired peerInfos a b ∧ byteLe a b = true ∧
    getPeers k = .ok (a, b)
  directions : ∀ k ∈ viz.peerPairs, ∀ a b, getPeers k = .ok (a, b) →
    viz.p2pStates.lookup k = some (getConnectionType a b viz.connectionData) ∧
      Directed peerInfos viz a b ∧ Directed peerInfos viz b a

section Faithful

variable {byPeer : MapOrder} {peerInfos : Table Bytes PeerP2PInfos} {viz : CommunityP2PVizDatas}

theorem getDirectedPeers_of_plain {f t : Bytes} (hf : Plain f) (ht : Plain t) :
    getDirectedPeers (newPeerDirectedPairKey f t) = .ok (f, t) :=
  firstTwo_join arrow_ne_nil borderless_arrow hf.1 ht.1

theorem getPeers_of_plain {a b : Bytes} (ha : Plain a) (hb : Plain b) :
    getPeers (a ++ comma ++ b) = .ok (a, b) :=
  firstTwo_join comma_ne_nil borderless_comma ha.2 hb.2

theorem Built.mem_peerPairs (h : Built byPeer peerInfos viz)
    (hplain : ∀ f t, Occurs peerInfos f t → Plain f ∧ Plain t) (k : Bytes) :
    k ∈ viz.peerPairs ↔
      ∃ a b, Paired peerInfos a b ∧ byteLe a b = true ∧ k = a ++ comma ++ b := by
  rw [h.pairs k]
  constructor
  · rintro ⟨c, hc, hk⟩
    obtain ⟨f, t, hoccurs, rfl⟩ := (mem_connections byPeer peerInfos c).mp hc
    obtain ⟨f', t', hpeers, rfl⟩ := toPeerPairKey_eq_ok_iff.mp hk
    obtain ⟨hf, ht⟩ := hplain f t hoccurs
    rw [getDirectedPeers_of_plain hf ht] at hpeers
    cases hpeers
    obtain ⟨a, b, hle, hab, hkey⟩ := exists_newPeerPairKey f t
    refine ⟨a, b, ?_, hle, hkey⟩
    rcases hab with ⟨rfl, rfl⟩ | ⟨rfl, rfl⟩
    · exact Or.inl hoccurs
    · exact Or.inr hoccurs
  · rintro ⟨a, b, hpaired, hle, rfl⟩
    obtain ⟨hkey, hkey'⟩ := newPeerPairKey_of_le hle
    rcases hpaired with hoccurs | hoccurs
    · obtain ⟨hf, ht⟩ := hplain _ _ hoccurs
      exact ⟨_, (mem_connections byPeer peerInfos _).mpr ⟨a, b, hoccurs, rfl⟩,
        toPeerPairKey_eq_ok_iff.mpr ⟨a, b, getDirectedPeers_of_plain hf ht, hkey⟩⟩
    · obtain ⟨hf, ht⟩ := hplain _ _ hoccurs
      exact ⟨_, (mem_connections byPeer peerInfos _).mpr ⟨b, a, hoccurs, rfl⟩,
        toPeerPairKey_eq_ok_iff.mpr ⟨b, a, getDirectedPeers_of_plain hf ht, hkey'⟩⟩

theorem plain_of_paired (hplain : ∀ f t, Occurs peerInfos f t → Plain f ∧ Plain t) {a b : Bytes}
    (h : Paired peerInfos a b) : Plain a ∧ Plain b := by
  rcases h with hoccurs | hoccurs
  · exact hplain a b hoccurs
  · exact (hplain b a hoccurs).symm

theorem Built.directed (h : Built byPeer peerInfos viz)
    (hplain : ∀ f t, Occurs peerInfos f t → Plain f ∧ Plain t) {a b : Bytes} (ha : Plain a)
    (hb : Plain b) : Directed peerInfos viz a b := by
  intro info
  rw [h.connectionData]
  constructor
  · intro hlook
    obtain ⟨f, t, hoccurs, hkey, hinfo⟩ := lookup_connections byPeer peerInfos hlook
    obtain ⟨hf, ht⟩ := hplain f t hoccurs
    -- the key of plain descriptions gives them back, so it belongs to one direction only
    have hpeers := getDirectedPeers_of_plain ha hb
    rw [hkey, getDirectedPeers_of_plain hf ht] at hpeers
    cases hpeers
    exact ⟨hoccurs, hinfo⟩
  · rintro ⟨hoccurs, rfl⟩
    have hmem := (mem_connections byPeer peerInfos _).mpr ⟨a, b, hoccurs, rfl⟩
    obtain ⟨info, hlook⟩ := Table.exists_lookup_of_mem hmem
    obtain ⟨f, t, hoccurs', hkey, rfl⟩ := lookup_connections byPeer peerInfos hlook
    obtain ⟨hf, ht⟩ := hplain f t hoccurs'
    have hpeers := getDirectedPeers_of_plain ha hb
    rw [hkey, getDirectedPeers_of_plain hf ht] at hpeers
    cases hpeers
    exact hlook

theorem Built.faithful (h : Built byPeer peerInfos viz)
    (hplain : ∀ f t, Occurs peerInfos f t → Plain f ∧ Plain t) : Faithful peerInfos viz := by
  have hmem := h.mem_peerPairs hplain
  have hget : ∀ {a b : Bytes}, Paired peerInfos a b → getPeers (a ++ comma ++ b) = .ok (a, b) := by
    intro a b hpaired
    obtain ⟨ha, hb⟩ := plain_of_paired hplain hpaired
    exact getPeers_of_plain ha hb
  refine ⟨fun a b hpaired hle => ⟨a ++ comma ++ b, ⟨(hmem _).mpr ⟨a, b, hpaired, hle, rfl⟩,
    hget hpaired⟩, ?_⟩, fun k hk => ?_, fun k hk a b hpeers => ⟨h.states k hk a b hpeers, ?_⟩⟩
  · rintro k ⟨hk, hpeers⟩
    obtain ⟨a', b', hpaired', -, rfl⟩ := (hmem k).mp hk
    rw [hget hpaired'] at hpeers
    cases hpeers
    rfl
  · obtain ⟨a, b, hpaired, hle, rfl⟩ := (hmem k).mp hk
    exact ⟨a, b, hpaired, hle, hget hpaired⟩
  · obtain ⟨a', b', hpaired, -, rfl⟩ := (hmem k).mp hk
    rw [hget hpaired] at hpeers
    cases hpeers
    obtain ⟨ha, hb⟩ := plain_of_paired hplain hpaired
    exact ⟨h.directed hplain ha hb, h.directed hplain hb ha⟩

theorem Built.plain_of_getPeers (h : Built byPeer peerInfos viz) {k a b : Bytes}
    (hk : k ∈ viz.peerPairs) (hpeers : getPeers k = .ok (a, b)) : Plain a ∧ Plain b := by
  obtain ⟨c, hc, hck⟩ := (h.pairs k).mp hk
  obtain ⟨f, t, hdirected, hkey⟩ := toPeerPairKey_eq_ok_iff.mp hck
  obtain ⟨x, y, -, hxy, hjoin⟩ := exists_newPeerPairKey f t
  have harrow : ∀ d, d = x ∨ d = y → ¬ arrow <:+: d := by
    intro d hd
    refine (pieces_of_firstTwo arrow_ne_nil hdirected ?_).2
    rcases hxy with ⟨rfl, rfl⟩ | ⟨rfl, rfl⟩
    · exact hd
    · exact hd.symm
  have hpiece : ∀ p, p = a ∨ p = b → Plain p := by
    intro p hp
    obtain ⟨hpart, hcomma⟩ := pieces_of_firstTwo comma_ne_nil hpeers hp
    refine ⟨fun hbad => ?_, hcomma⟩
    -- the piece lies on one side of the comma, in a piece of the directed key
    rw [← hkey, hjoin, List.append_assoc] at hpart
    rcases infix_of_infix_append_cons hpart (mt (comma_infix_iff p).mpr hcomma) with hx | hy
    · exact harrow x (Or.inl rfl) (hbad.trans hx)
    · exact harrow y (Or.inr rfl) (hbad.trans hy)
  exact ⟨hpiece a (Or.inl rfl), hpiece b (Or.inr rfl)⟩

end Faithful

/-- **The graph shows the pairs that occur exactly if no description in them contains an
arrow or a comma.**
GOLINE: p2p/p2viz.go:115-161, 172-241 -/
theorem peerPairs_faithful_iff (byPeer byConn byPair : MapOrder) (community : Bytes)
    (peerInfos : Table Bytes PeerP2PInfos) :
    (∃ viz, newCommunityP2PVizDatas byPeer byConn byPair community peerInfos = .ok viz ∧
      Faithful peerInfos viz) ↔
      ∀ f t, Occurs peerInfos f t → Plain f ∧ Plain t := by
  obtain ⟨viz, hviz, hbuilt⟩ :=
    newCommunityP2PVizDatas_built byPeer byConn byPair peerInfos community
  constructor
  · rintro ⟨viz', hviz', hfaithful⟩ f t hoccurs
    rw [hviz] at hviz'
    cases hviz'
    rcases (List.le_total f t).imp byteLe_iff.mpr byteLe_iff.mpr with hle | hle
    · obtain ⟨k, ⟨hk, hpeers⟩, -⟩ := hfaithful.entry f t (Or.inl hoccurs) hle
      exact hbuilt.plain_of_getPeers hk hpeers
    · obtain ⟨k, ⟨hk, hpeers⟩, -⟩ := hfaithful.entry t f (Or.inr hoccurs) hle
      exact (hbuilt.plain_of_getPeers hk hpeers).symm
  · intro hplain
    exact ⟨viz, hviz, hbuilt.faithful hplain⟩

/-- One peer that reports about one other. -/
def oneReport (f t : String) : Table Bytes PeerP2PInfos :=
  AList.singleton [] ⟨some ⟨[], [], [], [], ascii f⟩, [⟨[], [], [], [], ascii t⟩]⟩

/-- The keys of the graph, each with what it gives back. -/
def shown (peerInfos : Table Bytes PeerP2PInfos) : List (Bytes × Bytes × Bytes) :=
  match newCommunityP2PVizDatas .stored .stored .stored [] peerInfos with
  | .error _ => []
  | .ok viz => viz.peerPairs.keys.filterMap fun k =>
      match getPeers k with
      | .error _ => none
      | .ok (peerA, peerB) => some (k, peerA, peerB)

/-- The pair of `office, 2nd floor` and `srv` gives back the two halves of the first, and the
pair of `a->b` and `c` is stored as the pair of `a` and `b`. -/
theorem peerPairs_not_faithful :
    shown (oneReport "office, 2nd floor" "srv") =
        [(ascii "office, 2nd floor,srv", ascii "office", ascii " 2nd floor")] ∧
      shown (oneReport "a->b" "c") = [(ascii "a,b", ascii "a", ascii "b")] := by
  decide +kernel

end N2nGo.P2Viz
