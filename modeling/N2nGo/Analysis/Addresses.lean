import N2nGo.Analysis.Leases

/-!
# Virtual addresses

`EdgeUpdate` asks the pool of the community for an address, always for a sticky lease, and
nothing gives a lease back. With a pool that lends no address twice, a MAC therefore has one
address in a network for good: two members never share one (`addresses_unique`), and an edge
that comes back gets the one it had (`address_returns`).
-/

set_option autoImplicit false

namespace N2nGo

open N2nGo.Lib N2nGo.Protocol N2nGo.Messages

namespace IPPool

/-- The address is leased to the MAC. -/
def Lends (pool : IPPool) (mac : Bytes) (a : Net.Addr) : Prop :=
  ∃ lease, pool.leases.lookup mac = some lease ∧ Net.parseAddr (Net.ipString lease.ip) = some a

/-- No address is leased to two MACs. -/
def Exclusive (pool : IPPool) : Prop :=
  ∀ mac mac' a, pool.Lends mac a → pool.Lends mac' a → mac = mac'

theorem Lends.unique {pool : IPPool} {mac : Bytes} {a a' : Net.Addr} (h : pool.Lends mac a)
    (h' : pool.Lends mac a') : a = a' := by
  obtain ⟨lease, hlease, ha⟩ := h
  obtain ⟨lease', hlease', ha'⟩ := h'
  rw [hlease] at hlease'
  cases hlease'
  exact Option.some.inj (ha.symm.trans ha')

end IPPool

namespace Supernode

/-- The `ippool` package, as far as sticky leases go: a request leases what it returns, keeps
every lease there is, and leases no address twice. -/
structure LendsOnce (P : Platform) : Prop where
  newIPPool : ∀ cidr pool, P.newIPPool cidr = some pool → pool.leases = ∅
  granted : ∀ pool mac now ip a, (P.requestIP pool mac true now).1 = some ip →
    Net.parseAddr (Net.ipString ip) = some a → (P.requestIP pool mac true now).2.Lends mac a
  kept : ∀ pool mac now mac' a, pool.Lends mac' a → (P.requestIP pool mac true now).2.Lends mac' a
  exclusive : ∀ pool mac now, pool.Exclusive → (P.requestIP pool mac true now).2.Exclusive

/-- Every pool is exclusive, and every member has the address that the pool of its community
leases to it. -/
structure Leased (s : Supernode) : Prop where
  pool_lt : ∀ {hash cm}, s.communities.lookup hash = some cm → (s.cms.cell cm).ips < s.pools.next
  registered_lt : ∀ {cidr p}, s.registeredPools.lookup cidr = some p → p < s.pools.next
  exclusive : ∀ {p}, p < s.pools.next → (s.pools.cell p).Exclusive
  lends : ∀ {cm mac ref}, s.registry.Listed cm mac ref →
    (s.poolOf cm).Lends mac (s.edges.cell ref).virtualIP

/-- No lease is lost. -/
def KeepsLeases (s s' : Supernode) : Prop :=
  s.pools.Extends (fun pool pool' => ∀ mac a, pool.Lends mac a → pool'.Lends mac a)
    (fun _ => True) s'.pools

section

variable {P : Platform} {env : Env} {s s' : Supernode} {cm : CommunityRef} {mac : Bytes}
  {hash : UInt32} {out : List Sent}

theorem keepsLeases_of_eq (h : s'.pools = s.pools) : KeepsLeases s s' := by
  unfold KeepsLeases
  rw [h]
  exact .refl (fun _ _ _ h => h) _

theorem KeepsLeases.trans {s1 : Supernode} (h : KeepsLeases s s1) (h' : KeepsLeases s1 s') :
    KeepsLeases s s' :=
  Heap.Extends.trans (fun _ _ _ hab hbc mac a h => hbc mac a (hab mac a h)) (fun _ _ _ _ => trivial)
    h h'

/-! ## Steps that lease nothing -/

/-- Pools and addresses stay as they are, and nobody joins. -/
structure Steady (s s' : Supernode) : Prop where
  communities : s'.communities = s.communities
  pools : s'.pools = s.pools
  registeredPools : s'.registeredPools = s.registeredPools
  ips : ∀ cm, (s'.cms.cell cm).ips = (s.cms.cell cm).ips
  listed : ∀ {cm mac ref}, s'.registry.Listed cm mac ref → s.registry.Listed cm mac ref
  virtualIP : ∀ ref, (s'.edges.cell ref).virtualIP = (s.edges.cell ref).virtualIP

theorem Steady.trans {s1 : Supernode} (h : Steady s s1) (h' : Steady s1 s') : Steady s s' where
  communities := h'.communities.trans h.communities
  pools := h'.pools.trans h.pools
  registeredPools := h'.registeredPools.trans h.registeredPools
  ips cm := (h'.ips cm).trans (h.ips cm)
  listed hl := h.listed (h'.listed hl)
  virtualIP ref := (h'.virtualIP ref).trans (h.virtualIP ref)

theorem steady_count (s : Supernode) (f : SupernodeStats → SupernodeStats) : Steady s (s.count f) :=
  ⟨rfl, rfl, rfl, fun _ => rfl, id, fun _ => rfl⟩

theorem steady_withRecord {ref : EdgeRef} {edge : Edge}
    (h : edge.virtualIP = (s.edges.cell ref).virtualIP) : Steady s (s.withRecord ref edge) := by
  refine ⟨rfl, rfl, rfl, fun _ => rfl, id, fun ref' => ?_⟩
  unfold withRecord
  rw [Heap.cell_store]
  split
  · next heq => rw [heq, h]
  · rfl

theorem ips_store {c : Community} (h : c.ips = (s.cms.cell cm).ips) (cm' : CommunityRef) :
    ((s.cms.store cm c).cell cm').ips = (s.cms.cell cm').ips := by
  rw [Heap.cell_store]
  split
  · next heq => rw [heq, h]
  · rfl

theorem Idle.steady (h : Idle s s') : Steady s s' := by
  have hregistry := h.registry_eq
  cases h with
  | count f => exact steady_count s f
  | report infos _ =>
    exact ⟨rfl, rfl, rfl, ips_store rfl, fun hl => by rwa [hregistry] at hl, fun _ => rfl⟩

theorem steady_removed {s1 : Supernode} {pil : PeerInfoList}
    (hun : unregister env s cm mac = (s1, true)) (hunindex : s1.unindexEdge mac = .ok (s', pil)) :
    Steady s s' := by
  obtain ⟨-, -, hleave⟩ := registry_removed hun hunindex
  have hlisted : ∀ {cm mac ref}, s'.registry.Listed cm mac ref → s.registry.Listed cm mac ref := by
    intro cm mac ref hl
    rw [hleave] at hl
    exact (Registry.listed_expel.mp (Registry.listed_unindex.mp hl)).1
  obtain ⟨ref, -, hunindex⟩ := bind_eq_ok.mp hunindex
  cases hunindex
  unfold unregister at hun
  simp only at hun
  split at hun
  · cases hun
  · cases hun
    exact ⟨rfl, rfl, rfl, ips_store rfl, hlisted, fun _ => rfl⟩

theorem steady_cleanupStaleEdges (h : cleanupStaleEdges P env s = .ok (s', out)) : Steady s s' := by
  obtain ⟨⟨s1, out1⟩, hloop, h⟩ := bind_eq_ok.mp h
  cases h
  refine Steady.trans (cleanupLoop_induction (I := fun s1 _ => Steady s s1) ?_ hloop
    (steady_count s id)) (steady_count _ _)
  intro s1 s2 s3 out cm mac pil f _ hsteady hun hunindex
  exact (hsteady.trans (steady_removed hun hunindex)).trans (steady_count _ f)

theorem steady_indexed (s : Supernode) (ref : EdgeRef) (addr : NetAddr) :
    Steady s ((s.setWSSConnID ref addr).indexEdge ref) := by
  have hconn : Steady s (s.setWSSConnID ref addr) := by
    cases addr with
    | wss connID => exact steady_withRecord rfl
    | udp a => exact steady_count s id
  exact hconn.trans ⟨rfl, rfl, rfl, fun _ => rfl, id, fun _ => rfl⟩

theorem Leased.steady (o : Leased s) (h : Steady s s') : Leased s' := by
  refine ⟨fun hcm => ?_, fun hp => ?_, fun hp => ?_, fun {cm mac ref} hl => ?_⟩
  · rw [h.communities] at hcm
    rw [h.ips, h.pools]
    exact o.pool_lt hcm
  · rw [h.registeredPools] at hp
    rw [h.pools]
    exact o.registered_lt hp
  · rw [h.pools] at hp ⊢
    exact o.exclusive hp
  · unfold poolOf
    rw [h.pools, h.ips, h.virtualIP]
    exact o.lends (h.listed hl)

/-! ## Registrations -/

theorem Leased.poolFor (hP : LendsOnce P) (o : Leased s) {cidr : Bytes} {ips : ℕ}
    (h : poolFor P s cidr = some (s', ips)) :
    Leased s' ∧ KeepsLeases s s' ∧ ips < s'.pools.next := by
  rcases poolFor_eq_some h with ⟨rfl, hold⟩ | ⟨pool, -, hnew, rfl, rfl⟩
  · exact ⟨o, keepsLeases_of_eq rfl, o.registered_lt hold⟩
  have hcell : ∀ p, p < s.pools.next → (s.pools.alloc pool).cell p = s.pools.cell p :=
    fun p hp => (Heap.cell_alloc ..).trans (if_neg (Nat.ne_of_lt hp))
  refine ⟨⟨fun hcm => ?_, fun {cidr' p} hp => ?_, fun {p} hp => ?_, fun {cm mac ref} hl => ?_⟩,
    .alloc (fun _ _ _ h => h) trivial, Nat.lt_succ_self _⟩
  · exact Nat.lt_succ_of_lt (o.pool_lt hcm)
  · rw [Table.lookup_insert_if] at hp
    split at hp
    · cases hp
      exact Nat.lt_succ_self _
    · exact Nat.lt_succ_of_lt (o.registered_lt hp)
  · rcases Nat.lt_succ_iff_lt_or_eq.mp hp with hp | rfl
    · show ((s.pools.alloc pool).cell p).Exclusive
      rw [hcell p hp]
      exact o.exclusive hp
    · show ((s.pools.alloc pool).cell s.pools.next).Exclusive
      rw [Heap.cell_alloc, if_pos rfl]
      rintro mac mac' a ⟨lease, hlease, -⟩
      rw [hP.newIPPool _ _ hnew] at hlease
      cases hlease
  · obtain ⟨hash, hcm⟩ := hl.1
    show ((s.pools.alloc pool).cell (s.cms.cell cm).ips).Lends mac _
    rw [hcell _ (o.pool_lt hcm)]
    exact o.lends hl

theorem Leased.withCommunity (o : Leased s) (v : s.registry.Valid hashCommunity) {name : Bytes}
    {subnet : Prefix} {ips : ℕ} (hfree : s.communities.lookup hash = none)
    (hips : ips < s.pools.next) :
    Leased (s.withCommunity hash (newCommunity name subnet ips)) := by
  have hcell : ∀ cm, (∃ hash, s.communities.lookup hash = some cm) →
      (s.withCommunity hash (newCommunity name subnet ips)).cms.cell cm = s.cms.cell cm := by
    rintro cm ⟨hash', hcm⟩
    exact (Heap.cell_alloc ..).trans (if_neg (Nat.ne_of_lt (v.group_lt hcm)))
  refine ⟨fun {hash' cm} hcm => ?_, o.registered_lt, o.exclusive, fun {cm mac ref} hl => ?_⟩
  · have hlook : (s.communities.insert hash s.cms.next).lookup hash' = some cm := hcm
    rw [Table.lookup_insert_if] at hlook
    split at hlook
    · cases hlook
      show ((s.cms.alloc _).cell s.cms.next).ips < _
      rw [Heap.cell_alloc, if_pos rfl]
      exact hips
    · rw [hcell cm ⟨hash', hlook⟩]
      exact o.pool_lt hlook
  · rw [registry_withCommunity, Registry.listed_create v hfree] at hl
    unfold poolOf
    rw [hcell cm hl.1]
    exact o.lends hl

theorem Leased.registerCommunity (hP : LendsOnce P) (o : Leased s)
    (v : s.registry.Valid hashCommunity) {name : Bytes} {res : Except Err CommunityRef}
    (h : registerCommunity P s name hash = .ok (s', res)) : Leased s' ∧ KeepsLeases s s' := by
  cases registerCommunity_found h with
  | failed e => exact ⟨o, keepsLeases_of_eq rfl⟩
  | existing _ _ _ => exact ⟨o, keepsLeases_of_eq rfl⟩
  | @created subnet s1 ips _ hfree _ hpool =>
    obtain ⟨o1, hkeeps, hips⟩ := o.poolFor hP hpool
    have hregistry := registry_poolFor hpool
    have v1 : s1.registry.Valid hashCommunity := by rwa [hregistry]
    have hfree1 : s1.registry.group hash = none := by rwa [hregistry]
    exact ⟨o1.withCommunity v1 hfree1 hips, hkeeps⟩

theorem Leased.withLease (hP : LendsOnce P) (o : Leased s)
    (hcm : s.communities.lookup hash = some cm) (env : Env) (mac : Bytes) :
    Leased (s.withLease P env cm mac) ∧ KeepsLeases s (s.withLease P env cm mac) := by
  have hkept : ∀ p mac' a, (s.pools.cell p).Lends mac' a →
      ((s.withLease P env cm mac).pools.cell p).Lends mac' a := by
    intro p mac' a hlends
    unfold Supernode.withLease
    rw [Heap.cell_store]
    split
    · next heq => exact hP.kept _ _ _ _ _ (heq ▸ hlends)
    · exact hlends
  refine ⟨⟨o.pool_lt, o.registered_lt, fun {p} hp => ?_, fun hl => hkept _ _ _ (o.lends hl)⟩,
    Nat.le_refl _, fun p _ => hkept p, fun _ _ _ => trivial⟩
  show ((s.pools.store _ _).cell p).Exclusive
  rw [Heap.cell_store]
  split
  · exact hP.exclusive _ _ _ (o.exclusive (o.pool_lt hcm))
  · exact o.exclusive hp

theorem Leased.withMember (o : Leased s) (v : s.registry.Valid hashCommunity) (env : Env)
    (edge : Edge) (hlends : (s.poolOf cm).Lends edge.macAddr edge.virtualIP) :
    Leased (s.withMember env cm edge) := by
  have hips : ∀ cm', ((s.withMember env cm edge).cms.cell cm').ips = (s.cms.cell cm').ips :=
    ips_store rfl
  refine ⟨fun hcm => by rw [hips]; exact o.pool_lt hcm, o.registered_lt, o.exclusive,
    fun {cm' mac ref} hl => ?_⟩
  have hrecord : (s.withMember env cm edge).edges.cell ref =
      if ref = s.registry.records then edge else s.edges.cell ref := Heap.cell_alloc ..
  have hl' : (s.registry.enroll cm edge).Listed cm' mac ref := by
    rwa [← registry_enroll s cm edge]
  unfold poolOf
  rw [hips, hrecord]
  rcases Registry.listed_enroll.mp hl' with ⟨rfl, rfl, -, rfl⟩ | ⟨-, hold⟩
  · rw [if_pos rfl]
    exact hlends
  · rw [if_neg (Nat.ne_of_lt (v.listed_lt hold))]
    exact o.lends hold

theorem Leased.edgeUpdate (hP : LendsOnce P) (o : Leased s) (v : s.registry.Valid hashCommunity)
    (hcm : s.communities.lookup hash = some cm) {regMsg : Message RegisterRequest}
    {res : Except Err EdgeRef} (h : edgeUpdate P env s cm regMsg = (s', res)) :
    Leased s' ∧ KeepsLeases s s' := by
  cases edgeUpdate_updated h with
  | noLease e _ _ => exact o.withLease hP hcm env _
  | @joined nvip vip _ hgranted hvip =>
    obtain ⟨o1, hkeeps⟩ := o.withLease hP hcm env regMsg.edgeMACAddr
    have hlends : ((s.withLease P env cm regMsg.edgeMACAddr).poolOf cm).Lends
        regMsg.edgeMACAddr vip := by
      unfold poolOf Supernode.withLease
      rw [Heap.cell_store_self]
      exact hP.granted _ _ _ _ _ hgranted hvip
    exact ⟨o1.withMember v env (newEdge env (s.cms.cell cm) regMsg vip) hlends, hkeeps⟩
  | mismatch e => exact ⟨o, keepsLeases_of_eq rfl⟩
  | rejoined _ => exact ⟨o.steady (steady_withRecord rfl), keepsLeases_of_eq rfl⟩

theorem Leased.registerEdge (hP : LendsOnce P) (o : Leased s) (v : s.registry.Valid hashCommunity)
    {reg : Message RegisterRequest} {res : Except Err (EdgeRef × CommunityRef)}
    (h : registerEdge P env s reg = .ok (s', res)) : Leased s' ∧ KeepsLeases s s' := by
  have hboth : ∀ {s0 s1 : Supernode} {cm : CommunityRef} {reg1 : Message RegisterRequest}
      {res1 : Except Err EdgeRef},
      Supernode.registerCommunity P s reg.msg.communityName reg.communityHash = .ok (s0, .ok cm) →
      Supernode.edgeUpdate P env s0 cm reg1 = (s1, res1) → Leased s1 ∧ KeepsLeases s s1 := by
    intro s0 s1 cm reg1 res1 hcommunity hup
    obtain ⟨o0, hkeeps⟩ := o.registerCommunity hP v hcommunity
    obtain ⟨v0, hcm⟩ := known_registerCommunity v hcommunity
    obtain ⟨o1, hkeeps1⟩ := o0.edgeUpdate hP v0 hcm hup
    exact ⟨o1, hkeeps.trans hkeeps1⟩
  cases registerEdge_registered h with
  | invalid e => exact ⟨o, keepsLeases_of_eq rfl⟩
  | noCommunity hcommunity => exact o.registerCommunity hP v hcommunity
  | noEdge _ hcommunity hup => exact hboth hcommunity hup
  | edge f _ hcommunity hup =>
    obtain ⟨o1, hkeeps⟩ := hboth hcommunity hup
    exact ⟨o1.steady (steady_count _ f), hkeeps⟩

/-! ## Runs -/

theorem Leased.step (hP : LendsOnce P) (o : Leased s) (v : s.registry.Valid hashCommunity)
    {ev : Event} (h : step P s ev = .ok (s', out)) : Leased s' ∧ KeepsLeases s s' := by
  have hsteady : Steady s s' → Leased s' ∧ KeepsLeases s s' := fun hs =>
    ⟨o.steady hs, keepsLeases_of_eq hs.pools⟩
  have hcounted : Steady s s.counted := steady_count s _
  -- what follows `RegisterEdge` leases nothing
  have hregister : ∀ {reg : Message RegisterRequest} {s1 : Supernode} {env : Env}
      {res : Except Err (EdgeRef × CommunityRef)},
      Supernode.registerEdge P env s.counted reg = .ok (s1, res) → Steady s1 s' →
      Leased s' ∧ KeepsLeases s s' := by
    intro reg s1 env res hreg hs
    obtain ⟨o1, hkeeps⟩ := (o.steady hcounted).registerEdge hP v hreg
    exact ⟨o1.steady hs, hkeeps.trans (keepsLeases_of_eq hs.pools)⟩
  cases ev with
  | packet env packet addr =>
    rcases processPacket_ok h with rfl | ⟨r, out1, err, -, hhandled, -⟩
    · exact hsteady hcounted
    · cases hhandled with
      | idle hidle _ => exact hsteady (hcounted.trans hidle.steady)
      | refused f _ hreg _ => exact hregister hreg (steady_count _ f)
      | registered f _ hreg hs2 _ =>
        subst hs2
        exact hregister hreg ((steady_indexed ..).trans (steady_count _ f))
      | refreshed f _ _ _ _ =>
        refine hsteady (hcounted.trans (Steady.trans ?_ (steady_count _ f)))
        exact steady_withRecord rfl
      | removed f _ _ _ hun hunindex =>
        exact hsteady ((hcounted.trans (steady_removed hun hunindex)).trans (steady_count _ f))
  | cleanup env => exact hsteady (steady_cleanupStaleEdges h)
  | connect connID conn =>
    cases h
    exact hsteady ⟨rfl, rfl, rfl, fun _ => rfl, id, fun _ => rfl⟩
  | disconnect connID =>
    cases h
    exact hsteady ⟨rfl, rfl, rfl, fun _ => rfl, id, fun _ => rfl⟩

theorem leased_initial (h : Initial s) : Leased s := by
  obtain ⟨config, netAllocator, pem, noCommunity, noEdge, noPool, rfl⟩ := h
  constructor <;> simp [newSupernodeWithConfig, registry, Registry.Listed]

theorem leased_of_reachable (hP : LendsOnce P) (h : Reachable P s) : Leased s := by
  have hinv : s.registry.Valid hashCommunity ∧ Leased s := by
    refine Reach.invariant (I := fun s => s.registry.Valid hashCommunity ∧ Leased s)
      (fun _ h0 => ⟨valid_initial h0, leased_initial h0⟩) ?_ h
    rintro s ev s' out ⟨v, o⟩ - hstep
    obtain ⟨ops, hrun, -⟩ := step_registry v hstep
    exact ⟨v.run hrun, (o.step hP v hstep).1⟩
  exact hinv.2

theorem keepsLeases_of_reach (hP : LendsOnce P) (h : Reachable P s)
    (h' : Reach (step P) (· = s) (fun _ _ => True) s') : Reachable P s' ∧ KeepsLeases s s' := by
  refine Reach.invariant (I := fun s' => Reachable P s' ∧ KeepsLeases s s')
    ?_ ?_ h'
  · rintro s1 rfl
    exact ⟨h, keepsLeases_of_eq rfl⟩
  rintro s1 ev s2 out ⟨h1, hkeeps⟩ - hstep
  have hnext := ((leased_of_reachable hP h1).step hP h1.valid hstep).2
  exact ⟨.step h1 trivial hstep, hkeeps.trans hnext⟩

end

/-! ## A pool that lends the first free address -/

/-- A MAC keeps its lease; otherwise the first address that nobody has is leased. -/
def Sample.lendFirst (pool : IPPool) (mac : Bytes) (sticky : Bool) (now : ℤ) :
    Option Bytes × IPPool :=
  match pool.leases.lookup mac with
  | some lease => (some lease.ip, pool)
  | none =>
    match ((List.range 254).map fun n => [10, 0, 0, UInt8.ofNat (n + 1)]).find? fun ip =>
        pool.leases.values.all fun lease =>
          decide (Net.parseAddr (Net.ipString lease.ip) ≠ Net.parseAddr (Net.ipString ip)) with
    | none => (none, pool)
    | some ip =>
      (some ip, { pool with leases := pool.leases.insert mac ⟨ip, mac, now, sticky, now⟩ })

def Sample.lending : Platform := { Sample.platform with requestIP := Sample.lendFirst }

theorem lends_lendFirst (pool : IPPool) (mac : Bytes) (sticky : Bool) (now : ℤ) :
    ∃ fresh : Net.Addr → Prop,
      (∀ mac' a, (Sample.lendFirst pool mac sticky now).2.Lends mac' a ↔
        pool.Lends mac' a ∨ mac' = mac ∧ fresh a) ∧
      (∀ mac' a, pool.Lends mac' a → ¬ fresh a) ∧
      ∀ ip a, (Sample.lendFirst pool mac sticky now).1 = some ip →
        Net.parseAddr (Net.ipString ip) = some a → pool.Lends mac a ∨ fresh a := by
  unfold Sample.lendFirst
  split
  · next lease hlease =>
    refine ⟨fun _ => False, by simp, by simp, fun ip a h ha => .inl ⟨lease, hlease, ?_⟩⟩
    cases h
    exact ha
  next hnone =>
  split
  · exact ⟨fun _ => False, by simp, by simp, fun ip a h => by cases h⟩
  next ip hfind =>
  refine ⟨fun a => Net.parseAddr (Net.ipString ip) = some a, fun mac' a => ?_, ?_, ?_⟩
  · unfold IPPool.Lends
    rw [Table.lookup_insert_if]
    by_cases hmac : mac' = mac
    · subst hmac
      rw [hnone]
      simp
    · simp [hmac]
  · rintro mac' a ⟨lease, hlease, ha⟩ hip
    have hfree := List.find?_some hfind
    have hall := List.all_eq_true.mp hfree lease (Table.mem_values_iff.mpr ⟨_, hlease⟩)
    exact of_decide_eq_true hall (ha.trans hip.symm)
  · rintro _ a ⟨⟩ ha
    exact .inr ha

theorem lendsOnce_lending : LendsOnce Sample.lending := by
  refine ⟨fun cidr pool h => by cases h; rfl, fun pool mac now ip a h ha => ?_,
    fun pool mac now mac' a h => ?_, fun pool mac now h mac1 mac2 a h1 h2 => ?_⟩
  all_goals obtain ⟨fresh, hlends, hfree, hgranted⟩ := lends_lendFirst pool mac true now
  · exact (hlends mac a).mpr ((hgranted ip a h ha).imp_right fun hfresh => ⟨rfl, hfresh⟩)
  · exact (hlends mac' a).mpr (.inl h)
  · rcases (hlends mac1 a).mp h1 with hold1 | ⟨hmac1, hfresh⟩
    · rcases (hlends mac2 a).mp h2 with hold2 | ⟨-, hfresh⟩
      · exact h _ _ _ hold1 hold2
      · exact absurd hfresh (hfree _ _ hold1)
    · rcases (hlends mac2 a).mp h2 with hold2 | ⟨hmac2, -⟩
      · exact absurd hfresh (hfree _ _ hold2)
      · exact hmac1.trans hmac2.symm

/-- **Addresses are unique.** In every reachable state, of two members whose communities have one
pool, in particular of two members of one community, each has an address of its own; and a
MAC that is a member of both communities has the same address in both.
GOLINE: supernode/community.go:258-326 -/
theorem addresses_unique (P : Platform) (hP : LendsOnce P) (s : Supernode) (h : Reachable P s)
    (hash hash' : UInt32) (cm cm' : CommunityRef) (mac mac' : Bytes) (ref ref' : EdgeRef)
    (hcm : s.communities.lookup hash = some cm) (hcm' : s.communities.lookup hash' = some cm')
    (hpool : (s.cms.cell cm).ips = (s.cms.cell cm').ips)
    (hmember : (s.cms.cell cm).edges.lookup mac = some ref)
    (hmember' : (s.cms.cell cm').edges.lookup mac' = some ref') :
    (s.edges.cell ref).virtualIP = (s.edges.cell ref').virtualIP ↔ mac = mac' := by
  have o := leased_of_reachable hP h
  have hlends := o.lends ⟨⟨hash, hcm⟩, hmember⟩
  have hlends' : (s.poolOf cm).Lends mac' (s.edges.cell ref').virtualIP := by
    unfold poolOf
    rw [hpool]
    exact o.lends ⟨⟨hash', hcm'⟩, hmember'⟩
  constructor
  · intro heq
    rw [← heq] at hlends'
    exact o.exclusive (o.pool_lt hcm) _ _ _ hlends hlends'
  · rintro rfl
    exact hlends.unique hlends'

/-- Two machines in one community. -/
theorem addresses_unique_two_edges :
    ∃ s ref ref', Reachable Sample.lending s ∧
      (s.cms.cell 0).edges.lookup (macText "c" "m") = some ref ∧
      (s.cms.cell 0).edges.lookup (macText "c" "n") = some ref' ∧
      (s.edges.cell ref).virtualIP ≠ (s.edges.cell ref').virtualIP := by
  obtain ⟨s, hrun, hs⟩ := exists_of_passes
    (x := runEvents (step Sample.lending) Sample.start [registers "c" "m" 1, registers "c" "n" 2])
    (p := fun s => decide (s.communities.lookup (hashCommunity (ascii "c")) = some 0 ∧
      (s.cms.cell 0).edges.lookup (macText "c" "m") = some 0 ∧
      (s.cms.cell 0).edges.lookup (macText "c" "n") = some 1))
    (by decide +kernel)
  obtain ⟨hcm, hm, hn⟩ := of_decide_eq_true hs
  have hreach : Reachable Sample.lending s := .of_runEvents (.init ⟨_, _, _, _, _, _, rfl⟩) hrun
  refine ⟨s, 0, 1, hreach, hm, hn, fun heq => ?_⟩
  have hmac := (addresses_unique Sample.lending lendsOnce_lending s hreach _ _ 0 0 _ _ 0 1 hcm hcm
    rfl hm hn).mp heq
  exact absurd hmac (by decide +kernel)

/-- **An edge that comes back gets the address it had**, whatever has happened in between, as
long as its community is on the same network.
GOLINE: supernode/community.go:258-326, supernode/registration.go:133-143 -/
theorem address_returns (P : Platform) (hP : LendsOnce P) (s s' : Supernode) (h : Reachable P s)
    (h' : Reach (step P) (· = s) (fun _ _ => True) s') (hash hash' : UInt32)
    (cm cm' : CommunityRef) (mac : Bytes) (ref ref' : EdgeRef)
    (hcm : s.communities.lookup hash = some cm) (hcm' : s'.communities.lookup hash' = some cm')
    (hpool : (s.cms.cell cm).ips = (s'.cms.cell cm').ips)
    (hmember : (s.cms.cell cm).edges.lookup mac = some ref)
    (hmember' : (s'.cms.cell cm').edges.lookup mac = some ref') :
    (s'.edges.cell ref').virtualIP = (s.edges.cell ref).virtualIP := by
  have o := leased_of_reachable hP h
  obtain ⟨hreach, hkeeps⟩ := keepsLeases_of_reach hP h h'
  have hold := hkeeps.old _ (o.pool_lt hcm) _ _ (o.lends ⟨⟨hash, hcm⟩, hmember⟩)
  rw [hpool] at hold
  exact IPPool.Lends.unique ((leased_of_reachable hP hreach).lends ⟨⟨hash', hcm'⟩, hmember'⟩) hold

/-- Machine `m` leaves and comes back, and another machine joins in between. -/
theorem address_returns_rejoined :
    ∃ (s s' : Supernode) (ref ref' : EdgeRef), Reachable Sample.lending s ∧ ref ≠ ref' ∧
      (s.cms.cell 0).edges.lookup (macText "c" "m") = some ref ∧
      (s'.cms.cell 0).edges.lookup (macText "c" "m") = some ref' ∧
      (s'.edges.cell ref').virtualIP = (s.edges.cell ref).virtualIP := by
  obtain ⟨⟨s, s'⟩, hruns, hs⟩ := exists_of_passes
    (x := do
      let s ← runEvents (step Sample.lending) Sample.start [registers "c" "m" 1]
      let s' ← runEvents (step Sample.lending) s
        [unregisters "c" "m" 1, registers "c" "n" 2, registers "c" "m" 1]
      pure (s, s'))
    (p := fun (s, s') => decide (s.communities.lookup (hashCommunity (ascii "c")) = some 0 ∧
      s'.communities.lookup (hashCommunity (ascii "c")) = some 0 ∧
      (s.cms.cell 0).ips = (s'.cms.cell 0).ips ∧
      (s.cms.cell 0).edges.lookup (macText "c" "m") = some 0 ∧
      (s'.cms.cell 0).edges.lookup (macText "c" "m") = some 2))
    (by decide +kernel)
  obtain ⟨hcm, hcm', hpool, hm, hm'⟩ := of_decide_eq_true hs
  obtain ⟨s1, hrun, hruns⟩ := bind_eq_ok.mp hruns
  obtain ⟨s2, hrun', hruns⟩ := bind_eq_ok.mp hruns
  cases hruns
  have hreach : Reachable Sample.lending s := .of_runEvents (.init ⟨_, _, _, _, _, _, rfl⟩) hrun
  exact ⟨s, s', 0, 2, hreach, by decide, hm, hm', address_returns Sample.lending lendsOnce_lending
    s s' hreach (.of_runEvents (.init rfl) hrun') _ _ 0 0 _ 0 2 hcm hcm' hpool hm hm'⟩

end Supernode

end N2nGo
