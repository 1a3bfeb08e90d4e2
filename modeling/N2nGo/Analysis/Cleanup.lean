import N2nGo.Analysis.MemberThreads

/-!
# Cleanup beside the packet workers

`CleanupStaleEdges` first collects the edges that have been silent for too long, community
by community, and then removes them one by one. In between heartbeats and registrations are
handled, and the removal does not look at the record again. If no edge on the list of a
cleanup is heard of before its turn comes, every edge is removed for good reason
(`removed_stale`).
-/

set_option autoImplicit false

namespace N2nGo.Supernode

open N2nGo.Lib N2nGo.Protocol N2nGo.Messages

/-! ## Contacts -/

/-- When the member was last heard of. -/
def lastSeen (s : Supernode) (k : CommunityRef × Bytes) : Option ℤ :=
  (s.registry.content k.1 k.2).map Edge.lastHeartbeat

/-- The goroutine accepts a heartbeat or a registration of the edge.
GOLINE: supernode/community.go:224-326 -/
def Contact (P : Platform) (env : Env) (s : Supernode) (k : CommunityRef × Bytes) : SweepTask → Prop
  | .register cm regMsg =>
    k = (cm, regMsg.edgeMACAddr) ∧ ∃ ref, (edgeUpdate P env s cm regMsg).2 = .ok ref
  | .heartbeat cm hbMsg =>
    k = (cm, hbMsg.edgeMACAddr) ∧ ∃ changed, (refreshEdge env s cm hbMsg).2 = .ok changed
  | _ => False

/-- The edges that the goroutine has collected and not yet removed. -/
def SweepTask.listed : SweepTask → List (CommunityRef × Bytes)
  | .collect _ _ stales => flatten stales
  | .sweep _ ids | .swept _ _ ids => ids
  | _ => []

def SweepTask.expiry : SweepTask → ℤ
  | .cleanup expiry | .collect expiry _ _ | .sweep expiry _ | .swept expiry _ _ => expiry
  | _ => 0

/-- The communities that the goroutine has pointers to. -/
def SweepTask.holds (cm : CommunityRef) : SweepTask → Prop
  | .register cm' _ | .heartbeat cm' _ | .unregister cm' _ => cm = cm'
  | .collect _ cms stales => cm ∈ cms ∨ ∃ id, (cm, id) ∈ flatten stales
  | .sweep _ ids | .swept _ _ ids => ∃ id, (cm, id) ∈ ids
  | _ => False

/-! ## What a step does to the times -/

/-- The tables are in order: communities are allocated and records are listed once. -/
structure Tidy (s : Supernode) : Prop where
  placed : s.registry.Placed
  known : ∀ hash cm, s.communities.lookup hash = some cm → cm < s.cms.next

/-- A step keeps the tables in order; it leaves the time at which a member was last heard of,
removes the member, or is a contact of the member. -/
structure Heard (P : Platform) (env : Env) (s : Supernode) (t : SweepTask) (s' : Supernode) : Prop where
  tidy : Tidy s'
  next_le : s.cms.next ≤ s'.cms.next
  seen : ∀ k, k.1 < s.cms.next → lastSeen s' k = lastSeen s k ∨ lastSeen s' k = none ∨
    lastSeen s' k = some env.now ∧ Contact P env s k t
  contact : ∀ k, k.1 < s.cms.next → Contact P env s k t → lastSeen s' k = some env.now

variable {expiry : ℤ} {ids : List (CommunityRef × Bytes)}

section Steps

variable {P : Platform} {env : Env} {s s' : Supernode} {t t' : SweepTask} {cm : CommunityRef}
  {mac : Bytes} {k : CommunityRef × Bytes}

theorem lastSeen_eq_some_iff {seen : ℤ} : lastSeen s k = some seen ↔
    ∃ ref, (s.cms.cell k.1).edges.lookup k.2 = some ref ∧ (s.edges.cell ref).lastHeartbeat = seen := by
  unfold lastSeen Registry.content
  rw [Option.map_map]
  exact Option.map_eq_some_iff

section

variable (tidy : Tidy s)
include tidy

theorem Heard.refl (ht : ∀ k, ¬ Contact P env s k t) : Heard P env s t s :=
  ⟨tidy, Nat.le_refl _, fun _ _ => Or.inl rfl, fun k _ hk => absurd hk (ht k)⟩

theorem Tidy.keep (hplaced : s'.registry.Placed) (hgroup : s'.registry.group = s.registry.group)
    (hnext : s'.cms.next = s.cms.next) : Tidy s' := by
  refine ⟨hplaced, fun hash cm hcm => ?_⟩
  rw [hnext]
  exact tidy.known hash cm ((congrFun hgroup hash).symm.trans hcm)

theorem Heard.of_same (ht : ∀ k, ¬ Contact P env s k t)
    (hgroup : s'.registry.group = s.registry.group)
    (hgroups : s'.registry.groups = s.registry.groups)
    (hmember : s'.registry.member = s.registry.member)
    (hrecords : s'.registry.records = s.registry.records)
    (hrecord : ∀ ref, (s'.edges.cell ref).macAddr = (s.edges.cell ref).macAddr ∧
      (s'.edges.cell ref).lastHeartbeat = (s.edges.cell ref).lastHeartbeat) :
    Heard P env s t s' := by
  refine ⟨tidy.keep ?_ hgroup hgroups, Nat.le_of_eq hgroups.symm, fun k _ => Or.inl ?_,
    fun k _ hk => absurd hk (ht k)⟩
  · refine tidy.placed.of_sub hgroups hrecords (fun ref => (hrecord ref).1) fun g k i hi => ?_
    rw [hmember] at hi
    exact hi
  · unfold lastSeen Registry.content
    rw [hmember, Option.map_map, Option.map_map]
    congr 1
    funext ref
    exact (hrecord ref).2

theorem Heard.of_registry (ht : ∀ k, ¬ Contact P env s k t) (h : s'.registry = s.registry) :
    Heard P env s t s' := by
  refine .of_same tidy ht (by rw [h]) (by rw [h]) (by rw [h]) (by rw [h]) fun ref => ?_
  rw [show s'.edges.cell = s.edges.cell from congrArg Registry.record h]
  exact ⟨rfl, rfl⟩

/-- A step that enters the current time for the member it is a contact of. -/
theorem Heard.of_entry (hplaced : s'.registry.Placed)
    (hgroup : s'.registry.group = s.registry.group) (hnext : s'.cms.next = s.cms.next)
    (hcontact : ∀ k, Contact P env s k t ↔ k = (cm, mac))
    (hseen : ∀ k : CommunityRef × Bytes, k.1 < s.cms.next →
      lastSeen s' k = if k.1 = cm ∧ k.2 = mac then some env.now else lastSeen s k) :
    Heard P env s t s' := by
  refine ⟨tidy.keep hplaced hgroup hnext, Nat.le_of_eq hnext.symm, fun k hk => ?_,
    fun k hk hc => ?_⟩
  · rw [hseen k hk]
    split
    · next heq => exact Or.inr (Or.inr ⟨rfl, (hcontact k).mpr (Prod.ext heq.1 heq.2)⟩)
    · exact Or.inl rfl
  · rw [hseen k hk, (hcontact k).mp hc, if_pos ⟨rfl, rfl⟩]

theorem Heard.of_write {ref : EdgeRef} {edge : Edge} (hcm : cm < s.cms.next)
    (hmember : (s.cms.cell cm).edges.lookup mac = some ref)
    (hmac : edge.macAddr = (s.edges.cell ref).macAddr) (hnow : edge.lastHeartbeat = env.now)
    (hcontact : ∀ k, Contact P env s k t ↔ k = (cm, mac))
    (hs' : s'.registry = s.registry.write ref edge) : Heard P env s t s' := by
  refine .of_entry tidy ?_ (by rw [hs']; rfl) (congrArg Registry.groups hs') hcontact fun k hk => ?_
  · rw [hs']
    refine tidy.placed.of_sub rfl rfl (fun i => ?_) fun g k i hi => hi
    rw [Registry.record_write]
    split
    · next hi =>
      subst hi
      exact hmac
    · rfl
  · unfold lastSeen
    rw [hs', tidy.placed.content_write hcm hmember hk]
    split
    · rw [Option.map_some, hnow]
    · rfl

theorem heard_heartbeat (hcm : cm < s.cms.next) (hbMsg : Message HeartbeatPulse) :
    Heard P env s (.heartbeat cm hbMsg) (refreshEdge env s cm hbMsg).1 := by
  rcases hres : refreshEdge env s cm hbMsg with ⟨s', res⟩
  rcases refreshEdge_spec hres with ⟨⟨e, rfl⟩, rfl⟩ | ⟨ref, hmember, -, rfl, rfl⟩
  · refine .refl tidy ?_
    rintro k ⟨-, changed, hok⟩
    rw [hres] at hok
    cases hok
  · have hmac : (refreshed env (s.edges.cell ref) hbMsg).macAddr = (s.edges.cell ref).macAddr := rfl
    refine .of_write tidy hcm hmember hmac rfl (fun k => ?_) rfl
    exact ⟨fun hc => hc.1, fun hk => ⟨hk, _, congrArg Prod.snd hres⟩⟩

theorem heard_register (hcm : cm < s.cms.next) (regMsg : Message RegisterRequest) :
    Heard P env s (.register cm regMsg) (edgeUpdate P env s cm regMsg).1 := by
  rcases hres : edgeUpdate P env s cm regMsg with ⟨s', res⟩
  have hcontact : ∀ ref, res = .ok ref → ∀ k,
      Contact P env s k (.register cm regMsg) ↔ k = (cm, regMsg.edgeMACAddr) :=
    fun ref hok k => ⟨fun hc => hc.1, fun hk => ⟨hk, ref, by rw [hres, hok]⟩⟩
  rcases edgeUpdate_spec hres with ⟨⟨e, rfl⟩, hsame⟩ | ⟨vip, -, rfl, henroll⟩ |
    ⟨ref, hmember, rfl, hwrite⟩
  · refine .of_registry tidy ?_ hsame
    rintro k ⟨-, ref, hok⟩
    rw [hres] at hok
    cases hok
  · refine .of_entry tidy ?_ (by rw [henroll]; rfl) (congrArg Registry.groups henroll)
      (hcontact _ rfl) fun k hk => ?_
    · rw [henroll]
      exact tidy.placed.enroll hcm _
    · unfold lastSeen
      rw [henroll, tidy.placed.content_enroll hk]
      split
      · next heq =>
        rw [if_pos (show k.1 = cm ∧ k.2 = regMsg.edgeMACAddr from heq)]
        rfl
      · next hne => rw [if_neg (show ¬ (k.1 = cm ∧ k.2 = regMsg.edgeMACAddr) from hne)]
  · have hmac : (reRegistered env (s.edges.cell ref) regMsg).macAddr = (s.edges.cell ref).macAddr := rfl
    exact .of_write tidy hcm hmember hmac rfl (hcontact ref rfl) hwrite

section

variable (ht : ∀ k, ¬ Contact P env s k t)
include ht

theorem heard_unregister : Heard P env s t (unregister env s cm mac).1 := by
  rcases hres : unregister env s cm mac with ⟨s', found⟩
  cases found with
  | false =>
    obtain ⟨rfl, -⟩ := unregister_false hres
    exact .refl tidy ht
  | true =>
    obtain ⟨-, hexpel⟩ := unregister_true hres
    have hnext : s'.cms.next = s.cms.next := congrArg Registry.groups hexpel
    refine ⟨tidy.keep ?_ (by rw [hexpel]; rfl) hnext, Nat.le_of_eq hnext.symm,
      fun k _ => ?_, fun k _ hk => absurd hk (ht k)⟩
    · rw [hexpel]
      exact tidy.placed.of_sub rfl rfl (fun _ => rfl) fun g k i hi => Registry.member_of_expel hi
    · unfold lastSeen
      rw [hexpel, Registry.content_expel]
      split
      · exact Or.inr (Or.inl rfl)
      · exact Or.inl rfl

theorem heard_unindex {pil : PeerInfoList} (h : s.unindexEdge mac = .ok (s', pil)) :
    Heard P env s t s' := by
  obtain ⟨-, hunindex⟩ := unindexEdge_ok h
  refine .of_same tidy ht ?_ ?_ ?_ ?_ fun ref => ?_
  · rw [hunindex, Registry.group_unindex]
  · rw [hunindex, Registry.groups_unindex]
  · rw [hunindex, Registry.member_unindex]
  · rw [hunindex, Registry.records_unindex]
  · have hrecord : s'.edges.cell = s.edges.cell :=
      (congrArg Registry.record hunindex).trans Registry.record_unindex
    rw [hrecord]
    exact ⟨rfl, rfl⟩

theorem heard_index (ref : EdgeRef) (addr : NetAddr) :
    Heard P env s t ((s.setWSSConnID ref addr).indexEdge ref) := by
  refine .of_same tidy ht ?_ ?_ ?_ ?_ fun ref' => ?_
  · rw [registry_indexEdge, registry_setWSSConnID]
    rfl
  · rw [registry_indexEdge, registry_setWSSConnID]
    rfl
  · rw [registry_indexEdge, registry_setWSSConnID]
    rfl
  · rw [registry_indexEdge, registry_setWSSConnID]
    rfl
  · cases addr with
    | udp a => exact ⟨rfl, rfl⟩
    | wss connID =>
      show ((s.edges.store ref _).cell ref').macAddr = _ ∧ ((s.edges.store ref _).cell ref').lastHeartbeat = _
      rw [Heap.cell_store]
      split
      · next heq =>
        subst heq
        exact ⟨rfl, rfl⟩
      · exact ⟨rfl, rfl⟩

theorem heard_create {name : Bytes} {hash : UInt32} {res : Except Err CommunityRef}
    (h : registerCommunityCreate P s name hash none = .ok (s', res)) :
    Heard P env s t s' ∧ ∀ cm, res = .ok cm → cm < s'.cms.next := by
  rcases registerCommunityCreate_none h with ⟨⟨e, rfl⟩, hsame⟩ | ⟨rfl, hcreate⟩
  · exact ⟨.of_registry tidy ht hsame, fun cm hcm => by cases hcm⟩
  · have hnext : s'.cms.next = s.cms.next + 1 := congrArg Registry.groups hcreate
    refine ⟨⟨⟨?_, fun hash' cm hcm => ?_⟩, by omega, fun k hk => Or.inl ?_,
      fun k _ hk => absurd hk (ht k)⟩, fun cm hcm => ?_⟩
    · rw [hcreate]
      exact tidy.placed.create hash name
    · have hgroup : s'.registry.group hash' = some cm := hcm
      rw [hcreate] at hgroup
      simp only [Registry.create, Function.update_apply] at hgroup
      rw [hnext]
      split at hgroup
      · have hcm : s.cms.next = cm := Option.some.inj hgroup
        rw [← hcm]
        exact Nat.lt_succ_self _
      · exact Nat.lt_succ_of_lt (tidy.known hash' cm hgroup)
    · unfold lastSeen
      rw [hcreate, Registry.content_create (Nat.ne_of_lt hk)]
    · cases hcm
      rw [hnext]
      exact Nat.lt_succ_self _

end

end

variable {stales : List (CommunityRef × List Bytes)}

theorem mem_flatten : k ∈ flatten stales ↔ ∃ p ∈ stales, k.1 = p.1 ∧ k.2 ∈ p.2 := by
  unfold flatten
  simp only [List.mem_flatMap, List.mem_map]
  constructor
  · rintro ⟨p, hp, id, hid, rfl⟩
    exact ⟨p, hp, rfl, hid⟩
  · rintro ⟨p, hp, hcm, hid⟩
    exact ⟨p, hp, k.2, hid, Prod.ext hcm.symm rfl⟩

theorem stale_of_mem_staleIDs (tidy : Tidy s) (hcm : cm < s.cms.next) {seen : ℤ} {id : Bytes}
    (hid : id ∈ staleIDs expiry env s cm) (hseen : lastSeen s (cm, id) = some seen) :
    env.now - seen > expiry := by
  obtain ⟨ref, href, rfl⟩ := lastSeen_eq_some_iff.mp hseen
  obtain ⟨edge, hedge, rfl⟩ := List.mem_map.mp hid
  obtain ⟨hmem, hstale⟩ := List.mem_filter.mp hedge
  obtain ⟨ref', href', rfl⟩ := List.mem_map.mp hmem
  rw [MapOrder.mem_visit] at href'
  obtain ⟨mac, hmac⟩ := Table.mem_values_iff.mp href'
  -- the record is listed under its own MAC, so it is the one that is found there
  obtain ⟨-, hkey, -⟩ := tidy.placed cm hcm mac ref' hmac
  have hkey : (s.edges.cell ref').macAddr = mac := hkey
  have href : (s.cms.cell cm).edges.lookup (s.edges.cell ref').macAddr = some ref := href
  rw [hkey, hmac] at href
  cases href
  exact of_decide_eq_true hstale

/-- What a goroutine has listed after a step was listed before, or has been silent for too
long now. -/
def ListsStale (env : Env) (t : SweepTask) (s' : Supernode) (t' : SweepTask) : Prop :=
  ∀ k ∈ t'.listed, k ∈ t.listed ∧ t'.expiry = t.expiry ∨
    ∀ seen, lastSeen s' k = some seen → env.now - seen > t'.expiry

theorem listsStale_nil (h : t'.listed = []) : ListsStale env t s' t' := by
  intro k hk
  rw [h] at hk
  cases hk

theorem listsStale_sub (hexpiry : t'.expiry = t.expiry) (h : ∀ k ∈ t'.listed, k ∈ t.listed) :
    ListsStale env t s' t' := fun k hk => Or.inl ⟨h k hk, hexpiry⟩

/-- What a step does to the times, what it holds then, and what it lists. -/
structure Stepped (P : Platform) (env : Env) (s : Supernode) (t : SweepTask) (s' : Supernode)
    (t' : SweepTask) : Prop where
  heard : Heard P env s t s'
  holds : ∀ cm, t'.holds cm → cm < s'.cms.next
  lists : ListsStale env t s' t'

theorem Stepped.of_free (hheard : Heard P env s t s') (hfree : ∀ cm, ¬ t'.holds cm)
    (hnil : t'.listed = []) : Stepped P env s t s' t' :=
  ⟨hheard, fun cm hcm => absurd hcm (hfree cm), listsStale_nil hnil⟩

theorem Stepped.of_holding (hheard : Heard P env s t s') (hcm : cm < s'.cms.next)
    (hholds : ∀ cm', t'.holds cm' → cm' = cm) (hnil : t'.listed = []) : Stepped P env s t s' t' :=
  ⟨hheard, fun cm' hcm' => hholds cm' hcm' ▸ hcm, listsStale_nil hnil⟩

theorem stepped_enter (tidy : Tidy s) {regMsg : Message RegisterRequest}
    (h : SweepTask.next P env s (.enter regMsg) = .ok (s', t')) :
    Stepped P env s (.enter regMsg) s' t' := by
  have hsame : Heard P env s (.enter regMsg) s := .refl tidy fun _ hc => hc
  rcases hread : s.registerCommunityRead regMsg.msg.communityName regMsg.communityHash with
    e | found
  · simp only [SweepTask.next, hread] at h
    cases h
    exact .of_free hsame (fun _ hcm => hcm) rfl
  · cases found with
    | none =>
      simp only [SweepTask.next, hread] at h
      cases h
      exact .of_free hsame (fun _ hcm => hcm) rfl
    | some cm =>
      simp only [SweepTask.next, hread] at h
      have hlook : s.communities.lookup regMsg.communityHash = some cm := by
        unfold registerCommunityRead at hread
        split at hread
        · cases hread
        · exact Except.ok.inj hread
      split at h
      · cases h
        exact .of_free hsame (fun _ hcm => hcm) rfl
      · next cm' hexisting =>
        obtain ⟨rfl, -⟩ := existingCommunity_ok hexisting
        cases h
        exact .of_holding hsame (tidy.known _ _ hlook) (fun _ hcm => hcm) rfl

theorem stepped_collect (tidy : Tidy s) {cms : List CommunityRef}
    (hholds : ∀ cm, (SweepTask.collect expiry cms stales).holds cm → cm < s.cms.next)
    (h : SweepTask.next P env s (.collect expiry cms stales) = .ok (s', t')) :
    Stepped P env s (.collect expiry cms stales) s' t' := by
  have hsame : Heard P env s (.collect expiry cms stales) s := .refl tidy fun _ hc => hc
  cases cms with
  | nil =>
    cases h
    have hmem : ∀ k, k ∈ flatten (env.order.visit stales) ↔ k ∈ flatten stales := by
      intro k
      rw [mem_flatten, mem_flatten]
      simp only [MapOrder.mem_visit]
    refine ⟨hsame, ?_, listsStale_sub rfl fun k hk => (hmem k).mp hk⟩
    rintro cm ⟨id, hid⟩
    exact hholds cm (Or.inr ⟨id, (hmem _).mp hid⟩)
  | cons cm cms =>
    cases h
    have hmem : ∀ k, k ∈ flatten (stales ++ [(cm, staleIDs expiry env s cm)]) ↔
        k ∈ flatten stales ∨ k.1 = cm ∧ k.2 ∈ staleIDs expiry env s cm := by
      intro k
      rw [mem_flatten, mem_flatten]
      simp [or_and_right, exists_or]
    have hcm : cm < s.cms.next := hholds cm (Or.inl List.mem_cons_self)
    refine ⟨hsame, ?_, fun k hk => ?_⟩
    · rintro cm' (hcm' | ⟨id, hid⟩)
      · exact hholds cm' (Or.inl (List.mem_cons_of_mem _ hcm'))
      · rcases (hmem _).mp hid with hold | ⟨rfl, -⟩
        · exact hholds cm' (Or.inr ⟨id, hold⟩)
        · exact hcm
    · rcases (hmem k).mp hk with hold | ⟨rfl, hid⟩
      · exact Or.inl ⟨hold, rfl⟩
      · exact Or.inr fun seen hseen => stale_of_mem_staleIDs tidy hcm hid hseen

theorem stepped_sweep (tidy : Tidy s)
    (hholds : ∀ cm, (SweepTask.sweep expiry ids).holds cm → cm < s.cms.next)
    (h : SweepTask.next P env s (.sweep expiry ids) = .ok (s', t')) :
    Stepped P env s (.sweep expiry ids) s' t' := by
  cases ids with
  | nil =>
    cases h
    exact .of_free (.refl tidy fun _ hc => hc) (fun _ hcm => hcm) rfl
  | cons k ids =>
    obtain ⟨cm, id⟩ := k
    have hheard : Heard P env s (.sweep expiry ((cm, id) :: ids)) (unregister env s cm id).1 :=
      heard_unregister tidy fun _ hc => hc
    have hrest : ∀ s' : Supernode, s.cms.next ≤ s'.cms.next →
        ∀ cm', (∃ id', (cm', id') ∈ ids) → cm' < s'.cms.next := by
      rintro s' hle cm' ⟨id', hid'⟩
      exact Nat.lt_of_lt_of_le (hholds cm' ⟨id', List.mem_cons_of_mem _ hid'⟩) hle
    simp only [SweepTask.next] at h
    split at h
    · next s1 hres =>
      cases h
      rw [hres] at hheard
      exact ⟨hheard, hrest s' hheard.next_le,
        listsStale_sub rfl fun k hk => List.mem_cons_of_mem _ hk⟩
    · next s1 hres =>
      cases h
      rw [hres] at hheard
      exact ⟨hheard, hrest s' hheard.next_le,
        listsStale_sub rfl fun k hk => List.mem_cons_of_mem _ hk⟩

/-- **One atomic step.** -/
theorem stepped_next (tidy : Tidy s) (hholds : ∀ cm, t.holds cm → cm < s.cms.next)
    (h : t.next P env s = .ok (s', t')) : Stepped P env s t s' t' := by
  cases t with
  | enter regMsg => exact stepped_enter tidy h
  | missed regMsg =>
    obtain ⟨⟨s1, res⟩, hcreate, h⟩ := bind_eq_ok.mp h
    obtain ⟨hheard, hnew⟩ : Heard P env s (.missed regMsg) s1 ∧
        ∀ cm, res = .ok cm → cm < s1.cms.next :=
      heard_create tidy (fun k (hc : Contact P env s k (.missed regMsg)) => hc) hcreate
    cases res with
    | error e =>
      cases h
      exact .of_free hheard (fun _ hcm => hcm) rfl
    | ok cm =>
      cases h
      exact .of_holding hheard (hnew cm rfl) (fun _ hcm => hcm) rfl
  | register cm regMsg =>
    have hheard : Heard P env s (.register cm regMsg) (edgeUpdate P env s cm regMsg).1 :=
      heard_register tidy (hholds cm rfl) regMsg
    simp only [SweepTask.next] at h
    split at h
    · next s1 e hres =>
      cases h
      rw [hres] at hheard
      exact .of_free hheard (fun _ hcm => hcm) rfl
    · next s1 ref hres =>
      cases h
      rw [hres] at hheard
      exact .of_free hheard (fun _ hcm => hcm) rfl
  | index ref regMsg =>
    cases h
    exact .of_free (heard_index (t := .index ref regMsg) tidy (fun _ hc => hc) ref regMsg.fromAddr)
      (fun _ hcm => hcm) rfl
  | pulse hbMsg =>
    have hsame : Heard P env s (.pulse hbMsg) s := .refl tidy fun _ hc => hc
    simp only [SweepTask.next] at h
    split at h
    · cases h
      exact .of_free hsame (fun _ hcm => hcm) rfl
    · next cm hlook =>
      cases h
      exact .of_holding hsame (tidy.known _ _ hlook) (fun _ hcm => hcm) rfl
  | heartbeat cm hbMsg =>
    cases h
    exact .of_free (heard_heartbeat tidy (hholds cm rfl) hbMsg) (fun _ hcm => hcm) rfl
  | leave hash mac =>
    have hsame : Heard P env s (.leave hash mac) s := .refl tidy fun _ hc => hc
    simp only [SweepTask.next] at h
    split at h
    · cases h
      exact .of_free hsame (fun _ hcm => hcm) rfl
    · next cm hlook =>
      cases h
      exact .of_holding hsame (tidy.known _ _ hlook) (fun _ hcm => hcm) rfl
  | unregister cm mac =>
    have hheard : Heard P env s (.unregister cm mac) (Supernode.unregister env s cm mac).1 :=
      heard_unregister tidy fun _ hc => hc
    simp only [SweepTask.next] at h
    split at h
    · next s1 hres =>
      cases h
      rw [hres] at hheard
      exact .of_free hheard (fun _ hcm => hcm) rfl
    · next s1 hres =>
      cases h
      rw [hres] at hheard
      exact .of_free hheard (fun _ hcm => hcm) rfl
  | unindex mac =>
    obtain ⟨⟨s1, pil⟩, hunindex, h⟩ := bind_eq_ok.mp h
    cases h
    exact .of_free (heard_unindex tidy (fun _ hc => hc) hunindex) (fun _ hcm => hcm) rfl
  | cleanup expiry =>
    cases h
    refine ⟨.refl tidy fun _ hc => hc, ?_, listsStale_nil rfl⟩
    rintro cm (hcm | ⟨id, hid⟩)
    · rw [MapOrder.mem_visit] at hcm
      obtain ⟨hash, hlook⟩ := Table.mem_values_iff.mp hcm
      exact tidy.known hash cm hlook
    · cases hid
  | collect expiry cms stales => exact stepped_collect tidy hholds h
  | sweep expiry ids => exact stepped_sweep tidy hholds h
  | swept expiry id ids =>
    obtain ⟨⟨s1, pil⟩, hunindex, h⟩ := bind_eq_ok.mp h
    cases h
    have hheard : Heard P env s (.swept expiry id ids) s' :=
      heard_unindex tidy (fun _ hc => hc) hunindex
    exact ⟨hheard, fun cm hcm => Nat.lt_of_lt_of_le (hholds cm hcm) hheard.next_le,
      listsStale_sub rfl fun k hk => hk⟩
  | done =>
    cases h
    exact .of_free (.refl tidy fun _ hc => hc) (fun _ hcm => hcm) rfl

end Steps

/-! ## Whole runs -/

namespace SweepPool

/-- No heartbeat or registration is accepted of an edge that is on the list of a cleanup. -/
def SparesListed (P : Platform) (c : SweepPool) (turn : Turn) : Prop :=
  ∀ k, Contact P (c.envAt turn) c.sn k (c.task turn.thread) → ∀ i, k ∉ (c.task i).listed

/-- A goroutine that has not begun. -/
def Begins : SweepTask → Prop
  | .enter _ | .pulse _ | .leave _ _ | .cleanup _ | .done => True
  | _ => False

/-- A new supernode and goroutines that have not begun. -/
def Start (c : SweepPool) : Prop := Initial c.sn ∧ ∀ i, Begins (c.task i)

abbrev SweepTaken := Taken SweepPool Turn Unit

/-- The step accepts a heartbeat or a registration of the edge at that time. -/
def ContactAt (P : Platform) (k : CommunityRef × Bytes) (time : ℤ) (t : SweepTaken) : Prop :=
  t.before.time t.event = time ∧
    Contact P (t.before.envAt t.event) t.before.sn k (t.before.task t.event.thread)

structure Fair (P : Platform) (hist : List SweepTaken) (c : SweepPool) : Prop where
  tidy : Tidy c.sn
  holds : ∀ i cm, (c.task i).holds cm → cm < c.sn.cms.next
  /-- what a goroutine has listed has been silent for too long -/
  stale : ∀ i, ∀ k ∈ (c.task i).listed, ∀ seen, lastSeen c.sn k = some seen →
    c.now - seen > (c.task i).expiry
  /-- no contact of a member is forgotten -/
  remembered : ∀ t ∈ hist, ∀ k time, ContactAt P k time t → k.1 < c.sn.cms.next ∧ time ≤ c.now ∧
    ∀ seen, lastSeen c.sn k = some seen → time ≤ seen

section Runs

variable {P : Platform} {hist : List SweepTaken} {c c' : SweepPool} {turn : Turn}
  {k : CommunityRef × Bytes}

theorem holds_of_mem_listed {t : SweepTask} (h : k ∈ t.listed) : t.holds k.1 := by
  cases t with
  | collect expiry cms stales => exact Or.inr ⟨k.2, h⟩
  | sweep expiry ids => exact ⟨k.2, h⟩
  | swept expiry id ids => exact ⟨k.2, h⟩
  | _ => cases h

theorem holds_of_contact {env : Env} {s : Supernode} {t : SweepTask} (h : Contact P env s k t) :
    t.holds k.1 := by
  cases t with
  | register cm regMsg => exact congrArg Prod.fst h.1
  | heartbeat cm hbMsg => exact congrArg Prod.fst h.1
  | _ => exact h.elim

theorem now_le_time (c : SweepPool) (turn : Turn) : c.now ≤ c.time turn := by
  unfold time
  omega

theorem step_eq_ok {u : Unit} (h : step P c turn = .ok (c', u)) :
    ∃ s t, (c.task turn.thread).next P (c.envAt turn) c.sn = .ok (s, t) ∧
      c' = ⟨s, Function.update c.task turn.thread t, c.time turn⟩ := by
  obtain ⟨⟨s, t⟩, hnext, h⟩ := bind_eq_ok.mp h
  cases h
  exact ⟨s, t, hnext, rfl⟩

theorem Fair.step (f : Fair P hist c) (hadm : SparesListed P c turn) {u : Unit}
    (h : step P c turn = .ok (c', u)) : Fair P (⟨c, turn, u⟩ :: hist) c' := by
  obtain ⟨s, t, hnext, rfl⟩ := step_eq_ok h
  obtain ⟨hheard, hholds, hlists⟩ := stepped_next f.tidy (f.holds turn.thread) hnext
  have htask : ∀ i, Function.update c.task turn.thread t i =
      if i = turn.thread then t else c.task i := fun i => Function.update_apply ..
  have htime := now_le_time c turn
  -- an edge that was listed before the step and is still a member was not heard of
  have hkept : ∀ i, ∀ k ∈ (c.task i).listed, ∀ seen, lastSeen s k = some seen →
      c.time turn - seen > (c.task i).expiry := by
    intro i k hk seen hseen
    rcases hheard.seen k (f.holds i k.1 (holds_of_mem_listed hk)) with hsame | hnone | ⟨-, hcontact⟩
    · rw [hsame] at hseen
      have hstale := f.stale i k hk seen hseen
      omega
    · rw [hnone] at hseen
      cases hseen
    · exact absurd hk (hadm k hcontact i)
  refine ⟨hheard.tidy, fun i cm hcm => ?_, fun i k hk seen hseen => ?_, fun t' ht' k time hk => ?_⟩
  · have hcm : SweepTask.holds cm (Function.update c.task turn.thread t i) := hcm
    rw [htask] at hcm
    split at hcm
    · exact hholds cm hcm
    · exact Nat.lt_of_lt_of_le (f.holds i cm hcm) hheard.next_le
  · have hk : k ∈ (Function.update c.task turn.thread t i).listed := hk
    show c.time turn - seen > (Function.update c.task turn.thread t i).expiry
    rw [htask] at hk ⊢
    split at hk
    · next hi =>
      rw [if_pos hi]
      rcases hlists k hk with ⟨hold, hexpiry⟩ | hstale
      · rw [hexpiry]
        exact hkept turn.thread k hold seen hseen
      · exact hstale seen hseen
    · next hi =>
      rw [if_neg hi]
      exact hkept i k hk seen hseen
  · rcases List.mem_cons.mp ht' with rfl | ht'
    · obtain ⟨rfl, hcontact⟩ := hk
      have hlt : k.1 < c.sn.cms.next := f.holds turn.thread k.1 (holds_of_contact hcontact)
      refine ⟨Nat.lt_of_lt_of_le hlt hheard.next_le, le_refl _, fun seen hseen => ?_⟩
      have hseen : lastSeen s k = some seen := hseen
      rw [hheard.contact k hlt hcontact] at hseen
      cases hseen
      exact le_refl _
    · obtain ⟨hlt, hle, hold⟩ := f.remembered t' ht' k time hk
      refine ⟨Nat.lt_of_lt_of_le hlt hheard.next_le, hle.trans htime, fun seen hseen => ?_⟩
      have hseen : lastSeen s k = some seen := hseen
      rcases hheard.seen k hlt with hsame | hnone | ⟨hnow, -⟩
      · exact hold seen (hsame.symm.trans hseen)
      · rw [hnone] at hseen
        cases hseen
      · rw [hnow] at hseen
        cases hseen
        exact hle.trans htime

theorem fair_start (h : Start c) : Fair P [] c := by
  obtain ⟨hinit, hbegins⟩ := h
  obtain ⟨config, netAllocator, pem, noCommunity, noEdge, noPool, hsn⟩ := hinit
  have hnone : ∀ i cm, ¬ (c.task i).holds cm := by
    intro i cm hcm
    have hbegin := hbegins i
    cases htask : c.task i <;> rw [htask] at hbegin hcm <;> first | exact hcm | exact hbegin
  refine ⟨⟨fun g hg => ?_, fun hash cm hcm => ?_⟩, fun i cm hcm => absurd hcm (hnone i cm),
    fun i k hk => absurd (holds_of_mem_listed hk) (hnone i k.1), fun t ht => by cases ht⟩
  · rw [hsn] at hg
    exact absurd hg (Nat.not_lt_zero g)
  · rw [hsn] at hcm
    cases hcm

/-- **Every edge is removed for good reason**, in every interleaving of cleanups and packet
workers in which no edge on the list of a cleanup is heard of. When `Unregister` finds the
edge, it has been silent for longer than `expiry`, and every heartbeat and registration of it
that was accepted in the run is older than that.
GOLINE: supernode/cleanup.go:9-37, supernode/community.go:203-255, 416-427 -/
theorem removed_stale (P : Platform) (hist : List SweepTaken) (c : SweepPool) (turn : Turn)
    (expiry : ℤ) (k : CommunityRef × Bytes) (ids : List (CommunityRef × Bytes)) (ref : EdgeRef)
    (h : Trace (step P) Start (SparesListed P) hist c)
    (htask : c.task turn.thread = .sweep expiry (k :: ids))
    (hfound : (c.sn.cms.cell k.1).edges.lookup k.2 = some ref) :
    c.time turn - (c.sn.edges.cell ref).lastHeartbeat > expiry ∧
      ∀ t ∈ hist, ∀ time, ContactAt P k time t → c.time turn - time > expiry := by
  have f : Fair P hist c := Trace.invariant (I := Fair P) (fun _ => fair_start)
    (fun _ _ _ _ _ hI hadm hstep => hI.step hadm hstep) h
  have hseen : lastSeen c.sn k = some (c.sn.edges.cell ref).lastHeartbeat :=
    lastSeen_eq_some_iff.mpr ⟨ref, hfound, rfl⟩
  have hstale := f.stale turn.thread k (by rw [htask]; exact List.mem_cons_self) _ hseen
  rw [htask] at hstale
  have hstale : c.now - (c.sn.edges.cell ref).lastHeartbeat > expiry := hstale
  have htime := now_le_time c turn
  refine ⟨by omega, fun t ht time hk => ?_⟩
  have hold := (f.remembered t ht k time hk).2.2 _ hseen
  omega

end Runs

/-! ## A heartbeat during a cleanup -/

/-- Machine `m` joins community `c`, with its machine ID decrypted. -/
def joins : Message RegisterRequest :=
  { joinMessage "c" "m" 1 with msg := ⟨[], [], ascii "c", ascii "m", ascii "m"⟩ }

/-- A heartbeat of machine `m`. -/
def beats : Message HeartbeatPulse where
  header := Sample.header typeHeartbeat (ascii "c") (ascii "m") MacID.zero
  payload := []
  fromAddr := Sample.client 1
  rawPacket := []
  msg := ⟨[], ascii "c", ascii "m", ascii "m"⟩

/-- Machine `m` joins, a cleanup removes who has been silent for more than 10, and a heartbeat
of `m` arrives. -/
def samplePool : SweepPool :=
  ⟨Sample.start, fun i => [.enter joins, .cleanup 10, .pulse beats].getD i .done, 0⟩

def turn (thread elapsed : ℕ) : Turn := ⟨thread, elapsed, Sample.env⟩

/-- Machine `m` has joined at time 0; at time 20 it is on the list of the cleanup. -/
def collected : List Turn := [turn 0 0, turn 0 0, turn 0 0, turn 0 0, turn 1 20, turn 1 0, turn 1 0]

def member : CommunityRef × Bytes := (0, macText "c" "m")

/-- The edges that a cleanup is about to remove. -/
def sweeps : SweepTask → Option (ℤ × List (CommunityRef × Bytes))
  | .sweep expiry ids => some (expiry, ids)
  | _ => none

theorem eq_sweep_of_sweeps {t : SweepTask} (h : sweeps t = some (expiry, ids)) :
    t = .sweep expiry ids := by
  cases t with
  | sweep expiry' ids' =>
    cases h
    rfl
  | _ => cases h

theorem start_samplePool : Start samplePool := by
  refine ⟨⟨_, _, _, _, _, _, rfl⟩, fun i => ?_⟩
  rcases i with _ | _ | _ | i
  · trivial
  · trivial
  · trivial
  · exact show Begins .done from trivial

/-- The edge that the goroutine may be about to hear of. -/
def hears : SweepTask → Option (CommunityRef × Bytes)
  | .register cm regMsg => some (cm, regMsg.edgeMACAddr)
  | .heartbeat cm hbMsg => some (cm, hbMsg.edgeMACAddr)
  | _ => none

/-- One of the first `n` goroutines takes its turn, and hears of nobody on the list of one of
them. -/
def sparesFirst (n : ℕ) (c : SweepPool) (turn : Turn) : Bool :=
  decide (turn.thread < n) && (hears (c.task turn.thread)).all fun k =>
    (List.range n).all fun i => decide (k ∉ (c.task i).listed)

/-- If the other goroutines have nothing to do, it is enough to look at the first ones. -/
theorem trace_of_sparesFirst {P : Platform} {n : ℕ} {hist : List SweepTaken} {c : SweepPool}
    (h : Trace (step P) (fun c => Start c ∧ ∀ i, n ≤ i → c.task i = .done)
      (fun c turn => sparesFirst n c turn = true) hist c) :
    Trace (step P) Start (SparesListed P) hist c ∧ ∀ i, n ≤ i → c.task i = .done := by
  induction h with
  | init h0 => exact ⟨.init h0.1, h0.2⟩
  | @step hist c c' turn u _ hadm hstep ih =>
    obtain ⟨htrace, hidle⟩ := ih
    obtain ⟨hthread, hspares⟩ := Bool.and_eq_true_iff.mp hadm
    refine ⟨.step htrace (fun k hk i hi => ?_) hstep, fun i hi => ?_⟩
    · by_cases hin : i < n
      · have hhears : hears (c.task turn.thread) = some k := by
          cases htask : c.task turn.thread <;> rw [htask] at hk <;>
            first | exact congrArg some hk.1.symm | exact hk.elim
        rw [hhears] at hspares
        exact of_decide_eq_true (List.all_eq_true.mp hspares i (List.mem_range.mpr hin)) hi
      · rw [hidle i (Nat.le_of_not_lt hin)] at hi
        cases hi
    · obtain ⟨s, t, -, rfl⟩ := step_eq_ok hstep
      have hne : i ≠ turn.thread := by
        have := of_decide_eq_true hthread
        omega
      exact (Function.update_of_ne hne _ _).trans (hidle i hi)

/-- Machine `m` stays silent: it is removed 20 after its registration. -/
theorem removed_stale_silent :
    ∃ hist c, Trace (step Sample.platform) Start (SparesListed Sample.platform) hist c ∧
      c.task 1 = .sweep 10 [member] ∧ (c.sn.cms.cell 0).edges.lookup (macText "c" "m") = some 0 ∧
      c.time (turn 1 0) - (c.sn.edges.cell 0).lastHeartbeat > 10 := by
  obtain ⟨⟨hist, c⟩, hrun, hc⟩ := (Option.any_eq_true _ _).mp
    (show Option.any (fun res : List SweepTaken × SweepPool => decide (
        sweeps (res.2.task 1) = some (10, [member]) ∧
        (res.2.sn.cms.cell 0).edges.lookup (macText "c" "m") = some 0))
      (traceAllowed (step Sample.platform) (sparesFirst 3) [] samplePool collected) = true by
        decide +kernel)
  obtain ⟨htask, hfound⟩ := of_decide_eq_true hc
  have htask := eq_sweep_of_sweeps htask
  have hfirst : Trace (step Sample.platform) (fun c => Start c ∧ ∀ i, 3 ≤ i → c.task i = .done)
      (fun c turn => sparesFirst 3 c turn = true) hist c := by
    refine .of_traceAllowed (fun _ _ h => h) (.init ⟨start_samplePool, fun i hi => ?_⟩) hrun
    obtain ⟨j, rfl⟩ := Nat.exists_eq_add_of_le' hi
    rfl
  have htrace := (trace_of_sparesFirst hfirst).1
  exact ⟨hist, c, htrace, htask, hfound,
    (removed_stale Sample.platform hist c (turn 1 0) 10 member [] 0 htrace htask hfound).1⟩

/-- A test for an accepted heartbeat of `m`. -/
def beatsTest (t : SweepTaken) : Bool :=
  match t.before.task t.event.thread with
  | .heartbeat cm hbMsg => decide ((cm, hbMsg.edgeMACAddr) = member) &&
      (refreshEdge (t.before.envAt t.event) t.before.sn cm hbMsg).2.toOption.isSome
  | _ => false

theorem contactAt_of_beatsTest {t : SweepTaken} (h : beatsTest t = true) :
    ContactAt Sample.platform member (t.before.time t.event) t := by
  refine ⟨rfl, ?_⟩
  unfold beatsTest at h
  split at h
  · next cm hbMsg htask =>
    obtain ⟨hmember, haccepted⟩ := Bool.and_eq_true_iff.mp h
    rw [htask]
    refine ⟨(of_decide_eq_true hmember).symm, ?_⟩
    cases hres : (refreshEdge (t.before.envAt t.event) t.before.sn cm hbMsg).2 with
    | ok changed => exact ⟨changed, rfl⟩
    | error e =>
      rw [hres] at haccepted
      cases haccepted
  · cases h

/-- Machine `m` is collected, its heartbeat is accepted, and it is removed all the same, at the
very time of its last heartbeat. -/
theorem removed_after_heartbeat :
    ∃ hist t c c' u, Trace (step Sample.platform) Start (fun _ _ => True) (t :: hist) c ∧
      ContactAt Sample.platform member (c.time (turn 1 0)) t ∧ c.task 1 = .sweep 10 [member] ∧
      (c.sn.cms.cell 0).edges.lookup (macText "c" "m") = some 0 ∧
      (c.sn.edges.cell 0).lastHeartbeat = c.time (turn 1 0) ∧
      step Sample.platform c (turn 1 0) = .ok (c', u) ∧
      (c'.sn.cms.cell 0).edges.lookup (macText "c" "m") = none := by
  obtain ⟨⟨hist, c⟩, hrun, hc⟩ := (Option.any_eq_true _ _).mp
    (show Option.any (fun res : List SweepTaken × SweepPool => decide (
        sweeps (res.2.task 1) = some (10, [member]) ∧
        (res.2.sn.cms.cell 0).edges.lookup (macText "c" "m") = some 0 ∧
        (res.2.sn.edges.cell 0).lastHeartbeat = res.2.time (turn 1 0)) &&
      (res.1.head?.any fun t => beatsTest t && decide (t.before.time t.event = res.2.time (turn 1 0))) &&
      Passes (step Sample.platform res.2 (turn 1 0)) fun res' =>
        decide ((res'.1.sn.cms.cell 0).edges.lookup (macText "c" "m") = none))
      (traceAllowed (step Sample.platform) (fun _ _ => true) [] samplePool
        (collected ++ [turn 2 0, turn 2 0])) = true by decide +kernel)
  obtain ⟨hc, hgone⟩ := Bool.and_eq_true_iff.mp hc
  obtain ⟨hc, hlast⟩ := Bool.and_eq_true_iff.mp hc
  obtain ⟨htask, hfound, hbeat⟩ := of_decide_eq_true hc
  obtain ⟨⟨c', u⟩, hstep, hnone⟩ := exists_of_passes hgone
  obtain ⟨t, hhead, ht⟩ := (Option.any_eq_true _ _).mp hlast
  obtain ⟨hbeats, htime⟩ := Bool.and_eq_true_iff.mp ht
  obtain ⟨older, rfl⟩ := List.head?_eq_some_iff.mp hhead
  have hcontact := contactAt_of_beatsTest hbeats
  rw [of_decide_eq_true htime] at hcontact
  exact ⟨older, t, c, c', u,
    .of_traceAllowed (fun _ _ _ => trivial) (.init start_samplePool) hrun, hcontact,
    eq_sweep_of_sweeps htask, hfound, hbeat, hstep, of_decide_eq_true hnone⟩

end SweepPool

end N2nGo.Supernode
