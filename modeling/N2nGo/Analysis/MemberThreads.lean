import N2nGo.Analysis.Agreement
import N2nGo.Lib.TwoPhase
import N2nGo.Model.Supernode.Threads

/-!
# Registrations and removals side by side

A registration writes the community's member table under one lock and `edgesByMAC`
under another; a removal does the same in the same order. Nothing orders the second
locks like the first ones. If a removal takes its second lock while a registration that
came before it is half done, it dereferences nil; if no second step overtakes an earlier
opposite operation on the same MAC, every removal finds the record it is to unindex, and
at rest every member is indexed (`memberThreads_in_order`).
-/

set_option autoImplicit false

namespace N2nGo.Supernode

open N2nGo.Lib N2nGo.Lib.TwoPhase N2nGo.Protocol N2nGo.Messages

/-- What the goroutine has half done. -/
def MemberTask.half : MemberTask → Option (Kind × Bytes)
  | .index _ regMsg => some (.add, regMsg.edgeMACAddr)
  | .unindex _ id _ => some (.remove, id)
  | _ => none

abbrev MemberPool := Pool Supernode MemberTask

def isMember (cm : CommunityRef) (s : Supernode) (mac : Bytes) : Prop :=
  mac ∈ (s.cms.cell cm).edges

def isIndexed (s : Supernode) (mac : Bytes) : Prop := mac ∈ s.edgesByMAC

/-- Every member has an allocated record with its MAC. -/
def MembersAllocated (cm : CommunityRef) (s : Supernode) : Prop :=
  ∀ mac ref, (s.cms.cell cm).edges.lookup mac = some ref →
    ref < s.edges.next ∧ (s.edges.cell ref).macAddr = mac

/-- A community at rest: its members have records and are indexed. -/
def Settled (cm : CommunityRef) (s : Supernode) : Prop :=
  MembersAllocated cm s ∧ ∀ mac, isMember cm s mac → isIndexed s mac

/-- Goroutines that have not begun, on a community at rest. -/
def MembersBegin (cm : CommunityRef) (c : MemberPool) : Prop :=
  ∃ s task, Settled cm s ∧ (∀ i, (task i : MemberTask).half = none) ∧ c = Pool.start s task

/-- The invariant of the interleavings. -/
structure MembersOrdered (cm : CommunityRef) (c : MemberPool) : Prop where
  ordered : Ordered MemberTask.half (isMember cm) isIndexed c
  allocated : MembersAllocated cm c.shared
  indexing : ∀ i ref regMsg, c.task i = .index ref regMsg →
    ref < c.shared.edges.next ∧ (c.shared.edges.cell ref).macAddr = regMsg.edgeMACAddr

section Steps

variable {P : Platform} {env : Env} {cm : CommunityRef} {s s' : Supernode} {mac : Bytes}

/-- No step takes a record away or changes its MAC. -/
def RecordsKept (s s' : Supernode) : Prop :=
  s.edges.next ≤ s'.edges.next ∧
    ∀ ref, ref < s.edges.next → (s'.edges.cell ref).macAddr = (s.edges.cell ref).macAddr

theorem recordsKept_of_registry_eq (h : s'.registry.record = s.registry.record)
    (hn : s'.registry.records = s.registry.records) : RecordsKept s s' :=
  ⟨Nat.le_of_eq hn.symm, fun ref _ => congrArg Edge.macAddr (congrFun h ref)⟩

theorem recordsKept_of_write {ref : EdgeRef} {edge : Edge}
    (h : s'.registry = s.registry.write ref edge)
    (hmac : edge.macAddr = (s.edges.cell ref).macAddr) : RecordsKept s s' := by
  refine ⟨Nat.le_of_eq (congrArg Registry.records h).symm, fun ref' _ => ?_⟩
  show (s'.registry.record ref').macAddr = _
  rw [h]
  by_cases href : ref' = ref
  · subst href
    simpa [Registry.write] using hmac
  · simp [Registry.write, href]
    rfl

theorem recordsKept_of_enroll {edge : Edge} (h : s'.registry = s.registry.enroll cm edge) :
    RecordsKept s s' := by
  refine ⟨?_, fun ref href => ?_⟩
  · show s.registry.records ≤ s'.registry.records
    rw [h]
    exact Nat.le_succ _
  · show (s'.registry.record ref).macAddr = _
    rw [h]
    have hne : ref ≠ s.registry.records := Nat.ne_of_lt href
    simp [Registry.enroll, hne]
    rfl

theorem isMember_iff : isMember cm s mac ↔ ∃ ref, s.registry.member cm mac = some ref :=
  ⟨Table.exists_lookup_of_mem, fun ⟨_, h⟩ => Table.mem_of_lookup h⟩

theorem isIndexed_iff : isIndexed s mac ↔ ∃ ref, s.registry.byKey mac = some ref :=
  ⟨Table.exists_lookup_of_mem, fun ⟨_, h⟩ => Table.mem_of_lookup h⟩

/-- Members stay allocated when the records are kept and every listed address was listed. -/
theorem MembersAllocated.mono (ha : MembersAllocated cm s) (hk : RecordsKept s s')
    (hsub : ∀ mac ref, s'.registry.member cm mac = some ref →
      s.registry.member cm mac = some ref) : MembersAllocated cm s' := by
  intro mac ref href
  obtain ⟨hlt, hmac⟩ := ha mac ref (hsub mac ref href)
  exact ⟨Nat.lt_of_lt_of_le hlt hk.1, (hk.2 ref hlt).trans hmac⟩

/-- `EdgeUpdate` that succeeds: the MAC is a member afterwards, with an allocated record, and
nothing else changes. -/
theorem edgeUpdate_members (ha : MembersAllocated cm s) {regMsg : Message RegisterRequest}
    {ref : EdgeRef} (h : edgeUpdate P env s cm regMsg = (s', .ok ref)) :
    RecordsKept s s' ∧ MembersAllocated cm s' ∧
      (ref < s'.edges.next ∧ (s'.edges.cell ref).macAddr = regMsg.edgeMACAddr) ∧
      (∀ mac, mac ≠ regMsg.edgeMACAddr → (isMember cm s' mac ↔ isMember cm s mac)) ∧
      ∀ mac, isIndexed s' mac ↔ isIndexed s mac := by
  rcases edgeUpdate_spec h with ⟨⟨e, he⟩, -⟩ | ⟨vip, hnone, hres, henroll⟩ |
    ⟨ref', hmember, hres, hwrite⟩
  · cases he
  · cases hres
    have hkept := recordsKept_of_enroll henroll
    have hnew : s.edges.next < s'.edges.next ∧
        (s'.edges.cell s.edges.next).macAddr = regMsg.edgeMACAddr := by
      refine ⟨?_, ?_⟩
      · show s.registry.records < s'.registry.records
        rw [henroll]
        exact Nat.lt_succ_self _
      · show (s'.registry.record s.registry.records).macAddr = _
        rw [henroll]
        simp [Registry.enroll]
        rfl
    have hmem : ∀ mac, s'.registry.member cm mac =
        if mac = regMsg.edgeMACAddr then some s.edges.next else s.registry.member cm mac := by
      intro mac
      rw [henroll]
      simp only [Registry.enroll, Function.update_self, Function.update_apply]
      rfl
    refine ⟨hkept, ?_, hnew, ?_, ?_⟩
    · intro mac ref href
      have href' : s'.registry.member cm mac = some ref := href
      rw [hmem] at href'
      split at href'
      · next hmac =>
        cases href'
        rw [hmac]
        exact hnew
      · obtain ⟨hlt, hmac⟩ := ha mac ref href'
        exact ⟨Nat.lt_of_lt_of_le hlt hkept.1, (hkept.2 ref hlt).trans hmac⟩
    · intro mac hne
      rw [isMember_iff, isMember_iff, hmem, if_neg hne]
    · intro mac
      rw [isIndexed_iff, isIndexed_iff, henroll]
      rfl
  · cases hres
    have hkept : RecordsKept s s' := recordsKept_of_write hwrite rfl
    have hmem : s'.registry.member = s.registry.member := by
      rw [hwrite]
      rfl
    obtain ⟨hlt, hmac⟩ := ha _ _ hmember
    refine ⟨hkept, ha.mono hkept fun mac ref href => by rwa [hmem] at href,
      ⟨Nat.lt_of_lt_of_le hlt hkept.1, (hkept.2 ref hlt).trans hmac⟩, ?_, ?_⟩
    · intro mac _
      rw [isMember_iff, isMember_iff, hmem]
    · intro mac
      rw [isIndexed_iff, isIndexed_iff, hwrite]
      rfl

theorem indexEdge_members (ref : EdgeRef) (addr : NetAddr) :
    RecordsKept s ((s.setWSSConnID ref addr).indexEdge ref) ∧
      ((s.setWSSConnID ref addr).indexEdge ref).registry.member = s.registry.member ∧
      isIndexed ((s.setWSSConnID ref addr).indexEdge ref) (s.edges.cell ref).macAddr ∧
      ∀ mac, mac ≠ (s.edges.cell ref).macAddr →
        (isIndexed ((s.setWSSConnID ref addr).indexEdge ref) mac ↔ isIndexed s mac) := by
  have hreg : ((s.setWSSConnID ref addr).indexEdge ref).registry =
      (s.registry.write ref (withConn addr (s.edges.cell ref))).index ref := by
    rw [registry_indexEdge, registry_setWSSConnID]
  have hkey : ∀ mac, ((s.setWSSConnID ref addr).indexEdge ref).registry.byKey mac =
      if mac = (s.edges.cell ref).macAddr then some ref else s.registry.byKey mac := by
    intro mac
    have hmac : Filed.key ((s.registry.write ref (withConn addr (s.edges.cell ref))).record ref) =
        (s.edges.cell ref).macAddr := by
      simp only [Registry.write, Function.update_self]
      exact macAddr_withConn _ _
    rw [hreg]
    simp only [Registry.index, Function.update_apply, hmac]
    rfl
  refine ⟨?_, ?_, ?_, ?_⟩
  · have hkept : RecordsKept s (s.setWSSConnID ref addr) :=
      recordsKept_of_write (registry_setWSSConnID s ref addr) (macAddr_withConn _ _)
    exact hkept
  · rw [hreg]
    rfl
  · rw [isIndexed_iff, hkey, if_pos rfl]
    exact ⟨ref, rfl⟩
  · intro mac hne
    rw [isIndexed_iff, isIndexed_iff, hkey, if_neg hne]

theorem unregister_members (h : unregister env s cm mac = (s', true)) :
    RecordsKept s s' ∧ isMember cm s mac ∧ ¬ isMember cm s' mac ∧
      (∀ mac' ref, s'.registry.member cm mac' = some ref → s.registry.member cm mac' = some ref) ∧
      (∀ mac', mac' ≠ mac → (isMember cm s' mac' ↔ isMember cm s mac')) ∧
      ∀ mac', isIndexed s' mac' ↔ isIndexed s mac' := by
  obtain ⟨hmember, hexpel⟩ := unregister_true h
  have hmem : ∀ mac', s'.registry.member cm mac' =
      if mac' = mac then none else s.registry.member cm mac' := by
    intro mac'
    rw [hexpel]
    simp only [Registry.expel, Function.update_self, Function.update_apply]
  refine ⟨recordsKept_of_registry_eq (by rw [hexpel]; rfl) (by rw [hexpel]; rfl),
    isMember_iff.mpr hmember, ?_, ?_, ?_, ?_⟩
  · rw [isMember_iff, hmem, if_pos rfl]
    simp
  · intro mac' ref href
    rw [hmem] at href
    split at href
    · cases href
    · exact href
  · intro mac' hne
    rw [isMember_iff, isMember_iff, hmem, if_neg hne]
  · intro mac'
    rw [isIndexed_iff, isIndexed_iff, hexpel]
    rfl

theorem unindexEdge_members {pil : PeerInfoList} (h : s.unindexEdge mac = .ok (s', pil)) :
    RecordsKept s s' ∧ s'.registry.member = s.registry.member ∧
      ∀ mac', mac' ≠ mac → (isIndexed s' mac' ↔ isIndexed s mac') := by
  obtain ⟨-, hun⟩ := unindexEdge_ok h
  refine ⟨recordsKept_of_registry_eq (by rw [hun]; exact Registry.record_unindex)
    (by rw [hun]; exact Registry.records_unindex), by rw [hun]; exact Registry.member_unindex, ?_⟩
  intro mac' hne
  rw [isIndexed_iff, isIndexed_iff, hun, Registry.byKey_unindex, if_neg hne]

end Steps

/-! ## One step of one goroutine -/

section Interleaving

variable {P : Platform} {cm : CommunityRef} {c c' : MemberPool} {i : ℕ} {s : Supernode}
  {t : MemberTask}

section

variable (o : MembersOrdered cm c)
include o

/-- What half-done registrations know of their records survives a step of thread `i`. -/
theorem MembersOrdered.indexing_advance (hk : RecordsKept c.shared s)
    (hnew : ∀ ref regMsg, t = .index ref regMsg →
      ref < s.edges.next ∧ (s.edges.cell ref).macAddr = regMsg.edgeMACAddr) (j : ℕ) (ref : EdgeRef)
    (regMsg : Message RegisterRequest) (h : (c.advance i s t).task j = .index ref regMsg) :
    ref < s.edges.next ∧ (s.edges.cell ref).macAddr = regMsg.edgeMACAddr := by
  rw [Pool.task_advance] at h
  split at h
  · exact hnew ref regMsg h
  · obtain ⟨hlt, hmac⟩ := o.indexing j ref regMsg h
    exact ⟨Nat.lt_of_lt_of_le hlt hk.1, (hk.2 ref hlt).trans hmac⟩

theorem MembersOrdered.advance (hk : RecordsKept c.shared s)
    (hmem : s.registry.member = c.shared.registry.member) (ht : ∀ ref regMsg, t ≠ .index ref regMsg)
    (hord : Ordered MemberTask.half (isMember cm) isIndexed (c.advance i s t)) :
    MembersOrdered cm (c.advance i s t) := by
  refine ⟨hord, o.allocated.mono hk fun mac ref href => ?_, ?_⟩
  · rw [← hmem]
    exact href
  · exact o.indexing_advance hk fun ref regMsg heq => absurd heq (ht ref regMsg)

theorem MembersOrdered.idle (hi : (c.task i).half = none) (ht : t.half = none)
    (hreg : s.registry = c.shared.registry) : MembersOrdered cm (c.advance i s t) := by
  have hkept : RecordsKept c.shared s :=
    recordsKept_of_registry_eq (by rw [hreg]) (by rw [hreg])
  have htask : ∀ ref regMsg, t ≠ .index ref regMsg := by
    rintro ref regMsg rfl
    cases ht
  refine o.advance hkept (by rw [hreg]) htask (o.ordered.idle hi ht (fun mac => ?_) fun mac => ?_)
  · rw [isMember_iff, isMember_iff, hreg]
  · rw [isIndexed_iff, isIndexed_iff, hreg]

/-- **One step that is in order keeps the invariant**, whatever the goroutine does. -/
theorem MembersOrdered.step (hord : InOrder MemberTask.half c i)
    (h : Pool.step (MemberTask.next P cm) c i = .ok (c', ())) : MembersOrdered cm c' := by
  obtain ⟨s, t, hnext, rfl⟩ := Pool.step_eq_ok_iff.mp h
  cases htask : c.task i with
  | done =>
    rw [htask] at hnext
    cases hnext
    exact o.idle (by rw [htask]; rfl) rfl rfl
  | cleanup env =>
    rw [htask] at hnext
    cases hnext
    exact o.idle (by rw [htask]; rfl) rfl rfl
  | unregister env mac =>
    have hi : (c.task i).half = none := by rw [htask]; rfl
    rw [htask] at hnext
    simp only [MemberTask.next] at hnext
    split at hnext
    · cases hnext
      exact o.idle hi rfl rfl
    · cases hnext
      exact o.idle hi rfl rfl
  | register env regMsg =>
    have hi : (c.task i).half = none := by rw [htask]; rfl
    rw [htask] at hnext
    simp only [MemberTask.next] at hnext
    rcases hup : edgeUpdate P env c.shared cm regMsg with ⟨s1, res⟩
    rw [hup] at hnext
    cases res with
    | error e =>
      cases hnext
      rcases edgeUpdate_spec hup with ⟨-, hsame⟩ | ⟨_, _, hres, _⟩ | ⟨_, _, hres, _⟩
      · exact o.idle hi rfl hsame
      · cases hres
      · cases hres
    | ok ref =>
      cases hnext
      obtain ⟨hkept, halloc, href, hmem, hidx⟩ := edgeUpdate_members o.allocated hup
      refine ⟨o.ordered.beginAdd hi rfl hmem hidx, halloc, o.indexing_advance hkept ?_⟩
      intro ref' regMsg' heq
      cases heq
      exact href
  | index ref regMsg =>
    have hi : (c.task i).half = some (.add, regMsg.edgeMACAddr) := by rw [htask]; rfl
    obtain ⟨-, hmac⟩ := o.indexing i ref regMsg htask
    rw [htask] at hnext
    cases hnext
    obtain ⟨hkept, hmem, hidx, hother⟩ := indexEdge_members (s := c.shared) ref regMsg.fromAddr
    rw [hmac] at hidx hother
    refine o.advance hkept hmem (fun _ _ => MemberTask.noConfusion)
      (o.ordered.finishAdd hord hi rfl (fun mac => ?_) hidx hother)
    rw [isMember_iff, isMember_iff, hmem]
  | remove env ids =>
    have hi : (c.task i).half = none := by rw [htask]; rfl
    rw [htask] at hnext
    cases ids with
    | nil =>
      cases hnext
      exact o.idle hi rfl rfl
    | cons id ids =>
      simp only [MemberTask.next] at hnext
      rcases hun : unregister env c.shared cm id with ⟨s1, found⟩
      rw [hun] at hnext
      cases found with
      | false =>
        cases hnext
        exact o.idle hi rfl (by rw [(unregister_false hun).1])
      | true =>
        cases hnext
        obtain ⟨hkept, hwas, hgone, hsub, hother, hidx⟩ := unregister_members hun
        exact ⟨o.ordered.beginRemove hi rfl hwas hgone hother hidx, o.allocated.mono hkept hsub,
          o.indexing_advance hkept fun _ _ heq => by cases heq⟩
  | unindex env id ids =>
    have hi : (c.task i).half = some (.remove, id) := by rw [htask]; rfl
    rw [htask] at hnext
    obtain ⟨⟨s1, pil⟩, hun, hres⟩ := bind_eq_ok.mp hnext
    cases hres
    obtain ⟨hkept, hmem, hother⟩ := unindexEdge_members hun
    refine o.advance hkept hmem (fun _ _ => MemberTask.noConfusion)
      (o.ordered.finishRemove hord hi rfl (fun mac => ?_) hother)
    rw [isMember_iff, isMember_iff, hmem]

theorem MembersOrdered.completes (hord : InOrder MemberTask.half c i) :
    Completes (Pool.step (MemberTask.next P cm) c i) := by
  rw [Pool.completes_step_iff]
  cases htask : c.task i with
  | done => exact completes_ok _
  | cleanup env => exact completes_ok _
  | index ref regMsg => exact completes_ok _
  | unregister env mac =>
    simp only [MemberTask.next]
    split <;> exact completes_ok _
  | register env regMsg =>
    simp only [MemberTask.next]
    rcases edgeUpdate P env c.shared cm regMsg with ⟨s1, _ | ref⟩ <;> exact completes_ok _
  | remove env ids =>
    cases ids with
    | nil => exact completes_ok _
    | cons id ids =>
      simp only [MemberTask.next]
      rcases unregister env c.shared cm id with ⟨s1, _ | _⟩ <;> exact completes_ok _
  | unindex env id ids =>
    have hi : (c.task i).half = some (.remove, id) := by rw [htask]; rfl
    have hidx := isIndexed_iff.mp (o.ordered.second_of_finishRemove hord hi)
    exact (completes_bind_of_total fun _ => completes_ok _).mpr
      ((completes_unindexEdge_iff _ _).mpr hidx)

end

theorem membersOrdered_begin (h : MembersBegin cm c) : MembersOrdered cm c := by
  obtain ⟨s, task, ⟨halloc, hcover⟩, hnone, rfl⟩ := h
  refine ⟨ordered_start hnone hcover, halloc, fun i ref regMsg htask => ?_⟩
  have := hnone i
  rw [show task i = .index ref regMsg from htask] at this
  cases this

end Interleaving

/-- Between requests a known community is at rest, as long as `edgesByMAC` agrees with the
communities. -/
theorem settled_of_agrees {s : Supernode} {cm : CommunityRef} {hash : UInt32}
    (v : s.registry.Valid hashCommunity) (ha : s.registry.Agrees)
    (hcm : s.communities.lookup hash = some cm) : Settled cm s := by
  refine ⟨fun mac ref href => ?_, fun mac hmac => ?_⟩
  · have hlisted : s.registry.Listed cm mac ref := ⟨⟨hash, hcm⟩, href⟩
    exact ⟨v.listed_lt hlisted, v.listed_key hlisted⟩
  · obtain ⟨ref, href⟩ := isMember_iff.mp hmac
    exact isIndexed_iff.mpr ⟨ref, ha.1 cm mac ref ⟨⟨hash, hcm⟩, href⟩⟩

/-- **Interleavings in order.** When no second half of an operation runs while an opposite
operation on the same MAC that began earlier is half done, no step panics, so that a
removal that found its edge in the community also finds it in `edgesByMAC`; and whenever
no operation is half done every member of the community is indexed.
GOLINE: supernode/handlers.go:96-145, supernode/registration.go:101-143, supernode/cleanup.go:9-37 -/
theorem memberThreads_in_order (P : Platform) (cm : CommunityRef) (c : MemberPool)
    (h : Reach (Pool.step (MemberTask.next P cm)) (MembersBegin cm) (InOrder MemberTask.half) c) :
    (∀ i, InOrder MemberTask.half c i → Completes (Pool.step (MemberTask.next P cm) c i)) ∧
      (∀ i env id ids, InOrder MemberTask.half c i → c.task i = .unindex env id ids →
        id ∈ c.shared.edgesByMAC) ∧
      ((∀ i, (c.task i).half = none) → ∀ mac ∈ (c.shared.cms.cell cm).edges,
        mac ∈ c.shared.edgesByMAC) := by
  have o : MembersOrdered cm c :=
    Reach.invariant (I := MembersOrdered cm) (fun _ h0 => membersOrdered_begin h0)
      (fun _ _ _ _ hI hord hstep => hI.step hord hstep) h
  refine ⟨fun i hord => o.completes hord, fun i env id ids hord htask => ?_,
    fun hquiet mac hmac => o.ordered.covers hquiet hmac⟩
  exact o.ordered.second_of_finishRemove hord (by rw [htask]; rfl)

/-! ## Goroutines of the sample supernode -/

/-- The request of machine `id` to join `name`, from the socket of client `n`. -/
def joinMessage (name id : String) (n : UInt8) : Message RegisterRequest where
  header := Sample.header typeRegisterRequest (ascii name) (ascii id) MacID.zero
  payload := []
  fromAddr := Sample.client n
  rawPacket := []
  msg := ⟨[], [], ascii name, ascii id, []⟩

/-- The first goroutines; the others have nothing to do. -/
def memberTasks (tasks : List MemberTask) (i : ℕ) : MemberTask := tasks.getD i .done

/-- Machine `n` joins community `c` while another goroutine removes it. -/
def joinAndLeave (s : Supernode) : MemberPool :=
  .start s (memberTasks [.register Sample.env (joinMessage "c" "n" 2),
    .unregister Sample.env (macText "c" "n")])

/-- Machine `m` has registered in community `c`. -/
def oneMember : Go Supernode :=
  runEvents (step Sample.platform) Sample.start [registers "c" "m" 1]

theorem settled_oneMember {s : Supernode} (h : oneMember = .ok s)
    (hcm : s.communities.lookup (hashCommunity (ascii "c")) = some 0) : Settled 0 s := by
  obtain ⟨⟨s', out⟩, hstep, hs⟩ := bind_eq_ok.mp h
  cases hs
  have hinit : Initial Sample.start := ⟨_, _, _, _, _, _, rfl⟩
  have v := valid_initial hinit
  obtain ⟨ops, hrun, -⟩ := step_registry v hstep
  exact settled_of_agrees (v.run hrun)
    (agrees_step v (agrees_initial hinit) (joinsOneCommunity_start _) hstep) hcm

theorem membersBegin_joinAndLeave {s : Supernode} (h : Settled 0 s) :
    MembersBegin 0 (joinAndLeave s) := by
  refine ⟨s, _, h, fun i => ?_, rfl⟩
  match i with
  | 0 => rfl
  | 1 => rfl
  | _ + 2 => rfl

/-- A goroutine besides which nobody is half done finishes in order. -/
theorem inOrder_of_alone {c : MemberPool} {i : ℕ} (h : ∀ j, j ≠ i → (c.task j).half = none) :
    InOrder MemberTask.half c i := by
  intro kind k hi j kind' hne hj
  by_cases hji : j = i
  · subst hji
    rw [hi] at hj
    cases hj
    exact absurd rfl hne
  · rw [h j hji] at hj
    cases hj

/-- The first two goroutines take turns: each moves while the other is not half done. -/
def takeTurns (c : MemberPool) (i : ℕ) : Bool := i < 2 ∧ (c.task (1 - i)).half = none

theorem reach_of_takeTurns {s : Supernode} (hbegin : MembersBegin 0 (joinAndLeave s)) {c : MemberPool}
    (h : Reach (Pool.step (MemberTask.next Sample.platform 0)) (· = joinAndLeave s)
      (fun c i => takeTurns c i = true) c) :
    (∀ j, 2 ≤ j → (c.task j).half = none) ∧
      Reach (Pool.step (MemberTask.next Sample.platform 0)) (MembersBegin 0)
        (InOrder MemberTask.half) c := by
  induction h with
  | init heq =>
    subst heq
    refine ⟨fun j hj => ?_, .init hbegin⟩
    obtain ⟨k, rfl⟩ := Nat.exists_eq_add_of_le' hj
    rfl
  | @step c c' i _ _ hturn hstep ih =>
    obtain ⟨hlt, hother⟩ := of_decide_eq_true hturn
    refine ⟨fun j hj => ?_, ih.2.step (inOrder_of_alone fun j hj => ?_) hstep⟩
    · obtain ⟨s1, t1, -, rfl⟩ := Pool.step_eq_ok_iff.mp hstep
      rw [Pool.task_advance, if_neg (by omega)]
      exact ih.1 j hj
    · by_cases hj2 : 2 ≤ j
      · exact ih.1 j hj2
      · rwa [show j = 1 - i by omega]

/-- Both halves of a registration before the removal, which runs to its end: the other member
is left, and is indexed. -/
theorem memberThreads_join_first :
    ∃ c : MemberPool, (c.task 0).half = none ∧ macText "c" "n" ∉ c.shared.edgesByMAC ∧
      macText "c" "m" ∈ (c.shared.cms.cell 0).edges ∧ macText "c" "n" ∉ (c.shared.cms.cell 0).edges ∧
      ∀ mac ∈ (c.shared.cms.cell 0).edges, mac ∈ c.shared.edgesByMAC := by
  obtain ⟨s, hs, htest⟩ := exists_of_passes (x := oneMember)
    (p := fun s => decide (s.communities.lookup (hashCommunity (ascii "c")) = some 0) &&
      (runAllowed (Pool.step (MemberTask.next Sample.platform 0)) takeTurns (joinAndLeave s)
        [0, 0, 1, 1, 1, 1]).any fun c : MemberPool => decide ((c.task 0).half = none ∧ (c.task 1).half = none ∧
          macText "c" "n" ∉ c.shared.edgesByMAC ∧ macText "c" "m" ∈ (c.shared.cms.cell 0).edges ∧
          macText "c" "n" ∉ (c.shared.cms.cell 0).edges)) (by decide +kernel)
  obtain ⟨hcm, hc⟩ := Bool.and_eq_true_iff.mp htest
  obtain ⟨c, hc, htest⟩ := (Option.any_eq_true _ _).mp hc
  obtain ⟨h0, h1, hunindexed, hmember, hgone⟩ := of_decide_eq_true htest
  have hbegin := membersBegin_joinAndLeave (settled_oneMember hs (of_decide_eq_true hcm))
  obtain ⟨hothers, hreach⟩ := reach_of_takeTurns hbegin (.of_runAllowed (fun _ _ h => h) (.init rfl) hc)
  refine ⟨c, h0, hunindexed, hmember, hgone,
    (memberThreads_in_order Sample.platform 0 c hreach).2.2 fun i => ?_⟩
  match i with
  | 0 => exact h0
  | 1 => exact h1
  | i + 2 => exact hothers (i + 2) (Nat.le_add_left 2 i)

/-- The registration stops between its halves and the removal runs to its second half: the
record is not indexed, and unindexing it dereferences nil. -/
theorem removal_overtakes_registration :
    ∃ (s : Supernode) (c : MemberPool), Reachable Sample.platform s ∧ Settled 0 s ∧
      Reach (Pool.step (MemberTask.next Sample.platform 0)) (· = joinAndLeave s)
        (fun _ _ => True) c ∧
      (c.task 1).half = some (.remove, macText "c" "n") ∧
      macText "c" "n" ∉ c.shared.edgesByMAC ∧
      ¬ Completes (Pool.step (MemberTask.next Sample.platform 0) c 1) := by
  obtain ⟨⟨s, c⟩, hrun, htest⟩ := exists_of_passes
    (x := do
      let s ← oneMember
      let c ← runEvents (Pool.step (MemberTask.next Sample.platform 0)) (joinAndLeave s) [0, 1, 1]
      .ok (s, c))
    (p := fun res => decide (res.1.communities.lookup (hashCommunity (ascii "c")) = some 0 ∧
      (res.2.task 1).half = some (.remove, macText "c" "n") ∧
      macText "c" "n" ∉ res.2.shared.edgesByMAC ∧
      Passes (Pool.step (MemberTask.next Sample.platform 0) res.2 1) (fun _ => true) = false))
    (by decide +kernel)
  obtain ⟨hcm, hhalf, hnot, hpanic⟩ := of_decide_eq_true htest
  obtain ⟨s', hs, hrest⟩ := bind_eq_ok.mp hrun
  obtain ⟨c', hc, hrest⟩ := bind_eq_ok.mp hrest
  cases hrest
  exact ⟨s, c, Sample.reachable_start.of_runEvents hs, settled_oneMember hs hcm,
    Reach.of_runEvents (.init rfl) hc, hhalf, hnot, not_completes_of_not_passes hpanic⟩

end N2nGo.Supernode
