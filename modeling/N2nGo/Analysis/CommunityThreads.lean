import N2nGo.Analysis.MemberThreads

/-!
# First registrations side by side

`RegisterCommunity` looks the hash up under the read lock and creates the community
under the write lock. Under the write lock it tests what it saw before once more instead
of looking again, so two first registrations that overlap both create. As long as a call
takes the write lock only while its hash is still free, a community stays in place with
all its members, and the calls that succeed agree (`communities_in_order`).
-/

set_option autoImplicit false

namespace N2nGo.Supernode

open N2nGo.Lib N2nGo.Protocol N2nGo.Messages

abbrev CommunityPool := Pool Supernode CommunityTask

/-- The request and the community of a call that has succeeded. -/
def CommunityTask.success : CommunityTask → Option (Message RegisterRequest × CommunityRef)
  | .returned _ regMsg (.ok cm) | .done regMsg (.ok cm) => some (regMsg, cm)
  | _ => none

/-- The goroutine is about to take the write lock for this request. -/
def CommunityTask.creates : CommunityTask → Option (Message RegisterRequest)
  | .missed _ regMsg => some regMsg
  | _ => none

/-- Registrations about to begin, in a state the supernode can be in. -/
def CommunitiesBegin (P : Platform) (c : CommunityPool) : Prop :=
  ∃ s task, Reachable P s ∧ (∀ i, ∃ env regMsg, task i = CommunityTask.call env regMsg) ∧
    c = Pool.start s task

/-- If the goroutine is about to create a community, nobody has created one for its hash
since it looked. -/
def CreatesFresh (c : CommunityPool) (i : ℕ) : Prop :=
  ∀ regMsg, (c.task i).creates = some regMsg →
    c.shared.communities.lookup regMsg.communityHash = none

/-- Every community is where it was, with its name and every member it had. -/
def CommunitiesKept (s s' : Supernode) : Prop :=
  ∀ hash cm, s.communities.lookup hash = some cm →
    s'.communities.lookup hash = some cm ∧ (s'.cms.cell cm).name = (s.cms.cell cm).name ∧
      ∀ mac ref, (s.cms.cell cm).edges.lookup mac = some ref →
        (s'.cms.cell cm).edges.lookup mac = some ref

/-- Every call that has succeeded has the community under its hash, which has its name and
hashes to that hash. -/
def CallsAgree (c : CommunityPool) : Prop :=
  ∀ i regMsg cm, (c.task i).success = some (regMsg, cm) →
    c.shared.communities.lookup regMsg.communityHash = some cm ∧
      (c.shared.cms.cell cm).name = regMsg.msg.communityName ∧
      hashCommunity regMsg.msg.communityName = regMsg.communityHash

/-- The invariant of the interleavings: known communities are allocated, and what calls have
found out stays true. -/
structure CommunitiesOrdered (c : CommunityPool) : Prop where
  known_lt : ∀ hash cm, c.shared.communities.lookup hash = some cm → cm < c.shared.cms.next
  agree : CallsAgree c
  hashed : ∀ i regMsg, (c.task i).creates = some regMsg →
    hashCommunity regMsg.msg.communityName = regMsg.communityHash

section Steps

variable {P : Platform} {env : Env} {s s' s'' : Supernode} {cm : CommunityRef}

theorem CommunitiesKept.refl (s : Supernode) : CommunitiesKept s s :=
  fun _ _ h => ⟨h, rfl, fun _ _ href => href⟩

theorem CommunitiesKept.trans (h : CommunitiesKept s s') (h' : CommunitiesKept s' s'') :
    CommunitiesKept s s'' := by
  intro hash cm hcm
  obtain ⟨hcm1, hname1, hmem1⟩ := h hash cm hcm
  obtain ⟨hcm2, hname2, hmem2⟩ := h' hash cm hcm1
  exact ⟨hcm2, hname2.trans hname1, fun mac ref href => hmem2 mac ref (hmem1 mac ref href)⟩

theorem communitiesKept_of_registry
    (h : ∀ hash cm, s.registry.group hash = some cm → s'.registry.group hash = some cm ∧
      s'.registry.name cm = s.registry.name cm ∧ ∀ mac ref, s.registry.member cm mac = some ref →
        s'.registry.member cm mac = some ref) : CommunitiesKept s s' := h

theorem communitiesKept_of_registry_eq (h : s'.registry = s.registry) : CommunitiesKept s s' :=
  communitiesKept_of_registry fun hash cm hcm => by
    rw [h]
    exact ⟨hcm, rfl, fun _ _ href => href⟩

theorem communitiesKept_of_create {hash : UInt32} {name : Bytes}
    (hlt : ∀ hash cm, s.communities.lookup hash = some cm → cm < s.cms.next)
    (hfree : s.communities.lookup hash = none) (h : s'.registry = s.registry.create hash name) :
    CommunitiesKept s s' := by
  refine communitiesKept_of_registry fun hash' cm hcm => ?_
  have hhash : hash' ≠ hash := by
    rintro rfl
    rw [show s.registry.group hash' = none from hfree] at hcm
    cases hcm
  have hnew : cm ≠ s.registry.groups := Nat.ne_of_lt (hlt hash' cm hcm)
  rw [h]
  simp only [Registry.create, Function.update_apply, if_neg hhash, if_neg hnew]
  exact ⟨hcm, trivial, fun _ _ href => href⟩

section

variable (P : Platform) (env : Env) (s : Supernode) (cm : CommunityRef)
  (regMsg : Message RegisterRequest)

theorem communitiesKept_edgeUpdate : CommunitiesKept s (edgeUpdate P env s cm regMsg).1 := by
  rcases hup : edgeUpdate P env s cm regMsg with ⟨s', res⟩
  rcases edgeUpdate_spec hup with ⟨-, hsame⟩ | ⟨vip, hnone, -, henroll⟩ | ⟨ref, -, -, hwrite⟩
  · exact communitiesKept_of_registry_eq hsame
  · refine communitiesKept_of_registry fun hash cm' hcm' => ?_
    rw [henroll]
    refine ⟨hcm', rfl, fun mac ref href => ?_⟩
    simp only [Registry.enroll, Function.update_apply]
    split
    · next heq =>
      -- the new member was not in the community
      have hne : mac ≠ regMsg.edgeMACAddr := by
        rintro rfl
        rw [← heq, href] at hnone
        cases hnone
      subst heq
      exact (Function.update_of_ne hne _ _).trans href
    · exact href
  · refine communitiesKept_of_registry fun hash cm' hcm' => ?_
    rw [hwrite]
    exact ⟨hcm', rfl, fun _ _ href => href⟩

theorem communities_edgeUpdate :
    (edgeUpdate P env s cm regMsg).1.registry.group = s.registry.group ∧
      (edgeUpdate P env s cm regMsg).1.registry.groups = s.registry.groups := by
  rcases hup : edgeUpdate P env s cm regMsg with ⟨s', res⟩
  show s'.registry.group = _ ∧ s'.registry.groups = _
  rcases edgeUpdate_spec hup with ⟨-, h⟩ | ⟨_, -, -, h⟩ | ⟨_, -, -, h⟩ <;>
    rw [h] <;> exact ⟨rfl, rfl⟩

end

/-- The read-locked half of `RegisterCommunity`: it changes nothing, and a call that returns
a community has found it under the hash of its name. -/
theorem next_call {regMsg : Message RegisterRequest} {t : CommunityTask}
    (h : CommunityTask.next P s (.call env regMsg) = .ok (s', t)) :
    s' = s ∧ ((t = .missed env regMsg ∧
        hashCommunity regMsg.msg.communityName = regMsg.communityHash) ∨
      ∃ res, t = .returned env regMsg res ∧ ∀ cm, res = .ok cm →
        s.communities.lookup regMsg.communityHash = some cm ∧
          (s.cms.cell cm).name = regMsg.msg.communityName ∧
          hashCommunity regMsg.msg.communityName = regMsg.communityHash) := by
  unfold CommunityTask.next at h
  by_cases hhash : regMsg.communityHash = hashCommunity regMsg.msg.communityName
  · have hread : s.registerCommunityRead regMsg.msg.communityName regMsg.communityHash =
        .ok (s.communities.lookup regMsg.communityHash) := if_neg fun hne => hne hhash
    simp only [hread] at h
    cases hlook : s.communities.lookup regMsg.communityHash with
    | none =>
      simp only [hlook] at h
      cases h
      exact ⟨rfl, .inl ⟨rfl, hhash.symm⟩⟩
    | some cm =>
      simp only [hlook] at h
      cases h
      refine ⟨rfl, .inr ⟨_, rfl, fun cm' hex => ?_⟩⟩
      obtain ⟨rfl, hname⟩ := existingCommunity_ok hex
      exact ⟨rfl, hname, hhash.symm⟩
  · have hread : s.registerCommunityRead regMsg.msg.communityName regMsg.communityHash =
        .error (.wrongHash regMsg.communityHash regMsg.msg.communityName
          (hashCommunity regMsg.msg.communityName)) := if_pos hhash
    simp only [hread] at h
    cases h
    exact ⟨rfl, .inr ⟨_, rfl, fun _ hex => by cases hex⟩⟩

end Steps

/-! ## One step of one goroutine -/

section Interleaving

variable {P : Platform} {c c' : CommunityPool} {i : ℕ} {s : Supernode} {t : CommunityTask}

/-- A step keeps the invariant if it keeps the communities and what it claims itself is true. -/
theorem CommunitiesOrdered.advance (o : CommunitiesOrdered c) (hk : CommunitiesKept c.shared s)
    (hlt : ∀ hash cm, s.communities.lookup hash = some cm → cm < s.cms.next)
    (hsuccess : ∀ regMsg cm, t.success = some (regMsg, cm) →
      s.communities.lookup regMsg.communityHash = some cm ∧
        (s.cms.cell cm).name = regMsg.msg.communityName ∧
        hashCommunity regMsg.msg.communityName = regMsg.communityHash)
    (hcreates : ∀ regMsg, t.creates = some regMsg →
      hashCommunity regMsg.msg.communityName = regMsg.communityHash) :
    CommunitiesOrdered (c.advance i s t) := by
  refine ⟨hlt, fun j regMsg cm hj => ?_, fun j regMsg hj => ?_⟩
  · rw [Pool.task_advance] at hj
    split at hj
    · exact hsuccess regMsg cm hj
    · obtain ⟨hcm, hname, hhash⟩ := o.agree j regMsg cm hj
      obtain ⟨hcm', hname', -⟩ := hk _ _ hcm
      exact ⟨hcm', hname'.trans hname, hhash⟩
  · rw [Pool.task_advance] at hj
    split at hj
    · exact hcreates regMsg hj
    · exact o.hashed j regMsg hj

theorem communities_of_create {s s' : Supernode} {hash : UInt32} {name : Bytes}
    (h : s'.registry = s.registry.create hash name) :
    (∀ hash', s'.communities.lookup hash' =
        if hash' = hash then some s.cms.next else s.communities.lookup hash') ∧
      s'.cms.next = s.cms.next + 1 ∧ (s'.cms.cell s.cms.next).name = name := by
  refine ⟨fun hash' => ?_, congrArg Registry.groups h, ?_⟩
  · exact (congrFun (congrArg Registry.group h) hash').trans (Function.update_apply _ _ _ _)
  · exact (congrFun (congrArg Registry.name h) s.cms.next).trans (Function.update_self _ _ _)

/-- **One step that creates only under a free hash keeps the communities** and the
invariant. -/
theorem CommunitiesOrdered.step (o : CommunitiesOrdered c) (hfresh : CreatesFresh c i)
    (h : Pool.step (CommunityTask.next P) c i = .ok (c', ())) :
    CommunitiesOrdered c' ∧ CommunitiesKept c.shared c'.shared := by
  obtain ⟨s, t, hnext, rfl⟩ := Pool.step_eq_ok_iff.mp h
  have hstay := CommunitiesKept.refl c.shared
  cases htask : c.task i with
  | call env regMsg =>
    rw [htask] at hnext
    obtain ⟨rfl, ⟨rfl, hhash⟩ | ⟨res, rfl, hres⟩⟩ := next_call hnext
    · refine ⟨o.advance hstay o.known_lt (fun _ _ h => by cases h) fun _ h => ?_, hstay⟩
      cases h
      exact hhash
    · refine ⟨o.advance hstay o.known_lt (fun regMsg' cm h => ?_) (fun _ h => by cases h), hstay⟩
      cases res with
      | error e => cases h
      | ok _ =>
        cases h
        exact hres _ rfl
  | missed env regMsg =>
    have hcreates : (c.task i).creates = some regMsg := by rw [htask]; rfl
    have hhash := o.hashed i regMsg hcreates
    have hfree := hfresh regMsg hcreates
    rw [htask] at hnext
    obtain ⟨⟨s1, res⟩, hcreate, hres⟩ := bind_eq_ok.mp hnext
    cases hres
    rcases registerCommunityCreate_none hcreate with ⟨⟨e, rfl⟩, hsame⟩ | ⟨rfl, hnew⟩
    · have hk := communitiesKept_of_registry_eq hsame
      refine ⟨o.advance hk ?_ (fun _ _ h => by cases h) (fun _ h => by cases h), hk⟩
      intro hash cm hcm
      have hgroup : c.shared.registry.group hash = some cm := by rw [← hsame]; exact hcm
      exact lt_of_lt_of_eq (o.known_lt hash cm hgroup) (congrArg Registry.groups hsame).symm
    · have hk := communitiesKept_of_create o.known_lt hfree hnew
      obtain ⟨hgroup, hsucc, hname⟩ := communities_of_create hnew
      refine ⟨o.advance hk ?_ ?_ (fun _ h => by cases h), hk⟩
      · intro hash cm hcm
        rw [hgroup] at hcm
        show cm < s.cms.next
        rw [hsucc]
        split at hcm
        · cases hcm
          exact Nat.lt_succ_self _
        · exact Nat.lt_succ_of_lt (o.known_lt hash cm hcm)
      · intro regMsg' cm hsuccess
        cases hsuccess
        exact ⟨by rw [hgroup, if_pos rfl], hname, hhash⟩
  | returned env regMsg res =>
    rw [htask] at hnext
    cases res with
    | error e =>
      cases hnext
      exact ⟨o.advance hstay o.known_lt (fun _ _ h => by cases h) (fun _ h => by cases h), hstay⟩
    | ok cm =>
      cases hnext
      have hk := communitiesKept_edgeUpdate P env c.shared cm regMsg
      obtain ⟨hgroup, hgroups⟩ := communities_edgeUpdate P env c.shared cm regMsg
      obtain ⟨hcm, hname, hhash⟩ := o.agree i regMsg cm (by rw [htask]; rfl)
      obtain ⟨hcm', hname', -⟩ := hk _ _ hcm
      refine ⟨o.advance hk (fun hash cm' hcm1 => ?_) (fun _ _ h => ?_) (fun _ h => by cases h), hk⟩
      · have hlt := o.known_lt hash cm' ((congrFun hgroup hash).symm.trans hcm1)
        exact lt_of_lt_of_eq hlt hgroups.symm
      · cases h
        exact ⟨hcm', hname'.trans hname, hhash⟩
  | done regMsg res =>
    rw [htask] at hnext
    cases hnext
    refine ⟨o.advance hstay o.known_lt (fun regMsg' cm h => ?_) (fun _ h => by cases h), hstay⟩
    exact o.agree i regMsg' cm (by rw [htask]; exact h)

theorem communitiesOrdered_begin (h : CommunitiesBegin P c) : CommunitiesOrdered c := by
  obtain ⟨s, task, hreach, hcall, rfl⟩ := h
  refine ⟨fun hash cm hcm => hreach.valid.group_lt hcm, fun i regMsg cm h => ?_, fun i regMsg h => ?_⟩
  · obtain ⟨env, regMsg', hi⟩ := hcall i
    rw [show (Pool.start s task).task i = task i from rfl, hi] at h
    cases h
  · obtain ⟨env, regMsg', hi⟩ := hcall i
    rw [show (Pool.start s task).task i = task i from rfl, hi] at h
    cases h

end Interleaving

/-- **A community stays where it is.** In every interleaving in which a call creates a
community only while its hash is still free, a community once under a hash stays there with
all its members; all calls that succeed for a hash return it and carry its name.
GOLINE: supernode/registration.go:14-52, supernode/registration.go:76-98 -/
theorem communities_in_order (P : Platform) (c c' : CommunityPool)
    (h : Reach (Pool.step (CommunityTask.next P)) (CommunitiesBegin P) CreatesFresh c)
    (h' : Reach (Pool.step (CommunityTask.next P)) (· = c) CreatesFresh c') :
    CommunitiesKept c.shared c'.shared ∧ CallsAgree c' ∧
      ∀ i j regMsg regMsg' cm cm', (c'.task i).success = some (regMsg, cm) →
        (c'.task j).success = some (regMsg', cm') → regMsg.communityHash = regMsg'.communityHash →
        cm = cm' ∧ regMsg.msg.communityName = regMsg'.msg.communityName := by
  have o : CommunitiesOrdered c :=
    Reach.invariant (I := CommunitiesOrdered) (fun _ h0 => communitiesOrdered_begin h0)
      (fun _ _ _ _ hI hadm hstep => (hI.step hadm hstep).1) h
  have hrun : CommunitiesOrdered c' ∧ CommunitiesKept c.shared c'.shared :=
    Reach.invariant (I := fun c1 => CommunitiesOrdered c1 ∧ CommunitiesKept c.shared c1.shared)
      (fun c1 h0 => by
        subst h0
        exact ⟨o, .refl _⟩)
      (fun c1 _ c2 _ hI hadm hstep => by
        obtain ⟨ho, hk⟩ := hI.1.step hadm hstep
        exact ⟨ho, hI.2.trans hk⟩) h'
  refine ⟨hrun.2, hrun.1.agree, fun i j regMsg regMsg' cm cm' hi hj hhash => ?_⟩
  obtain ⟨hcm, hname, -⟩ := hrun.1.agree i regMsg cm hi
  obtain ⟨hcm', hname', -⟩ := hrun.1.agree j regMsg' cm' hj
  rw [hhash, hcm'] at hcm
  cases hcm
  exact ⟨rfl, hname.symm.trans hname'⟩

/-! ## First registrations of the sample supernode -/

/-- Machine `m` and all others register in `c` at the same time. -/
def firstRegistrations : CommunityPool :=
  .start Sample.start fun i =>
    .call Sample.env (joinMessage "c" (if i = 0 then "m" else "n") (if i = 0 then 1 else 2))

theorem communitiesBegin_firstRegistrations :
    CommunitiesBegin Sample.platform firstRegistrations :=
  ⟨_, _, Sample.reachable_start, fun _ => ⟨_, _, rfl⟩, rfl⟩

def createsFresh (c : CommunityPool) (i : ℕ) : Bool :=
  (c.task i).creates.all fun regMsg =>
    (c.shared.communities.lookup regMsg.communityHash).isNone

theorem creates_fresh_of_test (c : CommunityPool) (i : ℕ) (h : createsFresh c i = true) :
    CreatesFresh c i := by
  intro regMsg hcreates
  unfold createsFresh at h
  rw [hcreates] at h
  exact Option.isNone_iff_eq_none.mp h

/-- The first registration creates the community and joins it; the second finds it, and the
member is still there. -/
theorem communities_one_after_the_other :
    ∃ c c' : CommunityPool, (c.shared.cms.cell 0).edges.lookup (macText "c" "m") = some 0 ∧
      (c.shared.communities.lookup (hashCommunity (ascii "c")) = some 0) ∧
      (c'.task 1).success.isSome ∧ CommunitiesKept c.shared c'.shared := by
  obtain ⟨⟨c, c'⟩, hrun, htest⟩ := (Option.any_eq_true _ _).mp (show Option.any
    (fun res : CommunityPool × CommunityPool => decide (
      (res.1.shared.cms.cell 0).edges.lookup (macText "c" "m") = some 0 ∧
      res.1.shared.communities.lookup (hashCommunity (ascii "c")) = some 0 ∧
      (res.2.task 1).success.isSome))
    (do
      let c ← runAllowed (Pool.step (CommunityTask.next Sample.platform)) createsFresh
        firstRegistrations [0, 0, 0]
      let c' ← runAllowed (Pool.step (CommunityTask.next Sample.platform)) createsFresh c [1, 1]
      some (c, c')) = true by decide +kernel)
  obtain ⟨c1, hc, hrest⟩ := Option.bind_eq_some_iff.mp hrun
  obtain ⟨c2, hc', hrest⟩ := Option.bind_eq_some_iff.mp hrest
  cases hrest
  obtain ⟨hmember, hcm, hsuccess⟩ := of_decide_eq_true htest
  have hreach := Reach.of_runAllowed creates_fresh_of_test
    (.init communitiesBegin_firstRegistrations) hc
  have hreach' : Reach (Pool.step (CommunityTask.next Sample.platform)) (· = c) CreatesFresh c' :=
    .of_runAllowed creates_fresh_of_test (.init rfl) hc'
  exact ⟨c, c', hmember, hcm, hsuccess,
    (communities_in_order Sample.platform c c' hreach hreach').1⟩

/-- Both calls look before either creates: the second replaces the community of the first,
and the member is no longer found. -/
theorem community_is_replaced :
    ∃ c c' : CommunityPool,
      Reach (Pool.step (CommunityTask.next Sample.platform)) (CommunitiesBegin Sample.platform)
        (fun _ _ => True) c ∧
      Reach (Pool.step (CommunityTask.next Sample.platform)) (· = c) (fun _ _ => True) c' ∧
      c.shared.communities.lookup (hashCommunity (ascii "c")) = some 0 ∧
      macText "c" "m" ∈ (c.shared.cms.cell 0).edges ∧
      c'.shared.communities.lookup (hashCommunity (ascii "c")) = some 1 ∧
      macText "c" "m" ∉ (c'.shared.cms.cell 1).edges := by
  obtain ⟨⟨c, c'⟩, hrun, htest⟩ := exists_of_passes
    (x := do
      let c ← runEvents (Pool.step (CommunityTask.next Sample.platform)) firstRegistrations
        [0, 1, 0, 0]
      let c' ← runEvents (Pool.step (CommunityTask.next Sample.platform)) c [1]
      .ok (c, c'))
    (p := fun res => decide (
      res.1.shared.communities.lookup (hashCommunity (ascii "c")) = some 0 ∧
      macText "c" "m" ∈ (res.1.shared.cms.cell 0).edges ∧
      res.2.shared.communities.lookup (hashCommunity (ascii "c")) = some 1 ∧
      macText "c" "m" ∉ (res.2.shared.cms.cell 1).edges)) (by decide +kernel)
  obtain ⟨c1, hc, hrest⟩ := bind_eq_ok.mp hrun
  obtain ⟨c2, hc', hrest⟩ := bind_eq_ok.mp hrest
  cases hrest
  exact ⟨c, c', Reach.of_runEvents (.init communitiesBegin_firstRegistrations) hc,
    Reach.of_runEvents (.init rfl) hc', of_decide_eq_true htest⟩

end N2nGo.Supernode
