import N2nGo.Analysis.Sample

/-!
# When handling a packet panics

`processPacket` reads the first byte of the packet before it looks at the length, so an
empty packet panics. Two requests panic as well: a removal whose edge is a member of its
community but missing from `edgesByMAC`, and a registration that has to create a
community on a supernode whose network or mask has less than four bytes. Everything
else runs to completion, in every state and from every address.
-/

set_option autoImplicit false

namespace N2nGo.Supernode

open N2nGo.Lib N2nGo.Protocol N2nGo.Messages

variable {P : Platform} {env : Env} {s : Supernode} {r : RawMessage}

/-- The message is a valid removal request of a member that `edgesByMAC` does not know. -/
def RemovesUnindexed (P : Platform) (s : Supernode) (r : RawMessage) : Prop :=
  ∃ unReg id cm, toMessage P.codecs.unregisterRequest r = .ok unReg ∧
    validateEdgeClaimedMACAddr P r.edgeMACAddr unReg.msg.encryptedMachineId
      unReg.msg.communityName = .ok id ∧
    s.getCommunity r = .ok cm ∧ s.edgesByMAC.lookup r.edgeMACAddr = none

/-- The message is a valid registration in a community that does not exist yet, and the
configured network or mask is not an IPv4 one. -/
def CreatesWithoutNetwork (P : Platform) (s : Supernode) (r : RawMessage) : Prop :=
  ∃ reg id, toMessage P.codecs.registerRequest r = .ok reg ∧
    validateEdgeClaimedMACAddr P r.edgeMACAddr reg.msg.encryptedMachineId
      reg.msg.communityName = .ok id ∧
    r.communityHash = hashCommunity reg.msg.communityName ∧
    s.communities.lookup r.communityHash = none ∧
    ¬ (4 ≤ s.netAllocator.baseNetwork.length ∧ 4 ≤ s.netAllocator.mask.length)

theorem completes_registerCommunity_iff (P : Platform) (s : Supernode) (name : Bytes)
    (hash : UInt32) :
    Completes (registerCommunity P s name hash) ↔
      ¬ (hash = hashCommunity name ∧ s.communities.lookup hash = none ∧
        ¬ (4 ≤ s.netAllocator.baseNetwork.length ∧ 4 ≤ s.netAllocator.mask.length)) := by
  rw [← completes_proposeVirtualNetwork_iff P s.netAllocator name]
  unfold registerCommunity registerCommunityRead
  by_cases hhash : hash = hashCommunity name
  · subst hhash
    cases hlook : s.communities.lookup (hashCommunity name) with
    | some cm => simp
    | none =>
      simp only [ne_eq, not_true_eq_false, if_false, true_and, not_not,
        registerCommunityCreate]
      refine completes_bind_of_total fun subnet => ?_
      cases subnet with
      | none => exact completes_ok _
      | some subnet =>
        rcases hnew : newCommunityWithConfig P s name subnet with ⟨s1, _ | c⟩
        · simp only [hnew, completes_ok]
        · simp only [hnew, completes_ok]
  · simp [hhash]

/-- A validated registration completes exactly when its community can be found or created. -/
theorem completes_registerEdge_iff {reg : Message RegisterRequest} :
    Completes (registerEdge P env s reg) ↔
      ∀ id, validateEdgeClaimedMACAddr P reg.edgeMACAddr reg.msg.encryptedMachineId
        reg.msg.communityName = .ok id →
        Completes (registerCommunity P s reg.msg.communityName reg.communityHash) := by
  unfold registerEdge
  cases validateEdgeClaimedMACAddr P reg.edgeMACAddr reg.msg.encryptedMachineId
      reg.msg.communityName with
  | error e => simp
  | ok id =>
    simp only [Except.ok.injEq, forall_eq']
    refine completes_bind_of_total fun ⟨s1, res⟩ => ?_
    cases res with
    | error e => exact completes_ok _
    | ok cm =>
      simp only
      rcases edgeUpdate P env s1 cm { reg with msg := { reg.msg with clearMachineId := id } }
        with ⟨s2, _ | ref⟩
      · exact completes_ok _
      · exact completes_ok _

theorem completes_handleRegisterMessage_iff :
    Completes (handleRegisterMessage P env s r) ↔ ¬ CreatesWithoutNetwork P s r := by
  unfold handleRegisterMessage withMessage CreatesWithoutNetwork
  cases hmsg : toMessage P.codecs.registerRequest r with
  | error e => simp
  | ok reg =>
    obtain rfl : reg.toRawMessage = r := toMessage_ok hmsg
    have htail : ∀ res, Completes (answerRegister P env reg.toRawMessage reg.msg.communityName res) := by
      rintro ⟨s1, e | ⟨ref, cm⟩⟩
      · obtain ⟨f, out, err, h, -⟩ :=
          answerRegister_error P env reg.toRawMessage reg.msg.communityName s1 e
        exact ⟨_, h⟩
      · obtain ⟨f, out, err, h, -⟩ :=
          answerRegister_ok P env reg.toRawMessage reg.msg.communityName s1 ref cm rfl
        exact ⟨_, h⟩
    rw [completes_bind_of_total htail, completes_registerEdge_iff]
    simp only [completes_registerCommunity_iff, Except.ok.injEq]
    constructor
    · rintro h ⟨reg', id, rfl, hval, hbad⟩
      exact h id hval hbad
    · intro h id hval hbad
      exact h ⟨reg, id, rfl, hval, hbad⟩

theorem completes_handleUnregisterMessage_iff :
    Completes (handleUnregisterMessage P env s r) ↔ ¬ RemovesUnindexed P s r := by
  unfold handleUnregisterMessage withMessage RemovesUnindexed
  cases hmsg : toMessage P.codecs.unregisterRequest r with
  | error e => simp
  | ok unReg =>
    simp only [Except.ok.injEq]
    cases hval : validateEdgeClaimedMACAddr P r.edgeMACAddr unReg.msg.encryptedMachineId
        unReg.msg.communityName with
    | error e =>
      simp only [completes_ok, true_iff]
      rintro ⟨unReg', id, cm, rfl, hval', -⟩
      rw [hval] at hval'
      cases hval'
    | ok id =>
      simp only [unregisterEdge]
      cases hcm : s.getCommunity r with
      | error e => simp
      | ok cm =>
        -- a member is found by `unregister`, which leaves `edgesByMAC` alone
        obtain ⟨-, ref, hmember⟩ := getCommunity_eq_ok_iff.mp hcm
        rcases hun : unregister env s cm r.edgeMACAddr with ⟨s1, found⟩
        cases found with
        | false =>
          rw [(unregister_false hun).2] at hmember
          cases hmember
        | true =>
          have hkey : s1.edgesByMAC.lookup r.edgeMACAddr = s.edgesByMAC.lookup r.edgeMACAddr :=
            congrFun (congrArg Registry.byKey (unregister_true hun).2) r.edgeMACAddr
          simp only [hun]
          refine (completes_bind_of_total fun a => completes_ok _).trans ?_
          rw [completes_onEdgeUnregistered_iff, hkey]
          cases hlook : s.edgesByMAC.lookup r.edgeMACAddr with
          | none =>
            simp only [reduceCtorEq, exists_false, false_iff, not_not]
            exact ⟨unReg, id, cm, rfl, hval, rfl, trivial⟩
          | some ref' =>
            simp only [Option.some.injEq, exists_eq', true_iff]
            rintro ⟨-, -, -, -, -, -, hnone⟩
            cases hnone

/-! ## All handlers -/

theorem completes_handleHeartbeatMessage : Completes (handleHeartbeatMessage P env s r) := by
  obtain ⟨s', out, err, h, -⟩ := handleHeartbeatMessage_returns P env s r
  exact ⟨_, h⟩

theorem toMessage_ne_ok {T : Type} [PacketTyped T] {codec : Codec T} {m : Message T}
    (h : r.header.packetType ≠ PacketTyped.packetType T) : toMessage codec r ≠ .ok m := by
  unfold toMessage
  rw [if_pos h]
  exact fun hm => by cases hm

theorem completes_handle_iff (hraw : IsProtoV r.rawPacket) :
    Completes (handle P env s r) ↔ ¬ RemovesUnindexed P s r ∧ ¬ CreatesWithoutNetwork P s r := by
  have hrem : r.header.packetType ≠ typeUnregisterRequest → ¬ RemovesUnindexed P s r :=
    fun hne ⟨_, _, _, hmsg, _⟩ => toMessage_ne_ok hne hmsg
  have hcre : r.header.packetType ≠ typeRegisterRequest → ¬ CreatesWithoutNetwork P s r :=
    fun hne ⟨_, _, hmsg, _⟩ => toMessage_ne_ok hne hmsg
  refine handle_induction
    (C := fun x => Completes x ↔ ¬ RemovesUnindexed P s r ∧ ¬ CreatesWithoutNetwork P s r)
    (fun ht => ?_) (fun ht => ?_) (fun ht => ?_) (fun hr x hx => ?_) hraw
  · rw [completes_handleRegisterMessage_iff]
    exact ⟨fun h => ⟨hrem (by rw [ht]; decide), h⟩, And.right⟩
  · rw [completes_handleUnregisterMessage_iff]
    exact ⟨fun h => ⟨h, hcre (by rw [ht]; decide)⟩, And.left⟩
  · exact iff_of_true completes_handleHeartbeatMessage
      ⟨hrem (by rw [ht]; decide), hcre (by rw [ht]; decide)⟩
  · exact iff_of_true hx.completes ⟨hrem fun h => hr (Or.inr (Or.inl h)), hcre fun h => hr (Or.inl h)⟩

theorem completes_handleVFuze (env : Env) (s : Supernode) (rest : Bytes) (addr : NetAddr) :
    Completes (handleVFuze env s (versionVFuze :: rest) addr) := by
  by_cases hlen : 6 ≤ rest.length
  · exact ⟨_, handleVFuze_eq env s addr hlen⟩
  · exact ⟨_, handleVFuze_short env s addr (by simp only [List.length_cons]; omega)⟩

theorem completes_askForRegistration (env : Env) (s : Supernode) (out : List Sent)
    (addr : NetAddr) : Completes (askForRegistration env s out addr) := by
  cases addr with
  | wss connID => exact completes_ok _
  | udp a =>
    obtain ⟨xs, err, h, -⟩ := writePacket_returns env s out typeRetryRegisterRequest [] [] (.udp a)
    exact ⟨out ++ xs, by simp only [askForRegistration, h, ok_bind]⟩

/-- **When `ProcessPacket` runs to completion.** In every state and from every address it
does so exactly when the packet has a first byte and is not one of the two requests
above.
GOLINE: supernode/supernode.go:133-163 -/
theorem completes_processPacket_iff (P : Platform) (env : Env) (s : Supernode) (packet : Bytes)
    (addr : NetAddr) :
    Completes (processPacket P env s packet addr) ↔
      packet ≠ [] ∧ ∀ r, newRawMessage packet addr = .ok (.ok r) →
        ¬ RemovesUnindexed P s r ∧ ¬ CreatesWithoutNetwork P s r := by
  cases packet with
  | nil => simp [processPacket, index]
  | cons version rest =>
    simp only [processPacket, index_cons_zero, ok_bind, ne_eq, reduceCtorEq, not_false_eq_true,
      true_and]
    split
    · next hv =>
      subst hv
      rw [completes_bind_of_total fun out => completes_ok _]
      refine iff_of_true (completes_handleVFuze env _ rest addr) fun r hr => ?_
      -- a packet of the fast path is no ProtoV packet
      obtain ⟨hp, -⟩ := newRawMessage_ok hr
      have := hp.2
      simp only [List.head?_cons, Option.some.injEq] at this
      exact absurd this (by decide)
    · obtain ⟨raw, hraw⟩ := completes_newRawMessage (version :: rest) addr
      rw [hraw, ok_bind]
      cases raw with
      | error e => simp
      | ok r =>
        simp only [Except.ok.injEq, forall_eq']
        obtain ⟨hp, rfl⟩ := newRawMessage_ok hraw
        refine (completes_bind_of_total ?_).trans (completes_handle_iff hp)
        -- whatever the handler answers, the reply to it completes
        rintro ⟨s1, out1, err1⟩
        cases err1 with
        | ok u => exact completes_ok _
        | error e =>
          simp only
          split
          · exact (completes_bind_of_total fun out => completes_ok _).mpr
              (completes_askForRegistration env s1 out1 addr)
          · exact completes_ok _

/-- The receive loops pass on whatever length the socket returns, also zero. -/
theorem processPacket_empty_panics :
    processPacket Sample.platform Sample.env Sample.start [] (Sample.client 1) =
      .error .indexOutOfRange := rfl

end N2nGo.Supernode
