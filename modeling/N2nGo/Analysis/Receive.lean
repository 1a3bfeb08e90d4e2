import N2nGo.Analysis.EdgeEvents
import N2nGo.Analysis.Sample

/-!
# Receiving datagrams

An edge reads every datagram into the same buffer and takes the branch for the fast path
before it looks at the length. A datagram of at least seven bytes is treated by its own
bytes (`receive_long`). A shorter one is completed by whatever the buffer holds, and if
that makes it a fast-path packet for the edge itself, cutting the payload out panics
(`receive_short`). The other panics are those of the handlers (`receive_safe_iff`).
-/

set_option autoImplicit false

namespace N2nGo.EdgeClient

open N2nGo.Lib N2nGo.Protocol N2nGo.Messages

/-- The edge after one more datagram. -/
def counted (e : EdgeClient) : EdgeClient := { e with packetsRecv := e.packetsRecv + 1 }

variable {P : Platform} {env : Env} {e : EdgeClient} {d stale : Bytes} {addr : NetAddr}

theorem length_filled (h : stale.length = defaultBufferSize) :
    defaultBufferSize ≤ (filled d stale).length := by
  simp only [filled, List.length_append, List.length_drop, h]
  omega

/-! ## The fast path -/

/-- A buffer that starts like a fast-path packet: if the destination is the edge itself, the
payload is cut out at `n`. -/
theorem handleVFuzePacket_cons {rest : Bytes} (hlen : 6 ≤ rest.length) (n : ℕ)
    (addr : Option Net.UDPAddr) :
    e.handleVFuzePacket env (versionVFuze :: rest) n addr =
      if e.enableVFuze ∧ rest.take 6 = e.macAddr.bytes then do
        let payload ← slice (versionVFuze :: rest) protoVFuzeSize n
        .ok (e.handleDataPayload env payload)
      else .ok (e, [], .ok ()) := by
  have h7 : ¬ (versionVFuze :: rest).length < protoVFuzeSize := by
    simp only [List.length_cons, protoVFuzeSize]
    omega
  have hslice : slice (versionVFuze :: rest) 1 7 = .ok (rest.take 6) :=
    slice_of_le (by omega) (by simp only [List.length_cons]; omega)
  unfold handleVFuzePacket vFuzePacketDestMACAddr
  cases e.enableVFuze with
  | false => simp
  | true =>
    rw [if_neg h7, index_cons_zero]
    simp only [not_true_eq_false, if_false, ok_bind, ne_eq, hslice, true_and]
    by_cases hmac : rest.take 6 = e.macAddr.bytes
    · rw [if_neg (fun h => h (by rw [hmac])), if_pos hmac]
      rfl
    · rw [if_pos (fun h => hmac (Net.hardwareAddrString_injective h).symm), if_neg hmac]

/-! ## Both formats -/

/-- What a datagram of at least seven bytes does. -/
def receiveDatagram (P : Platform) (env : Env) (e : EdgeClient) (d : Bytes) (addr : NetAddr) :
    Go (EdgeClient × List Output) :=
  if d.head? = some versionVFuze then
    if e.enableVFuze ∧ (d.drop 1).take 6 = e.macAddr.bytes then
      .ok (e.counted, (e.counted.handleDataPayload env (d.drop protoVFuzeSize)).2.1)
    else .ok (e.counted, [])
  else if d.length < protoVHeaderSize then .ok (e.counted, [])
  else e.counted.handlePacket P env d addr

theorem receive_long (hlen : protoVFuzeSize ≤ d.length) :
    e.receive P env (filled d stale) d.length addr = receiveDatagram P env e d addr := by
  have h7 : 7 ≤ d.length := hlen
  obtain ⟨b, tail, rfl⟩ := List.exists_cons_of_length_pos (l := d) (by omega)
  have h6 : 6 ≤ tail.length := by simp only [List.length_cons] at h7; omega
  unfold receive receiveDatagram
  rw [filled, List.cons_append, index_cons_zero]
  simp only [ok_bind, List.head?_cons, Option.some.injEq, List.drop_succ_cons, List.drop_zero]
  by_cases hb : b = versionVFuze
  · subst hb
    rw [if_pos rfl, if_pos rfl]
    rw [handleVFuzePacket_cons (by rw [List.length_append]; omega), List.take_append_of_le_length h6]
    have hslice : slice (versionVFuze :: (tail ++ stale.drop (versionVFuze :: tail).length))
        protoVFuzeSize (versionVFuze :: tail).length = .ok ((versionVFuze :: tail).drop protoVFuzeSize) := by
      rw [slice_of_le hlen (by simp), ← List.cons_append, List.take_left]
    by_cases hmac : e.enableVFuze = true ∧ tail.take 6 = e.macAddr.bytes
    · rw [if_pos hmac, if_pos hmac, hslice]
      simp only [ok_bind]
      rw [handleDataPayload_fst]
      rfl
    · rw [if_neg hmac, if_neg hmac]
      rfl
  · rw [if_neg hb, if_neg hb]
    have hslice : slice (b :: (tail ++ stale.drop (b :: tail).length)) 0 (b :: tail).length =
        .ok (b :: tail) := by
      rw [slice_from_start (by simp), ← List.cons_append, List.take_left]
    split
    · rfl
    · rw [hslice]
      rfl

theorem receive_vFuze (hfuze : e.enableVFuze = true) (payload : Bytes)
    (hd : d = versionVFuze :: e.macAddr.bytes ++ payload) :
    e.receive P env (filled d stale) d.length addr =
      .ok (e.counted, (e.counted.handleDataPayload env payload).2.1) := by
  have h7 : (versionVFuze :: e.macAddr.bytes).length = 7 := by
    rw [List.length_cons, e.macAddr.length_eq]
  have hlen : protoVFuzeSize ≤ d.length := by
    rw [hd, List.length_append, h7]
    exact Nat.le_add_right 7 _
  have hmac : (d.drop 1).take 6 = e.macAddr.bytes := by
    rw [hd]
    exact List.take_left' e.macAddr.length_eq
  have hdrop : d.drop protoVFuzeSize = payload := by
    rw [hd]
    exact List.drop_left' h7
  rw [receive_long hlen, receiveDatagram, if_pos (by rw [hd]; rfl), if_pos ⟨hfuze, hmac⟩, hdrop]

/-- A datagram of less than seven bytes does nothing, unless it and what the buffer holds
make a fast-path packet for the edge itself. -/
theorem receive_short (hlen : d.length < protoVFuzeSize) (hstale : stale.length = defaultBufferSize) :
    e.receive P env (filled d stale) d.length addr =
      if e.enableVFuze ∧ (filled d stale).take 7 = versionVFuze :: e.macAddr.bytes then
        .error .indexOutOfRange
      else .ok (e.counted, []) := by
  have hbuf : defaultBufferSize ≤ (filled d stale).length := length_filled hstale
  generalize filled d stale = buf at hbuf
  obtain ⟨b, tail, rfl⟩ := List.exists_cons_of_length_pos (l := buf)
    (Nat.lt_of_lt_of_le (by decide) hbuf)
  have h6 : 6 ≤ tail.length := by
    simp only [List.length_cons, defaultBufferSize] at hbuf
    omega
  unfold receive
  rw [index_cons_zero]
  simp only [ok_bind, List.take_succ_cons, List.cons.injEq]
  by_cases hb : b = versionVFuze
  · subst hb
    rw [if_pos rfl, handleVFuzePacket_cons h6]
    have hslice : slice (versionVFuze :: tail) protoVFuzeSize d.length = .error .indexOutOfRange :=
      if_neg fun h => absurd h.1 (Nat.not_le_of_lt hlen)
    simp only [true_and]
    by_cases hmac : e.enableVFuze = true ∧ tail.take 6 = e.macAddr.bytes
    · rw [if_pos hmac, if_pos hmac, hslice]
      rfl
    · rw [if_neg hmac, if_neg hmac]
      rfl
  · have h30 : d.length < protoVHeaderSize := Nat.lt_trans hlen (by decide)
    rw [if_neg hb, if_pos h30, if_neg fun h => hb h.2.1]
    rfl

/-! ## Messages -/

/-- The message is one that a handler panics on.
GOLINE: p2p/p2p.go:358-364, edge/handlers.go:145-156, edge/handlers_missing.go:76-87 -/
def FollowsNil (P : Platform) (e : EdgeClient) (r : RawMessage) : Prop :=
  NamesMissingOrigin P r ∨ (AnswersLeases P r ∧ e.eapi = none) ∨ AsksOnline P r

theorem completes_handle_iff (r : RawMessage) :
    Completes (e.handle P env r) ↔ ¬ FollowsNil P e r := by
  constructor
  · rintro hok (⟨m, hm, hbad⟩ | ⟨⟨m, hm, hreq⟩, hapi⟩ | ⟨m, hm, hreply⟩)
    · have htype : r.header.packetType = typePeerInfo := packetType_of_toMessage hm
      have hhandle : e.handle P env r = e.handlePeerInfoMessage P env r := by
        simp [handle, htype, typePeerInfo, typeData]
      rw [hhandle] at hok
      exact completes_handlePeerInfoMessage_iff.mp hok ⟨m, hm, hbad⟩
    · have htype : r.header.packetType = typeLeasesInfos := packetType_of_toMessage hm
      have hhandle : e.handle P env r = e.handleLeasesInfosMessage P r := by
        simp [handle, htype, typePeerInfo, typeData, typePing, typeP2PFullState, typeLeasesInfos]
      rw [hhandle] at hok
      exact completes_handleLeasesInfosMessage_iff.mp hok ⟨⟨m, hm, hreq⟩, hapi⟩
    · have htype : r.header.packetType = typeOnlineCheck := packetType_of_toMessage hm
      have hhandle : e.handle P env r = e.handleOnlineCheckMessage P env r := by
        unfold handle
        rw [htype]
        rfl
      rw [hhandle] at hok
      exact completes_handleOnlineCheckMessage_iff.mp hok ⟨m, hm, hreply⟩
  · intro hnil
    refine handle_induction (C := Completes) (fun _ => Serves.completes) ?_ ?_ ?_
    · exact completes_handlePeerInfoMessage_iff.mpr fun h => hnil (.inl h)
    · exact completes_handleLeasesInfosMessage_iff.mpr fun h => hnil (.inr (.inl h))
    · exact completes_handleOnlineCheckMessage_iff.mpr fun h => hnil (.inr (.inr h))

theorem completes_handlePacket_iff :
    Completes (e.handlePacket P env d addr) ↔
      ∀ r, newRawMessage d addr = .ok (.ok r) → ¬ FollowsNil P e r := by
  obtain ⟨raw, hraw⟩ := completes_newRawMessage d addr
  unfold handlePacket
  rw [hraw]
  cases raw with
  | error err => simp
  | ok r =>
    simp only [ok_bind, Except.ok.injEq, forall_eq']
    exact (completes_bind_of_total fun _ => completes_ok _).trans (completes_handle_iff r)

/-- The datagram is shorter than a fast-path packet and begins like one for the edge.
GOLINE: edge/handlers.go:68-96 -/
def CutsFastPath (e : EdgeClient) (d : Bytes) : Prop :=
  e.enableVFuze = true ∧ d.length < protoVFuzeSize ∧ d <+: versionVFuze :: e.macAddr.bytes

theorem completes_receiveDatagram_iff :
    Completes (receiveDatagram P env e d addr) ↔
      ∀ r, newRawMessage d addr = .ok (.ok r) → ¬ FollowsNil P e r := by
  unfold receiveDatagram
  split
  · next hfuze =>
    -- a packet of the fast path is no ProtoV packet
    refine iff_of_true (by split <;> exact completes_ok _) fun r hr => ?_
    obtain ⟨hp, -⟩ := newRawMessage_ok hr
    rw [hp.2] at hfuze
    exact absurd hfuze (by decide)
  · split
    · next hshort =>
      refine iff_of_true (completes_ok _) fun r hr => ?_
      obtain ⟨hp, -⟩ := newRawMessage_ok hr
      exact absurd hp.1 (Nat.not_le_of_lt hshort)
    · exact completes_handlePacket_iff

/-- The bytes of the buffer that complete a datagram to a fast-path packet for the edge
exist exactly when the datagram begins like one. -/
theorem take_filled_iff (hlen : d.length < protoVFuzeSize) (mac : MacID) :
    (∃ stale, stale.length = defaultBufferSize ∧
        (filled d stale).take 7 = versionVFuze :: mac.bytes) ↔
      d <+: versionVFuze :: mac.bytes := by
  have h7 : (versionVFuze :: mac.bytes).length = 7 := by
    rw [List.length_cons, mac.length_eq]
  constructor
  · rintro ⟨stale, -, htake⟩
    rw [← htake]
    exact List.prefix_take_iff.mpr ⟨List.prefix_append _ _, Nat.le_of_lt hlen⟩
  · rintro ⟨t, ht⟩
    refine ⟨versionVFuze :: mac.bytes ++ List.replicate (defaultBufferSize - 7) 0, ?_, ?_⟩
    · rw [List.length_append, h7, List.length_replicate]
      decide
    · rw [← ht, filled, List.append_assoc, List.drop_left, ← List.append_assoc, ht]
      exact List.take_left' h7

/-- **When a receive step is safe.** It completes for every content of the reused buffer, and
does the same for all of them, exactly when the datagram is not cut short on the fast
path and its message makes no handler follow a nil, the nil message info of an `Ack`
included.
GOLINE: edge/routines.go:249-280, edge/handlers.go:68-96 -/
theorem receive_safe_iff (P : Platform) (env : Env) (e : EdgeClient) (d : Bytes) (addr : NetAddr) :
    (∀ stale, stale.length = defaultBufferSize →
        Completes (e.receive P env (filled d stale) d.length addr) ∧
        ∀ stale', stale'.length = defaultBufferSize →
          e.receive P env (filled d stale) d.length addr =
            e.receive P env (filled d stale') d.length addr) ↔
      ¬ CutsFastPath e d ∧
        ∀ r, newRawMessage d addr = .ok (.ok r) →
          ¬ NamesMissingOrigin P r ∧ ¬ (AnswersLeases P r ∧ e.eapi = none) ∧
            ¬ AsksOnline P r := by
  simp only [← not_or, ← FollowsNil.eq_1]
  by_cases hlen : d.length < protoVFuzeSize
  · have hnone : ∀ r, newRawMessage d addr = .ok (.ok r) → ¬ FollowsNil P e r := by
      intro r hr
      obtain ⟨hp, -⟩ := newRawMessage_ok hr
      exact absurd hp.1 (Nat.not_le_of_lt (Nat.lt_trans hlen (by decide)))
    rw [and_iff_left hnone]
    constructor
    · rintro hsafe ⟨hfuze, -, hpre⟩
      obtain ⟨stale, hstale, htake⟩ := (take_filled_iff hlen _).mpr hpre
      have hok := (hsafe stale hstale).1
      rw [receive_short hlen hstale, if_pos ⟨hfuze, htake⟩] at hok
      obtain ⟨_, hok⟩ := hok
      cases hok
    · intro hcut stale hstale
      have hquiet : ∀ stale, stale.length = defaultBufferSize →
          e.receive P env (filled d stale) d.length addr = .ok (e.counted, []) := by
        intro stale hstale
        rw [receive_short hlen hstale, if_neg]
        rintro ⟨hfuze, htake⟩
        exact hcut ⟨hfuze, hlen, (take_filled_iff hlen _).mp ⟨stale, hstale, htake⟩⟩
      refine ⟨⟨_, hquiet stale hstale⟩, fun stale' hstale' => ?_⟩
      rw [hquiet stale hstale, hquiet stale' hstale']
  · have hlong : protoVFuzeSize ≤ d.length := Nat.le_of_not_lt hlen
    rw [and_iff_right fun hcut : CutsFastPath e d => hlen hcut.2.1]
    simp only [receive_long hlong, implies_true, and_true, completes_receiveDatagram_iff]
    constructor
    · exact fun h => h (List.replicate defaultBufferSize 0) List.length_replicate
    · exact fun h _ _ => h

/-- After a fast-path packet for the edge an empty datagram panics. -/
theorem receive_empty_after (hfuze : e.enableVFuze = true) (hstale : stale.length = defaultBufferSize)
    (hd : d = versionVFuze :: e.macAddr.bytes) :
    ∃ e' out, e.receive P env (filled d stale) d.length addr = .ok (e', out) ∧
      e'.receive P env (filled [] (filled d stale)) 0 addr = .error .indexOutOfRange := by
  have h7 : d.length = 7 := by rw [hd, List.length_cons, e.macAddr.length_eq]
  have hbuf : (filled d stale).length = defaultBufferSize := by
    rw [filled, List.length_append, List.length_drop, hstale, h7]
    decide
  refine ⟨_, _, receive_vFuze hfuze [] (by rw [hd, List.append_nil]), ?_⟩
  refine (receive_short (d := []) (by decide) hbuf).trans (if_pos ⟨hfuze, ?_⟩)
  exact (List.take_left' h7).trans hd

/-- An edge that has just been set up receives a fast-path packet and then an empty datagram:
the second one is taken for the first one again, and cutting its payload out panics. -/
theorem empty_datagram_panics :
    let e := Sample.edge "c" "m" false []
    let d := versionVFuze :: e.macAddr.bytes
    let buffer := filled d (List.replicate defaultBufferSize 0)
    ∃ e' out,
      e.receive Sample.edgePlatform Sample.edgeEnv buffer d.length (Sample.client 1) =
        .ok (e', out) ∧
      e'.receive Sample.edgePlatform Sample.edgeEnv (filled [] buffer) 0 (Sample.client 1) =
        .error .indexOutOfRange :=
  receive_empty_after rfl List.length_replicate rfl

end N2nGo.EdgeClient
