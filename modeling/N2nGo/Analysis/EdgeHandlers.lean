import N2nGo.Model.Edge.Routines

/-!
# Where the handlers of an edge can panic

Of the sixteen handlers three can panic: the one for peer lists follows an origin that may
be absent, the one for leases an API that may not have been set, and the one for online
checks answers with an `Ack`, which has no encoding.
-/

set_option autoImplicit false

namespace N2nGo.Lib.Net

theorem length_parseMACPairs {sep : UInt8} {n : ℕ} {s b : Bytes}
    (h : parseMACPairs sep n s = some b) : b.length = n := by
  induction n generalizing s b with
  | zero =>
    cases h
    rfl
  | succ n ih =>
    obtain ⟨x, -, h⟩ := Option.bind_eq_some_iff.mp h
    obtain ⟨rest, hrest, h⟩ := Option.bind_eq_some_iff.mp h
    cases h
    rw [List.length_cons, ih hrest]

theorem length_parseMACQuads {sep : UInt8} {n : ℕ} {s b : Bytes}
    (h : parseMACQuads sep n s = some b) : b.length = 2 * n := by
  induction n generalizing s b with
  | zero =>
    cases h
    rfl
  | succ n ih =>
    obtain ⟨x, -, h⟩ := Option.bind_eq_some_iff.mp h
    obtain ⟨y, -, h⟩ := Option.bind_eq_some_iff.mp h
    obtain ⟨rest, hrest, h⟩ := Option.bind_eq_some_iff.mp h
    cases h
    rw [List.length_cons, List.length_cons, ih hrest]
    omega

theorem six_le_length_parseMAC {s b : Bytes} (h : parseMAC s = some b) : 6 ≤ b.length := by
  unfold parseMAC at h
  split at h
  · cases h
  · split at h
    · simp only at h
      split at h
      · cases h
      · have := length_parseMACPairs h
        omega
    · split at h
      · simp only at h
        split at h
        · cases h
        · have := length_parseMACQuads h
          omega
      · cases h

end N2nGo.Lib.Net

namespace N2nGo.EdgeClient

open N2nGo.Lib N2nGo.Protocol N2nGo.Messages

def NoTap (out : List Output) : Prop := ∀ w ∈ out, w.dest ≠ .tap

/-- What the configuration has fixed is the same. -/
structure SameSetup (e e' : EdgeClient) : Prop where
  macAddr : e'.macAddr = e.macAddr
  enableVFuze : e'.enableVFuze = e.enableVFuze
  payloadProcessor : e'.payloadProcessor = e.payloadProcessor

theorem SameSetup.refl (e : EdgeClient) : SameSetup e e := ⟨rfl, rfl, rfl⟩

variable {e' : EdgeClient}

theorem SameSetup.trans {e e'' : EdgeClient} (h : SameSetup e e') (h' : SameSetup e' e'') :
    SameSetup e e'' where
  macAddr := h'.macAddr.trans h.macAddr
  enableVFuze := h'.enableVFuze.trans h.enableVFuze
  payloadProcessor := h'.payloadProcessor.trans h.payloadProcessor

theorem noTap_nil : NoTap [] := fun _ h => absurd h (List.not_mem_nil)

section Sending

variable {P : Platform} {env : Env} {e : EdgeClient} {out : List Output} {dst : Option Bytes}

theorem transmit_ok (e : EdgeClient) (env : Env) (out : List Output) (packet : Bytes)
    (udpSocket : Option Net.UDPAddr) :
    ∃ more, (e.transmit env out packet udpSocket).1 = out ++ more ∧ NoTap more := by
  unfold transmit
  split
  · exact ⟨[_], rfl, List.forall_mem_singleton.mpr Dest.noConfusion⟩
  · split
    · exact ⟨[], (List.append_nil out).symm, noTap_nil⟩
    · exact ⟨[_], rfl, List.forall_mem_singleton.mpr Dest.noConfusion⟩

theorem completes_edgeHeader (pt : PacketType) (hdst : ∀ d, dst = some d → 6 ≤ d.length) :
    Completes (e.edgeHeader env pt dst) := by
  refine (completes_bind_of_total fun _ => completes_ok _).mpr ?_
  cases dst with
  | none => exact completes_ok _
  | some d =>
    rw [destID, macID, dif_pos (hdst d rfl)]
    exact completes_ok _

theorem completes_sendStruct {T : Type} [PacketTyped T] (codec : Codec T) (s : T)
    (strategy : UDPWriteStrategy) (hdst : ∀ d, dst = some d → 6 ≤ d.length) :
    Completes (e.sendStruct codec P env out s dst strategy) := by
  unfold sendStruct
  split
  · exact completes_ok _
  · obtain ⟨⟨e1, header⟩, hheader⟩ := completes_edgeHeader (PacketTyped.packetType T) hdst
    rw [hheader, ok_bind]
    cases codec.encode s with
    | none => exact completes_ok _
    | some payload => exact completes_ok _

theorem completes_requestRegister (hkey : e.snPubKey ≠ none) :
    Completes (e.requestRegister P env out) := by
  obtain ⟨key, hkey⟩ := Option.ne_none_iff_exists'.mp hkey
  unfold requestRegister encryptedMachineID
  rw [hkey]
  simp only [deref, ok_bind]
  cases P.encryptOAEP key e.machineId with
  | none => exact completes_ok _
  | some encMachineID => exact completes_sendStruct _ _ _ fun _ h => by cases h

end Sending

/-! ## The handlers -/

section Handlers

variable {P : Platform} {env : Env} {e : EdgeClient} {r : RawMessage}

theorem completes_withMessage_iff {T : Type} [PacketTyped T] {codec : Codec T}
    {f : Message T → Go Reply} :
    Completes (e.withMessage codec r f) ↔ ∀ m, toMessage codec r = .ok m → Completes (f m) := by
  unfold withMessage
  cases toMessage codec r with
  | error err => simp
  | ok m => simp

theorem handleDataPayload_fst (payload : Bytes) : (e.handleDataPayload env payload).1 = e := by
  unfold handleDataPayload
  split <;> rfl

/-- The message is a peer list that announces an origin and has none.
GOLINE: p2p/p2p.go:358-364 -/
def NamesMissingOrigin (P : Platform) (r : RawMessage) : Prop :=
  ∃ m, toMessage P.codecs.peerInfoList r = .ok m ∧ m.msg.eventType.toUInt8 = typeList ∧
    m.msg.hasOrigin = true ∧ m.msg.origin = none

/-- The message answers a request for leases.
GOLINE: edge/handlers.go:145-156 -/
def AnswersLeases (P : Platform) (r : RawMessage) : Prop :=
  ∃ m, toMessage P.codecs.leasesInfos r = .ok m ∧ m.msg.isRequest = false

/-- The message asks whether the edge is online.
GOLINE: edge/handlers_missing.go:76-87 -/
def AsksOnline (P : Platform) (r : RawMessage) : Prop :=
  ∃ m, toMessage P.codecs.onlineCheck r = .ok m ∧ m.msg.isReply = false

/-- The only nil that a peer list can make the registry follow. -/
theorem completes_handlePeerInfoList_iff (services : Bytes → Option ℕ) (now : ℤ)
    (order : MapOrder) (reg : PeerRegistry) (pil : PeerInfoList) (reset overwrite : Bool) :
    Completes (reg.handlePeerInfoList services now order pil reset overwrite) ↔
      ¬ (pil.eventType.toUInt8 = typeList ∧ pil.hasOrigin = true ∧ pil.origin = none) := by
  unfold PeerRegistry.handlePeerInfoList
  simp only
  split
  · next hlist =>
    refine (completes_bind_of_total fun reg => completes_ok _).trans ?_
    unfold PeerRegistry.setOrigin
    cases horigin : pil.hasOrigin with
    | false => simp
    | true => cases pil.origin <;> simp [hlist, deref]
  · next hlist =>
    split
    · simp [hlist]
    · split <;> simp [hlist]

theorem completes_handlePeerInfoMessage_iff :
    Completes (e.handlePeerInfoMessage P env r) ↔ ¬ NamesMissingOrigin P r := by
  refine completes_withMessage_iff.trans ?_
  simp only [NamesMissingOrigin, not_exists, not_and]
  refine forall_congr' fun m => imp_congr_right fun _ => ?_
  refine (completes_bind_of_total fun res => ?_).trans
    ((completes_handlePeerInfoList_iff ..).trans (by simp only [not_and]))
  obtain ⟨peers, _ | _⟩ := res <;> exact completes_ok _

theorem completes_handleLeasesInfosMessage_iff :
    Completes (e.handleLeasesInfosMessage P r) ↔ ¬ (AnswersLeases P r ∧ e.eapi = none) := by
  refine completes_withMessage_iff.trans ?_
  have htail : ∀ m : Message LeasesInfos, Completes (
      if m.msg.isRequest then (.ok (e, [], .error .edgeDoesNotHandleRequest) : Go Reply)
      else do
        let _ ← deref e.eapi
        .ok ({ e with eapi := some ⟨false, some m.msg⟩ }, [], .ok ())) ↔
      ¬ (m.msg.isRequest = false ∧ e.eapi = none) := by
    intro m
    cases m.msg.isRequest with
    | true => simp
    | false => cases e.eapi <;> simp [deref]
  constructor
  · rintro h ⟨⟨m, hm, hreq⟩, hapi⟩
    exact (htail m).mp (h m hm) ⟨hreq, hapi⟩
  · exact fun h m hm => (htail m).mpr fun ⟨hreq, hapi⟩ => h ⟨⟨m, hm, hreq⟩, hapi⟩

/-- Best effort always finds somewhere to send to.
GOLINE: edge/wire.go:14-47 -/
theorem exists_udpAddrWithStrategy (dst : Option Bytes) :
    ∃ addr, e.udpAddrWithStrategy P dst .bestEffort = .ok addr := by
  unfold udpAddrWithStrategy
  split
  · exact ⟨_, rfl⟩
  · cases dst with
    | none => exact ⟨_, rfl⟩
    | some dst =>
      simp only
      split
      · exact ⟨_, rfl⟩
      · split <;> exact ⟨_, rfl⟩

/-- An `Ack` is never sent: an address is found, and then the encoding panics.
GOLINE: edge/wire.go:98-109 -/
theorem sendAck_ne_ok (dst : Option Bytes) {reply : Reply} :
    e.sendAck P env dst .bestEffort ≠ .ok reply := by
  obtain ⟨addr, haddr⟩ := exists_udpAddrWithStrategy (P := P) (e := e) dst
  intro h
  simp only [sendAck, haddr] at h
  obtain ⟨_, -, h⟩ := bind_eq_ok.mp h
  cases h

/-- GOLINE: edge/handlers_missing.go:76-87 -/
theorem completes_handleOnlineCheckMessage_iff :
    Completes (e.handleOnlineCheckMessage P env r) ↔ ¬ AsksOnline P r := by
  refine completes_withMessage_iff.trans ?_
  simp only [AsksOnline, not_exists, not_and]
  refine forall_congr' fun m => imp_congr_right fun _ => ?_
  cases m.msg.isReply with
  | true => simp
  | false => exact iff_of_false (fun ⟨_, h⟩ => sendAck_ne_ok _ h) fun h => h rfl

end Handlers

end N2nGo.EdgeClient
