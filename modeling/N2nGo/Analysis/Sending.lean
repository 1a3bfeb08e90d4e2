import N2nGo.Analysis.Datagram
import N2nGo.Model.Supernode.Handlers

/-!
# What the sending functions of the supernode do

Sending changes nothing but the counters. A packet in the ProtoV format is attempted
once for every edge it is forwarded to, with the supernode flag added; the other
packets the supernode forwards are VFuze packets, which go out as they came in.
`attempt` is one such send and `attempts` a sequence of them.
-/

set_option autoImplicit false

namespace N2nGo.Supernode

open N2nGo.Lib N2nGo.Protocol N2nGo.Messages

/-- A change of the counters that counts `n` unregistered edges. -/
structure Tally (n : ℕ) where
  toFun : SupernodeStats → SupernodeStats
  unregistered : ∀ st, (toFun st).edgesUnregistered = st.edgesUnregistered + n

instance {n : ℕ} : CoeOut (Tally n) (SupernodeStats → SupernodeStats) := ⟨Tally.toFun⟩

def Tally.id : Tally 0 := ⟨fun st => st, fun _ => rfl⟩

abbrev Tally.unregister : Tally 1 :=
  ⟨fun st => { st with edgesUnregistered := st.edgesUnregistered + 1 }, fun _ => rfl⟩

def Tally.andThen {m n : ℕ} (f : Tally m) (g : Tally n) : Tally (m + n) where
  toFun := g.toFun ∘ f.toFun
  unregistered st := by rw [Function.comp, g.unregistered, f.unregistered, Nat.add_assoc]

/-! ## One target -/

/-- The send made for `target` when the call has attempted `n` before. -/
def attempt (env : Env) (s : Supernode) (packet : Bytes) (n : ℕ) (target : Edge) : Sent :=
  { target := some target
    dest := s.route target
    packet := packet
    ok := ((s.route target).map fun dest => env.writeOk n dest packet).getD false }

variable {packet : Bytes}

section Forward

variable (env : Env) (s : Supernode) (out : List Sent) (target : Edge)

theorem sendTo_eq (packet : Bytes) :
    ∃ err, sendTo env s out packet target =
        (out ++ [attempt env s packet out.length target], err) ∧
      (err = .ok () ↔ (attempt env s packet out.length target).ok = true) := by
  unfold attempt sendTo
  cases s.route target with
  | none => exact ⟨_, rfl, by simp⟩
  | some dest =>
    simp only [Option.map_some, Option.getD_some]
    cases env.writeOk out.length dest packet with
    | true => exact ⟨_, rfl, by simp⟩
    | false => exact ⟨_, rfl, by simp⟩

theorem forwardPacket_of_isProtoV (h : IsProtoV packet) :
    ∃ err, forwardPacket env s out packet target =
        .ok (out ++ [attempt env s (withSupernodeFlag packet) out.length target], err) ∧
      (err = .ok () ↔
        (attempt env s (withSupernodeFlag packet) out.length target).ok = true) := by
  unfold forwardPacket
  rw [index_zero_of_isProtoV h]
  simp only [ok_bind, if_pos, flagPacketFromSupernode_eq h]
  obtain ⟨err, hsend, herr⟩ := sendTo_eq env s out target (withSupernodeFlag packet)
  exact ⟨err, by rw [hsend], herr⟩

theorem forwardPacket_of_ne_versionV {b : UInt8} (h : b ≠ versionV) (rest : Bytes) :
    ∃ err, forwardPacket env s out (b :: rest) target =
        .ok (out ++ [attempt env s (b :: rest) out.length target], err) ∧
      (err = .ok () ↔ (attempt env s (b :: rest) out.length target).ok = true) := by
  unfold forwardPacket
  simp only [index_cons_zero, ok_bind, if_neg h]
  obtain ⟨err, hsend, herr⟩ := sendTo_eq env s out target (b :: rest)
  exact ⟨err, by rw [hsend], herr⟩

/-- A call that returns has made one attempt, or it has made none and reports an error. -/
theorem forwardPacket_ok {out' : List Sent} {err : Except Err Unit}
    (h : forwardPacket env s out packet target = .ok (out', err)) :
    (out' = out ∧ ∃ e, err = .error e) ∨
      ∃ packet', out' = out ++ [attempt env s packet' out.length target] ∧
        (err = .ok () ↔ (attempt env s packet' out.length target).ok = true) := by
  unfold forwardPacket at h
  obtain ⟨version, -, h⟩ := bind_eq_ok.mp h
  split at h
  all_goals
    obtain ⟨flagged, -, h⟩ := bind_eq_ok.mp h
    cases flagged with
    | error e =>
      cases h
      exact Or.inl ⟨rfl, _, rfl⟩
    | ok packet' =>
      obtain ⟨err', hsend, herr⟩ := sendTo_eq env s out target packet'
      simp only [hsend] at h
      cases h
      exact Or.inr ⟨packet', rfl, herr⟩

end Forward

/-! ## Several targets -/

/-- One attempt for each target, numbered from `n`. -/
def attempts (env : Env) (s : Supernode) (packet : Bytes) : ℕ → List Edge → List Sent
  | _, [] => []
  | n, target :: targets => attempt env s packet n target :: attempts env s packet (n + 1) targets

theorem map_target_attempts (env : Env) (s : Supernode) (packet : Bytes) (n : ℕ)
    (targets : List Edge) :
    (attempts env s packet n targets).map Sent.target = targets.map some := by
  induction targets generalizing n with
  | nil => rfl
  | cons target targets ih => simp [attempts, attempt, ih]

theorem attempts_count (env : Env) (s : Supernode) (f : SupernodeStats → SupernodeStats)
    (packet : Bytes) (n : ℕ) (targets : List Edge) :
    attempts env (s.count f) packet n targets = attempts env s packet n targets := by
  induction targets generalizing n with
  | nil => rfl
  | cons target targets ih =>
    rw [attempts, attempts, ih]
    rfl

theorem mem_attempts {env : Env} {s : Supernode} {n : ℕ} {targets : List Edge} {x : Sent}
    (h : x ∈ attempts env s packet n targets) :
    ∃ k, ∃ target ∈ targets, x = attempt env s packet k target := by
  induction targets generalizing n with
  | nil => simp [attempts] at h
  | cons target targets ih =>
    simp only [attempts, List.mem_cons] at h
    rcases h with rfl | h
    · exact ⟨n, target, by simp, rfl⟩
    · obtain ⟨k, t, ht, hx⟩ := ih h
      exact ⟨k, t, by simp [ht], hx⟩

theorem exists_mem_attempts (env : Env) (s : Supernode) (packet : Bytes) (n : ℕ)
    {targets : List Edge} {target : Edge} (h : target ∈ targets) :
    ∃ k, attempt env s packet k target ∈ attempts env s packet n targets := by
  induction targets generalizing n with
  | nil => simp at h
  | cons t targets ih =>
    rcases List.mem_cons.mp h with rfl | h
    · exact ⟨n, by simp [attempts]⟩
    · obtain ⟨k, hk⟩ := ih (n + 1) h
      exact ⟨k, by simp [attempts, hk]⟩

/-- The loop attempts every edge but the sender, in the order of the list. -/
theorem broadcastLoop_of_isProtoV (env : Env) (s : Supernode) (h : IsProtoV packet)
    (senderID : Bytes) (targets : List Edge) (out : List Sent) (i j : ℕ) :
    ∃ i' j', broadcastLoop env s packet senderID targets out i j =
      .ok (out ++ attempts env s (withSupernodeFlag packet) out.length
        (targets.filter (·.macAddr ≠ senderID)), i', j') := by
  induction targets generalizing out i j with
  | nil => exact ⟨i, j, by simp [broadcastLoop, attempts]⟩
  | cons target targets ih =>
    by_cases hsender : target.macAddr = senderID
    · obtain ⟨i', j', hrest⟩ := ih out i j
      refine ⟨i', j', ?_⟩
      rw [broadcastLoop, if_pos hsender, hrest]
      simp [hsender]
    · obtain ⟨err, hfwd, -⟩ := forwardPacket_of_isProtoV env s out target h
      rw [broadcastLoop, if_neg hsender, hfwd, ok_bind]
      simp only [ne_eq, hsender, not_false_eq_true, decide_true, List.filter_cons_of_pos, attempts]
      cases err with
      | error e =>
        obtain ⟨i', j', hrest⟩ := ih (out ++ [attempt env s (withSupernodeFlag packet) out.length target]) i (j + 1)
        exact ⟨i', j', by simpa using hrest⟩
      | ok u =>
        obtain ⟨i', j', hrest⟩ := ih (out ++ [attempt env s (withSupernodeFlag packet) out.length target]) (i + 1) j
        exact ⟨i', j', by simpa using hrest⟩

/-- A broadcast attempts every member but the sender and changes only the counters. -/
theorem broadcast_of_isProtoV (env : Env) (s : Supernode) (out : List Sent) (h : IsProtoV packet)
    (cm : CommunityRef) (senderID : Bytes) :
    ∃ f : Tally 0, broadcast env s out packet cm senderID =
      .ok (s.count f, out ++ attempts env s (withSupernodeFlag packet) out.length
        ((getAllEdges env s cm).filter (·.macAddr ≠ senderID))) := by
  obtain ⟨i, j, hloop⟩ := broadcastLoop_of_isProtoV env s h senderID (getAllEdges env s cm) out 0 0
  rw [broadcast, hloop, ok_bind]
  refine ⟨⟨_, ?_⟩, rfl⟩
  exact fun _ => rfl

/-! ## The supernode's own packets -/

/-- A packet of the supernode itself. -/
def snPacket (env : Env) (pt : PacketType) (community payload : Bytes) : Bytes :=
  packProtoVDatagram (snHeader env pt community) payload

theorem isProtoV_snPacket (env : Env) (pt : PacketType) (community payload : Bytes) :
    IsProtoV (snPacket env pt community payload) := isProtoV_pack rfl payload

@[simp] theorem withSupernodeFlag_snPacket (env : Env) (pt : PacketType) (community payload : Bytes) :
    withSupernodeFlag (snPacket env pt community payload) = snPacket env pt community payload := by
  have hflag : (snHeader env pt community).setFromSupernode true = snHeader env pt community := by
    simp only [ProtoVHeader.setFromSupernode, ProtoVHeader.setFlag, snHeader, if_true,
      UInt8.or_self]
  rw [snPacket, withSupernodeFlag_pack rfl, hflag]

section Own

variable {T : Type} [PacketTyped T] (codec : Codec T) (env : Env) (s : Supernode) (out : List Sent)

/-- `SendStruct` returns for every address and every message. Whatever it attempts is the
packet of the message. -/
theorem sendStruct_returns (p : T) (community : Bytes) (addr : NetAddr) :
    ∃ xs err, sendStruct codec env s out p community addr = .ok (out ++ xs, err) ∧
      ∀ x ∈ xs, ∃ payload, codec.encode p = some payload ∧
        x.packet = snPacket env (PacketTyped.packetType T) community payload := by
  unfold sendStruct
  cases hp : codec.encode p with
  | none => exact ⟨[], _, by rw [List.append_nil], by simp⟩
  | some payload =>
    have hone : ∀ x : Sent, x.packet = snPacket env (PacketTyped.packetType T) community payload →
        ∀ y ∈ [x], ∃ payload', some payload = some payload' ∧
          y.packet = snPacket env (PacketTyped.packetType T) community payload' := by
      intro x hx y hy
      rw [List.mem_singleton.mp hy]
      exact ⟨payload, rfl, hx⟩
    simp only
    cases s.findWSSEdge env addr with
    | some target =>
      obtain ⟨err, hfwd, -⟩ := forwardPacket_of_isProtoV env s out target
        (isProtoV_snPacket env (PacketTyped.packetType T) community payload)
      exact ⟨_, err, hfwd, hone _ (withSupernodeFlag_snPacket _ _ _ _)⟩
    | none =>
      cases addr with
      | udp a => exact ⟨_, _, rfl, hone _ rfl⟩
      | wss connID =>
        simp only
        cases s.wssConnections.lookup connID with
        | none => exact ⟨[], _, by rw [List.append_nil], by simp⟩
        | some conn => exact ⟨_, _, rfl, hone _ rfl⟩

theorem writePacket_returns (pt : PacketType) (community payload : Bytes) (addr : NetAddr) :
    ∃ xs err, writePacket env s out pt community payload addr = .ok (out ++ xs, err) ∧
      ∀ x ∈ xs, x.packet = snPacket env pt community payload := by
  unfold writePacket
  simp only
  cases s.findWSSEdge env addr with
  | some target =>
    obtain ⟨err, hfwd, -⟩ := forwardPacket_of_isProtoV env s out target
      (isProtoV_snPacket env pt community payload)
    refine ⟨_, err, hfwd, fun x hx => ?_⟩
    rw [List.mem_singleton.mp hx]
    exact withSupernodeFlag_snPacket ..
  | none =>
    cases addr with
    | udp a =>
      refine ⟨_, _, rfl, fun x hx => ?_⟩
      rw [List.mem_singleton.mp hx]
      rfl
    | wss connID => exact ⟨[], _, by rw [List.append_nil], by simp⟩

/-- The attempts of `BroadcastStruct`: one for every member but the sender, and none for a
message that cannot be encoded. -/
def announcement (n : ℕ) (p : T) (cm : CommunityRef) (senderMac : Bytes) : List Sent :=
  (codec.encode p).elim [] fun payload =>
    attempts env s (snPacket env (PacketTyped.packetType T) (s.cms.cell cm).name payload) n
      ((getAllEdges env s cm).filter (·.macAddr ≠ senderMac))

theorem announcement_count (f : SupernodeStats → SupernodeStats) (n : ℕ) (p : T)
    (cm : CommunityRef) (senderMac : Bytes) :
    announcement codec env (s.count f) n p cm senderMac =
      announcement codec env s n p cm senderMac := by
  unfold announcement
  cases codec.encode p with
  | none => rfl
  | some payload => exact attempts_count ..

theorem broadcastStruct_eq (p : T) (cm : CommunityRef) (senderMac : Bytes) :
    ∃ f : Tally 0, ∃ err, broadcastStruct codec env s out p cm senderMac =
      .ok (s.count f, out ++ announcement codec env s out.length p cm senderMac, err) := by
  unfold broadcastStruct announcement
  cases codec.encode p with
  | none => exact ⟨.id, _, by rw [Option.elim_none, List.append_nil]; rfl⟩
  | some payload =>
    obtain ⟨f, hb⟩ := broadcast_of_isProtoV env s out
      (isProtoV_snPacket env (PacketTyped.packetType T) (s.cms.cell cm).name payload) cm senderMac
    rw [withSupernodeFlag_snPacket] at hb
    unfold snPacket at hb ⊢
    simp only [hb, ok_bind]
    exact ⟨f, _, rfl⟩

end Own

/-! ## The fast path -/

/-- The edge that a fast-path packet for `dst` from `addr` is forwarded to.
GOLINE: supernode/handlers.go:250-262 -/
def fastPathTarget (s : Supernode) (dst : Bytes) (addr : NetAddr) : Option Edge :=
  if s.config.enableVFuze then
    match s.edgesByMAC.lookup (Net.hardwareAddrString dst), s.edgesBySocket.lookup addr.string with
    | some dstedge, some srcedge =>
      if (s.edges.cell dstedge).community = (s.edges.cell srcedge).community then
        some (s.edges.cell dstedge)
      else none
    | _, _ => none
  else none

/-- The target is found under its MAC and shares its community with the edge that the source
address leads to. -/
theorem fastPathTarget_eq_some {s : Supernode} {dst : Bytes} {addr : NetAddr} {d : Edge}
    (h : s.fastPathTarget dst addr = some d) :
    ∃ ref src, s.edgesByMAC.lookup (Net.hardwareAddrString dst) = some ref ∧ d = s.edges.cell ref ∧
      s.edgesBySocket.lookup addr.string = some src ∧ d.community = (s.edges.cell src).community := by
  unfold fastPathTarget at h
  split at h
  · split at h
    · next ref src href hsrc =>
      split at h
      · next hsame =>
        cases h
        exact ⟨ref, src, href, rfl, hsrc, hsame⟩
      · cases h
    · cases h
  · cases h

section

variable (env : Env) (s : Supernode) (addr : NetAddr)

theorem handleVFuze_eq {rest : Bytes} (hlen : 6 ≤ rest.length) :
    handleVFuze env s (versionVFuze :: rest) addr =
      .ok ((s.fastPathTarget (rest.take 6) addr).toList.map
        (attempt env s (versionVFuze :: rest) 0)) := by
  have h7 : ¬ (versionVFuze :: rest).length < protoVFuzeSize := by
    simp only [List.length_cons, protoVFuzeSize]
    omega
  have hslice : slice (versionVFuze :: rest) 1 7 = .ok (rest.take 6) :=
    slice_of_le (by omega) (by simp; omega)
  unfold handleVFuze vFuzePacketDestMACAddr fastPathTarget
  rw [if_neg h7, index_cons_zero]
  simp only [ok_bind, ne_eq, not_true_eq_false, if_false, hslice]
  cases s.config.enableVFuze with
  | false => rfl
  | true =>
    simp only [not_true_eq_false, if_false, if_true]
    cases s.edgesByMAC.lookup (Net.hardwareAddrString (rest.take 6)) with
    | none => rfl
    | some dst =>
      cases s.edgesBySocket.lookup addr.string with
      | none => rfl
      | some src =>
        simp only [ite_not]
        by_cases hsame : (s.edges.cell dst).community = (s.edges.cell src).community
        · obtain ⟨err, hfwd, -⟩ := forwardPacket_of_ne_versionV env s [] (s.edges.cell dst)
            (show versionVFuze ≠ versionV by decide) _
          rw [if_pos hsame, if_pos hsame, hfwd]
          rfl
        · rw [if_neg hsame, if_neg hsame]
          rfl

theorem handleVFuze_short (hlen : packet.length < 7) : handleVFuze env s packet addr = .ok [] := by
  unfold handleVFuze vFuzePacketDestMACAddr
  rw [if_pos (show packet.length < protoVFuzeSize from hlen)]
  rfl

theorem handleVFuze_other {b : UInt8} {rest : Bytes} (hb : b ≠ versionVFuze) :
    handleVFuze env s (b :: rest) addr = .ok [] := by
  unfold handleVFuze vFuzePacketDestMACAddr
  split
  · rfl
  · simp only [index_cons_zero, ok_bind, ne_eq, hb, not_false_eq_true, if_true]

end

/-! ## Answers -/

section

variable (P : Platform) (env : Env) (r : RawMessage) (name : Bytes) (s : Supernode)

theorem answerRegister_error (e : Err) :
    ∃ f : Tally 0, ∃ out err, answerRegister P env r name (s, .error e) = .ok (s.count f, out, .error e) ∧
      sendStruct P.codecs.registerResponse env s [] ⟨false, [], 0⟩ name r.fromAddr =
        .ok (out, err) := by
  obtain ⟨out, err, hs, -⟩ := sendStruct_returns P.codecs.registerResponse env s []
    ⟨false, [], 0⟩ name r.fromAddr
  simp only [answerRegister, hs, ok_bind]
  refine ⟨⟨_, ?_⟩, _, _, rfl, rfl⟩
  exact fun _ => rfl

theorem answerRegister_ok (ref : EdgeRef) (cm : CommunityRef) {s' : Supernode}
    (hs' : s' = (s.setWSSConnID ref r.fromAddr).indexEdge ref) :
    ∃ f : Tally 0, ∃ out err, answerRegister P env r name (s, .ok (ref, cm)) =
      .ok (s'.count f, out ++ announcement P.codecs.peerInfoList env s' out.length
        (newPeerInfoEvent typeRegister (s'.edges.cell ref)) cm r.edgeMACAddr, err) ∧
      ∃ err', sendStruct P.codecs.registerResponse env s' []
        ⟨true, (s'.edges.cell ref).virtualIP.string, (s'.edges.cell ref).vNetMaskLen⟩ name
        r.fromAddr = .ok (out, err') := by
  subst hs'
  let s' := (s.setWSSConnID ref r.fromAddr).indexEdge ref
  let edge := s'.edges.cell ref
  obtain ⟨out, err, hs, -⟩ := sendStruct_returns P.codecs.registerResponse env s' []
    ⟨true, edge.virtualIP.string, edge.vNetMaskLen⟩ name r.fromAddr
  rw [List.nil_append] at hs
  obtain ⟨f, err', hb⟩ := broadcastStruct_eq P.codecs.peerInfoList env s' out
    (newPeerInfoEvent typeRegister edge) cm r.edgeMACAddr
  refine ⟨f, out, err', ?_, err, hs⟩
  simp only [answerRegister]
  rw [hs, ok_bind]
  exact hb

end

/-- An answer to a member leaves the state as it is, and nothing but the answer is sent. -/
theorem answerMember_returns {T : Type} [PacketTyped T] (codec : Codec T) (env : Env)
    (s : Supernode) (cm : CommunityRef) (edgeMACAddr : Bytes) (p : T) (community : Bytes) :
    ∃ out err, answerMember codec env s cm edgeMACAddr p community = .ok (s, out, err) ∧
      ∀ x ∈ out, ∃ payload, codec.encode p = some payload ∧
        x.packet = snPacket env (PacketTyped.packetType T) community payload := by
  unfold answerMember
  simp only
  split
  · obtain ⟨out, err, hs, hout⟩ := sendStruct_returns codec env s [] p community
      (.wss (((s.getEdge cm edgeMACAddr).map Edge.wssConnID).getD []))
    rw [List.nil_append] at hs
    exact ⟨out, err, by rw [hs, ok_bind], hout⟩
  · cases s.getEdgeUDPAddr cm edgeMACAddr with
    | error e => exact ⟨_, _, rfl, by simp⟩
    | ok target =>
      obtain ⟨out, err, hs, hout⟩ := sendStruct_returns codec env s [] p community (.udp target)
      rw [List.nil_append] at hs
      exact ⟨out, err, by simp only [hs, ok_bind], hout⟩

end N2nGo.Supernode
