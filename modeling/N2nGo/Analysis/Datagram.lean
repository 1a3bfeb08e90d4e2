import Mathlib.Tactic.IntervalCases
import N2nGo.Model.Protocol

/-!
# What the packet formats accept and preserve

`unpackProtoVDatagram` never panics: its length test covers every byte it reads. A
decoded header encodes back to the bytes it came from, and an encoded header decodes
to itself, so setting the supernode flag of a packet changes one byte of it and
nothing else (`flagPacketFromSupernode_eq`).
-/

set_option autoImplicit false

namespace N2nGo.Protocol

open N2nGo.Lib

/-! ## The header codec -/

@[simp] theorem length_encode (h : ProtoVHeader) : h.encode.length = protoVHeaderSize := by
  simp [ProtoVHeader.encode, putUint16, putUint32, h.sourceID.length_eq, h.destID.length_eq,
    protoVHeaderSize]

theorem encode_decode (p : Bytes) (len : protoVHeaderSize ≤ p.length) :
    (ProtoVHeader.decode p len).encode = p.take protoVHeaderSize := by
  have hp : 30 ≤ p.length := len
  have split : ∀ a b : ℕ, p.take (a + b) = p.take a ++ (p.drop a).take b := fun a b =>
    List.take_add
  have four : ∀ k (h : k + 4 ≤ p.length), (p.drop k).take 4 = [p[k], p[k + 1], p[k + 2], p[k + 3]] := by
    intro k h
    apply List.ext_getElem
    · simp; omega
    · intro i h1 h2
      have hi : i < 4 := by simpa using h2
      interval_cases i <;> simp
  have two : (p.drop 4).take 2 = [p[4], p[5]] := by
    apply List.ext_getElem
    · simp; omega
    · intro i h1 h2
      have hi : i < 2 := by simpa using h2
      interval_cases i <;> simp
  calc (ProtoVHeader.decode p len).encode
      = [p[0], p[1], p[2], p[3]] ++ [p[4], p[5]] ++ [p[6], p[7], p[8], p[9]]
          ++ (p.drop 10).take 6 ++ (p.drop 16).take 6
          ++ [p[22], p[23], p[24], p[25]] ++ [p[26], p[27], p[28], p[29]] := by
        simp only [ProtoVHeader.encode, ProtoVHeader.decode, putUint16_uint16, putUint32_uint32]
        rfl
    _ = p.take 4 ++ (p.drop 4).take 2 ++ (p.drop 6).take 4 ++ (p.drop 10).take 6
          ++ (p.drop 16).take 6 ++ (p.drop 22).take 4 ++ (p.drop 26).take 4 := by
        rw [two, four 6 (by omega), four 22 (by omega), four 26 (by omega),
          show p.take 4 = [p[0], p[1], p[2], p[3]] from four 0 (by omega)]
    _ = p.take 30 := by
        rw [← split 4 2, ← split 6 4, ← split 10 6, ← split 16 6, ← split 22 4, ← split 26 4]

theorem decode_encode (h : ProtoVHeader) (rest : Bytes)
    (len : protoVHeaderSize ≤ (h.encode ++ rest).length) :
    ProtoVHeader.decode (h.encode ++ rest) len = h := by
  obtain ⟨version, ttl, packetType, flags, sequence, communityID, ⟨src, hsrc⟩, ⟨dst, hdst⟩,
    timestamp, checksum⟩ := h
  match src, hsrc with
  | [a0, a1, a2, a3, a4, a5], _ =>
    match dst, hdst with
    | [b0, b1, b2, b3, b4, b5], _ =>
      simp [ProtoVHeader.decode, ProtoVHeader.encode, putUint16, putUint32]
      exact ⟨uint16_putUint16 sequence, uint32_putUint32 communityID, uint32_putUint32 timestamp,
        uint32_putUint32 checksum⟩

/-! ## Datagrams -/

/-- A packet that `unpackProtoVDatagram` accepts. -/
def IsProtoV (packet : Bytes) : Prop :=
  protoVHeaderSize ≤ packet.length ∧ packet.head? = some versionV

instance (packet : Bytes) : Decidable (IsProtoV packet) := by
  unfold IsProtoV
  infer_instance

theorem index_zero_of_isProtoV {packet : Bytes} (h : IsProtoV packet) :
    index packet 0 = .ok versionV := by
  obtain ⟨-, hver⟩ := h
  cases packet with
  | nil => simp at hver
  | cons b rest =>
    simp only [List.head?_cons, Option.some.injEq] at hver
    rw [index_cons_zero, hver]

theorem unpackProtoVDatagram_of_isProtoV {packet : Bytes} (h : IsProtoV packet) :
    unpackProtoVDatagram packet =
      .ok (.ok (.decode packet h.1, packet.drop protoVHeaderSize)) := by
  obtain ⟨hlen, -⟩ := id h
  have hlen' : 30 ≤ packet.length := hlen
  unfold unpackProtoVDatagram
  rw [if_neg (by omega), index_zero_of_isProtoV h]
  simp only [ok_bind, ne_eq, not_true_eq_false, if_false]
  rw [slice_from_start hlen, slice_to_end hlen]
  simp only [ok_bind]
  rw [dif_pos (by simp [protoVHeaderSize]; omega)]
  congr 3
  unfold ProtoVHeader.decode
  simp [protoVHeaderSize, List.drop_take, List.take_take]
  rfl

theorem unpackProtoVDatagram_of_not_isProtoV {packet : Bytes} (h : ¬ IsProtoV packet) :
    ∃ e, unpackProtoVDatagram packet = .ok (.error e) := by
  unfold unpackProtoVDatagram
  by_cases hlen : packet.length < protoVHeaderSize
  · exact ⟨_, if_pos hlen⟩
  · have hver : packet.head? ≠ some versionV := fun hv => h ⟨by omega, hv⟩
    rw [if_neg hlen]
    cases packet with
    | nil => simp [protoVHeaderSize] at hlen
    | cons b rest =>
      rw [index_cons_zero]
      simp only [List.head?_cons, ne_eq, Option.some.injEq] at hver
      exact ⟨_, if_pos hver⟩

theorem isProtoV_pack {header : ProtoVHeader} (h : header.version = versionV) (payload : Bytes) :
    IsProtoV (packProtoVDatagram header payload) := by
  refine ⟨?_, ?_⟩
  · simp [packProtoVDatagram]
  · simp [packProtoVDatagram, ProtoVHeader.encode, h]

theorem unpack_pack {header : ProtoVHeader} (h : header.version = versionV) (payload : Bytes) :
    unpackProtoVDatagram (packProtoVDatagram header payload) = .ok (.ok (header, payload)) := by
  have hdrop : (header.encode ++ payload).drop protoVHeaderSize = payload :=
    List.drop_left' (length_encode header)
  rw [unpackProtoVDatagram_of_isProtoV (isProtoV_pack h payload)]
  simp only [packProtoVDatagram]
  rw [decode_encode, hdrop]

section

variable {packet : Bytes} {header : ProtoVHeader} {payload : Bytes}
  (h : unpackProtoVDatagram packet = .ok (.ok (header, payload)))
include h

theorem isProtoV_of_unpack : IsProtoV packet := by
  by_contra hp
  obtain ⟨e, he⟩ := unpackProtoVDatagram_of_not_isProtoV hp
  rw [he] at h
  cases h

theorem pack_unpack : packProtoVDatagram header payload = packet := by
  have hp := isProtoV_of_unpack h
  rw [unpackProtoVDatagram_of_isProtoV hp] at h
  simp only [Except.ok.injEq, Prod.mk.injEq] at h
  obtain ⟨rfl, rfl⟩ := h
  rw [packProtoVDatagram, encode_decode, List.take_append_drop]

end

/-- **ProtoV is a faithful format.** A packet is accepted exactly when it has 30 bytes and
starts with 5; unpacking undoes packing for every header of that version, and packing
undoes unpacking for every accepted packet.
GOLINE: protocol/message.go:20-43 -/
theorem protoV_faithful :
    (∀ packet : Bytes,
      (∃ header payload, unpackProtoVDatagram packet = .ok (.ok (header, payload))) ↔
        30 ≤ packet.length ∧ packet.head? = some 5) ∧
    (∀ (header : ProtoVHeader) (payload : Bytes), header.version = 5 →
      unpackProtoVDatagram (packProtoVDatagram header payload) = .ok (.ok (header, payload))) ∧
    ∀ (packet : Bytes) (header : ProtoVHeader) (payload : Bytes),
      unpackProtoVDatagram packet = .ok (.ok (header, payload)) →
        packProtoVDatagram header payload = packet := by
  refine ⟨fun packet => ⟨?_, fun hp => ?_⟩, fun header payload hv => unpack_pack hv payload,
    fun packet header payload => pack_unpack⟩
  · rintro ⟨header, payload, h⟩
    exact isProtoV_of_unpack h
  · exact ⟨_, _, unpackProtoVDatagram_of_isProtoV hp⟩

/-- The packet with the supernode flag set: one bit of byte 3.
GOLINE: protocol/message.go:78-85 -/
def withSupernodeFlag (packet : Bytes) : Bytes :=
  packet.set 3 (packet.getD 3 0 ||| flagFromSuperNode)

theorem flagPacketFromSupernode_eq {packet : Bytes} (h : IsProtoV packet) :
    flagPacketFromSupernode packet = .ok (.ok (withSupernodeFlag packet)) := by
  obtain ⟨hlen, -⟩ := id h
  have hlen' : 30 ≤ packet.length := hlen
  have henc := encode_decode packet hlen
  unfold flagPacketFromSupernode
  rw [unpackProtoVDatagram_of_isProtoV h]
  simp only [ok_bind]
  congr 2
  -- setting the flag before encoding is setting byte 3 after encoding
  have hset : ((ProtoVHeader.decode packet hlen).setFromSupernode true).encode =
      (ProtoVHeader.decode packet hlen).encode.set 3 (packet.getD 3 0 ||| flagFromSuperNode) := by
    simp [ProtoVHeader.setFromSupernode, ProtoVHeader.setFlag, ProtoVHeader.encode,
      ProtoVHeader.decode, List.getElem?_eq_getElem (show 3 < packet.length by omega)]
  rw [packProtoVDatagram, hset, henc, withSupernodeFlag]
  generalize packet.getD 3 0 ||| flagFromSuperNode = b
  conv_rhs => rw [← List.take_append_drop protoVHeaderSize packet]
  rw [List.set_append_left _ _ (by simp [protoVHeaderSize]; omega)]

theorem withSupernodeFlag_pack {header : ProtoVHeader} (h : header.version = versionV)
    (payload : Bytes) :
    withSupernodeFlag (packProtoVDatagram header payload) =
      packProtoVDatagram (header.setFromSupernode true) payload := by
  have hflag := flagPacketFromSupernode_eq (isProtoV_pack h payload)
  rw [flagPacketFromSupernode, unpack_pack h] at hflag
  exact (Except.ok.inj (Except.ok.inj hflag)).symm

theorem exists_pack_of_isProtoV {packet : Bytes} (h : IsProtoV packet) :
    ∃ header payload, header.version = versionV ∧ packProtoVDatagram header payload = packet := by
  refine ⟨_, _, ?_, pack_unpack (unpackProtoVDatagram_of_isProtoV h)⟩
  obtain ⟨-, hver⟩ := h
  cases packet with
  | nil => cases hver
  | cons b rest => exact Option.some.inj hver

theorem setFromSupernode_idem (header : ProtoVHeader) :
    (header.setFromSupernode true).setFromSupernode true = header.setFromSupernode true := by
  have hor : (header.flags ||| flagFromSuperNode) ||| flagFromSuperNode =
      header.flags ||| flagFromSuperNode := by
    rw [UInt8.or_assoc, UInt8.or_self]
  simp only [ProtoVHeader.setFromSupernode, ProtoVHeader.setFlag, if_true, hor]

/-- `flagged` is the packet with the supernode flag set, and nothing else changed. -/
structure FlagsOnly (packet flagged : Bytes) : Prop where
  length_eq : flagged.length = packet.length
  flags : flagged[3]? = packet[3]?.map (· ||| flagFromSuperNode)
  others : ∀ i, i ≠ 3 → flagged[i]? = packet[i]?

theorem flagsOnly_withSupernodeFlag (packet : Bytes) : FlagsOnly packet (withSupernodeFlag packet) where
  length_eq := List.length_set
  flags := by
    unfold withSupernodeFlag
    by_cases h : 3 < packet.length
    · rw [List.getElem?_set_self h, List.getD_eq_getElem?_getD, List.getElem?_eq_getElem h]
      rfl
    · rw [List.getElem?_eq_none (by simpa using h), List.getElem?_eq_none (by simpa using h)]
      rfl
  others i hi := List.getElem?_set_ne (Ne.symm hi)

/-- **Flagging a packet touches one bit.** It fails on the packets that cannot be unpacked;
on every other packet it sets one bit of byte 3, a second time changes nothing, and
unpacking gives the same payload and the same header up to the flag.
GOLINE: protocol/message.go:78-85 -/
theorem flagPacketFromSupernode_faithful (packet : Bytes) :
    ((∃ err, flagPacketFromSupernode packet = .ok (.error err)) ↔
      ∃ err, unpackProtoVDatagram packet = .ok (.error err)) ∧
    ((∃ err, unpackProtoVDatagram packet = .ok (.error err)) ∨
      ∃ header payload flagged,
        unpackProtoVDatagram packet = .ok (.ok (header, payload)) ∧
        flagPacketFromSupernode packet = .ok (.ok flagged) ∧
        FlagsOnly packet flagged ∧
        flagPacketFromSupernode flagged = .ok (.ok flagged) ∧
        unpackProtoVDatagram flagged =
          .ok (.ok ({ header with flags := header.flags ||| 0x02 }, payload))) := by
  by_cases hp : IsProtoV packet
  · have hflag := flagPacketFromSupernode_eq hp
    obtain ⟨header, payload, hversion, rfl⟩ := exists_pack_of_isProtoV hp
    have hunpack := unpack_pack hversion payload
    have hversion' : (header.setFromSupernode true).version = versionV := hversion
    have hunpack' : unpackProtoVDatagram (withSupernodeFlag (packProtoVDatagram header payload)) =
        .ok (.ok (header.setFromSupernode true, payload)) := by
      rw [withSupernodeFlag_pack hversion, unpack_pack hversion']
    refine ⟨?_, Or.inr ⟨header, payload, _, hunpack, hflag, flagsOnly_withSupernodeFlag _, ?_, hunpack'⟩⟩
    · rw [hunpack, hflag]
      simp
    · rw [flagPacketFromSupernode, hunpack']
      simp only [ok_bind, setFromSupernode_idem, withSupernodeFlag_pack hversion]
  · obtain ⟨err, herr⟩ := unpackProtoVDatagram_of_not_isProtoV hp
    have hflag : flagPacketFromSupernode packet = .ok (.error err) := by
      rw [flagPacketFromSupernode, herr]
      rfl
    exact ⟨⟨fun _ => ⟨err, herr⟩, fun _ => ⟨err, hflag⟩⟩, Or.inl ⟨err, herr⟩⟩

/-! ## Messages -/

theorem completes_newRawMessage (packet : Bytes) (addr : NetAddr) :
    Completes (newRawMessage packet addr) := by
  unfold newRawMessage
  refine (completes_bind_of_total fun a => ?_).mpr ?_
  · cases a <;> exact completes_ok _
  · by_cases hp : IsProtoV packet
    · exact ⟨_, unpackProtoVDatagram_of_isProtoV hp⟩
    · obtain ⟨e, he⟩ := unpackProtoVDatagram_of_not_isProtoV hp
      exact ⟨_, he⟩

theorem newRawMessage_ok {packet : Bytes} {addr : NetAddr} {r : RawMessage}
    (h : newRawMessage packet addr = .ok (.ok r)) :
    ∃ hp : IsProtoV packet, r = ⟨.decode packet hp.1, packet.drop protoVHeaderSize, addr, packet⟩ := by
  unfold newRawMessage at h
  by_cases hp : IsProtoV packet
  · rw [unpackProtoVDatagram_of_isProtoV hp] at h
    cases h
    exact ⟨hp, rfl⟩
  · obtain ⟨e, he⟩ := unpackProtoVDatagram_of_not_isProtoV hp
    rw [he] at h
    cases h

theorem newRawMessage_pack {header : ProtoVHeader} (h : header.version = versionV)
    (payload : Bytes) (addr : NetAddr) :
    newRawMessage (packProtoVDatagram header payload) addr =
      .ok (.ok ⟨header, payload, addr, packProtoVDatagram header payload⟩) := by
  rw [newRawMessage, unpack_pack h]
  rfl

section ToMessage

variable {T : Type} [PacketTyped T] {codec : Codec T} {r : RawMessage} {m : Message T}

/-- A raw message of the expected type whose payload decodes, and nothing else, becomes a
message. -/
theorem toMessage_eq_ok_iff :
    toMessage codec r = .ok m ↔ m.toRawMessage = r ∧
      r.header.packetType = PacketTyped.packetType T ∧ codec.decode r.payload = some m.msg := by
  unfold toMessage
  by_cases htype : r.header.packetType = PacketTyped.packetType T
  · rw [if_neg (not_not.mpr htype)]
    cases hdec : codec.decode r.payload with
    | none => simp
    | some v =>
      simp only [Except.ok.injEq, htype, true_and, Option.some.injEq]
      constructor
      · rintro rfl
        exact ⟨rfl, rfl⟩
      · rintro ⟨rfl, rfl⟩
        rfl
  · rw [if_pos htype]
    simp [htype]

theorem toMessage_ok (h : toMessage codec r = .ok m) : m.toRawMessage = r :=
  (toMessage_eq_ok_iff.mp h).1

theorem packetType_of_toMessage (h : toMessage codec r = .ok m) :
    r.header.packetType = PacketTyped.packetType T := (toMessage_eq_ok_iff.mp h).2.1

theorem decode_of_toMessage (h : toMessage codec r = .ok m) :
    codec.decode r.payload = some m.msg := (toMessage_eq_ok_iff.mp h).2.2

theorem toMessage_of_decode {v : T} (htype : r.header.packetType = PacketTyped.packetType T)
    (hdec : codec.decode r.payload = some v) : toMessage codec r = .ok { r with msg := v } :=
  toMessage_eq_ok_iff.mpr ⟨rfl, htype, hdec⟩

end ToMessage

end N2nGo.Protocol
