import N2nGo.Analysis.Receive

/-!
# From the wire to the TAP device and back

What reaches the TAP device of an edge whose pipeline ends in AES-GCM is authentic, except
that payloads too short for a ciphertext skip the pipeline (`tap_write_authentic`). For
the same reason a frame survives the way through two equal pipelines unless it was only
compressed, and to less than 28 bytes (`roundTrip_iff`).
-/

set_option autoImplicit false

namespace N2nGo

open N2nGo.Lib N2nGo.Protocol

variable {payload : Bytes} {ts : List Transform}

/-! ## Pipelines -/

namespace PayloadProcessor

open Transform

theorem reverseTo_append (i : ℕ) (ts us : List Transform) (payload : Bytes) :
    reverseTo i (ts ++ us) payload = reverseTo (i + ts.length) us payload >>= reverseTo i ts := by
  induction ts generalizing i with
  | nil =>
    show reverseTo i us payload = _
    cases h : reverseTo i us payload <;> rfl
  | cons t ts ih =>
    have hlen : i + (t :: ts).length = i + 1 + ts.length := by
      rw [List.length_cons]
      omega
    rw [List.cons_append, reverseTo, ih (i + 1), hlen]
    cases reverseTo (i + 1 + ts.length) us payload <;> rfl

theorem applyFrom_append (rand : ℕ → Rand) (i : ℕ) (ts us : List Transform) (payload : Bytes) :
    applyFrom rand i (ts ++ us) payload =
      applyFrom rand i ts payload >>= applyFrom rand (i + ts.length) us := by
  induction ts generalizing i payload with
  | nil => rfl
  | cons t ts ih =>
    have hlen : i + (t :: ts).length = i + 1 + ts.length := by
      rw [List.length_cons]
      omega
    rw [List.cons_append, applyFrom, applyFrom, hlen]
    cases t.apply (rand i) payload with
    | error err => rfl
    | ok next => exact ih (i + 1) next

theorem applyFrom_singleton {rand : ℕ → Rand} {i : ℕ} {t : Transform} {out : Bytes}
    (h : applyFrom rand i [t] payload = .ok out) : t.apply (rand i) payload = .ok out := by
  simp only [applyFrom] at h
  split at h
  · cases h
  · next next hnext => rw [hnext, h]

/-- A transform whose output is reversed to its input. -/
def Inverts (t : Transform) : Prop :=
  ∀ {rand : Rand} {data out : Bytes}, t.apply rand data = .ok out → t.reverse out = .ok data

theorem inverts_noOp : Inverts noOpTransform := by
  intro rand data out h
  cases h
  rfl

theorem compress_of_apply {z : Zstd} {rand : Rand} {data out : Bytes}
    (h : (zstdTransform z).apply rand data = .ok out) : z.compress data = some out := by
  simp only [zstdTransform] at h
  split at h
  · cases h
  · next hc =>
    cases h
    exact hc

theorem inverts_zstd (z : Zstd) : Inverts (zstdTransform z) := by
  intro rand data out h
  simp only [zstdTransform, z.decompress_compress (compress_of_apply h)]

theorem inverts_aesGCM (gcm : GCM) : Inverts (aesGCMTransform gcm) := by
  intro rand data out h
  simp only [aesGCMTransform] at h ⊢
  split at h
  · cases h
  · next nonce hn =>
    cases h
    have hlen : nonce.length = nonceSize := rand.length_read hn
    have hshort : ¬ (nonce ++ gcm.sealBytes nonce data).length < nonceSize := by
      rw [List.length_append, hlen]
      omega
    rw [if_neg hshort, List.take_left' hlen, List.drop_left' hlen, gcm.open_seal data hlen]

theorem reverseTo_applyFrom {rand : ℕ → Rand} {i : ℕ} (hts : ∀ t ∈ ts, Inverts t) {out : Bytes}
    (h : applyFrom rand i ts payload = .ok out) : reverseTo i ts out = .ok payload := by
  induction ts generalizing i payload with
  | nil =>
    cases h
    rfl
  | cons t ts ih =>
    simp only [applyFrom] at h
    split at h
    · cases h
    · next next hnext =>
      have hrest := ih (fun u hu => hts u (List.mem_cons_of_mem t hu)) h
      simp only [reverseTo, hrest, hts t List.mem_cons_self hnext]

/-- Encrypted data is at least as long as a nonce and a tag. -/
theorem length_aesGCM {gcm : GCM} {rand : Rand} {data out : Bytes}
    (h : (aesGCMTransform gcm).apply rand data = .ok out) :
    out.length = data.length + nonceSize + tagSize := by
  simp only [aesGCMTransform] at h
  split at h
  · cases h
  · next nonce hn =>
    cases h
    have hlen : nonce.length = nonceSize := rand.length_read hn
    rw [List.length_append, gcm.length_seal data hlen, hlen]
    omega

end PayloadProcessor

namespace EdgeClient

open PayloadProcessor Transform

variable {P : Platform} {env : Env} {e e' : EdgeClient} {d stale : Bytes} {addr : NetAddr}
  {out : List Output}

/-! ## What reaches the TAP device -/

/-- The payload that a datagram carries for the edge, in either format. -/
inductive Carries (e : EdgeClient) (d : Bytes) : Bytes → Prop where
  | vFuze : e.enableVFuze = true → d.head? = some versionVFuze →
      (d.drop 1).take 6 = e.macAddr.bytes → Carries e d (d.drop protoVFuzeSize)
  | protoV (h : IsProtoV d) : (ProtoVHeader.decode d h.1).packetType = typeData →
      Carries e d (d.drop protoVHeaderSize)

/-- A data payload is written once, unless the pipeline refuses it. -/
theorem mem_handleDataPayload {w : Output} :
    w ∈ (e.handleDataPayload env payload).2.1 ↔
      ∃ frame, e.incomingFrame payload = .ok frame ∧ w = write env [] .tap (padFrame frame) := by
  unfold handleDataPayload
  cases e.incomingFrame payload with
  | error err => simp
  | ok frame => simp

/-- A ProtoV packet writes to the TAP device only what a Data packet carries, and leaves the
setup alone. -/
theorem handlePacket_tap (h : e.handlePacket P env d addr = .ok (e', out)) :
    SameSetup e e' ∧ ∀ w ∈ out, w.dest = .tap →
      ∃ payload frame, Carries e d payload ∧ e.incomingFrame payload = .ok frame ∧
        w = write env [] .tap (padFrame frame) := by
  obtain ⟨raw, hraw⟩ := completes_newRawMessage d addr
  unfold handlePacket at h
  rw [hraw, ok_bind] at h
  cases raw with
  | error err =>
    cases h
    exact ⟨.refl e, fun w hw => absurd hw List.not_mem_nil⟩
  | ok r =>
    obtain ⟨⟨e1, out1, err⟩, hhandle, h⟩ := bind_eq_ok.mp h
    cases h
    obtain ⟨hp, rfl⟩ := newRawMessage_ok hraw
    by_cases hdata : (ProtoVHeader.decode d hp.1).packetType = typeData
    · rw [handle, if_pos hdata] at hhandle
      have hreply := Except.ok.inj hhandle
      have he : e' = e := (congrArg Prod.fst hreply).symm.trans (handleDataPayload_fst _)
      have hout : out = _ := (congrArg (·.2.1) hreply).symm
      refine ⟨he ▸ .refl e, fun w hw _ => ?_⟩
      obtain ⟨frame, hframe, rfl⟩ := mem_handleDataPayload.mp (hout ▸ hw)
      exact ⟨_, frame, .protoV hp hdata, hframe, rfl⟩
    · obtain ⟨hno, hsame⟩ := (handle_handled hhandle).quiet hdata
      exact ⟨hsame, fun w hw htap => absurd htap (hno w hw)⟩

theorem receive_tap (hstale : stale.length = defaultBufferSize)
    (h : e.receive P env (filled d stale) d.length addr = .ok (e', out)) :
    SameSetup e e' ∧ ∀ w ∈ out, w.dest = .tap →
      ∃ payload frame, Carries e d payload ∧ e.incomingFrame payload = .ok frame ∧
        w = write env [] .tap (padFrame frame) := by
  have hquiet : SameSetup e e.counted := ⟨rfl, rfl, rfl⟩
  have hnone : ∀ w ∈ ([] : List Output), w.dest = .tap →
      ∃ payload frame, Carries e d payload ∧ e.incomingFrame payload = .ok frame ∧
        w = write env [] .tap (padFrame frame) := fun w hw => absurd hw List.not_mem_nil
  by_cases hlen : d.length < protoVFuzeSize
  · rw [receive_short hlen hstale] at h
    split at h
    · cases h
    · cases h
      exact ⟨hquiet, hnone⟩
  · rw [receive_long (Nat.le_of_not_lt hlen)] at h
    unfold receiveDatagram at h
    split at h
    · next hhead =>
      split at h
      · next hmac =>
        cases h
        refine ⟨hquiet, fun w hw _ => ?_⟩
        obtain ⟨frame, hframe, rfl⟩ := mem_handleDataPayload.mp hw
        exact ⟨_, frame, .vFuze hmac.1 hhead hmac.2, hframe, rfl⟩
      · cases h
        exact ⟨hquiet, hnone⟩
    · split at h
      · cases h
        exact ⟨hquiet, hnone⟩
      · obtain ⟨hsame, htap⟩ := handlePacket_tap h
        refine ⟨hquiet.trans hsame, fun w hw hdest => ?_⟩
        obtain ⟨payload, frame, hcarries, hframe, rfl⟩ := htap w hw hdest
        refine ⟨payload, frame, ?_, hframe, rfl⟩
        cases hcarries with
        | vFuze h1 h2 h3 => exact .vFuze h1 h2 h3
        | protoV hp hdata => exact .protoV hp hdata

theorem quiet_handleTAP {frameBuf : Bytes} {n : ℕ}
    (h : e.handleTAP P env frameBuf n = .ok (e', out)) : NoTap out ∧ SameSetup e e' := by
  obtain ⟨hno, seq, sent, rfl⟩ := sent_handleTAP h
  exact ⟨hno, rfl, rfl, rfl⟩

/-- An edge that starts to run, with a pipeline that ends in AES-GCM. The buffers come from
a pool and may hold anything. -/
structure StartsEncrypted (gcm : GCM) (ts : List Transform) (s : Running) : Prop where
  transforms : s.edge.payloadProcessor.transforms = ts ++ [aesGCMTransform gcm]
  packetBuf : s.packetBuf.length = defaultBufferSize

theorem length_filled_take (d stale : Bytes) :
    (filled (d.take stale.length) stale).length = stale.length := by
  simp only [filled, List.length_append, List.length_take, List.length_drop]
  omega

theorem StartsEncrypted.step {gcm : GCM} {s s' : Running} {ev : Event}
    (hs : StartsEncrypted gcm ts s) (h : s.step P ev = .ok (s', out)) :
    StartsEncrypted gcm ts s' := by
  cases ev with
  | datagram env d addr =>
    obtain ⟨⟨e', out'⟩, hrecv, h⟩ := bind_eq_ok.mp h
    cases h
    have hsame := (receive_tap hs.packetBuf hrecv).1
    exact ⟨hsame.payloadProcessor ▸ hs.transforms, (length_filled_take _ _).trans hs.packetBuf⟩
  | frame env f =>
    obtain ⟨⟨e', out'⟩, htap, h⟩ := bind_eq_ok.mp h
    cases h
    exact ⟨(quiet_handleTAP htap).2.payloadProcessor ▸ hs.transforms, hs.packetBuf⟩
  | apiStarted =>
    cases h
    exact ⟨hs.transforms, hs.packetBuf⟩

/-- The payload was opened with the key and the other transforms reversed. -/
def Authentic (gcm : GCM) (ts : List Transform) (payload frame : Bytes) : Prop :=
  ∃ plain, gcm.openBytes (payload.take nonceSize) (payload.drop nonceSize) = some plain ∧
    reverseTo 0 ts plain = .ok frame

theorem incomingFrame_encrypted {gcm : GCM} {frame : Bytes}
    (htrans : e.payloadProcessor.transforms = ts ++ [aesGCMTransform gcm])
    (h : e.incomingFrame payload = .ok frame) (hlen : minGCMSize ≤ payload.length) :
    Authentic gcm ts payload frame := by
  have hnonce : ¬ payload.length < nonceSize := Nat.not_lt.mpr (Nat.le_trans (by decide) hlen)
  have hrev : reverseTo 0 (ts ++ [aesGCMTransform gcm]) payload = .ok frame := by
    rw [incomingFrame, if_neg (Nat.not_lt.mpr hlen), processIncomingPayload, parseInput, htrans] at h
    split at h
    · cases h
    · next hrev =>
      cases h
      exact hrev
  rw [reverseTo_append] at hrev
  simp only [reverseTo, aesGCMTransform, if_neg hnonce] at hrev
  cases hopen : gcm.openBytes (payload.take nonceSize) (payload.drop nonceSize) with
  | none =>
    rw [hopen] at hrev
    cases hrev
  | some plain =>
    rw [hopen] at hrev
    exact ⟨plain, hopen, hrev⟩

/-- **What reaches the TAP device.** In every run of an edge whose pipeline ends in AES-GCM,
every write to the TAP device is the padded frame of a received data payload. A payload of
at least 28 bytes was authenticated; a shorter one is written as it came.
GOLINE: edge/handlers.go:68-129, edge/routines.go:249-280 -/
theorem tap_write_authentic {gcm : GCM} {ts : List Transform} {s s' : Running} {ev : Event}
    {w : Output} (hrun : Reach (Running.step P) (StartsEncrypted gcm ts) (fun _ _ => True) s)
    (hstep : s.step P ev = .ok (s', out)) (hw : w ∈ out) (htap : w.dest = .tap) :
    ∃ env d addr payload frame,
      ev = .datagram env d addr ∧ Carries s.edge (d.take defaultBufferSize) payload ∧
      w.data = padFrame frame ∧
      (minGCMSize ≤ payload.length → Authentic gcm ts payload frame) ∧
      (payload.length < minGCMSize → frame = payload) := by
  have hs : StartsEncrypted gcm ts s := hrun.invariant (fun _ h => h) fun _ _ _ _ hs _ => hs.step
  cases ev with
  | datagram env d addr =>
    obtain ⟨⟨e', out'⟩, hrecv, h⟩ := bind_eq_ok.mp hstep
    cases h
    obtain ⟨payload, frame, hcarries, hframe, rfl⟩ := (receive_tap hs.packetBuf hrecv).2 w hw htap
    rw [hs.packetBuf] at hcarries
    refine ⟨env, d, addr, payload, frame, rfl, hcarries, rfl, ?_, fun hlen => ?_⟩
    · exact incomingFrame_encrypted hs.transforms hframe
    · rw [incomingFrame, if_pos hlen] at hframe
      exact (Except.ok.inj hframe).symm
  | frame env f =>
    obtain ⟨⟨e', out'⟩, hquiet, h⟩ := bind_eq_ok.mp hstep
    cases h
    exact absurd htap ((quiet_handleTAP hquiet).1 w hw)
  | apiStarted =>
    cases hstep
    exact absurd hw List.not_mem_nil

theorem handleDataPayload_counted (payload : Bytes) :
    (e.counted.handleDataPayload env payload).2.1 = (e.handleDataPayload env payload).2.1 := by
  have hsame : e.counted.incomingFrame payload = e.incomingFrame payload := rfl
  unfold handleDataPayload
  rw [hsame]
  cases e.incomingFrame payload <;> rfl

theorem step_vFuze {s : Running} (hfuze : s.edge.enableVFuze = true)
    (hd : d = versionVFuze :: s.edge.macAddr.bytes ++ payload)
    (hlen : d.length ≤ s.packetBuf.length) :
    ∃ s', s.step P (.datagram env d addr) = .ok (s', (s.edge.handleDataPayload env payload).2.1) := by
  rw [Running.step, List.take_of_length_le hlen]
  simp only
  rw [receive_vFuze hfuze payload hd, ok_bind, handleDataPayload_counted]
  exact ⟨_, rfl⟩

theorem step_vFuze_other {s : Running} {dst : MacID} (hmac : s.edge.macAddr ≠ dst)
    (hlen : (versionVFuze :: dst.bytes ++ payload).length ≤ s.packetBuf.length) :
    ∃ s', s.step P (.datagram env (versionVFuze :: dst.bytes ++ payload) addr) = .ok (s', []) := by
  have h7 : protoVFuzeSize ≤ (versionVFuze :: dst.bytes ++ payload).length := by
    rw [List.length_append, List.length_cons, dst.length_eq]
    exact Nat.le_add_right 7 _
  have hhead : (versionVFuze :: dst.bytes ++ payload).head? = some versionVFuze := rfl
  have hother : ((versionVFuze :: dst.bytes ++ payload).drop 1).take 6 ≠ s.edge.macAddr.bytes := by
    intro htake
    rw [show (versionVFuze :: dst.bytes ++ payload).drop 1 = dst.bytes ++ payload from rfl,
      List.take_left' dst.length_eq] at htake
    exact hmac (MacID.ext htake.symm)
  rw [Running.step, List.take_of_length_le hlen]
  simp only
  rw [receive_long h7, receiveDatagram, if_pos hhead, if_neg fun h => hother h.2]
  exact ⟨_, rfl⟩

theorem step_data {s : Running} {header : ProtoVHeader} (hversion : header.version = versionV)
    (htype : header.packetType = typeData)
    (hlen : (packProtoVDatagram header payload).length ≤ s.packetBuf.length) :
    ∃ s', s.step P (.datagram env (packProtoVDatagram header payload) addr) =
      .ok (s', (s.edge.handleDataPayload env payload).2.1) := by
  have hp := isProtoV_pack hversion payload
  have hfuze : (packProtoVDatagram header payload).head? ≠ some versionVFuze := by
    rw [hp.2]
    decide
  rw [Running.step, List.take_of_length_le hlen]
  simp only
  rw [receive_long (Nat.le_trans (by decide) hp.1), receiveDatagram, if_neg hfuze,
    if_neg (Nat.not_lt.mpr hp.1), handlePacket, newRawMessage_pack hversion]
  simp only [ok_bind, handle, htype, if_true, handleDataMessage]
  rw [handleDataPayload_counted]
  exact ⟨_, rfl⟩

/-- A payload sealed by a peer, and written once it was opened. -/
theorem tap_write_of_sealed_payload :
    let s := Sample.running (Sample.edge "c" "m" false [1])
    let payload : Bytes := List.replicate 12 0 ++ Sample.gcm.sealBytes (List.replicate 12 0) [7]
    let d := versionVFuze :: s.edge.macAddr.bytes ++ payload
    ∃ s' w, s.step Sample.edgePlatform (.datagram Sample.edgeEnv d (Sample.client 1)) =
        .ok (s', [w]) ∧
      ∃ env d' addr payload frame,
        Event.datagram Sample.edgeEnv d (Sample.client 1) = .datagram env d' addr ∧
        Carries s.edge (d'.take defaultBufferSize) payload ∧ w.data = padFrame frame ∧
        (minGCMSize ≤ payload.length → Authentic Sample.gcm [] payload frame) ∧
        (payload.length < minGCMSize → frame = payload) := by
  intro s payload d
  obtain ⟨s', hstep⟩ : ∃ s', s.step Sample.edgePlatform
      (.datagram Sample.edgeEnv d (Sample.client 1)) =
        .ok (s', [write Sample.edgeEnv [] .tap (padFrame [7])]) :=
    step_vFuze rfl rfl (by rw [show s.packetBuf.length = _ from List.length_replicate]; decide)
  have hstart : StartsEncrypted Sample.gcm [] s := ⟨rfl, List.length_replicate⟩
  exact ⟨s', _, hstep,
    tap_write_authentic (.init hstart) hstep (List.mem_singleton_self _) rfl⟩

/-- Fourteen bytes that nobody sealed are written as well. -/
theorem short_payload_is_not_opened :
    let s := Sample.running (Sample.edge "c" "m" false [1])
    let payload : Bytes := List.replicate 14 1
    let d := versionVFuze :: s.edge.macAddr.bytes ++ payload
    StartsEncrypted Sample.gcm [] s ∧
      Sample.gcm.openBytes (payload.take nonceSize) (payload.drop nonceSize) = none ∧
      ∃ s', s.step Sample.edgePlatform (.datagram Sample.edgeEnv d (Sample.client 1)) =
        .ok (s', [⟨.tap, padFrame payload, true⟩]) := by
  intro s payload d
  refine ⟨⟨rfl, List.length_replicate⟩, rfl, ?_⟩
  exact step_vFuze rfl rfl (by rw [show s.packetBuf.length = _ from List.length_replicate]; decide)

variable {cfg : Config}

/-! ## There and back -/

theorem processorTransforms_of_passphrase (h : cfg.encryptionPassphrase ≠ []) :
    processorTransforms P cfg =
      (if cfg.compressPayload then [zstdTransform P.zstd] else []) ++
        [aesGCMTransform (P.gcm cfg.encryptionPassphrase)] := by
  have hconf : configuredTransforms P cfg = _ ++ [aesGCMTransform (P.gcm cfg.encryptionPassphrase)] :=
    congrArg _ (if_pos h)
  rw [processorTransforms, hconf, if_neg (List.append_ne_nil_of_right_ne_nil _ (List.cons_ne_nil _ _))]

theorem processorTransforms_of_no_passphrase (h : cfg.encryptionPassphrase = []) :
    processorTransforms P cfg =
      if cfg.compressPayload then [zstdTransform P.zstd] else [noOpTransform] := by
  unfold processorTransforms configuredTransforms
  rw [if_neg (not_not_intro h), List.append_nil]
  cases cfg.compressPayload with
  | true => exact if_neg (List.cons_ne_nil _ _)
  | false => exact if_pos rfl

theorem inverts_of_mem_processorTransforms : ∀ t ∈ processorTransforms P cfg, Inverts t := by
  intro t ht
  unfold processorTransforms at ht
  split at ht
  · rw [List.mem_singleton.mp ht]
    exact inverts_noOp
  · rcases List.mem_append.mp ht with ht | ht <;> split at ht
    · rw [List.mem_singleton.mp ht]
      exact inverts_zstd _
    · cases ht
    · rw [List.mem_singleton.mp ht]
      exact inverts_aesGCM _
    · cases ht

/-- Whatever the pipeline, a payload of 28 bytes is turned back into the frame; a shorter one
is left unprocessed. -/
theorem incomingFrame_of_outgoing {frame : Bytes}
    (hsend : e.payloadProcessor = payloadProcessorFor P cfg)
    (hrecv : e'.payloadProcessor = payloadProcessorFor P cfg)
    (hout : e.processOutgoingPayload env frame = .ok payload) :
    e'.incomingFrame payload = .ok (if payload.length < minGCMSize then payload else frame) := by
  rw [processOutgoingPayload, prepareOutput, hsend] at hout
  have hback : e'.processIncomingPayload payload = .ok frame := by
    rw [processIncomingPayload, parseInput, hrecv]
    exact reverseTo_applyFrom inverts_of_mem_processorTransforms hout
  unfold incomingFrame
  split
  · rfl
  · rw [hback]

theorem written_iff {env' : Env} {frame : Bytes}
    (hsend : e.payloadProcessor = payloadProcessorFor P cfg)
    (hrecv : e'.payloadProcessor = payloadProcessorFor P cfg)
    (hout : e.processOutgoingPayload env frame = .ok payload) :
    (∃ ok, (e'.handleDataPayload env' payload).2.1 = [⟨.tap, padFrame frame, ok⟩]) ↔
      minGCMSize ≤ payload.length ∨ padFrame payload = padFrame frame := by
  have hframe := incomingFrame_of_outgoing hsend hrecv hout
  rw [handleDataPayload, hframe]
  by_cases hlen : payload.length < minGCMSize
  · rw [if_pos hlen, or_iff_right (Nat.not_le.mpr hlen)]
    simp [write]
  · rw [if_neg hlen]
    exact iff_of_true ⟨_, rfl⟩ (.inl (Nat.not_lt.mp hlen))

/-- **When a frame survives the data path.** With the same pipeline on both sides it is
written as it was read, up to padding, exactly when it is encrypted, or not compressed, or
not compressed to less than 28 bytes.
GOLINE: edge/handlers.go:98-125, tranform/processor.go:28-55 -/
theorem roundTrip_iff {cfg : Config} {env' : Env} {frame payload : Bytes}
    (hsend : e.payloadProcessor = payloadProcessorFor P cfg)
    (hrecv : e'.payloadProcessor = payloadProcessorFor P cfg)
    (hout : e.processOutgoingPayload env frame = .ok payload) :
    (∃ ok, (e'.handleDataPayload env' payload).2.1 = [⟨.tap, padFrame frame, ok⟩]) ↔
      cfg.encryptionPassphrase ≠ [] ∨ cfg.compressPayload = false ∨
        ∀ packed, P.zstd.compress frame = some packed →
          minGCMSize ≤ packed.length ∨ padFrame packed = padFrame frame := by
  rw [written_iff hsend hrecv hout]
  rw [processOutgoingPayload, prepareOutput, hsend] at hout
  replace hout : applyFrom env.rand 0 (processorTransforms P cfg) frame = .ok payload := hout
  by_cases hpass : cfg.encryptionPassphrase = []
  · rw [processorTransforms_of_no_passphrase hpass] at hout
    rw [or_iff_right (not_not_intro hpass)]
    cases hcomp : cfg.compressPayload with
    | false =>
      rw [hcomp] at hout
      have hsame : frame = payload := Except.ok.inj (applyFrom_singleton hout)
      exact iff_of_true (.inr (congrArg padFrame hsame.symm)) (.inl rfl)
    | true =>
      rw [hcomp] at hout
      have hpacked : P.zstd.compress frame = some payload :=
        compress_of_apply (applyFrom_singleton hout)
      rw [hpacked]
      simp
  · rw [processorTransforms_of_passphrase hpass, applyFrom_append] at hout
    obtain ⟨plain, -, hout⟩ := bind_eq_ok.mp hout
    refine iff_of_true (.inl ?_) (.inl hpass)
    rw [length_aesGCM (applyFrom_singleton hout)]
    exact Nat.le_add_left 28 plain.length

/-- A frame of forty different bytes, compressed on the way. -/
theorem roundTrip_of_different_bytes :
    let a := Sample.edge "c" "a" true []
    let b := Sample.edge "c" "b" true []
    let frame := (List.range 40).map UInt8.ofNat
    ∃ payload, a.processOutgoingPayload Sample.edgeEnv frame = .ok payload ∧
      ∃ ok, (b.handleDataPayload Sample.edgeEnv payload).2.1 = [⟨.tap, padFrame frame, ok⟩] := by
  intro a b frame
  have ha : a.payloadProcessor =
      payloadProcessorFor Sample.edgePlatform (Sample.edgeConfig "c" "a" true []) := rfl
  have hb : b.payloadProcessor =
      payloadProcessorFor Sample.edgePlatform (Sample.edgeConfig "c" "a" true []) := rfl
  have hout : a.processOutgoingPayload Sample.edgeEnv frame = .ok (0 :: frame) := rfl
  refine ⟨0 :: frame, hout, (roundTrip_iff ha hb hout).mpr (.inr (.inr ?_))⟩
  intro packed hpacked
  cases hpacked
  exact .inl (by decide)

/-- A frame of 64 equal bytes is compressed to three bytes, and those are written. -/
theorem compressed_frame_is_lost :
    let a := Sample.edge "c" "a" true []
    let b := Sample.edge "c" "b" true []
    let frame : Bytes := List.replicate 64 5
    ∃ payload written, a.processOutgoingPayload Sample.edgeEnv frame = .ok payload ∧
      (b.handleDataPayload Sample.edgeEnv payload).2.1 = [⟨.tap, written, true⟩] ∧
      written ≠ padFrame frame :=
  ⟨[1, 5, 64], padFrame [1, 5, 64], rfl, rfl, by decide⟩

end EdgeClient

end N2nGo
