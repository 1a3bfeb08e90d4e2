import N2nGo.Analysis.Frames

/-!
# The layout of an Ethernet frame

The functions that read a frame test its length before they call a `Fast` function, and a
`Fast` function panics exactly when the frame is too short for what it reads. No frame makes
any of them panic (`accessors_complete`).

Both constructors write one layout: the addresses, the type field and the payload. Of a
buffer that is longer, the rest stays as it was, and `ParseFrame` finds the parts again
unless the type field looks like a tag (`frame_layout`).
-/

set_option autoImplicit false

namespace N2nGo.Tuntap

open N2nGo.Lib

/-! ## What the fast functions need -/

variable {f : Bytes} {pos : ℕ} {tagging : Tagging}

theorem completes_index_iff : Completes (index f pos) ↔ pos < f.length := by
  constructor
  · rintro ⟨b, hb⟩
    by_contra hshort
    unfold index at hb
    rw [List.getElem?_eq_none (by omega)] at hb
    cases hb
  · intro hlong
    exact ⟨_, index_getD hlong⟩

theorem completes_slice_iff {lo hi : ℕ} :
    Completes (slice f lo hi) ↔ lo ≤ hi ∧ hi ≤ f.length := by
  unfold slice
  split
  · next hbounds => exact iff_of_true (completes_ok _) hbounds
  · next hbounds => exact iff_of_false (not_completes_error _) hbounds

theorem completes_typeField_iff : Completes (typeField f pos) ↔ pos + 1 < f.length := by
  constructor
  · rintro ⟨field, hfield⟩
    obtain ⟨hi, -, hfield⟩ := bind_eq_ok.mp hfield
    obtain ⟨lo, hlo, -⟩ := bind_eq_ok.mp hfield
    exact completes_index_iff.mp ⟨lo, hlo⟩
  · intro hlong
    exact ⟨_, typeField_eq hlong⟩

theorem completes_fastDestination_iff : Completes (fastDestination f) ↔ 6 ≤ f.length := by
  unfold fastDestination
  rw [completes_slice_iff]
  omega

theorem completes_fastSource_iff : Completes (fastSource f) ↔ 12 ≤ f.length := by
  unfold fastSource
  rw [completes_slice_iff]
  omega

theorem completes_fastTaggingType_iff : Completes (fastTaggingType f) ↔ 14 ≤ f.length := by
  constructor
  · rintro ⟨t, ht⟩
    obtain ⟨field, hfield, -⟩ := bind_eq_ok.mp ht
    exact completes_typeField_iff.mp ⟨field, hfield⟩
  · intro hlong
    exact ⟨_, fastTaggingType_eq hlong⟩

theorem completes_fastEthertype_iff :
    Completes (fastEthertype f tagging) ↔ 14 + tagging.size ≤ f.length := by
  unfold fastEthertype
  rw [completes_bind_of_total fun field => completes_ok _, completes_typeField_iff]
  omega

theorem completes_fastPayload_iff :
    Completes (fastPayload f tagging) ↔ 14 + tagging.size ≤ f.length := by
  unfold fastPayload
  rw [completes_slice_iff]
  omega

theorem completes_fastVLANID_iff : Completes (fastVLANID f) ↔ 16 ≤ f.length := by
  constructor
  · rintro ⟨id, hid⟩
    obtain ⟨hi, -, hid⟩ := bind_eq_ok.mp hid
    obtain ⟨lo, hlo, -⟩ := bind_eq_ok.mp hid
    exact completes_index_iff.mp ⟨lo, hlo⟩
  · intro hlong
    unfold fastVLANID
    rw [index_getD (by omega), index_getD (by omega)]
    exact completes_ok _

/-! ## No frame makes them panic -/

theorem completes_guarded {α ε : Type} {n : ℕ} {e : ε} {x : Go α}
    (h : n ≤ f.length → Completes x) :
    Completes (if f.length < n then .ok (.error e) else do
      let a ← x
      .ok (.ok a) : Go (Except ε α)) := by
  split
  · exact completes_ok _
  · next hlong =>
    rw [completes_bind_of_total fun a => completes_ok _]
    exact h (Nat.not_lt.mp hlong)

theorem completes_getVLANID (f : Bytes) : Completes (getVLANID f) := by
  unfold getVLANID
  split
  · exact completes_ok _
  · next hlong =>
    rw [fastTaggingType_eq (Nat.not_lt.mp hlong), ok_bind]
    split
    · exact completes_ok _
    · refine completes_guarded fun htagged => completes_fastVLANID_iff.mpr ?_
      exact Nat.le_trans (Nat.le_add_right 16 2) htagged

theorem completes_parseFrame (f : Bytes) : Completes (parseFrame f) := by
  unfold parseFrame
  split
  · exact completes_ok _
  · next hlong =>
    have hlong : 14 ≤ f.length := Nat.not_lt.mp hlong
    have hrest : ∀ (n : ℕ) (tagging : Tagging), 14 + tagging.size ≤ n →
        Completes (if f.length < n then
            .ok (⟨f.take 6, (f.take 12).drop 6, tagging, ⟨0, 0⟩, []⟩, some .frameTooShort)
          else fastEthertype f tagging >>= fun ethertype => fastPayload f tagging >>= fun payload =>
            .ok (⟨f.take 6, (f.take 12).drop 6, tagging, ethertype, payload⟩, none) :
            Go (Fields × Option Err)) := by
      intro n tagging hsize
      split
      · exact completes_ok _
      · have hfits : 14 + tagging.size ≤ f.length := by omega
        obtain ⟨ethertype, hethertype⟩ := completes_fastEthertype_iff.mpr hfits
        obtain ⟨payload, hpayload⟩ := completes_fastPayload_iff.mpr hfits
        rw [hethertype, ok_bind, hpayload]
        exact completes_ok _
    rw [fastDestination_eq (by omega), ok_bind, fastSource_eq (by omega), ok_bind,
      fastTaggingType_eq hlong, ok_bind]
    cases taggingOf f with
    | notTagged => exact hrest 14 .notTagged (Nat.le_refl _)
    | tagged => exact hrest 18 .tagged (Nat.le_refl _)
    | doubleTagged => exact hrest 22 .doubleTagged (Nat.le_refl _)

theorem completes_getEthertype (f : Bytes) : Completes (getEthertype f) := by
  by_cases hshort : f.length < minFrameSize
  · unfold getEthertype
    rw [if_pos hshort]
    exact completes_ok _
  · rw [getEthertype_eq (Nat.not_lt.mp hshort)]
    split
    · exact completes_ok _
    · exact completes_ok _

theorem completes_payload (f : Bytes) : Completes (payload f) := by
  by_cases hshort : f.length < minFrameSize
  · unfold payload
    rw [if_pos hshort]
    exact completes_ok _
  · rw [payload_eq (Nat.not_lt.mp hshort)]
    split
    · exact completes_ok _
    · exact completes_ok _

/-- **No byte slice makes a function that reads frames index or slice out of range.** The
`Fast` functions panic on every slice that is too short for them, so each is called with a
slice that is long enough.
GOLINE: tuntap/frame.go:50-197, 266-296 -/
theorem accessors_complete (f : Bytes) :
    Completes (destination f) ∧ Completes (source f) ∧ Completes (detectTagging f) ∧
      Completes (getEthertype f) ∧ Completes (payload f) ∧ Completes (getVLANID f) ∧
      Completes (parseFrame f) :=
  ⟨completes_guarded completes_fastDestination_iff.mpr,
    completes_guarded completes_fastSource_iff.mpr,
    completes_guarded completes_fastTaggingType_iff.mpr, completes_getEthertype f,
    completes_payload f, completes_getVLANID f, completes_parseFrame f⟩

/-! ## Frames that are made -/

section Construction

variable {dst src data : Bytes} {ethertype : Ethertype}

theorem copyInto_append (p rest : Bytes) {old new : Bytes} (h : new.length ≤ old.length) :
    copyInto (p ++ (old ++ rest)) p.length (p.length + old.length) new =
      .ok (p ++ (new ++ (old.drop new.length ++ rest))) := by
  have hwindow : slice (p ++ (old ++ rest)) p.length (p.length + old.length) = .ok old := by
    rw [slice_of_le (by omega) (by simp only [List.length_append]; omega),
      List.take_length_add_append, List.take_left, List.drop_left]
  unfold copyInto
  rw [hwindow, ok_bind, List.take_left, List.take_of_length_le h, Nat.min_eq_right h,
    List.drop_length_add_append, List.drop_append_of_le_length h, List.append_assoc]

theorem setByte_append (p rest : Bytes) (old new : UInt8) :
    setByte (p ++ old :: rest) p.length new = .ok (p ++ new :: rest) := by
  unfold setByte
  rw [index_getD (by simp), ok_bind, List.set_append_right _ _ (Nat.le_refl _), Nat.sub_self]
  rfl

theorem exists_header {b : Bytes} (h : 14 ≤ b.length) :
    ∃ (p q rest : Bytes) (hi lo : UInt8), p.length = 6 ∧ q.length = 6 ∧
      b = p ++ (q ++ hi :: lo :: rest) := by
  have htail : ∃ hi lo rest, b.drop 12 = hi :: lo :: rest := by
    have hlen : (b.drop 12).length = b.length - 12 := List.length_drop
    rcases htail : b.drop 12 with _ | ⟨hi, _ | ⟨lo, rest⟩⟩
    · rw [htail, List.length_nil] at hlen
      omega
    · rw [htail, List.length_singleton] at hlen
      omega
    · exact ⟨hi, lo, rest, rfl⟩
  obtain ⟨hi, lo, rest, htail⟩ := htail
  refine ⟨b.take 6, (b.drop 6).take 6, rest, hi, lo, ?_, ?_, ?_⟩
  · rw [List.length_take]
    omega
  · rw [List.length_take, List.length_drop]
    omega
  · have htwelve : b.drop 12 = (b.drop 6).drop 6 := by rw [List.drop_drop]
    rw [← htail, htwelve, List.take_append_drop, List.take_append_drop]

/-- The frame of these parts. -/
def frameOf (dst src : Bytes) (ethertype : Ethertype) (data : Bytes) : Bytes :=
  dst ++ (src ++ ethertype.hi :: ethertype.lo :: data)

theorem length_frameOf (hdst : dst.length = 6) (hsrc : src.length = 6) :
    (frameOf dst src ethertype data).length = 14 + data.length := by
  unfold frameOf
  rw [List.length_append, List.length_append, List.length_cons, List.length_cons]
  omega

theorem frameOf_append (dst src : Bytes) (ethertype : Ethertype) (data : Bytes) :
    frameOf dst src ethertype data = frameOf dst src ethertype [] ++ data := by
  simp [frameOf]

section

variable (hdst : dst.length = 6) (hsrc : src.length = 6)
include hdst hsrc

theorem writeFrame_header {p q rest : Bytes} {hi lo : UInt8} (hp : p.length = 6) (hq : q.length = 6) :
    writeFrame (p ++ (q ++ hi :: lo :: rest)) dst src ethertype data =
      copyInto (frameOf dst src ethertype rest) 14 (frameOf dst src ethertype rest).length
        data := by
  have h1 := copyInto_append [] (q ++ hi :: lo :: rest) (Nat.le_of_eq (hdst.trans hp.symm))
  have h2 := copyInto_append dst (hi :: lo :: rest) (Nat.le_of_eq (hsrc.trans hq.symm))
  have h3 := setByte_append (dst ++ src) (lo :: rest) hi ethertype.hi
  have h4 := setByte_append (dst ++ src ++ [ethertype.hi]) rest lo ethertype.lo
  simp only [List.length_append, List.length_cons, List.length_nil, List.nil_append,
    List.append_assoc, List.cons_append, hdst, hsrc, hp, hq,
    List.drop_of_length_le (Nat.le_of_eq hp), List.drop_of_length_le (Nat.le_of_eq hq)]
    at h1 h2 h3 h4
  unfold writeFrame frameOf
  rw [h1, ok_bind, h2, ok_bind, h3, ok_bind, h4, ok_bind]

/-- **The layout**: the frame, and behind it what the buffer held there. -/
theorem writeFrame_eq {b : Bytes} (h : 14 + data.length ≤ b.length) :
    writeFrame b dst src ethertype data =
      .ok (frameOf dst src ethertype data ++ b.drop (14 + data.length)) := by
  obtain ⟨p, q, rest, hi, lo, hp, hq, rfl⟩ := exists_header (Nat.le_trans (Nat.le_add_right _ _) h)
  have hheader : (p ++ (q ++ [hi, lo])).length = 14 := by
    rw [List.length_append, List.length_append, hp, hq]
    rfl
  have hsplit : p ++ (q ++ hi :: lo :: rest) = (p ++ (q ++ [hi, lo])) ++ rest := by simp
  have hdrop : (p ++ (q ++ hi :: lo :: rest)).drop (14 + data.length) = rest.drop data.length := by
    rw [hsplit, ← hheader, List.drop_length_add_append]
  have hroom : data.length ≤ rest.length := by
    rw [hsplit, List.length_append, hheader] at h
    omega
  have hcopy := copyInto_append (frameOf dst src ethertype []) [] hroom
  rw [length_frameOf hdst hsrc, List.append_nil, ← frameOf_append, List.append_nil,
    ← List.append_assoc, ← frameOf_append] at hcopy
  rw [writeFrame_header hdst hsrc hp hq, length_frameOf hdst hsrc, hdrop]
  exact hcopy

theorem newFrame_eq : newFrame dst src ethertype data = .ok (frameOf dst src ethertype data) := by
  have hlen : (List.replicate (14 + data.length) (0 : UInt8)).length = 14 + data.length :=
    List.length_replicate
  unfold newFrame
  rw [writeFrame_eq hdst hsrc (Nat.le_of_eq hlen.symm), List.drop_of_length_le (Nat.le_of_eq hlen),
    List.append_nil]

end

theorem exists_six_bytes {addr : Bytes} (h : addr.length = 6) :
    ∃ a b c d e g, addr = [a, b, c, d, e, g] := by
  rcases addr with _ | ⟨a, _ | ⟨b, _ | ⟨c, _ | ⟨d, _ | ⟨e, _ | ⟨g, _ | ⟨x, rest⟩⟩⟩⟩⟩⟩⟩
  case cons.cons.cons.cons.cons.cons.nil => exact ⟨a, b, c, d, e, g, rfl⟩
  case cons.cons.cons.cons.cons.cons.cons =>
    simp only [List.length_cons] at h
    omega
  all_goals cases h

theorem parseFrame_frameOf (hdst : dst.length = 6) (hsrc : src.length = 6)
    (hdot1Q : ethertype ≠ ⟨0x81, 0x00⟩) (hdot1Ad : ethertype ≠ ⟨0x88, 0xa8⟩) :
    parseFrame (frameOf dst src ethertype data) =
      .ok (⟨dst, src, .notTagged, ethertype, data⟩, none) := by
  have hlen : (frameOf dst src ethertype data).length = 14 + data.length :=
    length_frameOf hdst hsrc
  obtain ⟨a, b, c, d, e, g, rfl⟩ := exists_six_bytes hdst
  obtain ⟨a', b', c', d', e', g', rfl⟩ := exists_six_bytes hsrc
  obtain ⟨hi, lo⟩ := ethertype
  have hnotQ : (hi, lo) ≠ dot1QTagType := fun heq => hdot1Q (by cases heq; rfl)
  have hnotAd : (hi, lo) ≠ dot1AdTagType := fun heq => hdot1Ad (by cases heq; rfl)
  have htagging : taggingOf (frameOf [a, b, c, d, e, g] [a', b', c', d', e', g'] ⟨hi, lo⟩ data) =
      .notTagged := by
    unfold taggingOf
    exact (if_neg hnotQ).trans (if_neg hnotAd)
  refine parseFrame_eq_ok_iff.mpr ⟨?_, ?_⟩
  · rw [htagging, hlen]
    exact Nat.le_add_right _ _
  · unfold fieldsOf
    rw [htagging]
    rfl

/-- What the constructors promise: the frame is parsed back into its parts, and writing it
into a buffer works exactly if there is room, leaving the rest as it was. -/
structure Layout (dst src : Bytes) (ethertype : Ethertype) (data frame : Bytes) : Prop where
  made : newFrame dst src ethertype data = .ok frame
  parsed : ethertype ≠ ⟨0x81, 0x00⟩ → ethertype ≠ ⟨0x88, 0xa8⟩ →
    parseFrame frame = .ok (⟨dst, src, .notTagged, ethertype, data⟩, none)
  succeeds : ∀ buffer,
    (∃ buffer' n, newFrameInto buffer dst src ethertype data = .ok (buffer', .ok n)) ↔
    14 + data.length ≤ buffer.length
  written : ∀ buffer buffer' n, newFrameInto buffer dst src ethertype data = .ok (buffer', .ok n) →
    n = 14 + data.length ∧ buffer'.take n = frame ∧ buffer'.drop n = buffer.drop n
  failed : ∀ buffer, ¬ 14 + data.length ≤ buffer.length →
    newFrameInto buffer dst src ethertype data = .ok (buffer, .error .bufferTooSmall)

/-- **Frames are made and parsed with one layout.**
GOLINE: tuntap/frame.go:236-296 -/
theorem frame_layout (dst src : Bytes) (ethertype : Ethertype) (data : Bytes)
    (hdst : dst.length = 6) (hsrc : src.length = 6) :
    ∃ frame, Layout dst src ethertype data frame := by
  have hlen : (frameOf dst src ethertype data).length = 14 + data.length :=
    length_frameOf hdst hsrc
  have hinto : ∀ buffer, 14 + data.length ≤ buffer.length →
      newFrameInto buffer dst src ethertype data =
        .ok (frameOf dst src ethertype data ++ buffer.drop (14 + data.length),
          .ok (14 + data.length)) := by
    intro buffer hroom
    simp only [newFrameInto]
    rw [if_neg (Nat.not_lt.mpr hroom), writeFrame_eq hdst hsrc hroom, ok_bind]
  have hfailed : ∀ buffer, ¬ 14 + data.length ≤ buffer.length →
      newFrameInto buffer dst src ethertype data = .ok (buffer, .error .bufferTooSmall) :=
    fun buffer hshort => if_pos (Nat.not_le.mp hshort)
  refine ⟨frameOf dst src ethertype data, newFrame_eq hdst hsrc, parseFrame_frameOf hdst hsrc,
    fun buffer => ⟨?_, fun hroom => ⟨_, _, hinto buffer hroom⟩⟩, ?_, hfailed⟩
  · rintro ⟨buffer', n, hok⟩
    by_contra hshort
    rw [hfailed buffer hshort] at hok
    cases hok
  · intro buffer buffer' n hok
    by_cases hroom : 14 + data.length ≤ buffer.length
    · rw [hinto buffer hroom] at hok
      cases hok
      rw [← hlen, List.take_left, List.drop_left]
      exact ⟨rfl, rfl, rfl⟩
    · rw [hfailed buffer hroom] at hok
      cases hok

/-- A frame with a payload of three bytes. -/
theorem frame_layout_three_bytes :
    ∃ frame, Layout (List.replicate 6 1) (List.replicate 6 2) ⟨0x08, 0x00⟩ [7, 8, 9] frame :=
  frame_layout _ _ _ _ rfl rfl

end Construction

end N2nGo.Tuntap
