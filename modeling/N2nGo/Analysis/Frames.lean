import N2nGo.Analysis.EdgeHandlers
import N2nGo.Analysis.Sample

/-!
# Where an Ethernet frame ends

The type field of a frame stands behind its VLAN tags, and each function that looks for it
has its own idea of how long the frame must be. `ParseFrame` and the functions for the
single fields agree except for the payload of an untagged frame that ends with its type
field or one byte later.

An edge looks for the type field of a frame in the whole buffer that the frame was read
into. A tagged frame that ends too early is then judged by what an earlier frame has left
behind it.
-/

set_option autoImplicit false

namespace N2nGo.Tuntap

open N2nGo.Lib

/-! ## The functions in closed form -/

/-- The two bytes at `pos` of a frame that is long enough. -/
def fieldAt (f : Bytes) (pos : ℕ) : TypeField := (f.getD pos 0, f.getD (pos + 1) 0)

/-- The tags of a frame with a type field. -/
def taggingOf (f : Bytes) : Tagging :=
  if fieldAt f 12 = dot1QTagType then
    if 18 ≤ f.length ∧ fieldAt f 16 = dot1QTagType then .doubleTagged else .tagged
  else if fieldAt f 12 = dot1AdTagType then .doubleTagged
  else .notTagged

variable {f : Bytes} {pos : ℕ}

theorem index_getD (h : pos < f.length) : index f pos = .ok (f.getD pos 0) := by
  unfold index
  rw [List.getD_eq_getElem?_getD, List.getElem?_eq_getElem h]
  rfl

theorem typeField_eq (h : pos + 1 < f.length) : typeField f pos = .ok (fieldAt f pos) := by
  unfold typeField
  rw [index_getD (by omega), index_getD h]
  rfl

theorem fastTaggingType_eq (h : 14 ≤ f.length) : fastTaggingType f = .ok (taggingOf f) := by
  unfold fastTaggingType taggingOf
  rw [typeField_eq (by omega), ok_bind]
  split
  · by_cases hlong : 18 ≤ f.length
    · rw [if_pos hlong, typeField_eq (by omega), ok_bind]
      simp only [hlong, true_and]
    · rw [if_neg hlong, if_neg fun hinner => hlong hinner.1]
  · split
    · rfl
    · rfl

theorem detectTagging_eq (h : 14 ≤ f.length) : detectTagging f = .ok (.ok (taggingOf f)) := by
  unfold detectTagging
  rw [if_neg (by unfold minFrameSize; omega), fastTaggingType_eq h]
  rfl

theorem fastEthertype_eq {tagging : Tagging} (h : 14 + tagging.size ≤ f.length) :
    fastEthertype f tagging =
      .ok ⟨(fieldAt f (12 + tagging.size)).1, (fieldAt f (12 + tagging.size)).2⟩ := by
  unfold fastEthertype
  rw [typeField_eq (by omega)]
  rfl

theorem fastPayload_eq {tagging : Tagging} (h : 14 + tagging.size ≤ f.length) :
    fastPayload f tagging = .ok (f.drop (14 + tagging.size)) := by
  unfold fastPayload
  rw [slice_to_end (by omega), show 12 + tagging.size + 2 = 14 + tagging.size by omega]

/-- The type field behind these tags. -/
def ethertypeAt (f : Bytes) (tagging : Tagging) : Ethertype :=
  ⟨(fieldAt f (12 + tagging.size)).1, (fieldAt f (12 + tagging.size)).2⟩

theorem ite_bind_eq {α : Type} {c : Prop} [Decidable c] {x : Go α} {y : α} {err : Err}
    (h : ¬ c → x = .ok y) :
    (if c then .ok (.error err) else x >>= fun a => .ok (.ok a) : Go (Except Err α)) =
      if c then .ok (.error err) else .ok (.ok y) := by
  split
  · rfl
  · next hc =>
    rw [h hc]
    rfl

theorem getEthertype_eq (h : 14 ≤ f.length) : getEthertype f =
    if f.length < 14 + (taggingOf f).size then .ok (.error .frameTooShort)
    else .ok (.ok (ethertypeAt f (taggingOf f))) := by
  have hrest : ∀ tagging : Tagging, ¬ f.length < 14 + tagging.size →
      fastEthertype f tagging = .ok (ethertypeAt f tagging) :=
    fun _ hlong => fastEthertype_eq (Nat.not_lt.mp hlong)
  unfold getEthertype
  rw [if_neg (by unfold minFrameSize; omega), fastTaggingType_eq h, ok_bind]
  cases taggingOf f with
  | notTagged => exact ite_bind_eq (hrest .notTagged)
  | tagged => exact ite_bind_eq (hrest .tagged)
  | doubleTagged => exact ite_bind_eq (hrest .doubleTagged)

/-- `Payload` wants two bytes more of a frame without tags. -/
def payloadMinSize : Tagging → ℕ
  | .notTagged => 16
  | .tagged => 18
  | .doubleTagged => 22

theorem size_le_payloadMinSize (tagging : Tagging) : 14 + tagging.size ≤ payloadMinSize tagging := by
  cases tagging with
  | notTagged => exact Nat.le_add_right 14 2
  | tagged => exact Nat.le_refl 18
  | doubleTagged => exact Nat.le_refl 22

theorem payload_eq (h : 14 ≤ f.length) : payload f =
    if f.length < payloadMinSize (taggingOf f) then .ok (.error .frameTooShort)
    else .ok (.ok (f.drop (14 + (taggingOf f).size))) := by
  have hrest : ∀ tagging : Tagging, ¬ f.length < payloadMinSize tagging →
      fastPayload f tagging = .ok (f.drop (14 + tagging.size)) := fun tagging hlong =>
    fastPayload_eq (Nat.le_trans (size_le_payloadMinSize tagging) (Nat.not_lt.mp hlong))
  unfold payload
  rw [if_neg (by unfold minFrameSize; omega), fastTaggingType_eq h, ok_bind]
  cases taggingOf f with
  | notTagged => exact ite_bind_eq (hrest .notTagged)
  | tagged => exact ite_bind_eq (hrest .tagged)
  | doubleTagged => exact ite_bind_eq (hrest .doubleTagged)

/-- The fields of a frame. -/
def fieldsOf (f : Bytes) : Fields :=
  ⟨f.take 6, (f.take 12).drop 6, taggingOf f, ethertypeAt f (taggingOf f),
    f.drop (14 + (taggingOf f).size)⟩

theorem fastDestination_eq (h : 6 ≤ f.length) : fastDestination f = .ok (f.take 6) :=
  slice_from_start h

theorem fastSource_eq (h : 12 ≤ f.length) : fastSource f = .ok ((f.take 12).drop 6) :=
  slice_of_le (by omega) h

theorem parseFrame_eq_ok_iff {r : Fields} : parseFrame f = .ok (r, none) ↔
    14 + (taggingOf f).size ≤ f.length ∧ r = fieldsOf f := by
  have hframe : minFrameSize = 14 := rfl
  by_cases h : f.length < minFrameSize
  · unfold parseFrame
    rw [if_pos h]
    constructor
    · intro hok
      cases hok
    · rintro ⟨hlong, -⟩
      omega
  have hrest : ∀ tagging : Tagging,
      (if f.length < 14 + tagging.size then
          .ok (⟨f.take 6, (f.take 12).drop 6, tagging, ⟨0, 0⟩, []⟩, some .frameTooShort)
        else fastEthertype f tagging >>= fun ethertype => fastPayload f tagging >>= fun payload =>
          .ok (⟨f.take 6, (f.take 12).drop 6, tagging, ethertype, payload⟩, none) :
          Go (Fields × Option Err)) = .ok (r, none) ↔
      14 + tagging.size ≤ f.length ∧ r = ⟨f.take 6, (f.take 12).drop 6, tagging,
        ethertypeAt f tagging, f.drop (14 + tagging.size)⟩ := by
    intro tagging
    split
    · next hshort =>
      constructor
      · intro hok
        cases hok
      · rintro ⟨hlong, -⟩
        omega
    · next hlong =>
      rw [fastEthertype_eq (by omega), ok_bind, fastPayload_eq (by omega), ok_bind]
      constructor
      · intro hok
        cases hok
        exact ⟨by omega, rfl⟩
      · rintro ⟨-, rfl⟩
        rfl
  unfold parseFrame fieldsOf
  rw [if_neg h, fastDestination_eq (by omega), ok_bind, fastSource_eq (by omega), ok_bind,
    fastTaggingType_eq (by omega), ok_bind]
  cases taggingOf f with
  | notTagged => exact hrest .notTagged
  | tagged => exact hrest .tagged
  | doubleTagged => exact hrest .doubleTagged

/-! ## One parser against five -/

/-- The functions for the single fields all succeed, with these results. -/
structure Piecewise (f : Bytes) (r : Fields) : Prop where
  dst : destination f = .ok (.ok r.dst)
  src : source f = .ok (.ok r.src)
  tagging : detectTagging f = .ok (.ok r.tagging)
  ethertype : getEthertype f = .ok (.ok r.ethertype)
  payload : payload f = .ok (.ok r.payload)

/-- `ParseFrame` succeeds where all of them do, with their results. -/
structure Agrees (f : Bytes) : Prop where
  succeeds : (∃ r, parseFrame f = .ok (r, none)) ↔ ∃ r, Piecewise f r
  fields : ∀ r, parseFrame f = .ok (r, none) → Piecewise f r

theorem piecewise_iff {r : Fields} :
    Piecewise f r ↔ 14 ≤ f.length ∧ payloadMinSize (taggingOf f) ≤ f.length ∧ r = fieldsOf f := by
  by_cases h : f.length < 14
  · constructor
    · intro hr
      have hshort : detectTagging f = .ok (.error .frameTooShort) := if_pos h
      have htagging := hr.tagging
      rw [hshort] at htagging
      cases htagging
    · rintro ⟨hlong, -⟩
      omega
  have hmin := size_le_payloadMinSize (taggingOf f)
  have hdst : destination f = .ok (.ok (f.take 6)) := by
    unfold destination
    rw [if_neg (by omega), fastDestination_eq (by omega)]
    rfl
  have hsrc : source f = .ok (.ok ((f.take 12).drop 6)) := by
    unfold source
    rw [if_neg (by omega), fastSource_eq (by omega)]
    rfl
  have htagging := detectTagging_eq (f := f) (by omega)
  have hethertype := getEthertype_eq (f := f) (by omega)
  have hpayload := payload_eq (f := f) (by omega)
  constructor
  · rintro ⟨h1, h2, h3, h4, h5⟩
    rw [hdst] at h1
    rw [hsrc] at h2
    rw [htagging] at h3
    rw [hethertype] at h4
    rw [hpayload] at h5
    by_cases hshort : f.length < payloadMinSize (taggingOf f)
    · rw [if_pos hshort] at h5
      cases h5
    · rw [if_neg (by omega)] at h4 h5
      obtain ⟨dst, src, tagging, ethertype, payload⟩ := r
      cases h1
      cases h2
      cases h3
      cases h4
      cases h5
      exact ⟨by omega, by omega, rfl⟩
  · rintro ⟨-, hlong, rfl⟩
    rw [if_neg (by omega)] at hethertype hpayload
    exact ⟨hdst, hsrc, htagging, hethertype, hpayload⟩

/-- **`ParseFrame` and the functions for the single fields agree on a frame, unless it is an
untagged frame of 14 or 15 bytes.** `ParseFrame` finds the payload of such a frame behind
its type field; `Payload` calls it too short, as it counts the type field twice.
GOLINE: tuntap/frame.go:26-34, 111-179, 266-296 -/
theorem parseFrame_agrees_iff (f : Bytes) : Agrees f ↔
    ¬ (14 ≤ f.length ∧ f.length < 16 ∧ detectTagging f = .ok (.ok .notTagged)) := by
  constructor
  · rintro h ⟨hlong, hshort, htagging⟩
    rw [detectTagging_eq hlong] at htagging
    cases hnot : taggingOf f with
    | notTagged =>
      have hparsed : parseFrame f = .ok (fieldsOf f, none) :=
        parseFrame_eq_ok_iff.mpr ⟨by rw [hnot]; exact hlong, rfl⟩
      obtain ⟨-, hpayload, -⟩ := piecewise_iff.mp (h.fields _ hparsed)
      rw [hnot] at hpayload
      exact absurd hpayload (by simpa [payloadMinSize] using hshort)
    | tagged =>
      rw [hnot] at htagging
      cases htagging
    | doubleTagged =>
      rw [hnot] at htagging
      cases htagging
  · intro h
    have hsize : 14 + (taggingOf f).size ≤ f.length ↔
        14 ≤ f.length ∧ payloadMinSize (taggingOf f) ≤ f.length := by
      have hmin := size_le_payloadMinSize (taggingOf f)
      refine ⟨fun hlong => ⟨by omega, ?_⟩, fun hlong => by omega⟩
      cases hnot : taggingOf f with
      | notTagged =>
        have hfar : ¬ f.length < 16 := fun hshort =>
          h ⟨by omega, hshort, by rw [detectTagging_eq (by omega), hnot]⟩
        exact Nat.not_lt.mp hfar
      | tagged => rwa [hnot] at hlong
      | doubleTagged => rwa [hnot] at hlong
    have hfields : ∀ r, parseFrame f = .ok (r, none) ↔ Piecewise f r := by
      intro r
      rw [parseFrame_eq_ok_iff, piecewise_iff, hsize, and_assoc]
    exact ⟨exists_congr hfields, fun r => (hfields r).mp⟩

/-- Fourteen zeros are a frame to `ParseFrame`, and too short for `Payload`. -/
theorem parseFrame_disagrees :
    let f : Bytes := List.replicate 14 0
    parseFrame f = .ok (⟨List.replicate 6 0, List.replicate 6 0, .notTagged, ⟨0, 0⟩, []⟩, none) ∧
      destination f = .ok (.ok (List.replicate 6 0)) ∧ source f = .ok (.ok (List.replicate 6 0)) ∧
      detectTagging f = .ok (.ok .notTagged) ∧ getEthertype f = .ok (.ok ⟨0, 0⟩) ∧
      payload f = .ok (.error .frameTooShort) ∧ ¬ Agrees f := by
  refine ⟨rfl, rfl, rfl, rfl, rfl, rfl, fun h => ?_⟩
  have hpayload := (h.fields _ rfl).payload
  cases hpayload

/-! ## The type field of a frame in a buffer -/

variable {b : Bytes}

/-- Not all of the field at `pos` lies in the frame, and it may begin with the byte `hi`. -/
def MayBegin (f : Bytes) (pos : ℕ) (hi : UInt8) : Prop :=
  f.length ≤ pos ∨ (f.length = pos + 1 ∧ f.getD pos 0 = hi)

/-- What follows the frame decides whether it looks like IPv6: its type field, or the one
that may be a second tag, is cut off. -/
def CutOff (f : Bytes) : Prop :=
  (taggingOf f = .tagged ∧ (MayBegin f 16 0x86 ∨ MayBegin f 16 0x81)) ∨
    (taggingOf f = .doubleTagged ∧ MayBegin f 20 0x86)

instance (hi : UInt8) : Decidable (MayBegin f pos hi) := inferInstanceAs (Decidable (_ ∨ _))

instance : Decidable (CutOff f) := inferInstanceAs (Decidable (_ ∨ _))

/-- The type field that is found in a buffer. -/
def typeOf (b : Bytes) : Ethertype := ethertypeAt b (taggingOf b)

theorem getEthertype_buffer (h : 22 ≤ b.length) : getEthertype b = .ok (.ok (typeOf b)) := by
  have hsize : (taggingOf b).size ≤ 8 := by
    cases taggingOf b with
    | notTagged => exact Nat.zero_le 8
    | tagged => exact Nat.le_add_right 4 4
    | doubleTagged => exact Nat.le_refl 8
  rw [getEthertype_eq (by omega), if_neg (by omega)]
  rfl

section Prefix

variable {stale : Bytes}

theorem getD_frame (h : pos < f.length) : (f ++ stale).getD pos 0 = f.getD pos 0 := by
  rw [List.getD_eq_getElem?_getD, List.getD_eq_getElem?_getD, List.getElem?_append_left h]

theorem fieldAt_frame (h : pos + 1 < f.length) : fieldAt (f ++ stale) pos = fieldAt f pos := by
  unfold fieldAt
  rw [getD_frame (by omega), getD_frame h]

theorem taggingOf_frame (h : 14 ≤ f.length) (hlong : 18 ≤ (f ++ stale).length)
    (hinner : taggingOf f = .tagged → fieldAt (f ++ stale) 16 ≠ dot1QTagType) :
    taggingOf (f ++ stale) = taggingOf f := by
  unfold taggingOf at hinner ⊢
  have htype : fieldAt (f ++ stale) 12 = fieldAt f 12 := fieldAt_frame (by omega)
  rw [htype]
  by_cases hq : fieldAt f 12 = dot1QTagType
  · simp only [if_pos hq] at hinner ⊢
    by_cases hdouble : 18 ≤ f.length ∧ fieldAt f 16 = dot1QTagType
    · rw [if_pos hdouble, if_pos ⟨hlong, by rw [fieldAt_frame (by omega)]; exact hdouble.2⟩]
    · rw [if_neg hdouble] at hinner ⊢
      exact if_neg fun hboth => hinner rfl hboth.2
  · simp only [if_neg hq]

theorem fst_fieldAt_ne {hi : UInt8} (hshort : f.length ≤ pos + 1) (h : ¬ MayBegin f pos hi) :
    (fieldAt (f ++ stale) pos).1 ≠ hi := by
  obtain ⟨hlong, hne⟩ := not_or.mp h
  have hlast : f.length = pos + 1 := by omega
  show (f ++ stale).getD pos 0 ≠ hi
  rw [getD_frame (by omega)]
  exact fun heq => hne ⟨hlast, heq⟩

/-- A frame that is not cut off is IPv6 in the buffer if it is so alone. -/
theorem typeOf_frame (h : 14 ≤ f.length) (hlong : 22 ≤ (f ++ stale).length) (hcut : ¬ CutOff f) :
    typeOf (f ++ stale) = ethertypeIPv6 ↔ getEthertype f = .ok (.ok ethertypeIPv6) := by
  obtain ⟨hcutTag, hcutDouble⟩ := not_or.mp hcut
  -- the tags are seen alike
  have htags : taggingOf (f ++ stale) = taggingOf f := by
    refine taggingOf_frame h (by omega) fun htag hfield => ?_
    have hmay := (not_or.mp fun hmay => hcutTag ⟨htag, hmay⟩).2
    by_cases hinner : 17 < f.length
    · rw [fieldAt_frame hinner] at hfield
      unfold taggingOf at htag
      split at htag
      · rw [if_pos ⟨hinner, hfield⟩] at htag
        cases htag
      · split at htag
        · cases htag
        · cases htag
    · exact fst_fieldAt_ne (by omega) hmay (congrArg Prod.fst hfield)
  -- a type field that is cut off is not that of IPv6
  have hfield : ¬ 14 + (taggingOf f).size ≤ f.length → typeOf (f ++ stale) ≠ ethertypeIPv6 := by
    intro hshort heq
    have hhi : (fieldAt (f ++ stale) (12 + (taggingOf f).size)).1 = 0x86 := by
      have hhi := congrArg Ethertype.hi heq
      unfold typeOf at hhi
      rw [htags] at hhi
      exact hhi
    cases htag : taggingOf f with
    | notTagged =>
      rw [htag] at hshort
      exact hshort h
    | tagged =>
      rw [htag] at hshort hhi
      have hend : f.length ≤ 16 + 1 := by
        simp only [Tagging.size] at hshort
        omega
      have hmay := (not_or.mp fun hmay => hcutTag ⟨htag, hmay⟩).1
      exact fst_fieldAt_ne hend hmay hhi
    | doubleTagged =>
      rw [htag] at hshort hhi
      have hend : f.length ≤ 20 + 1 := by
        simp only [Tagging.size] at hshort
        omega
      exact fst_fieldAt_ne hend (fun hmay => hcutDouble ⟨htag, hmay⟩) hhi
  rw [getEthertype_eq h]
  by_cases hown : 14 + (taggingOf f).size ≤ f.length
  · have hsame : typeOf (f ++ stale) = ethertypeAt f (taggingOf f) := by
      unfold typeOf ethertypeAt
      rw [htags, fieldAt_frame (by omega)]
    rw [if_neg (by omega), hsame]
    exact ⟨fun heq => by rw [heq], fun hok => Except.ok.inj (Except.ok.inj hok)⟩
  · rw [if_pos (by omega)]
    exact ⟨fun heq => absurd heq (hfield hown), fun hok => by cases hok⟩

/-- What was left behind the frame in a buffer of this size, as a function of the position. -/
def leftover (size : ℕ) (g : ℕ → UInt8) (f : Bytes) : Bytes :=
  (List.range (size - f.length)).map fun i => g (f.length + i)

/-- Leftovers with these fields at the two places behind tags. -/
def fieldsBehind (inner last : TypeField) (i : ℕ) : UInt8 :=
  if i = 16 then inner.1 else if i = 17 then inner.2
  else if i = 20 then last.1 else if i = 21 then last.2 else 0

theorem length_leftover {size : ℕ} (g : ℕ → UInt8) (h : f.length ≤ size) :
    (f ++ leftover size g f).length = size := by
  rw [List.length_append, leftover, List.length_map, List.length_range]
  omega

theorem getD_leftover {size : ℕ} {g : ℕ → UInt8} (hpos : f.length ≤ pos) (hsize : pos < size) :
    (f ++ leftover size g f).getD pos 0 = g pos := by
  have hlt : pos - f.length < size - f.length := by omega
  rw [List.getD_eq_getElem?_getD, List.getElem?_append_right hpos, leftover, List.getElem?_map,
    List.getElem?_range hlt, Option.map_some, Option.getD_some]
  congr 1
  omega

theorem fieldAt_leftover {size : ℕ} {g : ℕ → UInt8} {t : TypeField} (h : MayBegin f pos t.1)
    (hhi : g pos = t.1) (hlo : g (pos + 1) = t.2) (hsize : pos + 1 < size) :
    fieldAt (f ++ leftover size g f) pos = t := by
  have hfirst : (f ++ leftover size g f).getD pos 0 = t.1 := by
    rcases h with hbefore | ⟨hlast, hown⟩
    · rw [getD_leftover hbefore (by omega), hhi]
    · rw [getD_frame (by omega), hown]
  have hsecond : (f ++ leftover size g f).getD (pos + 1) 0 = t.2 := by
    have hend : f.length ≤ pos + 1 := by
      rcases h with hbefore | ⟨hlast, -⟩
      · omega
      · omega
    rw [getD_leftover hend hsize, hlo]
  unfold fieldAt
  rw [hfirst, hsecond]

theorem dot1Q_of_tagged (h : taggingOf f = .tagged) : fieldAt f 12 = dot1QTagType := by
  by_contra hne
  unfold taggingOf at h
  rw [if_neg hne] at h
  split at h
  · cases h
  · cases h

theorem typeOf_tagged {t : TypeField} (h : 14 ≤ f.length) (hlong : 18 ≤ (f ++ stale).length)
    (htag : taggingOf f = .tagged) (hfield : fieldAt (f ++ stale) 16 = t) (ht : t ≠ dot1QTagType) :
    typeOf (f ++ stale) = ⟨t.1, t.2⟩ := by
  have htags := taggingOf_frame h hlong fun _ hinner => ht (hfield.symm.trans hinner)
  unfold typeOf ethertypeAt
  rw [htags, htag, show 12 + Tagging.tagged.size = 16 from rfl, hfield]

theorem typeOf_doubleTagged {t : TypeField} (htag : taggingOf (f ++ stale) = .doubleTagged)
    (hfield : fieldAt (f ++ stale) 20 = t) : typeOf (f ++ stale) = ⟨t.1, t.2⟩ := by
  unfold typeOf ethertypeAt
  rw [htag, show 12 + Tagging.doubleTagged.size = 20 from rfl, hfield]

/-- A frame that is cut off looks like IPv6 or not, as the leftovers have it. -/
theorem exists_leftovers {size : ℕ} (h : 14 ≤ f.length) (hcut : CutOff f) (hsize : 22 ≤ size) :
    ∃ stale stale', (f ++ stale).length = size ∧ (f ++ stale').length = size ∧
      typeOf (f ++ stale) = ethertypeIPv6 ∧ typeOf (f ++ stale') ≠ ethertypeIPv6 := by
  have hlen : f.length ≤ 21 := by
    rcases hcut with ⟨-, (hmay | hmay) | (hmay | hmay)⟩ | ⟨-, hmay | hmay⟩ <;> omega
  have hsized : ∀ g, (f ++ leftover size g f).length = size := fun g =>
    length_leftover g (by omega)
  have hlong : ∀ g, 18 ≤ (f ++ leftover size g f).length := fun g => by
    rw [hsized]
    omega
  rcases hcut with ⟨htag, hmay | hmay⟩ | ⟨htag, hmay⟩
  · -- the type field itself is completed
    refine ⟨leftover size (fieldsBehind (0x86, 0xdd) (0, 0)) f,
      leftover size (fieldsBehind (0x86, 0) (0, 0)) f, hsized _, hsized _, ?_, ?_⟩
    · exact typeOf_tagged h (hlong _) htag (t := (0x86, 0xdd))
        (fieldAt_leftover hmay rfl rfl (by omega)) (by decide)
    · rw [typeOf_tagged h (hlong _) htag (t := (0x86, 0))
        (fieldAt_leftover hmay rfl rfl (by omega)) (by decide)]
      decide
  · -- it is completed to a second tag, or not
    refine ⟨leftover size (fieldsBehind dot1QTagType (0x86, 0xdd)) f,
      leftover size (fieldsBehind (0x81, 1) (0, 0)) f, hsized _, hsized _, ?_, ?_⟩
    · have hinner : fieldAt (f ++ leftover size (fieldsBehind dot1QTagType (0x86, 0xdd)) f) 16 =
          dot1QTagType := fieldAt_leftover hmay rfl rfl (by omega)
      have hdouble : taggingOf (f ++ leftover size (fieldsBehind dot1QTagType (0x86, 0xdd)) f) =
          .doubleTagged := by
        have htype : fieldAt (f ++ leftover size (fieldsBehind dot1QTagType (0x86, 0xdd)) f) 12 =
            fieldAt f 12 := fieldAt_frame (by omega)
        unfold taggingOf
        rw [htype, if_pos (dot1Q_of_tagged htag), if_pos ⟨hlong _, hinner⟩]
      have hend : MayBegin f 20 0x86 := Or.inl (by
        rcases hmay with hmay | hmay
        · omega
        · omega)
      exact typeOf_doubleTagged hdouble (t := (0x86, 0xdd))
        (fieldAt_leftover hend rfl rfl (by omega))
    · rw [typeOf_tagged h (hlong _) htag (t := (0x81, 1))
        (fieldAt_leftover hmay rfl rfl (by omega)) (by decide)]
      decide
  · have htags : ∀ g, taggingOf (f ++ leftover size g f) = .doubleTagged := by
      intro g
      have hnot : taggingOf f ≠ .tagged := by
        rw [htag]
        exact nofun
      rw [taggingOf_frame h (hlong g) fun hone => absurd hone hnot, htag]
    refine ⟨leftover size (fieldsBehind (0, 0) (0x86, 0xdd)) f,
      leftover size (fieldsBehind (0, 0) (0x86, 0)) f, hsized _, hsized _, ?_, ?_⟩
    · exact typeOf_doubleTagged (htags _) (t := (0x86, 0xdd))
        (fieldAt_leftover hmay rfl rfl (by omega))
    · rw [typeOf_doubleTagged (htags _) (t := (0x86, 0))
        (fieldAt_leftover hmay rfl rfl (by omega))]
      decide

end Prefix

end N2nGo.Tuntap

namespace N2nGo.EdgeClient

open N2nGo.Lib N2nGo.Protocol N2nGo.Tuntap

/-! ## What becomes of a frame -/

/-- GOLINE: edge/routines.go:128-134 -/
def frameBufSize : ℕ := defaultBufferSize - protoVHeaderSize

/-- What is done with a frame. -/
inductive TapDecision where
  | skip
  | vFuze (destMAC payload : Bytes) (strategy : UDPWriteStrategy)
  | data (destMAC payload : Bytes) (strategy : UDPWriteStrategy)
  deriving DecidableEq

/-- What becomes of a frame that is not IPv6. -/
def judge (env : Env) (e : EdgeClient) (frame : Bytes) : TapDecision :=
  match e.processOutgoingPayload env frame with
  | .error _ => .skip
  | .ok payload =>
    if isBroadcast (frame.take 6) then .data (frame.take 6) payload .enforceSupernode
    else if e.enableVFuze then .vFuze (frame.take 6) payload .bestEffort
    else .data (frame.take 6) payload .bestEffort

/-- The decision that `handleTAP` takes.
GOLINE: edge/routines.go:144-213 -/
def tapDecision (env : Env) (e : EdgeClient) (frameBuf : Bytes) (n : ℕ) : Go TapDecision :=
  if n < 14 then .ok .skip
  else do
    match ← getEthertype frameBuf with
    | .error _ => .ok .skip
    | .ok ethertype =>
      if ethertype = ethertypeIPv6 then .ok .skip
      else do
        let frame ← slice frameBuf 0 n
        match e.processOutgoingPayload env frame with
        | .error _ => .ok .skip
        | .ok payload =>
          let destMAC ← fastDestination frameBuf
          if isBroadcast destMAC then .ok (.data destMAC payload .enforceSupernode)
          else if e.enableVFuze then .ok (.vFuze destMAC payload .bestEffort)
          else .ok (.data destMAC payload .bestEffort)

/-- A decision is carried out. -/
def act (P : Platform) (env : Env) (e : EdgeClient) : TapDecision → Go (EdgeClient × List Output)
  | .skip => .ok (e, [])
  | .vFuze destMAC payload strategy => do
    let (e, out, _) ← e.sendVFuze P env [] destMAC payload strategy
    .ok (e, out)
  | .data destMAC payload strategy => do
    let (e, out, _) ← e.writePacket P env [] typeData (some destMAC) payload strategy
    .ok (e, out)

variable {P : Platform} {env : Env} {e : EdgeClient} {frameBuf f : Bytes} {n : ℕ}

theorem handleTAP_eq_act : e.handleTAP P env frameBuf n =
    e.tapDecision env frameBuf n >>= e.act P env := by
  unfold handleTAP tapDecision
  by_cases hn : n < 14
  · rw [if_pos hn, if_pos hn]
    rfl
  rw [if_neg hn, if_neg hn]
  cases getEthertype frameBuf with
  | error fault => rfl
  | ok res =>
    cases res with
    | error err => rfl
    | ok ethertype =>
      simp only [ok_bind]
      by_cases hv6 : ethertype = ethertypeIPv6
      · rw [if_pos hv6, if_pos hv6]
        rfl
      rw [if_neg hv6, if_neg hv6]
      cases slice frameBuf 0 n with
      | error fault => rfl
      | ok frame =>
        simp only [ok_bind]
        cases e.processOutgoingPayload env frame with
        | error err => rfl
        | ok payload =>
          simp only
          cases fastDestination frameBuf with
          | error fault => rfl
          | ok destMAC =>
            simp only [ok_bind]
            split
            · rfl
            · split
              · rfl
              · rfl

/-- The decision in a buffer: a frame that looks like IPv6 there is skipped, and any other is
judged alone. -/
theorem tapDecision_eq {stale : Bytes} (h : 14 ≤ f.length) (hlong : 22 ≤ (f ++ stale).length) :
    e.tapDecision env (f ++ stale) f.length =
      .ok (if typeOf (f ++ stale) = ethertypeIPv6 then .skip else e.judge env f) := by
  have hslice : slice (f ++ stale) 0 f.length = .ok f := by
    rw [slice_from_start (by rw [List.length_append]; omega), List.take_left]
  have hdest : fastDestination (f ++ stale) = .ok (f.take 6) := by
    rw [fastDestination_eq (by omega), List.take_append_of_le_length (by omega)]
  unfold tapDecision judge
  rw [if_neg (by omega), getEthertype_buffer hlong, ok_bind]
  simp only
  split
  · rfl
  · rw [hslice, ok_bind]
    cases e.processOutgoingPayload env f with
    | error err => rfl
    | ok payload =>
      simp only [hdest, ok_bind]
      split
      · rfl
      · split
        · rfl
        · rfl

/-- Whatever follows the frame in the buffer, the same is done with it. -/
def JudgedAlone (P : Platform) (env : Env) (e : EdgeClient) (f : Bytes) : Prop :=
  ∀ b b', b.length = frameBufSize → b'.length = frameBufSize → b.take f.length = f →
    b'.take f.length = f →
    e.tapDecision env b f.length = e.tapDecision env b' f.length ∧
      e.handleTAP P env b f.length = e.handleTAP P env b' f.length

theorem judge_eq_skip_iff :
    e.judge env f = .skip ↔ ∃ err, e.processOutgoingPayload env f = .error err := by
  unfold judge
  cases e.processOutgoingPayload env f with
  | error err => exact ⟨fun _ => ⟨err, rfl⟩, fun _ => rfl⟩
  | ok payload =>
    constructor
    · intro hskip
      simp only at hskip
      split at hskip
      · cases hskip
      · split at hskip
        · cases hskip
        · cases hskip
    · rintro ⟨err, herr⟩
      cases herr

/-- **A frame is judged by its own bytes exactly if they decide whether it is IPv6**, or if it
could not be prepared for sending anyway. A tagged frame that ends before its type field
is skipped or sent as the leftovers of earlier frames have it.
GOLINE: edge/routines.go:128-213, tuntap/frame.go:66-90, 138-157 -/
theorem tap_judged_alone_iff (P : Platform) (env : Env) (e : EdgeClient) (f : Bytes)
    (h : 14 ≤ f.length) : JudgedAlone P env e f ↔
      ¬ CutOff f ∨ ∃ err, e.processOutgoingPayload env f = .error err := by
  have hbuf : 22 ≤ frameBufSize := by decide
  constructor
  · intro hsame
    by_cases hcut : CutOff f
    · -- two leftovers make a difference, unless the frame is skipped in any case
      obtain ⟨stale, stale', hlen, hlen', htype, htype'⟩ := exists_leftovers h hcut hbuf
      have hdecision := (hsame _ _ hlen hlen' List.take_left List.take_left).1
      rw [tapDecision_eq h (by omega), tapDecision_eq h (by omega), if_pos htype,
        if_neg htype'] at hdecision
      exact Or.inr (judge_eq_skip_iff.mp (Except.ok.inj hdecision).symm)
    · exact Or.inl hcut
  · intro hcond b b' hlen hlen' hb hb'
    have hdecision : e.tapDecision env b f.length = e.tapDecision env b' f.length := by
      rw [← List.take_append_drop f.length b, hb] at hlen ⊢
      rw [← List.take_append_drop f.length b', hb'] at hlen' ⊢
      rw [tapDecision_eq h (by omega), tapDecision_eq h (by omega)]
      rcases hcond with hcut | herr
      · simp only [typeOf_frame h (by omega : 22 ≤ (f ++ b.drop f.length).length) hcut,
          typeOf_frame h (by omega : 22 ≤ (f ++ b'.drop f.length).length) hcut]
      · rw [judge_eq_skip_iff.mpr herr, ite_self, ite_self]
    refine ⟨hdecision, ?_⟩
    rw [handleTAP_eq_act, handleTAP_eq_act, hdecision]

/-! ## Two frames -/

section Examples

/-- A frame with the beginning of a tag. -/
def taggedFrame : Bytes := [2, 0, 0, 0, 0, 1, 2, 0, 0, 0, 0, 2, 0x81, 0]

/-- The same with the type field of IPv4 in place of the tag. -/
def plainFrame : Bytes := [2, 0, 0, 0, 0, 1, 2, 0, 0, 0, 0, 2, 8, 0]

theorem tap_judged_alone_plain :
    JudgedAlone Sample.edgePlatform Sample.edgeEnv (Sample.edge "c" "m" false []) plainFrame :=
  (tap_judged_alone_iff _ _ _ plainFrame (by decide)).mpr (Or.inl (by decide))

/-- Behind the tagged frame, the type field of IPv6 makes the edge skip it; zeros make the
edge send it. -/
theorem tap_judged_by_leftovers :
    let e := Sample.edge "c" "m" false []
    let b := taggedFrame ++ leftover frameBufSize (fieldsBehind (0x86, 0xdd) (0, 0)) taggedFrame
    let b' := taggedFrame ++ leftover frameBufSize (fieldsBehind (0, 0) (0, 0)) taggedFrame
    b.length = frameBufSize ∧ b'.length = frameBufSize ∧ b.take 14 = taggedFrame ∧
      b'.take 14 = taggedFrame ∧ e.tapDecision Sample.edgeEnv b 14 = .ok .skip ∧
      e.tapDecision Sample.edgeEnv b' 14 =
        .ok (.vFuze [2, 0, 0, 0, 0, 1] taggedFrame .bestEffort) ∧
      ¬ JudgedAlone Sample.edgePlatform Sample.edgeEnv e taggedFrame := by
  intro e b b'
  have hlen : b.length = frameBufSize := length_leftover _ (by decide)
  have hlen' : b'.length = frameBufSize := length_leftover _ (by decide)
  have hbuf : 22 ≤ frameBufSize := by decide
  have hlong : 22 ≤ b.length := by omega
  have hlong' : 22 ≤ b'.length := by omega
  have hstart : 14 ≤ taggedFrame.length := by decide
  have htag : taggingOf taggedFrame = .tagged := by decide
  have hmay : ∀ hi, MayBegin taggedFrame 16 hi := fun _ => Or.inl (by decide)
  have htype : typeOf b = ethertypeIPv6 :=
    typeOf_tagged hstart (Nat.le_trans (by decide) hlong) htag (t := (0x86, 0xdd))
      (fieldAt_leftover (hmay _) rfl rfl (by omega)) (by decide)
  have htype' : typeOf b' = ⟨0, 0⟩ :=
    typeOf_tagged hstart (Nat.le_trans (by decide) hlong') htag (t := (0, 0))
      (fieldAt_leftover (hmay _) rfl rfl (by omega)) (by decide)
  have hskip : e.tapDecision Sample.edgeEnv b 14 = .ok .skip := by
    have hdecision : e.tapDecision Sample.edgeEnv b 14 =
        .ok (if typeOf b = ethertypeIPv6 then .skip else e.judge Sample.edgeEnv taggedFrame) :=
      tapDecision_eq hstart hlong
    rw [hdecision, if_pos htype]
  have hsent : e.tapDecision Sample.edgeEnv b' 14 =
      .ok (.vFuze [2, 0, 0, 0, 0, 1] taggedFrame .bestEffort) := by
    have hdecision : e.tapDecision Sample.edgeEnv b' 14 =
        .ok (if typeOf b' = ethertypeIPv6 then .skip else e.judge Sample.edgeEnv taggedFrame) :=
      tapDecision_eq hstart hlong'
    rw [hdecision, htype', if_neg (by decide)]
    rfl
  refine ⟨hlen, hlen', rfl, rfl, hskip, hsent, fun halone => ?_⟩
  have hsame := (halone b b' hlen hlen' rfl rfl).1
  have hboth : (Except.ok .skip : Go TapDecision) = .ok (.vFuze [2, 0, 0, 0, 0, 1] taggedFrame .bestEffort) :=
    hskip.symm.trans (hsame.trans hsent)
  cases hboth

end Examples

end N2nGo.EdgeClient
