import N2nGo.Lib.NetText
import Mathlib.Data.List.TakeWhile
import Mathlib.Data.List.Infix

/-!
# URLs as text

The query of a URL is what stands between the first `?` and the `#` of the fragment. It is a
list of parameters that `net/url` reads leniently: a parameter with a `;` or with a bad
escape is dropped. `queryValues` are the decoded values of one key.

Decoding never makes a text longer. So a value that stands in a query unescaped comes back
as itself only if it has none of the characters that mean something there
(`queryValues_raw_iff`).
-/

set_option autoImplicit false

namespace N2nGo.Lib.Url

open N2nGo.Lib

/-- `strings.Contains`. -/
def contains (s sub : Bytes) : Bool := s.tails.any fun t => sub.isPrefixOf t

/-- What stands before the first `sep`; everything if there is none. -/
def before (sep : UInt8) (s : Bytes) : Bytes := s.takeWhile (· ≠ sep)

/-- What stands behind the first `sep`; nothing if there is none. -/
def after (sep : UInt8) (s : Bytes) : Bytes := (s.dropWhile (· ≠ sep)).drop 1

/-- `u.RawQuery`. -/
def rawQuery (url : Bytes) : Bytes := after 63 (before 35 url)

/-- `url.QueryUnescape`. -/
def unescape : Bytes → Option Bytes
  | [] => some []
  | c :: rest =>
    if c = 37 then
      match rest with
      | a :: b :: rest =>
        match Net.hexValue a, Net.hexValue b with
        | some hi, some lo => (unescape rest).map (UInt8.ofNat (16 * hi + lo) :: ·)
        | _, _ => none
      | _ => none
    else (unescape rest).map ((if c = 43 then 32 else c) :: ·)

/-- One parameter; `none` where it is dropped. -/
def param (segment : Bytes) : Option (Bytes × Bytes) :=
  if 59 ∈ segment ∨ segment = [] then none
  else
    match unescape (before 61 segment), unescape (after 61 segment) with
    | some key, some value => some (key, value)
    | _, _ => none

/-- `url.ParseQuery`. -/
def params (query : Bytes) : List (Bytes × Bytes) := (query.splitOn 38).filterMap param

/-- `u.Query()[key]`. -/
def queryValues (url key : Bytes) : List Bytes :=
  ((params (rawQuery url)).filter fun p => p.1 = key).map Prod.snd

/-! ## Searching -/

section Search

variable {s sub front back : Bytes} {sep : UInt8}

theorem contains_iff : contains s sub = true ↔ sub <:+: s := by
  unfold contains
  rw [List.any_eq_true, List.infix_iff_prefix_suffix]
  constructor
  · rintro ⟨t, ht, hsub⟩
    exact ⟨t, List.isPrefixOf_iff_prefix.mp hsub, (List.mem_tails _ _).mp ht⟩
  · rintro ⟨t, hsub, ht⟩
    exact ⟨t, (List.mem_tails _ _).mpr ht, List.isPrefixOf_iff_prefix.mpr hsub⟩

theorem contains_singleton {b : UInt8} : contains s [b] = true ↔ b ∈ s := by
  rw [contains_iff]
  constructor
  · intro h
    exact h.subset (List.mem_singleton_self b)
  · intro h
    obtain ⟨front, back, rfl⟩ := List.append_of_mem h
    exact ⟨front, back, by rw [List.append_assoc]; rfl⟩

/-- A text begins where its first byte does. -/
theorem infix_of_not_mem {x : UInt8} (hx : x ∉ front) (h : x :: sub <:+: front ++ back) :
    x :: sub <:+: back := by
  obtain ⟨s, t, hall⟩ := h
  rw [List.append_assoc] at hall
  rcases List.append_eq_append_iff.mp hall with ⟨a, hfront, hrest⟩ | ⟨a, -, hback⟩
  · rcases a with _ | ⟨y, a⟩
    · exact ⟨[], t, hrest⟩
    · obtain ⟨rfl, -⟩ := List.cons.inj hrest
      exact absurd (hfront ▸ List.mem_append_right _ List.mem_cons_self) hx
  · exact ⟨a, t, by rw [List.append_assoc]; exact hback.symm⟩

theorem before_eq_self (h : sep ∉ s) : before sep s = s :=
  List.takeWhile_eq_self_iff.mpr fun _ hb => decide_eq_true (ne_of_mem_of_not_mem hb h)

theorem not_mem_before (sep : UInt8) (s : Bytes) : sep ∉ before sep s := by
  intro hmem
  have hne := List.mem_takeWhile_imp hmem
  exact of_decide_eq_true hne rfl

theorem before_append_of_mem (h : sep ∈ front) (back : Bytes) :
    before sep (front ++ back) = before sep front := by
  unfold before
  rw [List.takeWhile_append, if_neg]
  intro hlen
  have hself : front.takeWhile (· ≠ sep) = front :=
    (List.takeWhile_prefix _).eq_of_length hlen
  have hmem : sep ∈ front.takeWhile (· ≠ sep) := hself.symm ▸ h
  exact not_mem_before sep front hmem

theorem before_append_of_not_mem (h : sep ∉ front) (back : Bytes) :
    before sep (front ++ back) = front ++ before sep back := by
  have hself : front.takeWhile (· ≠ sep) = front := before_eq_self h
  unfold before
  rw [List.takeWhile_append, hself, if_pos rfl]

theorem after_cons_self (s : Bytes) : after sep (sep :: s) = s := by
  unfold after
  rw [List.dropWhile_cons_of_neg (by simp)]
  rfl

theorem after_append_of_not_mem (h : sep ∉ front) (back : Bytes) :
    after sep (front ++ back) = after sep back := by
  unfold after
  have hall : ∀ b ∈ front, decide (b ≠ sep) = true := fun b hb =>
    decide_eq_true (ne_of_mem_of_not_mem hb h)
  rw [List.dropWhile_append_of_pos hall]

theorem after_append_of_mem (h : sep ∈ front) (back : Bytes) :
    after sep (front ++ back) = after sep front ++ back := by
  obtain ⟨first, rest, rfl, hfirst⟩ := List.eq_append_cons_of_mem h
  rw [List.append_assoc, after_append_of_not_mem hfirst, after_append_of_not_mem hfirst,
    List.cons_append, after_cons_self, after_cons_self]

theorem after_eq_nil (h : sep ∉ s) : after sep s = [] := by
  have happend := after_append_of_not_mem h []
  rw [List.append_nil] at happend
  exact happend

theorem length_before_le (sep : UInt8) (s : Bytes) : (before sep s).length ≤ s.length :=
  (List.takeWhile_prefix _).length_le

theorem length_after_le (sep : UInt8) (s : Bytes) : (after sep s).length ≤ s.length := by
  unfold after
  exact ((List.drop_suffix _ _).trans (List.dropWhile_suffix _)).length_le

end Search

/-! ## Decoding -/

section Decode

variable {s t : Bytes}

theorem unescape_cons {c : UInt8} (hc : c ≠ 37) (s : Bytes) :
    unescape (c :: s) = (unescape s).map ((if c = 43 then 32 else c) :: ·) := by
  rcases s with _ | ⟨a, _ | ⟨b, rest⟩⟩
  · exact if_neg hc
  · exact if_neg hc
  · exact if_neg hc

/-- Decoding shortens a text with an escape and keeps the length of another. -/
theorem length_unescape (h : unescape s = some t) :
    t.length ≤ s.length ∧ (37 ∈ s → t.length < s.length) := by
  induction s using unescape.induct generalizing t with
  | case1 =>
    cases h
    exact ⟨Nat.le_refl _, fun hmem => absurd hmem List.not_mem_nil⟩
  | case2 a b rest hi lo hb ha ih =>
    rw [unescape, if_pos rfl] at h
    simp only [ha, hb] at h
    obtain ⟨t', ht', rfl⟩ := Option.map_eq_some_iff.mp h
    have hle := (ih ht').1
    simp only [List.length_cons]
    exact ⟨by omega, fun _ => by omega⟩
  | case3 a b rest hbad =>
    rw [unescape, if_pos rfl] at h
    simp only at h
    cases h
  | case4 rest hshort =>
    rw [unescape, if_pos rfl] at h
    · cases h
    · exact hshort
  | case5 c rest hc ih =>
    rw [unescape_cons hc] at h
    obtain ⟨t', ht', rfl⟩ := Option.map_eq_some_iff.mp h
    obtain ⟨hle, hlt⟩ := ih ht'
    simp only [List.length_cons, List.mem_cons]
    refine ⟨by omega, ?_⟩
    rintro (heq | hmem)
    · exact absurd heq.symm hc
    · have hless := hlt hmem
      omega

theorem unescape_eq_self_iff : unescape s = some s ↔ 37 ∉ s ∧ 43 ∉ s := by
  constructor
  · intro h
    have hescape : 37 ∉ s := fun hmem => Nat.lt_irrefl _ ((length_unescape h).2 hmem)
    refine ⟨hescape, ?_⟩
    induction s with
    | nil => exact List.not_mem_nil
    | cons c s ih =>
      obtain ⟨hc, hs⟩ := List.ne_and_not_mem_of_not_mem_cons hescape
      rw [unescape_cons hc.symm] at h
      obtain ⟨t, ht, hcons⟩ := Option.map_eq_some_iff.mp h
      obtain ⟨hhead, rfl⟩ := List.cons.inj hcons
      rw [List.mem_cons, not_or]
      refine ⟨?_, ih ht hs⟩
      rintro rfl
      rw [if_pos rfl] at hhead
      exact absurd hhead (by decide)
  · rintro ⟨hescape, hplus⟩
    induction s with
    | nil => rfl
    | cons c s ih =>
      obtain ⟨hc, hs⟩ := List.ne_and_not_mem_of_not_mem_cons hescape
      obtain ⟨hc', hs'⟩ := List.ne_and_not_mem_of_not_mem_cons hplus
      rw [unescape_cons hc.symm, ih hs hs', if_neg hc'.symm]
      rfl

end Decode

/-! ## Queries -/

section Query

variable {url key c front back : Bytes}

/-- The decoded values of a key in a query. -/
def valuesIn (query key : Bytes) : List Bytes :=
  ((params query).filter fun p => p.1 = key).map Prod.snd

theorem queryValues_eq (url key : Bytes) : queryValues url key = valuesIn (rawQuery url) key := rfl

theorem valuesIn_append (front back key : Bytes) :
    valuesIn (front ++ 38 :: back) key = valuesIn front key ++ valuesIn back key := by
  unfold valuesIn params
  rw [List.splitOn_append_cons_self, List.filterMap_append, List.filter_append, List.map_append]

/-- The value of one parameter. -/
theorem length_of_param {segment k v : Bytes} (h : param segment = some (k, v)) :
    v.length ≤ segment.length := by
  unfold param at h
  split at h
  · cases h
  · split at h
    · next key value hkey hvalue =>
      cases h
      exact (length_unescape hvalue).1.trans (length_after_le 61 segment)
    · cases h

theorem mem_intercalate_length {segments : List Bytes} {segment : Bytes} (h : segment ∈ segments) :
    segment.length ≤ ([38].intercalate segments).length := by
  induction segments with
  | nil => cases h
  | cons first segments ih =>
    cases segments with
    | nil =>
      rw [List.mem_singleton.mp h, List.intercalate_singleton]
    | cons second segments =>
      rw [List.intercalate_cons_cons, List.length_append, List.length_append]
      rcases List.mem_cons.mp h with rfl | h
      · omega
      · have hle := ih h
        omega

/-- A value is no longer than its query. -/
theorem length_of_mem_valuesIn {query v : Bytes} (h : v ∈ valuesIn query key) :
    v.length ≤ query.length := by
  obtain ⟨⟨k, v'⟩, hmem, rfl⟩ := List.mem_map.mp h
  obtain ⟨segment, hsegment, hparam⟩ := List.mem_filterMap.mp (List.mem_of_mem_filter hmem)
  have hle := mem_intercalate_length hsegment
  rw [List.intercalate_splitOn] at hle
  exact (length_of_param hparam).trans hle

/-- A text without the characters that mean something in a query. -/
structure Plain (c : Bytes) : Prop where
  ampersand : 38 ∉ c
  hash : 35 ∉ c
  semicolon : 59 ∉ c
  percent : 37 ∉ c
  plus : 43 ∉ c

/-- A key that stands for itself. -/
structure PlainKey (key : Bytes) : Prop extends Plain key where
  equals : 61 ∉ key

section

variable (hkey : PlainKey key)
include hkey

theorem before_equals (c : Bytes) : before 61 (key ++ 61 :: c) = key := by
  have htail : before 61 (61 :: c) = [] := List.takeWhile_cons_of_neg (by simp)
  rw [before_append_of_not_mem hkey.equals, htail, List.append_nil]

theorem after_equals (c : Bytes) : after 61 (key ++ 61 :: c) = c := by
  rw [after_append_of_not_mem hkey.equals, after_cons_self]

theorem param_single :
    param (key ++ 61 :: c) = if 59 ∈ c then none else (unescape c).map (key, ·) := by
  have hself : unescape key = some key := unescape_eq_self_iff.mpr ⟨hkey.percent, hkey.plus⟩
  have hmem : (59 ∈ key ++ 61 :: c ∨ key ++ 61 :: c = []) ↔ 59 ∈ c := by
    simp [hkey.semicolon]
  simp only [param, before_equals hkey, after_equals hkey, hself, hmem]
  cases unescape c with
  | none => rfl
  | some v => rfl

/-- A single parameter `key=c`. -/
theorem valuesIn_single (hc : 38 ∉ c) :
    valuesIn (key ++ 61 :: c) key = if 59 ∈ c then [] else (unescape c).toList := by
  have hsplit : (key ++ 61 :: c).splitOn 38 = [key ++ 61 :: c] := by
    rw [List.splitOn_eq_singleton]
    rw [List.mem_append, List.mem_cons, not_or, not_or]
    exact ⟨hkey.ampersand, by decide, hc⟩
  have hlist : params (key ++ 61 :: c) = (param (key ++ 61 :: c)).toList := by
    rw [params, hsplit]
    cases hparam : param (key ++ 61 :: c) with
    | none => simp [hparam]
    | some p => simp [hparam]
  rw [valuesIn, hlist, param_single hkey]
  split
  · rfl
  · cases unescape c with
    | none => rfl
    | some v => simp

/-- **An unescaped value.** It is the only value of its key in a query of its own exactly if it has
no special characters. -/
theorem queryValues_raw_iff : queryValues (63 :: (key ++ 61 :: c)) key = [c] ↔ Plain c := by
  have hquery : rawQuery (63 :: (key ++ 61 :: c)) = key ++ 61 :: before 35 c := by
    have hhash : (35 : UInt8) ∉ 63 :: (key ++ [61]) := by
      simp [hkey.hash]
    have hsplit : 63 :: (key ++ 61 :: c) = 63 :: (key ++ [61]) ++ c := by simp
    rw [rawQuery, hsplit, before_append_of_not_mem hhash, List.cons_append, after_cons_self]
    simp
  rw [queryValues_eq, hquery]
  constructor
  · intro h
    have hmem : c ∈ valuesIn (key ++ 61 :: before 35 c) key := by
      rw [h]
      exact List.mem_singleton_self _
    have hcut := length_before_le 35 c
    by_cases hand : 38 ∈ before 35 c
    · -- each of the parts is shorter than the value
      exfalso
      obtain ⟨x, y, hsplit, hx⟩ := List.eq_append_cons_of_mem hand
      have hlen : (before 35 c).length = x.length + (y.length + 1) := by
        rw [hsplit, List.length_append, List.length_cons]
      have hparts : key ++ 61 :: before 35 c = (key ++ 61 :: x) ++ 38 :: y := by
        rw [hsplit, List.append_assoc, List.cons_append]
      rw [hparts, valuesIn_append, valuesIn_single hkey hx, List.mem_append] at hmem
      rcases hmem with hfirst | hsecond
      · split at hfirst
        · cases hfirst
        · have hle := (length_unescape (Option.mem_toList.mp hfirst)).1
          omega
      · have hle := length_of_mem_valuesIn hsecond
        omega
    · rw [valuesIn_single hkey hand] at hmem
      split at hmem
      · cases hmem
      · next hsemi =>
        have hdecode : unescape (before 35 c) = some c := Option.mem_toList.mp hmem
        have hwhole : before 35 c = c := by
          refine (List.takeWhile_prefix _).eq_of_length (Nat.le_antisymm hcut ?_)
          exact (length_unescape hdecode).1
        have hhash := not_mem_before 35 c
        rw [hwhole] at hand hsemi hdecode hhash
        obtain ⟨hpercent, hplus⟩ := unescape_eq_self_iff.mp hdecode
        exact ⟨hand, hhash, hsemi, hpercent, hplus⟩
  · intro hplain
    rw [before_eq_self hplain.hash, valuesIn_single hkey hplain.ampersand, if_neg hplain.semicolon,
      unescape_eq_self_iff.mpr ⟨hplain.percent, hplain.plus⟩]
    rfl

end

end Query

end N2nGo.Lib.Url
