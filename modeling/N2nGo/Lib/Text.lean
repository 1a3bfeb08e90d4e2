import N2nGo.Lib.NetText
import Mathlib.Data.List.DropRight

/-!
# Words in a line of text

A Go string is a sequence of bytes that `range`, `strings.Fields` and `strings.TrimSpace`
read as UTF-8. Here it is the sequence they read: characters, and the bytes that belong to
none. Concatenating texts around a tab or a space is concatenating these sequences.
-/

set_option autoImplicit false

namespace N2nGo.Lib

/-- What one step of decoding finds. -/
inductive Rune where
  | char (c : Char)
  | invalid (b : UInt8)
  deriving DecidableEq

/-- A string. -/
abbrev Text := List Rune

instance : LawfulBEq Text := List.instLawfulBEq

namespace Rune

/-- `unicode.IsSpace`. -/
def isSpace : Rune → Bool
  | .char c =>
    let n := c.toNat
    (9 ≤ n && n ≤ 13) || n == 32 || n == 0x85 || n == 0xa0 || n == 0x1680 ||
      (0x2000 ≤ n && n ≤ 0x200a) || n == 0x2028 || n == 0x2029 || n == 0x202f || n == 0x205f ||
      n == 0x3000
  | .invalid _ => false

def bytes : Rune → Bytes
  | .char c => String.utf8EncodeChar c
  | .invalid b => [b]

end Rune

namespace Text

def tab : Rune := .char '\t'
def space : Rune := .char ' '
def hash : Rune := .char '#'
def newline : Rune := .char '\n'
def carriageReturn : Rune := .char '\r'

/-- A text of characters. -/
def ofString (s : String) : Text := s.toList.map .char

/-- The bytes of a text. -/
def bytes (t : Text) : Bytes := t.flatMap Rune.bytes

/-- `strings.TrimSpace`. -/
def trimSpace (t : Text) : Text :=
  ((t.dropWhile Rune.isSpace).reverse.dropWhile Rune.isSpace).reverse

/-- The loop of `strings.FieldsFunc`; `cur` is the field that has begun. -/
def fieldsLoop : Text → Text → List Text
  | [], cur => if cur = [] then [] else [cur]
  | r :: rest, cur =>
    if r.isSpace then
      if cur = [] then fieldsLoop rest [] else cur :: fieldsLoop rest []
    else fieldsLoop rest (cur ++ [r])

/-- `strings.Fields`. -/
def fields (t : Text) : List Text := fieldsLoop t []

/-- `strings.Join(words, " ")`. -/
def join : List Text → Text
  | [] => []
  | [w] => w
  | w :: ws => w ++ space :: join ws

/-- A word: not empty, and without white space. -/
structure Word (t : Text) : Prop where
  ne_nil : t ≠ []
  solid : ∀ r ∈ t, r.isSpace = false

variable {t cur w : Text}

/-! ## Fields -/

theorem flatten_fieldsLoop (t cur : Text) :
    (fieldsLoop t cur).flatten = cur ++ t.filter (fun r => !r.isSpace) := by
  induction t generalizing cur with
  | nil =>
    unfold fieldsLoop
    split
    · next hnil => rw [hnil]; rfl
    · simp
  | cons r t ih =>
    unfold fieldsLoop
    split
    · next hspace =>
      rw [List.filter_cons_of_neg (by simp [hspace])]
      split
      · next hnil => rw [ih, hnil]
      · rw [List.flatten_cons, ih, List.nil_append]
    · next hsolid => rw [ih, List.filter_cons_of_pos (by simp [hsolid]), List.append_assoc]; rfl

theorem ne_nil_of_mem_fieldsLoop (h : w ∈ fieldsLoop t cur) : w ≠ [] := by
  induction t generalizing cur with
  | nil =>
    unfold fieldsLoop at h
    split at h
    · cases h
    · next hne => exact List.mem_singleton.mp h ▸ hne
  | cons r t ih =>
    unfold fieldsLoop at h
    split at h
    · split at h
      · exact ih h
      · next hne => exact (List.mem_cons.mp h).elim (· ▸ hne) ih
    · exact ih h

/-- The fields hold what is not white space, in its order. -/
theorem flatten_fields (t : Text) : (fields t).flatten = t.filter (fun r => !r.isSpace) :=
  flatten_fieldsLoop t []

variable {r : Rune}

theorem mem_filter_of_mem_fields (hw : w ∈ fields t) (hr : r ∈ w) : r ∈ t ∧ r.isSpace = false := by
  have hmem := List.mem_flatten_of_mem hw hr
  rw [flatten_fields, List.mem_filter] at hmem
  exact ⟨hmem.1, (Bool.not_eq_true' _).mp hmem.2⟩

theorem mem_of_mem_fields (hw : w ∈ fields t) (hr : r ∈ w) : r ∈ t :=
  (mem_filter_of_mem_fields hw hr).1

theorem word_of_mem_fields (h : w ∈ fields t) : Word w :=
  ⟨ne_nil_of_mem_fieldsLoop h, fun _ hr => (mem_filter_of_mem_fields h hr).2⟩

/-- Every character that is not white space is in a field. -/
theorem exists_mem_fields (hr : r.isSpace = false) (h : r ∈ t) : ∃ w ∈ fields t, r ∈ w := by
  refine List.mem_flatten.mp ?_
  rw [flatten_fields, List.mem_filter]
  exact ⟨h, by rw [hr]; rfl⟩

theorem fieldsLoop_append (h : ∀ r ∈ w, r.isSpace = false) (rest cur : Text) :
    fieldsLoop (w ++ rest) cur = fieldsLoop rest (cur ++ w) := by
  induction w generalizing cur with
  | nil => rw [List.nil_append, List.append_nil]
  | cons r w ih =>
    have hr := h r List.mem_cons_self
    rw [List.cons_append, fieldsLoop, if_neg (by rw [hr]; exact Bool.false_ne_true),
      ih (fun r' hr' => h r' (List.mem_cons_of_mem _ hr')), List.append_assoc]
    rfl

/-- A word in front of white space is the first field. -/
theorem fields_cons {rest : Text} {sep : Rune} (hw : Word w) (hsep : sep.isSpace = true) :
    fields (w ++ sep :: rest) = w :: fields rest := by
  unfold fields
  rw [fieldsLoop_append hw.solid, List.nil_append, fieldsLoop, if_pos hsep, if_neg hw.ne_nil]

variable {ws : List Text}

theorem fields_join (h : ∀ w ∈ ws, Word w) : fields (join ws) = ws := by
  induction ws with
  | nil => rfl
  | cons w ws ih =>
    have hw := h w List.mem_cons_self
    cases ws with
    | nil =>
      have hone := fieldsLoop_append hw.solid [] []
      rw [List.append_nil, List.nil_append, fieldsLoop, if_neg hw.ne_nil] at hone
      exact hone
    | cons w' ws =>
      show fields (w ++ space :: join (w' :: ws)) = _
      rw [fields_cons hw (by decide), ih fun x hx => h x (List.mem_cons_of_mem _ hx)]

/-- A line of at least two words. -/
theorem fields_line (hw : Word w) (h : ∀ w ∈ ws, Word w) :
    fields (w ++ tab :: join ws) = w :: ws := by
  rw [fields_cons hw (by decide), fields_join h]

/-- The loop over a text in two parts: the fields that end in the first one, and the rest with
the field that has begun. -/
theorem exists_fieldsLoop_append (front back cur : Text) :
    ∃ done cur', fieldsLoop (front ++ back) cur = done ++ fieldsLoop back cur' ∧
      fieldsLoop front cur = done ++ fieldsLoop [] cur' := by
  induction front generalizing cur with
  | nil => exact ⟨[], cur, rfl, rfl⟩
  | cons r front ih =>
    rw [List.cons_append, fieldsLoop, fieldsLoop]
    split
    · split
      · exact ih []
      · obtain ⟨done, cur', hall, hfront⟩ := ih []
        exact ⟨cur :: done, cur', by rw [hall, List.cons_append], by rw [hfront, List.cons_append]⟩
    · exact ih _

/-- The field that has begun becomes the first one. -/
theorem exists_fieldsLoop_cons (h : cur ≠ []) :
    ∃ more ws, fieldsLoop t cur = (cur ++ more) :: ws := by
  induction t generalizing cur with
  | nil =>
    refine ⟨[], [], ?_⟩
    rw [fieldsLoop, if_neg h, List.append_nil]
  | cons r t ih =>
    rw [fieldsLoop, if_neg h]
    split
    · exact ⟨[], _, by rw [List.append_nil]⟩
    · obtain ⟨more, ws, hloop⟩ := ih (List.append_ne_nil_of_left_ne_nil h [r])
      exact ⟨r :: more, ws, by rw [hloop, List.append_assoc]; rfl⟩

/-- A text that begins with a character begins with a field. -/
theorem head_mem_fields (hhead : t.head? = some r) (hr : r.isSpace = false) (h : fields t = w :: ws)
    : r ∈ w := by
  have hw : w ∈ fields t := h ▸ List.mem_cons_self
  obtain ⟨first, w, rfl⟩ := List.exists_cons_of_ne_nil (ne_nil_of_mem_fieldsLoop hw)
  obtain ⟨t, rfl⟩ := List.head?_eq_some_iff.mp hhead
  have hall := flatten_fields (r :: t)
  rw [h, List.filter_cons_of_pos (by rw [hr]; rfl)] at hall
  obtain ⟨rfl, -⟩ := List.cons.inj hall
  exact List.mem_cons_self

theorem fieldsLoop_blank {blank : Text} (h : ∀ r ∈ blank, r.isSpace = true) (cur : Text) :
    fieldsLoop blank cur = fieldsLoop [] cur := by
  induction blank generalizing cur with
  | nil => rfl
  | cons r blank ih =>
    obtain ⟨hr, hblank⟩ := List.forall_mem_cons.mp h
    have hstep : fieldsLoop (r :: blank) cur =
        if cur = [] then fieldsLoop blank [] else cur :: fieldsLoop blank [] := if_pos hr
    rw [hstep, ih hblank]
    rfl

theorem fields_append_blank {blank : Text} (h : ∀ r ∈ blank, r.isSpace = true) (t : Text) :
    fields (t ++ blank) = fields t := by
  obtain ⟨done, cur, hall, hfront⟩ := exists_fieldsLoop_append t blank []
  rw [fields, fields, hall, hfront, fieldsLoop_blank h]

theorem fields_dropWhile (t : Text) : fields (t.dropWhile Rune.isSpace) = fields t := by
  induction t with
  | nil => rfl
  | cons r t ih =>
    by_cases hr : r.isSpace = true
    · rw [List.dropWhile_cons_of_pos hr, ih, fields, fields, fieldsLoop, if_pos hr, if_pos rfl]
    · rw [List.dropWhile_cons_of_neg hr]

theorem trimSpace_eq (t : Text) :
    trimSpace t = (t.dropWhile Rune.isSpace).rdropWhile Rune.isSpace := rfl

/-- Trimming takes no field away. -/
theorem fields_trimSpace (t : Text) : fields (trimSpace t) = fields t := by
  have hblank : ∀ r ∈ (t.dropWhile Rune.isSpace).rtakeWhile Rune.isSpace, r.isSpace = true :=
    fun _ hr => List.mem_rtakeWhile_imp hr
  rw [trimSpace_eq, ← fields_append_blank hblank, List.rdropWhile_append_rtakeWhile,
    fields_dropWhile]

/-! ## Ends -/

theorem head_word_append (hw : Word w) (rest : Text) : ∃ r, (w ++ rest).head? = some r ∧ r ∈ w := by
  obtain ⟨r, w', rfl⟩ := List.exists_cons_of_ne_nil hw.ne_nil
  exact ⟨r, rfl, List.mem_cons_self⟩

theorem getLast_join (hne : ws ≠ []) (h : ∀ w ∈ ws, Word w) :
    ∃ r, (join ws).getLast? = some r ∧ r.isSpace = false := by
  induction ws with
  | nil => exact absurd rfl hne
  | cons w ws ih =>
    cases ws with
    | nil =>
      have hw := h w List.mem_cons_self
      exact ⟨w.getLast hw.ne_nil, List.getLast?_eq_some_getLast hw.ne_nil,
        hw.solid _ (List.getLast_mem hw.ne_nil)⟩
    | cons w' ws =>
      obtain ⟨r, hlast, hr⟩ := ih (by simp) fun x hx => h x (List.mem_cons_of_mem _ hx)
      refine ⟨r, ?_, hr⟩
      show (w ++ space :: join (w' :: ws)).getLast? = some r
      rw [List.getLast?_append, List.getLast?_cons, hlast]
      rfl

/-- A text that neither begins nor ends with white space is trimmed already. -/
theorem trimSpace_eq_self {first last : Rune} (hfirst : t.head? = some first)
    (hlast : t.getLast? = some last) (hf : first.isSpace = false) (hl : last.isSpace = false) :
    trimSpace t = t := by
  have hfront : t.dropWhile Rune.isSpace = t := by
    obtain ⟨t, rfl⟩ := List.head?_eq_some_iff.mp hfirst
    exact List.dropWhile_cons_of_neg (by rw [hf]; exact Bool.false_ne_true)
  have hback : t.rdropWhile Rune.isSpace = t := by
    obtain ⟨t, rfl⟩ := List.getLast?_eq_some_iff.mp hlast
    exact List.rdropWhile_concat_neg _ _ _ (by rw [hl]; exact Bool.false_ne_true)
  rw [trimSpace_eq, hfront, hback]

theorem head_trimSpace (h : (trimSpace t).head? = some r) : r.isSpace = false := by
  -- what is cut off at the end leaves the head where it was
  obtain ⟨rest, hrest⟩ := List.rdropWhile_prefix Rune.isSpace (t.dropWhile Rune.isSpace)
  have hhead := List.head?_dropWhile_not Rune.isSpace t
  rw [← hrest, List.head?_append, ← trimSpace_eq, h] at hhead
  exact hhead

theorem trimSpace_trimSpace (t : Text) : trimSpace (trimSpace t) = trimSpace t := by
  have hfront : (trimSpace t).dropWhile Rune.isSpace = trimSpace t := by
    cases htrim : trimSpace t with
    | nil => rfl
    | cons r rest =>
      have hr : r.isSpace = false := head_trimSpace (t := t) (by rw [htrim]; rfl)
      exact List.dropWhile_cons_of_neg (by rw [hr]; exact Bool.false_ne_true)
  rw [trimSpace_eq (trimSpace t), hfront, trimSpace_eq, List.rdropWhile_idempotent]

/-- White space in front of a text is cut off. -/
theorem trimSpace_append_left {blank : Text} (h : ∀ r ∈ blank, r.isSpace = true) (t : Text) :
    trimSpace (blank ++ t) = trimSpace t := by
  have hdrop : (blank ++ t).dropWhile Rune.isSpace = t.dropWhile Rune.isSpace :=
    List.dropWhile_append_of_pos h
  unfold trimSpace
  rw [hdrop]

/-- White space at the end of a text is cut off. -/
theorem trimSpace_concat (hr : r.isSpace = true) (t : Text) :
    trimSpace (t ++ [r]) = trimSpace t := by
  rw [trimSpace_eq, List.dropWhile_append]
  split
  · next hblank =>
    rw [List.dropWhile_cons_of_pos hr, trimSpace_eq, List.isEmpty_iff.mp hblank]
    rfl
  · exact List.rdropWhile_concat_pos _ _ _ hr

theorem mem_of_mem_trimSpace (h : r ∈ trimSpace t) : r ∈ t := by
  exact (List.dropWhile_suffix _).subset ((List.rdropWhile_prefix _ _).subset h)

/-! ## IPs -/

theorem ipByte_range : ∀ n : Fin 256,
    Net.isIPByte (UInt8.ofNat n) = true → 35 < n.val ∧ n.val < 128 := by
  decide +kernel

/-- An IP in text is ASCII. -/
theorem range_of_isIPByte {c : Char} (h : ∀ b ∈ String.utf8EncodeChar c, Net.isIPByte b = true) :
    35 < c.toNat ∧ c.toNat < 128 := by
  -- a character beyond ASCII ends with such a byte
  have hhigh : UInt8.ofNat (c.toNat % 64 + 128) ∉ String.utf8EncodeChar c := by
    intro hmem
    have hlt := (ipByte_range ⟨c.toNat % 64 + 128, by omega⟩ (h _ hmem)).2
    simp only at hlt
    omega
  have hascii : c.toNat ≤ 127 := by
    by_contra hlarge
    apply hhigh
    have hval : ¬ c.val.toNat ≤ 127 := hlarge
    unfold String.utf8EncodeChar
    simp only [if_neg hval]
    split
    · exact List.mem_cons_of_mem _ List.mem_cons_self
    · split
      · exact List.mem_cons_of_mem _ (List.mem_cons_of_mem _ List.mem_cons_self)
      · exact List.mem_cons_of_mem _ (List.mem_cons_of_mem _ (List.mem_cons_of_mem _ List.mem_cons_self))
  have hbyte : UInt8.ofNat c.toNat ∈ String.utf8EncodeChar c := by
    unfold String.utf8EncodeChar
    simp only [if_pos (show c.val.toNat ≤ 127 from hascii)]
    exact List.mem_cons_self
  exact ipByte_range ⟨c.toNat, by omega⟩ (h _ hbyte)

/-- A rune of an IP is neither white space nor a hash. -/
theorem solid_of_isIPByte (h : ∀ b ∈ r.bytes, Net.isIPByte b = true) :
    r.isSpace = false ∧ r ≠ hash := by
  cases r with
  | invalid b => exact ⟨rfl, nofun⟩
  | char c =>
    obtain ⟨hlow, hhigh⟩ := range_of_isIPByte h
    constructor
    · simp only [Rune.isSpace, Bool.or_eq_false_iff, Bool.and_eq_false_iff, beq_eq_false_iff_ne,
        decide_eq_false_iff_not]
      omega
    · rintro heq
      cases heq
      revert hlow
      decide

/-- What `ParseIP` accepts is a word that does not begin a comment. -/
theorem word_of_parseIP (h : Net.parseIP t.bytes ≠ []) : Word t ∧ ∀ r ∈ t, r ≠ hash := by
  have hrune : ∀ r ∈ t, r.isSpace = false ∧ r ≠ hash := by
    intro r hr
    refine solid_of_isIPByte fun b hb => Net.isIPByte_of_parseIP h b ?_
    exact List.mem_flatMap.mpr ⟨r, hr, hb⟩
  refine ⟨⟨?_, fun r hr => (hrune r hr).1⟩, fun r hr => (hrune r hr).2⟩
  rintro rfl
  exact h rfl

end Text

end N2nGo.Lib
