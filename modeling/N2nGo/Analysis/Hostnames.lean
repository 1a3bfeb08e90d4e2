import N2nGo.Model.Syshosts

/-!
# First occurrences of hostnames

Every loop of the package that drops duplicates keeps a set of the hostnames it has seen.
`unseen` is that loop. It returns the first occurrences of what is not known, in order
(`unseen_eq`), and two such passes are one (`unseen_append`, `unseen_unseen`).
-/

set_option autoImplicit false

namespace N2nGo.Syshosts

open N2nGo.Lib

variable {known known' hosts : List Text} {w : Text}

theorem unseen_cons (known : List Text) (host : Text) (hosts : List Text) :
    unseen known (host :: hosts) =
      if host ∈ known then unseen known hosts else host :: unseen (host :: known) hosts := rfl

theorem mem_unseen : w ∈ unseen known hosts ↔ w ∈ hosts ∧ w ∉ known := by
  induction hosts generalizing known with
  | nil => exact ⟨fun h => absurd h List.not_mem_nil, fun h => h.1⟩
  | cons host hosts ih =>
    unfold unseen
    split
    · next hknown =>
      rw [ih, List.mem_cons]
      constructor
      · rintro ⟨hmem, hnew⟩
        exact ⟨Or.inr hmem, hnew⟩
      · rintro ⟨rfl | hmem, hnew⟩
        · exact absurd hknown hnew
        · exact ⟨hmem, hnew⟩
    · next hnew =>
      rw [List.mem_cons, List.mem_cons, ih, List.mem_cons, not_or]
      constructor
      · rintro (rfl | ⟨hmem, -, hnew'⟩)
        · exact ⟨Or.inl rfl, hnew⟩
        · exact ⟨Or.inr hmem, hnew'⟩
      · rintro ⟨rfl | hmem, hnew'⟩
        · exact Or.inl rfl
        · by_cases heq : w = host
          · exact Or.inl heq
          · exact Or.inr ⟨hmem, heq, hnew'⟩

theorem unseen_eq (known hosts : List Text) :
    unseen known hosts = (hosts.filter (· ∉ known)).eraseDups := by
  induction hosts generalizing known with
  | nil => rfl
  | cons host hosts ih =>
    unfold unseen
    split
    · next hknown =>
      rw [List.filter_cons_of_neg (by simpa using hknown)]
      exact ih known
    · next hnew =>
      rw [List.filter_cons_of_pos (by simpa using hnew), List.eraseDups_cons, ih,
        List.filter_filter]
      congr 2
      refine List.filter_congr fun w _ => ?_
      rw [Bool.eq_iff_iff]
      simp

theorem nodup_unseen (known hosts : List Text) : (unseen known hosts).Nodup := by
  induction hosts generalizing known with
  | nil => exact .nil
  | cons host hosts ih =>
    unfold unseen
    split
    · exact ih known
    · refine List.nodup_cons.mpr ⟨fun hmem => ?_, ih _⟩
      exact (mem_unseen.mp hmem).2 List.mem_cons_self

theorem unseen_sublist (known hosts : List Text) : (unseen known hosts).Sublist hosts := by
  induction hosts generalizing known with
  | nil => exact .slnil
  | cons host hosts ih =>
    unfold unseen
    split
    · exact (ih known).cons host
    · exact (ih _).cons_cons host

theorem unseen_congr (h : ∀ w, w ∈ known ↔ w ∈ known') (hosts : List Text) :
    unseen known hosts = unseen known' hosts := by
  induction hosts generalizing known known' with
  | nil => rfl
  | cons host hosts ih =>
    unfold unseen
    by_cases hknown : host ∈ known
    · rw [if_pos hknown, if_pos ((h host).mp hknown), ih h]
    · have hnext : ∀ w, w ∈ host :: known ↔ w ∈ host :: known' := by
        intro w
        simp only [List.mem_cons, h]
      rw [if_neg hknown, if_neg fun hmem => hknown ((h host).mpr hmem), ih hnext]

theorem unseen_append (known hosts hosts' : List Text) :
    unseen known (hosts ++ hosts') = unseen known hosts ++ unseen (known ++ hosts) hosts' := by
  induction hosts generalizing known with
  | nil => rw [List.append_nil]; rfl
  | cons host hosts ih =>
    by_cases hknown : host ∈ known
    · have hsame : ∀ w, w ∈ known ++ hosts ↔ w ∈ known ++ host :: hosts := by
        intro w
        simp only [List.mem_append, List.mem_cons]
        refine ⟨fun h => h.imp_right Or.inr, ?_⟩
        rintro (h | rfl | h)
        · exact Or.inl h
        · exact Or.inl hknown
        · exact Or.inr h
      rw [List.cons_append, unseen, if_pos hknown, ih, unseen_congr hsame, unseen_cons known host,
        if_pos hknown]
    · have hsame : ∀ w, w ∈ host :: known ++ hosts ↔ w ∈ known ++ host :: hosts := by
        intro w
        simp only [List.mem_append, List.mem_cons]
        rw [or_assoc, or_left_comm]
      rw [List.cons_append, unseen, if_neg hknown, ih, unseen_congr hsame, unseen_cons known host,
        if_neg hknown, List.cons_append]

/-- The first of two passes knows less, so it drops nothing that the second would keep. -/
theorem unseen_unseen (h : ∀ w ∈ known', w ∈ known) (hosts : List Text) :
    unseen known (unseen known' hosts) = unseen known hosts := by
  induction hosts generalizing known known' with
  | nil => rfl
  | cons host hosts ih =>
    by_cases hfirst : host ∈ known'
    · rw [unseen, if_pos hfirst, ih h, unseen, if_pos (h host hfirst)]
    · rw [unseen, if_neg hfirst]
      by_cases hsecond : host ∈ known
      · have hsub : ∀ w ∈ host :: known', w ∈ known :=
          List.forall_mem_cons.mpr ⟨hsecond, h⟩
        rw [unseen, if_pos hsecond, ih hsub, unseen, if_pos hsecond]
      · have hsub : ∀ w ∈ host :: known', w ∈ host :: known :=
          List.forall_mem_cons.mpr ⟨List.mem_cons_self, fun w hw => List.mem_cons_of_mem _ (h w hw)⟩
        rw [unseen, if_neg hsecond, ih hsub, unseen, if_neg hsecond]

theorem unseen_eq_self (hnodup : hosts.Nodup) (hnew : ∀ w ∈ hosts, w ∉ known) :
    unseen known hosts = hosts := by
  induction hosts generalizing known with
  | nil => rfl
  | cons host hosts ih =>
    obtain ⟨hfirst, hnodup⟩ := List.nodup_cons.mp hnodup
    obtain ⟨hhost, hnew⟩ := List.forall_mem_cons.mp hnew
    rw [unseen, if_neg hhost, ih hnodup]
    intro w hw
    rw [List.mem_cons, not_or]
    exact ⟨fun heq => hfirst (heq ▸ hw), hnew w hw⟩

theorem unseen_nil_ne_nil (h : hosts ≠ []) : unseen [] hosts ≠ [] := by
  obtain ⟨host, hosts, rfl⟩ := List.exists_cons_of_ne_nil h
  simp [unseen]

theorem unseen_of_length_le_one (h : hosts.length ≤ 1) : unseen [] hosts = hosts := by
  rcases hosts with _ | ⟨host, _ | ⟨host', hosts⟩⟩
  · rfl
  · rfl
  · simp at h

theorem find?_unseen {p : Text → Bool} (h : ∀ w ∈ known, p w = false) :
    (unseen known hosts).find? p = hosts.find? p := by
  induction hosts generalizing known with
  | nil => rfl
  | cons w hosts ih =>
    rw [unseen_cons]
    split
    · next hknown =>
      rw [ih h, List.find?_cons_of_neg (by rw [h w hknown]; exact Bool.false_ne_true)]
    · by_cases hw : p w = true
      · rw [List.find?_cons_of_pos hw, List.find?_cons_of_pos hw]
      · rw [List.find?_cons_of_neg hw, List.find?_cons_of_neg hw]
        exact ih (List.forall_mem_cons.mpr ⟨Bool.eq_false_iff.mpr hw, h⟩)

end N2nGo.Syshosts
