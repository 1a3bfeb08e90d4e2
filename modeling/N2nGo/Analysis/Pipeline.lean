import N2nGo.Analysis.DataPath

/-!
# Pipelines of transforms

A pipeline of transforms that are undone one by one is undone as a whole, and it stops at
the first transform that fails. Both are said of transforms that may act on the world, since
otherwise whether a transform was run could not be seen; `prepareOutput_ofTransform` and
`parseInput_ofTransform` are the way back to the transforms of the edge.
-/

set_option autoImplicit false

namespace N2nGo.ActingTransform

open N2nGo.Lib N2nGo.Transform

section Pipelines

variable {σ : Type} {round : ℕ → ActingTransform σ → Step σ Bytes Err} {i : ℕ}
  {ts : List (ActingTransform σ)} {s s' : σ} {payload : Bytes} {err : Err}

theorem rounds_append (ts us : List (ActingTransform σ)) :
    rounds round i (ts ++ us) = rounds round i ts ++ rounds round (i + ts.length) us := by
  induction ts generalizing i with
  | nil => rfl
  | cons t ts ih =>
    rw [List.cons_append, rounds, rounds, ih, List.cons_append, List.length_cons, Nat.add_assoc,
      Nat.add_comm 1]

theorem rounds_eq_append_cons {before after : List (Step σ Bytes Err)} {f : Step σ Bytes Err}
    (h : rounds round i ts = before ++ f :: after) :
    ∃ us t vs, ts = us ++ t :: vs ∧ before = rounds round i us ∧
      f = round (i + us.length) t ∧ after = rounds round (i + us.length + 1) vs := by
  induction ts generalizing i before with
  | nil => simp [rounds] at h
  | cons t ts ih =>
    cases before with
    | nil =>
      cases h
      exact ⟨[], t, ts, rfl, rfl, rfl, rfl⟩
    | cons g before =>
      obtain ⟨hg, hrest⟩ := List.cons.inj h
      obtain ⟨us, u, vs, rfl, rfl, rfl, rfl⟩ := ih hrest
      refine ⟨t :: us, u, vs, rfl, ?_, ?_, ?_⟩
      · rw [rounds, hg]
      · rw [List.length_cons, Nat.add_assoc, Nat.add_comm 1]
      · rw [List.length_cons, Nat.add_assoc i 1, Nat.add_comm 1]

/-- `PrepareOutput` fails where an `Apply` does, in the world that this call left. -/
theorem prepareFrom_eq_error_iff :
    prepareFrom i ts s payload = (s', .error err) ↔
      ∃ before t after s1 p e, ts = before ++ t :: after ∧
        prepareFrom i before s payload = (s1, .ok p) ∧ t.apply s1 p = (s', .error e) ∧
        err = .applyFailed (i + before.length) t.typeName e := by
  unfold prepareFrom
  rw [inRow_eq_error_iff]
  constructor
  · rintro ⟨before, f, after, s1, p, hsplit, hbefore, hf⟩
    obtain ⟨us, t, vs, rfl, rfl, rfl, rfl⟩ := rounds_eq_append_cons hsplit
    obtain ⟨e, he, rfl⟩ := mapError_eq_error.mp hf
    exact ⟨us, t, vs, s1, p, e, rfl, hbefore, he, rfl⟩
  · rintro ⟨before, t, after, s1, p, e, rfl, hbefore, ht, rfl⟩
    exact ⟨_, _, _, s1, p, rounds_append before (t :: after), hbefore,
      mapError_eq_error.mpr ⟨e, ht, rfl⟩⟩

/-- `ParseInput` fails where a `Reverse` does, in the world that this call left. -/
theorem parseTo_eq_error_iff :
    parseTo i ts s payload = (s', .error err) ↔
      ∃ before t after s1 p e, ts = before ++ t :: after ∧
        parseTo (i + before.length + 1) after s payload = (s1, .ok p) ∧
        t.reverse s1 p = (s', .error e) ∧
        err = .reverseFailed (i + before.length) t.typeName e := by
  unfold parseTo
  rw [inRow_eq_error_iff]
  constructor
  · rintro ⟨before, f, after, s1, p, hsplit, hbefore, hf⟩
    have hsplit : rounds reverseRound i ts = after.reverse ++ f :: before.reverse := by
      rw [← List.reverse_reverse (rounds reverseRound i ts), hsplit]
      simp
    obtain ⟨us, t, vs, rfl, -, rfl, hvs⟩ := rounds_eq_append_cons hsplit
    obtain ⟨e, he, rfl⟩ := mapError_eq_error.mp hf
    refine ⟨us, t, vs, s1, p, e, rfl, ?_, he, rfl⟩
    rw [← hvs, List.reverse_reverse]
    exact hbefore
  · rintro ⟨before, t, after, s1, p, e, rfl, hafter, ht, rfl⟩
    refine ⟨_, _, (rounds reverseRound i before).reverse, s1, p, ?_, hafter,
      mapError_eq_error.mpr ⟨e, ht, rfl⟩⟩
    rw [rounds_append, List.reverse_append, rounds, List.reverse_cons, List.append_assoc]
    rfl

theorem forall₂_rounds (h : ∀ t ∈ ts, Undoes t.reverse t.apply) :
    List.Forall₂ Undoes (rounds reverseRound i ts) (rounds applyRound i ts) := by
  induction ts generalizing i with
  | nil => exact .nil
  | cons t ts ih =>
    refine .cons ?_ (ih fun u hu => h u (List.mem_cons_of_mem t hu))
    intro s s' a b happly s1
    obtain ⟨s2, hreverse⟩ := h t List.mem_cons_self (mapError_eq_ok.mp happly) s1
    exact ⟨s2, mapError_eq_ok.mpr hreverse⟩

/-- **A pipeline is undone if its transforms are, and stops at the first failure.** What the
failing call left of the world is what the pipeline leaves, so no later transform was run.
GOLINE: tranform/processor.go:28-55 -/
theorem pipeline_inversion (ts : List (ActingTransform σ)) :
    ((∀ t ∈ ts, Undoes t.reverse t.apply) → Undoes (parseInput ts) (prepareOutput ts)) ∧
      (∀ s s' payload err, prepareOutput ts s payload = (s', .error err) ↔
        ∃ before t after s1 p e, ts = before ++ t :: after ∧
          prepareOutput before s payload = (s1, .ok p) ∧ t.apply s1 p = (s', .error e) ∧
          err = .applyFailed before.length t.typeName e) ∧
      ∀ s s' payload err, parseInput ts s payload = (s', .error err) ↔
        ∃ before t after s1 p e, ts = before ++ t :: after ∧
          parseTo (before.length + 1) after s payload = (s1, .ok p) ∧
          t.reverse s1 p = (s', .error e) ∧ err = .reverseFailed before.length t.typeName e := by
  refine ⟨fun h => undoes_reverse (forall₂_rounds h), fun s s' payload err => ?_,
    fun s s' payload err => ?_⟩
  · unfold prepareOutput
    rw [prepareFrom_eq_error_iff]
    simp only [Nat.zero_add]
  · unfold parseInput
    rw [parseTo_eq_error_iff]
    simp only [Nat.zero_add]

end Pipelines

/-! ## The transforms of the edge -/

section OfTransform

variable {rand : ℕ → Rand}

theorem undoes_ofTransform {t : Transform} (h : PayloadProcessor.Inverts t) :
    Undoes (ofTransform rand t).reverse (ofTransform rand t).apply := by
  intro n n' data out happly n1
  exact ⟨n1, Prod.ext rfl (h (congrArg Prod.snd happly))⟩

theorem prepareFrom_ofTransform (i : ℕ) (ts : List Transform) (payload : Bytes) :
    (prepareFrom i (ts.map (ofTransform rand)) i payload).2 =
      PayloadProcessor.applyFrom rand i ts payload := by
  induction ts generalizing i payload with
  | nil => rfl
  | cons t ts ih =>
    unfold prepareFrom
    rw [List.map_cons, rounds, PayloadProcessor.applyFrom]
    cases happly : t.apply (rand i) payload with
    | error e =>
      have hround : applyRound i (ofTransform rand t) i payload =
          (i + 1, .error (.applyFailed i t.typeName e)) :=
        mapError_eq_error.mpr ⟨e, Prod.ext rfl happly, rfl⟩
      rw [inRow_cons_error hround]
    | ok next =>
      have hround : applyRound i (ofTransform rand t) i payload = (i + 1, .ok next) :=
        mapError_eq_ok.mpr (Prod.ext rfl happly)
      rw [inRow_cons_ok hround]
      exact ih (i + 1) next

theorem prepareOutput_ofTransform (p : PayloadProcessor) (payload : Bytes) :
    (prepareOutput (p.transforms.map (ofTransform rand)) 0 payload).2 =
      p.prepareOutput rand payload :=
  prepareFrom_ofTransform 0 p.transforms payload

theorem parseTo_ofTransform (i n : ℕ) (ts : List Transform) (payload : Bytes) :
    parseTo i (ts.map (ofTransform rand)) n payload =
      (n, PayloadProcessor.reverseTo i ts payload) := by
  induction ts generalizing i with
  | nil => rfl
  | cons t ts ih =>
    have hlater := ih (i + 1)
    unfold parseTo at hlater ⊢
    rw [List.map_cons, rounds, List.reverse_cons, PayloadProcessor.reverseTo]
    cases hrest : PayloadProcessor.reverseTo (i + 1) ts payload with
    | error e =>
      rw [hrest] at hlater
      exact inRow_append_error hlater
    | ok next =>
      rw [hrest] at hlater
      rw [inRow_append_ok hlater]
      cases hreverse : t.reverse next with
      | error e =>
        have hround : reverseRound i (ofTransform rand t) n next =
            (n, .error (.reverseFailed i t.typeName e)) :=
          mapError_eq_error.mpr ⟨e, Prod.ext rfl hreverse, rfl⟩
        simp only [hreverse]
        exact inRow_cons_error hround
      | ok out =>
        have hround : reverseRound i (ofTransform rand t) n next = (n, .ok out) :=
          mapError_eq_ok.mpr (Prod.ext rfl hreverse)
        simp only [hreverse]
        exact inRow_cons_ok hround

theorem parseInput_ofTransform (p : PayloadProcessor) (n : ℕ) (payload : Bytes) :
    (parseInput (p.transforms.map (ofTransform rand)) n payload).2 = p.parseInput payload :=
  congrArg Prod.snd (parseTo_ofTransform 0 n p.transforms payload)

end OfTransform

end N2nGo.ActingTransform
