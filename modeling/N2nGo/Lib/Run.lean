import N2nGo.Lib.Fault

/-!
# Runs of a machine that may panic

A machine is a function `step` from a state and an event to a new state and some
output. `Reach step init adm` holds of the states that completed steps lead to from
`init`, when every step meets `adm` in the state it is taken from. A property of every
such state is proved by `Reach.invariant`: it holds at the start and an admissible
step keeps it. `Trace` is the same with the history of the run, for properties that speak
about what has happened before.
-/

set_option autoImplicit false

namespace N2nGo.Lib

section Run

variable {S O : Type} {E : Type*} {step : S → E → Go (S × O)} {init : S → Prop} {adm : S → E → Prop}

/-- The states that runs of admissible steps lead to. -/
inductive Reach (step : S → E → Go (S × O)) (init : S → Prop) (adm : S → E → Prop) : S → Prop where
  | init {s : S} : init s → Reach step init adm s
  | step {s s' : S} {e : E} {o : O} :
      Reach step init adm s → adm s e → step s e = .ok (s', o) → Reach step init adm s'

/-- **The invariant rule.** -/
theorem Reach.invariant {I : S → Prop} (hinit : ∀ s, init s → I s)
    (hstep : ∀ s e s' o, I s → adm s e → step s e = .ok (s', o) → I s') {s : S}
    (h : Reach step init adm s) : I s := by
  induction h with
  | init h0 => exact hinit _ h0
  | step _ hadm hs ih => exact hstep _ _ _ _ ih hadm hs

theorem Reach.mono {adm' : S → E → Prop} (hadm : ∀ s e, adm s e → adm' s e) {s : S}
    (h : Reach step init adm s) : Reach step init adm' s := by
  induction h with
  | init h0 => exact .init h0
  | step _ ha hs ih => exact ih.step (hadm _ _ ha) hs

/-- A run that goes on where another ended. -/
theorem Reach.trans {s s' : S} (h : Reach step init adm s) (h' : Reach step (· = s) adm s') :
    Reach step init adm s' := by
  induction h' with
  | init h0 => exact h0 ▸ h
  | step _ ha hs ih => exact ih.step ha hs

/-- A single step. -/
theorem Reach.one {s s' : S} {e : E} {o : O} (hs : step s e = .ok (s', o)) (hadm : adm s e) :
    Reach step (· = s) adm s' := .step (.init rfl) hadm hs

/-- Take the events one after the other, dropping the output. -/
def runEvents (step : S → E → Go (S × O)) : S → List E → Go S
  | s, [] => .ok s
  | s, e :: es => do
    let (s', _) ← step s e
    runEvents step s' es

/-- The end of an unrestricted run is reached. -/
theorem Reach.of_runEvents {s s' : S} {es : List E}
    (h0 : Reach step init (fun _ _ => True) s) (h : runEvents step s es = .ok s') :
    Reach step init (fun _ _ => True) s' := by
  induction es generalizing s with
  | nil => cases h; exact h0
  | cons e es ih =>
    obtain ⟨⟨s1, o⟩, hs, hrest⟩ := bind_eq_ok.mp h
    exact ih (h0.step trivial hs) hrest

/-- Take the events one after the other as long as each is allowed. -/
def runAllowed (step : S → E → Go (S × O)) (allowed : S → E → Bool) : S → List E → Option S
  | s, [] => some s
  | s, e :: es =>
    if allowed s e then
      match step s e with
      | .ok (s', _) => runAllowed step allowed s' es
      | .error _ => none
    else none

/-- The end of a run of allowed events is reached by admissible steps. -/
theorem Reach.of_runAllowed_mem {allowed : S → E → Bool} {s s' : S} {es : List E}
    (hadm : ∀ s, ∀ e ∈ es, allowed s e = true → adm s e) (h0 : Reach step init adm s)
    (h : runAllowed step allowed s es = some s') : Reach step init adm s' := by
  induction es generalizing s with
  | nil => cases h; exact h0
  | cons e es ih =>
    unfold runAllowed at h
    split at h
    · next hallowed =>
      split at h
      · next hs =>
        exact ih (fun s e he => hadm s e (List.mem_cons_of_mem _ he))
          (h0.step (hadm _ e List.mem_cons_self hallowed) hs) h
      · cases h
    · cases h

theorem Reach.of_runAllowed {allowed : S → E → Bool} (hadm : ∀ s e, allowed s e = true → adm s e)
    {s s' : S} {es : List E} (h0 : Reach step init adm s)
    (h : runAllowed step allowed s es = some s') : Reach step init adm s' :=
  .of_runAllowed_mem (fun s e _ => hadm s e) h0 h

/-! ## Histories -/

/-- One step of a run, as a history keeps it. -/
structure Taken (S : Type) (E : Type*) (O : Type) where
  before : S
  event : E
  output : O

/-- Runs of admissible steps with their history, the latest step first. -/
inductive Trace (step : S → E → Go (S × O)) (init : S → Prop) (adm : S → E → Prop) :
    List (Taken S E O) → S → Prop where
  | init {s : S} : init s → Trace step init adm [] s
  | step {hist : List (Taken S E O)} {s s' : S} {e : E} {o : O} :
      Trace step init adm hist s → adm s e → step s e = .ok (s', o) →
      Trace step init adm (⟨s, e, o⟩ :: hist) s'

/-- **The invariant rule for histories.** -/
theorem Trace.invariant {I : List (Taken S E O) → S → Prop} (hinit : ∀ s, init s → I [] s)
    (hstep : ∀ hist s e s' o, I hist s → adm s e → step s e = .ok (s', o) → I (⟨s, e, o⟩ :: hist) s')
    {hist : List (Taken S E O)} {s : S} (h : Trace step init adm hist s) : I hist s := by
  induction h with
  | init h0 => exact hinit _ h0
  | step _ hadm hs ih => exact hstep _ _ _ _ _ ih hadm hs

theorem Trace.reach {hist : List (Taken S E O)} {s : S} (h : Trace step init adm hist s) :
    Reach step init adm s := by
  induction h with
  | init h0 => exact .init h0
  | step _ hadm hs ih => exact ih.step hadm hs

/-- A step with the property `Q`, which also sees what came before it, has been taken, and
since then (that step included) every step satisfied `keep`. -/
def Lately (keep : Taken S E O → Prop) (Q : Taken S E O → List (Taken S E O) → Prop)
    (hist : List (Taken S E O)) : Prop :=
  ∃ newer t older, hist = newer ++ t :: older ∧ keep t ∧ (∀ u ∈ newer, keep u) ∧ Q t older

section Lately

variable {keep : Taken S E O → Prop} {Q : Taken S E O → List (Taken S E O) → Prop}
  {t : Taken S E O} {hist : List (Taken S E O)}

theorem Lately.here (hkeep : keep t) (hQ : Q t hist) : Lately keep Q (t :: hist) :=
  ⟨[], t, hist, rfl, hkeep, fun _ hu => absurd hu List.not_mem_nil, hQ⟩

theorem Lately.cons (h : Lately keep Q hist) (hkeep : keep t) : Lately keep Q (t :: hist) := by
  obtain ⟨newer, t', older, rfl, ht', hnewer, hQ⟩ := h
  refine ⟨t :: newer, t', older, rfl, ht', fun u hu => ?_, hQ⟩
  rcases List.mem_cons.mp hu with rfl | hu
  · exact hkeep
  · exact hnewer u hu

theorem lately_cons (h : Lately keep Q (t :: hist)) : keep t ∧ (Q t hist ∨ Lately keep Q hist) := by
  obtain ⟨newer, t', older, heq, ht', hnewer, hQ⟩ := h
  cases newer with
  | nil =>
    cases heq
    exact ⟨ht', Or.inl hQ⟩
  | cons u newer =>
    cases heq
    exact ⟨hnewer _ List.mem_cons_self, Or.inr ⟨newer, t', older, rfl, ht', fun u hu =>
      hnewer u (List.mem_cons_of_mem _ hu), hQ⟩⟩

/-- A test for what has happened lately. -/
def latelyTest (keepTest QTest : Taken S E O → Bool) : List (Taken S E O) → Bool
  | [] => false
  | t :: hist => keepTest t && (QTest t || latelyTest keepTest QTest hist)

theorem Lately.of_latelyTest {keepTest QTest : Taken S E O → Bool}
    (hkeep : ∀ t, keepTest t = true → keep t) (hQ : ∀ t hist, QTest t = true → Q t hist)
    (h : latelyTest keepTest QTest hist = true) : Lately keep Q hist := by
  induction hist with
  | nil => cases h
  | cons t hist ih =>
    obtain ⟨htest, h⟩ := Bool.and_eq_true_iff.mp h
    rcases Bool.or_eq_true_iff.mp h with h | h
    · exact .here (hkeep t htest) (hQ t hist h)
    · exact (ih h).cons (hkeep t htest)

end Lately

/-- A step with the property `Q` has been taken, and every step after it was quiet. -/
def Since (quiet Q : Taken S E O → Prop) (hist : List (Taken S E O)) : Prop :=
  ∃ newer t older, hist = newer ++ t :: older ∧ Q t ∧ ∀ u ∈ newer, quiet u

section Since

variable {quiet Q : Taken S E O → Prop} {t : Taken S E O} {hist : List (Taken S E O)}

theorem not_since_nil : ¬ Since quiet Q [] := by
  rintro ⟨newer, t, older, heq, -⟩
  cases newer <;> cases heq

theorem since_cons : Since quiet Q (t :: hist) ↔ Q t ∨ quiet t ∧ Since quiet Q hist := by
  constructor
  · rintro ⟨newer, t', older, heq, hQ, hnewer⟩
    cases newer with
    | nil =>
      cases heq
      exact Or.inl hQ
    | cons u newer =>
      cases heq
      exact Or.inr ⟨hnewer _ List.mem_cons_self, newer, t', older, rfl, hQ, fun u hu =>
        hnewer u (List.mem_cons_of_mem _ hu)⟩
  · rintro (hQ | ⟨ht, newer, t', older, rfl, hQ, hnewer⟩)
    · exact ⟨[], t, hist, rfl, hQ, fun u hu => absurd hu List.not_mem_nil⟩
    · refine ⟨t :: newer, t', older, rfl, hQ, fun u hu => ?_⟩
      rcases List.mem_cons.mp hu with rfl | hu
      · exact ht
      · exact hnewer u hu

end Since

/-- Take the events one after the other as long as each is allowed, and add them to the
history. -/
def traceAllowed (step : S → E → Go (S × O)) (allowed : S → E → Bool) :
    List (Taken S E O) → S → List E → Option (List (Taken S E O) × S)
  | hist, s, [] => some (hist, s)
  | hist, s, e :: es =>
    if allowed s e then
      match step s e with
      | .ok (s', o) => traceAllowed step allowed (⟨s, e, o⟩ :: hist) s' es
      | .error _ => none
    else none

theorem Trace.of_traceAllowed {allowed : S → E → Bool} (hadm : ∀ s e, allowed s e = true → adm s e)
    {hist hist' : List (Taken S E O)} {s s' : S} {es : List E} (h0 : Trace step init adm hist s)
    (h : traceAllowed step allowed hist s es = some (hist', s')) :
    Trace step init adm hist' s' := by
  induction es generalizing hist s with
  | nil => cases h; exact h0
  | cons e es ih =>
    unfold traceAllowed at h
    split at h
    · next hallowed =>
      split at h
      · next hs => exact ih (h0.step (hadm _ _ hallowed) hs) h
      · cases h
    · cases h

/-! ## Evaluation -/

/-- The computation ends with a value that passes the test. -/
def Passes (x : Go S) (p : S → Bool) : Bool :=
  match x with
  | .ok s => p s
  | .error _ => false

@[simp] theorem passes_ok (s : S) (p : S → Bool) : Passes (.ok s) p = p s := rfl

/-- Evaluating a test on the end of a computation gives the end. -/
theorem exists_of_passes {x : Go S} {p : S → Bool} (h : Passes x p = true) :
    ∃ s, x = .ok s ∧ p s = true := by
  cases x with
  | ok s => exact ⟨s, rfl, h⟩
  | error e => cases h

/-- Only a panic fails every test. -/
theorem not_completes_of_not_passes {x : Go S} (h : Passes x (fun _ => true) = false) :
    ¬ Completes x := by
  rintro ⟨s, rfl⟩
  cases h

end Run

end N2nGo.Lib
