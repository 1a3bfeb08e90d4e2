import Mathlib.Data.List.Basic

/-!
# Computations that may panic

A Go function that indexes a slice or follows a pointer has one outcome besides
its result: the run-time panic. `Go α` is a computation with that outcome made
explicit. An ordinary Go `error` is not a panic: it is part of the result, and it
stays inside `α`.

Indexing and slicing are the only ways bytes are read out of a buffer here, so
"no out-of-range index" is a statement about the value of a `Go` computation. A
slice is taken to have no spare capacity, which is the reading of Go's bounds
rule under which most expressions panic.
-/

set_option autoImplicit false

namespace N2nGo.Lib

/-- A Go `[]byte`, and also a Go `string`: a finite sequence of arbitrary bytes. -/
abbrev Bytes := List UInt8

/-- Equality of bytes is tested by one instance throughout. -/
instance : LawfulBEq Bytes := List.instLawfulBEq

/-- The bytes of an ASCII literal. -/
def ascii (s : String) : Bytes := s.toList.map fun c => UInt8.ofNat c.toNat

/-- The panics the modelled code can raise; the last one is the `panic` of protobuf where a
message carries no description of its type. -/
inductive Fault where
  | indexOutOfRange
  | nilDereference
  | nilMessageInfo
  deriving DecidableEq, Repr

/-- A computation that returns a value or panics. -/
abbrev Go (α : Type) := Except Fault α

/-- `p[i]`. -/
def index (p : Bytes) (i : ℕ) : Go UInt8 :=
  match p[i]? with
  | some b => .ok b
  | none => .error .indexOutOfRange

/-- `p[lo:hi]`. -/
def slice (p : Bytes) (lo hi : ℕ) : Go Bytes :=
  if lo ≤ hi ∧ hi ≤ p.length then .ok ((p.take hi).drop lo) else .error .indexOutOfRange

/-- `*p`, where `none` is the nil pointer. -/
def deref {α : Type} : Option α → Go α
  | some a => .ok a
  | none => .error .nilDereference

/-- The computation ends with a value. -/
def Completes {α : Type} (x : Go α) : Prop := ∃ a, x = .ok a

section Bind

variable {α β : Type}

@[simp] theorem ok_bind (a : α) (f : α → Go β) : ((Except.ok a : Go α) >>= f) = f a := rfl

@[simp] theorem error_bind (e : Fault) (f : α → Go β) :
    ((Except.error e : Go α) >>= f) = .error e := rfl

/-- A sequence ends with `b` exactly when its first half ends with some `a` from
which the second half ends with `b`. -/
theorem bind_eq_ok {ε : Type} {x : Except ε α} {f : α → Except ε β} {b : β} :
    (x >>= f) = .ok b ↔ ∃ a, x = .ok a ∧ f a = .ok b := by
  cases x with
  | error e => simp [bind, Except.bind]
  | ok a => simp [bind, Except.bind]

@[simp] theorem completes_ok (a : α) : Completes (Except.ok a : Go α) := ⟨a, rfl⟩

@[simp] theorem not_completes_error (e : Fault) : ¬ Completes (Except.error e : Go α) := by
  rintro ⟨a, h⟩
  cases h

theorem completes_bind_iff {x : Go α} {f : α → Go β} :
    Completes (x >>= f) ↔ ∃ a, x = .ok a ∧ Completes (f a) := by
  unfold Completes
  constructor
  · rintro ⟨b, hb⟩
    obtain ⟨a, ha, hf⟩ := bind_eq_ok.mp hb
    exact ⟨a, ha, b, hf⟩
  · rintro ⟨a, ha, b, hf⟩
    exact ⟨b, bind_eq_ok.mpr ⟨a, ha, hf⟩⟩

theorem completes_bind_of_total {x : Go α} {f : α → Go β} (h : ∀ a, Completes (f a)) :
    Completes (x >>= f) ↔ Completes x := by
  rw [completes_bind_iff]
  exact ⟨fun ⟨a, ha, _⟩ => ⟨a, ha⟩, fun ⟨a, ha⟩ => ⟨a, ha, h a⟩⟩

end Bind

theorem index_cons_zero (b : UInt8) (p : Bytes) : index (b :: p) 0 = .ok b := rfl

theorem slice_of_le {p : Bytes} {lo hi : ℕ} (h1 : lo ≤ hi) (h2 : hi ≤ p.length) :
    slice p lo hi = .ok ((p.take hi).drop lo) := if_pos ⟨h1, h2⟩

theorem slice_to_end {p : Bytes} {lo : ℕ} (h : lo ≤ p.length) :
    slice p lo p.length = .ok (p.drop lo) := by
  rw [slice_of_le h (Nat.le_refl _), List.take_length]

theorem slice_from_start {p : Bytes} {hi : ℕ} (h : hi ≤ p.length) :
    slice p 0 hi = .ok (p.take hi) := by
  rw [slice_of_le (Nat.zero_le _) h, List.drop_zero]

end N2nGo.Lib
