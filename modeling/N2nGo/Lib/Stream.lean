import N2nGo.Lib.Fault

/-!
# Byte streams

What is still to come on a connection comes in chunks. A `Read` returns the next chunk, or
the front of it if the buffer is shorter, and it returns at least one byte. How the bytes
are cut into chunks is up to the network. A caller that needs a number of bytes has to go on
reading: `io.ReadFull` does, and its result depends only on the bytes (`readFull_of_le`).
-/

set_option autoImplicit false

namespace N2nGo.Lib

/-- What is still to come, in chunks. -/
structure Incoming where
  chunks : List Bytes
  nonempty : ∀ c ∈ chunks, c ≠ []

/-- The outcomes of reading that are no bytes. -/
inductive ReadErr where
  | eof
  | unexpectedEOF
  deriving DecidableEq

namespace Incoming

/-- The bytes that are still to come. -/
def rest (i : Incoming) : Bytes := i.chunks.flatten

/-- `Read` into a buffer of `n` bytes; `none` is the end of the stream. -/
def read (n : ℕ) : Incoming → Option (Bytes × Incoming)
  | ⟨[], _⟩ => none
  | ⟨c :: cs, h⟩ =>
    if hfits : c.length ≤ n then some (c, ⟨cs, fun d hd => h d (List.mem_cons_of_mem _ hd)⟩)
    else some (c.take n, ⟨c.drop n :: cs, by
      refine List.forall_mem_cons.mpr ⟨?_, fun d hd => h d (List.mem_cons_of_mem _ hd)⟩
      rw [Ne, List.drop_eq_nil_iff]
      exact hfits⟩)

/-- The loop of `io.ReadFull`: `missing` bytes are still to be read. -/
def readFullLoop : (fuel missing : ℕ) → Bytes → Incoming → Except ReadErr Bytes × Incoming
  | _, 0, got, i => (.ok got, i)
  | 0, _ + 1, _, i => (.error .unexpectedEOF, i)
  | fuel + 1, missing + 1, got, i =>
    match i.read (missing + 1) with
    | none => (.error (if got = [] then .eof else .unexpectedEOF), i)
    | some (b, i) => readFullLoop fuel (missing + 1 - b.length) (got ++ b) i

/-- `io.ReadFull` into a buffer of `n` bytes. Every round reads a byte or more, so `n` rounds
are enough. -/
def readFull (n : ℕ) (i : Incoming) : Except ReadErr Bytes × Incoming := readFullLoop n n [] i

/-! ## Reading -/

section Read

variable {n : ℕ} {i i' : Incoming} {b : Bytes}

theorem read_eq_none_iff : i.read n = none ↔ i.rest = [] := by
  obtain ⟨chunks, h⟩ := i
  cases chunks with
  | nil => exact ⟨fun _ => rfl, fun _ => rfl⟩
  | cons c cs =>
    have hsome : read n ⟨c :: cs, h⟩ ≠ none := by
      simp only [read]
      split
      · exact Option.some_ne_none _
      · exact Option.some_ne_none _
    have hrest : rest ⟨c :: cs, h⟩ ≠ [] :=
      List.append_ne_nil_of_left_ne_nil (h c List.mem_cons_self) _
    exact ⟨fun hnone => absurd hnone hsome, fun hnil => absurd hnil hrest⟩

/-- A `Read` returns the front of what is to come, and something of it. -/
theorem read_eq_some (hn : 0 < n) (h : i.read n = some (b, i')) :
    i.rest = b ++ i'.rest ∧ 0 < b.length ∧ b.length ≤ n := by
  obtain ⟨chunks, hne⟩ := i
  cases chunks with
  | nil => cases h
  | cons c cs =>
    have hc : 0 < c.length := List.length_pos_iff.mpr (hne c List.mem_cons_self)
    simp only [read] at h
    split at h
    · next hfits =>
      cases h
      exact ⟨rfl, hc, hfits⟩
    · next hlong =>
      cases h
      refine ⟨?_, ?_, List.length_take_le _ _⟩
      · show c ++ cs.flatten = c.take n ++ (c.drop n ++ cs.flatten)
        rw [← List.append_assoc, List.take_append_drop]
      · rw [List.length_take]
        omega

theorem exists_read (hrest : i.rest ≠ []) : ∃ b i', i.read n = some (b, i') := by
  rcases hread : i.read n with _ | ⟨b, i'⟩
  · exact absurd (read_eq_none_iff.mp hread) hrest
  · exact ⟨b, i', rfl⟩

/-- As long as the bytes are there, `io.ReadFull` reads them, however they are cut. -/
theorem readFullLoop_of_le {fuel missing : ℕ} {got : Bytes} (hfuel : missing ≤ fuel)
    (hle : missing ≤ i.rest.length) :
    ∃ i', readFullLoop fuel missing got i = (.ok (got ++ i.rest.take missing), i') ∧
      i'.rest = i.rest.drop missing := by
  induction fuel generalizing missing got i with
  | zero =>
    obtain rfl : missing = 0 := by omega
    exact ⟨i, by rw [List.take_zero, List.append_nil]; rfl, rfl⟩
  | succ fuel ih =>
    cases missing with
    | zero => exact ⟨i, by rw [List.take_zero, List.append_nil]; rfl, rfl⟩
    | succ missing =>
      have hrest : i.rest ≠ [] := List.length_pos_iff.mp (by omega)
      obtain ⟨b, i1, hread⟩ := exists_read (n := missing + 1) hrest
      obtain ⟨hfront, hpos, hshort⟩ := read_eq_some (Nat.succ_pos _) hread
      have hlen : i.rest.length = b.length + i1.rest.length := by
        rw [hfront, List.length_append]
      have hmissing : missing + 1 - b.length ≤ i1.rest.length := by omega
      obtain ⟨i2, hloop, hleft⟩ := @ih i1 _ (got ++ b) (by omega) hmissing
      refine ⟨i2, ?_, ?_⟩
      · rw [readFullLoop, hread]
        simp only
        rw [hloop, hfront, List.take_append, List.take_of_length_le hshort, List.append_assoc]
      · rw [hleft, hfront, List.drop_append, List.drop_of_length_le hshort, List.nil_append]

/-- What `io.ReadFull` returns fills the buffer. -/
theorem length_of_readFullLoop {fuel missing : ℕ} {got : Bytes}
    (h : readFullLoop fuel missing got i = (.ok b, i')) : b.length = got.length + missing := by
  fun_induction readFullLoop fuel missing got i with
  | case1 =>
    cases h
    rfl
  | case2 => cases h
  | case3 => cases h
  | case4 _ missing got i b1 i1 hread ih =>
    obtain ⟨-, -, hshort⟩ := read_eq_some (Nat.succ_pos _) hread
    have hlen := ih h
    rw [List.length_append] at hlen
    omega

theorem length_of_readFull (h : i.readFull n = (.ok b, i')) : b.length = n := by
  have hlen := length_of_readFullLoop h
  rwa [List.length_nil, Nat.zero_add] at hlen

theorem readFull_of_le (hle : n ≤ i.rest.length) :
    ∃ i', i.readFull n = (.ok (i.rest.take n), i') ∧ i'.rest = i.rest.drop n :=
  readFullLoop_of_le (Nat.le_refl n) hle

end Read

end Incoming

end N2nGo.Lib
