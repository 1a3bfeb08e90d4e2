import N2nGo.Lib.Pipeline

/-!
# Payload transforms

Package `transform`: what an edge does to a frame before it leaves and after it arrives.
A pipeline applies its transforms in order and reverses them from the last one back.

The cipher and the compressor are outside the repository's sources. `GCM` is what
`cipher.NewGCM` returns for one key, and `Zstd` an encoder with its decoder; both carry
what their packages promise. The deprecated gzip transform is never used and left out.
-/

set_option autoImplicit false

namespace N2nGo

open N2nGo.Lib

namespace Transform

/-- The errors of the package; a pipeline says which of its transforms failed. -/
inductive Err where
  | nonceGeneration
  | ciphertextTooShort
  | openFailed
  | compressFailed
  | decompressFailed
  | noTransforms
  | applyFailed (i : ℕ) (typeName : Bytes) (cause : Err)
  | reverseFailed (i : ℕ) (typeName : Bytes) (cause : Err)
  deriving DecidableEq

/-- What `io.ReadFull(rand.Reader, ...)` yields to one caller; `none` is its error. -/
structure Rand where
  read : ℕ → Option Bytes
  length_read : ∀ {n b}, read n = some b → b.length = n

end Transform

/-- GOLINE: tranform/tranform.go:3-6 -/
structure Transform where
  typeName : Bytes
  apply : Transform.Rand → Bytes → Except Transform.Err Bytes
  reverse : Bytes → Except Transform.Err Bytes

namespace Transform

/-! ## The transforms -/

/-- GOLINE: tranform/tranform.go:8-12 -/
def noOpTransform : Transform where
  typeName := ascii "*transform.noOpTransform"
  apply _ data := .ok data
  reverse data := .ok data

/-- `gcm.NonceSize()` of a standard GCM. -/
def nonceSize : ℕ := 12

/-- `gcm.Overhead()` of a standard GCM. -/
def tagSize : ℕ := 16

/-- AES-GCM under one key. `openBytes` fails on everything that is not authentic, in
particular on anything without room for a tag. -/
structure GCM where
  sealBytes : (nonce plaintext : Bytes) → Bytes
  openBytes : (nonce ciphertext : Bytes) → Option Bytes
  length_seal : ∀ {nonce} plaintext, nonce.length = nonceSize →
    (sealBytes nonce plaintext).length = plaintext.length + tagSize
  open_seal : ∀ {nonce} plaintext, nonce.length = nonceSize →
    openBytes nonce (sealBytes nonce plaintext) = some plaintext
  open_short : ∀ nonce {ciphertext}, ciphertext.length < tagSize → openBytes nonce ciphertext = none

/-- GOLINE: tranform/transform_aes.go:32-51 -/
def aesGCMTransform (gcm : GCM) : Transform where
  typeName := ascii "*transform.aesGCMTransform"
  apply rand plaintext :=
    match rand.read nonceSize with
    | none => .error .nonceGeneration
    | some nonce => .ok (nonce ++ gcm.sealBytes nonce plaintext)
  reverse ciphertext :=
    if ciphertext.length < nonceSize then .error .ciphertextTooShort
    else match gcm.openBytes (ciphertext.take nonceSize) (ciphertext.drop nonceSize) with
      | none => .error .openFailed
      | some plaintext => .ok plaintext

/-- A Zstandard encoder and decoder. -/
structure Zstd where
  compress : Bytes → Option Bytes
  decompress : Bytes → Option Bytes
  decompress_compress : ∀ {data packed}, compress data = some packed → decompress packed = some data

/-- GOLINE: tranform/transform_zstd.go:39-80 -/
def zstdTransform (z : Zstd) : Transform where
  typeName := ascii "*transform.zstdTransform"
  apply _ data :=
    match z.compress data with
    | none => .error .compressFailed
    | some packed => .ok packed
  reverse data :=
    match z.decompress data with
    | none => .error .decompressFailed
    | some unpacked => .ok unpacked

end Transform

/-! ## Pipelines -/

/-- GOLINE: tranform/processor.go:8-11 -/
structure PayloadProcessor where
  transforms : List Transform
  nonempty : transforms ≠ []

namespace PayloadProcessor

open Transform

/-- GOLINE: tranform/processor.go:15-26 -/
def newPayloadProcessor (pipelineTransforms : List Transform) : Except Err PayloadProcessor :=
  if h : pipelineTransforms = [] then .error .noTransforms else .ok ⟨pipelineTransforms, h⟩

/-- Apply the transforms from number `i` on; each call draws its own random bytes.
GOLINE: tranform/processor.go:33-38 -/
def applyFrom (rand : ℕ → Rand) : ℕ → List Transform → Bytes → Except Err Bytes
  | _, [], payload => .ok payload
  | i, t :: ts, payload =>
    match t.apply (rand i) payload with
    | .error e => .error (.applyFailed i t.typeName e)
    | .ok payload => applyFrom rand (i + 1) ts payload

/-- Reverse the transforms from the last one back to number `i`.
GOLINE: tranform/processor.go:47-53 -/
def reverseTo : ℕ → List Transform → Bytes → Except Err Bytes
  | _, [], payload => .ok payload
  | i, t :: ts, payload =>
    match reverseTo (i + 1) ts payload with
    | .error e => .error e
    | .ok payload =>
      match t.reverse payload with
      | .error e => .error (.reverseFailed i t.typeName e)
      | .ok payload => .ok payload

/-- GOLINE: tranform/processor.go:29-40 -/
def prepareOutput (rand : ℕ → Rand) (p : PayloadProcessor) (payload : Bytes) : Except Err Bytes :=
  applyFrom rand 0 p.transforms payload

/-- GOLINE: tranform/processor.go:43-55 -/
def parseInput (p : PayloadProcessor) (payload : Bytes) : Except Err Bytes :=
  reverseTo 0 p.transforms payload

end PayloadProcessor

/-! ## Transforms that act -/

/-- The interface again, for transforms whose calls may act on the world: they may draw random
bytes, count, or write to a log. -/
structure ActingTransform (σ : Type) where
  typeName : Bytes
  apply : Step σ Bytes Transform.Err
  reverse : Step σ Bytes Transform.Err

namespace ActingTransform

open Transform

variable {σ : Type}

/-- One round of the loop of `PrepareOutput`.
GOLINE: tranform/processor.go:33-38 -/
def applyRound (i : ℕ) (t : ActingTransform σ) : Step σ Bytes Err :=
  mapError (.applyFailed i t.typeName) t.apply

/-- One round of the loop of `ParseInput`.
GOLINE: tranform/processor.go:47-53 -/
def reverseRound (i : ℕ) (t : ActingTransform σ) : Step σ Bytes Err :=
  mapError (.reverseFailed i t.typeName) t.reverse

/-- The rounds for the transforms from number `i` on. -/
def rounds (round : ℕ → ActingTransform σ → Step σ Bytes Err) :
    ℕ → List (ActingTransform σ) → List (Step σ Bytes Err)
  | _, [] => []
  | i, t :: ts => round i t :: rounds round (i + 1) ts

/-- The loop over the transforms from number `i` on. -/
def prepareFrom (i : ℕ) (ts : List (ActingTransform σ)) : Step σ Bytes Err :=
  inRow (rounds applyRound i ts)

/-- The loop over the transforms from the last one back to number `i`. -/
def parseTo (i : ℕ) (ts : List (ActingTransform σ)) : Step σ Bytes Err :=
  inRow (rounds reverseRound i ts).reverse

/-- GOLINE: tranform/processor.go:29-40 -/
def prepareOutput (ts : List (ActingTransform σ)) : Step σ Bytes Err := prepareFrom 0 ts

/-- GOLINE: tranform/processor.go:43-55 -/
def parseInput (ts : List (ActingTransform σ)) : Step σ Bytes Err := parseTo 0 ts

/-- A transform whose only act is to draw random bytes; the world counts the draws. -/
def ofTransform (rand : ℕ → Rand) (t : Transform) : ActingTransform ℕ where
  typeName := t.typeName
  apply n data := (n + 1, t.apply (rand n) data)
  reverse n data := (n, t.reverse data)

end ActingTransform

end N2nGo
