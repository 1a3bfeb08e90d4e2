import N2nGo.Lib.Fault

/-!
# Ethernet frames

Package `tuntap`, as far as frames are read and made: destination, source, Ethertype and
payload, with the VLAN tags in front of the latter two. An edge reads the frames of its TAP
device with some of these functions. The `Fast` functions check nothing, so they are written
with the checked `index` and `slice`. A buffer that a frame is written into shares no memory
with the parts of the frame.
-/

set_option autoImplicit false

namespace N2nGo.Tuntap

open N2nGo.Lib

/-- The value is the number of bytes the tags take.
GOLINE: tuntap/frame.go:14-23 -/
inductive Tagging where
  | notTagged
  | tagged
  | doubleTagged
  deriving DecidableEq

def Tagging.size : Tagging → ℕ
  | .notTagged => 0
  | .tagged => 4
  | .doubleTagged => 8

/-- GOLINE: tuntap/frame.go:26-34 -/
def minFrameSize : ℕ := 14
def minTaggedFrameSize : ℕ := 18
def minDoubleTaggedSize : ℕ := 22

/-- A two-byte field of the frame, as it is compared with the tag types. -/
abbrev TypeField := UInt8 × UInt8

/-- GOLINE: tuntap/frame.go:37-40 -/
def dot1QTagType : TypeField := (0x81, 0x00)
def dot1AdTagType : TypeField := (0x88, 0xa8)

/-- GOLINE: tuntap/ethertype.go:6-8 -/
structure Ethertype where
  hi : UInt8
  lo : UInt8
  deriving DecidableEq

/-- GOLINE: tuntap/ethertype.go:23 -/
def ethertypeIPv6 : Ethertype := ⟨0x86, 0xdd⟩

/-- GOLINE: tuntap/frame.go:10 -/
inductive Err where
  | frameTooShort
  deriving DecidableEq

/-- GOLINE: tuntap/frame.go:53-55 -/
def fastDestination (macFrame : Bytes) : Go Bytes := slice macFrame 0 6

/-- GOLINE: tuntap/frame.go:60-62 -/
def fastSource (macFrame : Bytes) : Go Bytes := slice macFrame 6 12

/-- The two bytes at `pos`. -/
def typeField (macFrame : Bytes) (pos : ℕ) : Go TypeField := do
  let hi ← index macFrame pos
  let lo ← index macFrame (pos + 1)
  .ok (hi, lo)

/-- GOLINE: tuntap/frame.go:66-82 -/
def fastTaggingType (macFrame : Bytes) : Go Tagging := do
  let field ← typeField macFrame 12
  if field = dot1QTagType then
    if 18 ≤ macFrame.length then
      let inner ← typeField macFrame 16
      .ok (if inner = dot1QTagType then .doubleTagged else .tagged)
    else .ok .tagged
  else if field = dot1AdTagType then .ok .doubleTagged
  else .ok .notTagged

/-- GOLINE: tuntap/frame.go:87-90 -/
def fastEthertype (macFrame : Bytes) (tagging : Tagging) : Go Ethertype := do
  let field ← typeField macFrame (12 + tagging.size)
  .ok ⟨field.1, field.2⟩

/-- GOLINE: tuntap/frame.go:95-97 -/
def fastPayload (macFrame : Bytes) (tagging : Tagging) : Go Bytes :=
  slice macFrame (12 + tagging.size + 2) macFrame.length

/-- GOLINE: tuntap/frame.go:102-105 -/
def fastVLANID (macFrame : Bytes) : Go UInt16 := do
  let hi ← index macFrame 14
  let lo ← index macFrame 15
  .ok ((hi &&& 0x0f).toUInt16 <<< 8 ||| lo.toUInt16)

/-- GOLINE: tuntap/frame.go:112-117 -/
def destination (macFrame : Bytes) : Go (Except Err Bytes) :=
  if macFrame.length < 6 then .ok (.error .frameTooShort)
  else do
    let dst ← fastDestination macFrame
    .ok (.ok dst)

/-- GOLINE: tuntap/frame.go:120-125 -/
def source (macFrame : Bytes) : Go (Except Err Bytes) :=
  if macFrame.length < 12 then .ok (.error .frameTooShort)
  else do
    let src ← fastSource macFrame
    .ok (.ok src)

/-- GOLINE: tuntap/frame.go:128-135 -/
def detectTagging (macFrame : Bytes) : Go (Except Err Tagging) :=
  if macFrame.length < minFrameSize then .ok (.error .frameTooShort)
  else do
    let tagging ← fastTaggingType macFrame
    .ok (.ok tagging)

/-- GOLINE: tuntap/frame.go:138-157 -/
def getEthertype (macFrame : Bytes) : Go (Except Err Ethertype) :=
  if macFrame.length < minFrameSize then .ok (.error .frameTooShort)
  else do
    let tagging ← fastTaggingType macFrame
    let minSize := match tagging with
      | .notTagged => minFrameSize
      | .tagged => minTaggedFrameSize
      | .doubleTagged => minDoubleTaggedSize
    if macFrame.length < minSize then .ok (.error .frameTooShort)
    else
      let ethertype ← fastEthertype macFrame tagging
      .ok (.ok ethertype)

/-- GOLINE: tuntap/frame.go:160-179 -/
def payload (macFrame : Bytes) : Go (Except Err Bytes) :=
  if macFrame.length < minFrameSize then .ok (.error .frameTooShort)
  else do
    let tagging ← fastTaggingType macFrame
    let minSize := match tagging with
      | .notTagged => minFrameSize + 2
      | .tagged => minTaggedFrameSize
      | .doubleTagged => minDoubleTaggedSize
    if macFrame.length < minSize then .ok (.error .frameTooShort)
    else
      let payload ← fastPayload macFrame tagging
      .ok (.ok payload)

/-- GOLINE: tuntap/frame.go:10, 189 -/
inductive VLANErr where
  | frameTooShort
  | notVLANTagged
  deriving DecidableEq

/-- GOLINE: tuntap/frame.go:182-197 -/
def getVLANID (macFrame : Bytes) : Go (Except VLANErr UInt16) :=
  if macFrame.length < minFrameSize then .ok (.error .frameTooShort)
  else do
    let tagging ← fastTaggingType macFrame
    if tagging = .notTagged then .ok (.error .notVLANTagged)
    else if macFrame.length < minTaggedFrameSize then .ok (.error .frameTooShort)
    else
      let id ← fastVLANID macFrame
      .ok (.ok id)

/-- The five fields of a frame. -/
structure Fields where
  dst : Bytes
  src : Bytes
  tagging : Tagging
  ethertype : Ethertype
  payload : Bytes
  deriving DecidableEq

/-- The fields that could be extracted, and the error.
GOLINE: tuntap/frame.go:266-296 -/
def parseFrame (macFrame : Bytes) : Go (Fields × Option Err) :=
  if macFrame.length < minFrameSize then .ok (⟨[], [], .notTagged, ⟨0, 0⟩, []⟩, some .frameTooShort)
  else do
    let dst ← fastDestination macFrame
    let src ← fastSource macFrame
    let tagging ← fastTaggingType macFrame
    let minSize := match tagging with
      | .notTagged => minFrameSize
      | .tagged => minTaggedFrameSize
      | .doubleTagged => minDoubleTaggedSize
    if macFrame.length < minSize then
      .ok (⟨dst, src, tagging, ⟨0, 0⟩, []⟩, some .frameTooShort)
    else
      let ethertype ← fastEthertype macFrame tagging
      let payload ← fastPayload macFrame tagging
      .ok (⟨dst, src, tagging, ethertype, payload⟩, none)

/-- GOLINE: tuntap/frame.go:203-212 -/
def isBroadcast (addr : Bytes) : Bool := 6 ≤ addr.length && (addr.take 6).all (· == 0xff)

/-- `copy(b[lo:hi], src)`: as many bytes as there are on both sides. -/
def copyInto (b : Bytes) (lo hi : ℕ) (src : Bytes) : Go Bytes := do
  let dst ← slice b lo hi
  .ok (b.take lo ++ src.take dst.length ++ b.drop (lo + min dst.length src.length))

/-- `b[i] = v`. -/
def setByte (b : Bytes) (i : ℕ) (v : UInt8) : Go Bytes := do
  let _ ← index b i
  .ok (b.set i v)

/-- The five writes that both constructors make.
GOLINE: tuntap/frame.go:241-245, 257-261 -/
def writeFrame (b dst src : Bytes) (ethertype : Ethertype) (payload : Bytes) : Go Bytes := do
  let b ← copyInto b 0 6 dst
  let b ← copyInto b 6 12 src
  let b ← setByte b 12 ethertype.hi
  let b ← setByte b 13 ethertype.lo
  copyInto b 14 b.length payload

/-- GOLINE: tuntap/frame.go:239-247 -/
def newFrame (dst src : Bytes) (ethertype : Ethertype) (payload : Bytes) : Go Bytes :=
  writeFrame (List.replicate (14 + payload.length) 0) dst src ethertype payload

/-- GOLINE: tuntap/frame.go:254 -/
inductive BufferErr where
  | bufferTooSmall
  deriving DecidableEq

/-- The buffer afterwards, and the number of bytes written or the error.
GOLINE: tuntap/frame.go:251-264 -/
def newFrameInto (buffer dst src : Bytes) (ethertype : Ethertype) (payload : Bytes) :
    Go (Bytes × Except BufferErr ℕ) :=
  let requiredSize := 14 + payload.length
  if buffer.length < requiredSize then .ok (buffer, .error .bufferTooSmall)
  else do
    let buffer ← writeFrame buffer dst src ethertype payload
    .ok (buffer, .ok requiredSize)

end N2nGo.Tuntap
