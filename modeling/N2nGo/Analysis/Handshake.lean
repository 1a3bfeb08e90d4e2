import N2nGo.Model.Transport
import Mathlib.Data.List.GetD

/-!
# The SOCKS5 handshake and its framing

A proxy answers with a method reply of two bytes and a CONNECT reply whose length depends on
the address in it. The handshake takes what two `Read`s return for the two replies. So it
leaves the connection at the first byte after the replies only if the network cuts the stream
there, and only if the CONNECT reply fits its buffer of ten bytes, as it does for an IPv4
address. `handshake_correct_iff` says which cuts are right, for every stream.
-/

set_option autoImplicit false

namespace N2nGo.Transport

open N2nGo.Lib

/-! ## Replies -/

/-- The address of a CONNECT reply, as RFC 1928 has it. -/
inductive BoundAddr where
  | ipv4 (addr : Bytes) (hlen : addr.length = 4)
  | domain (name : Bytes) (hlen : name.length < 256)
  | ipv6 (addr : Bytes) (hlen : addr.length = 16)

def BoundAddr.bytes : BoundAddr → Bytes
  | .ipv4 addr _ => 0x01 :: addr
  | .domain name _ => 0x03 :: UInt8.ofNat name.length :: name
  | .ipv6 addr _ => 0x04 :: addr

structure MethodReply where
  version : UInt8
  method : UInt8

def MethodReply.bytes (m : MethodReply) : Bytes := [m.version, m.method]

structure ConnectReply where
  code : UInt8
  bound : BoundAddr
  port : UInt8 × UInt8

def ConnectReply.bytes (r : ConnectReply) : Bytes :=
  [0x05, r.code, 0x00] ++ r.bound.bytes ++ [r.port.1, r.port.2]

/-- The proxy has agreed to both requests. -/
def Accepts (m : MethodReply) (r : ConnectReply) : Prop :=
  m.version = 0x05 ∧ m.method ≠ 0xFF ∧ r.code = 0x00

/-- Both requests can be made: the writes succeed and the target is resolved. -/
def Works (P : Platform) (conn : Conn) (targetAddr : Bytes) : Prop :=
  P.writeOk conn.written.length = true ∧ P.writeOk (conn.written.length + 1) = true ∧
    (P.resolveTCPAddr targetAddr).isSome = true

/-- The handshake succeeds exactly if the proxy agrees, and then what is left on the connection
begins with the first byte of the tunnel. -/
def Correct (P : Platform) (conn : Conn) (targetAddr : Bytes) (m : MethodReply) (r : ConnectReply)
    (tunnel : Bytes) : Prop :=
  ((∃ conn', socks5Handshake P conn targetAddr = .ok (conn', .ok ())) ↔ Accepts m r) ∧
    ∀ conn', socks5Handshake P conn targetAddr = .ok (conn', .ok ()) →
      conn'.incoming.rest = tunnel

/-! ## Buffers -/

/-- What a buffer of zeros holds at `k` after `b` was read into it. -/
def byteAt (b : Bytes) (k : ℕ) : UInt8 := b.getD k 0

section Buffers

variable {n k : ℕ} {b front back stream : Bytes}

theorem index_filled (hb : b.length ≤ n) (hk : k < n) :
    index (filled n b) k = .ok (byteAt b k) := by
  have hget : (filled n b)[k]? = some (byteAt b k) := by
    rw [filled, byteAt, List.getElem?_append]
    split
    · next hin =>
      rw [List.getD_eq_getElem _ _ hin, List.getElem?_eq_getElem hin]
    · next hout =>
      rw [List.getD_eq_default _ _ (Nat.le_of_not_lt hout), List.getElem?_replicate, if_pos]
      omega
  rw [index, hget]

theorem byteAt_front (h : stream = front ++ back) (k : ℕ) :
    byteAt front k = if k < front.length then byteAt stream k else 0 := by
  unfold byteAt
  split
  · next hin => rw [h, List.getD_append _ _ _ _ hin]
  · next hout => exact List.getD_eq_default _ _ (Nat.le_of_not_lt hout)

end Buffers

/-! ## Two reads -/

section Reads

variable {P : Platform} {conn : Conn} {targetAddr : Bytes} {b1 b2 : Bytes} {i1 i2 : Incoming}

/-- What the handshake looks at. -/
def Passes (b1 b2 : Bytes) : Prop :=
  (byteAt b1 0 = 0x05 ∧ byteAt b1 1 ≠ 0xFF) ∧ byteAt b2 0 = 0x05 ∧ byteAt b2 1 = 0x00

theorem readResponse_eq_ok_iff {conn conn' : Conn} (hread : conn.incoming.read 10 = some (b2, i2)) :
    readResponse conn = .ok (conn', .ok ()) ↔
      (byteAt b2 0 = 0x05 ∧ byteAt b2 1 = 0x00) ∧ { conn with incoming := i2 } = conn' := by
  obtain ⟨-, -, hlen⟩ := Incoming.read_eq_some (by decide) hread
  simp only [readResponse, hread, index_filled hlen (show 0 < 10 by decide),
    index_filled hlen (show 1 < 10 by decide), ok_bind]
  by_cases hversion : byteAt b2 0 = 0x05
  · by_cases hcode : byteAt b2 1 = 0x00
    · simp [hversion, hcode]
    · simp [hversion, hcode]
  · simp [hversion]

theorem connect_eq_ok_iff {conn conn' : Conn} (hread : conn.incoming.read 10 = some (b2, i2)) :
    connect P conn targetAddr = .ok (conn', .ok ()) ↔
      ∃ addr, P.resolveTCPAddr targetAddr = some addr ∧ P.writeOk conn.written.length = true ∧
        (byteAt b2 0 = 0x05 ∧ byteAt b2 1 = 0x00) ∧
        ⟨i2, conn.written ++ [connectRequest addr]⟩ = conn' := by
  cases hresolve : P.resolveTCPAddr targetAddr with
  | none => simp [connect, hresolve]
  | some addr =>
    by_cases hwrite : P.writeOk conn.written.length = true
    · have hresponse := @readResponse_eq_ok_iff b2 i2
        { conn with written := conn.written ++ [connectRequest addr] } conn' hread
      simp [connect, hresolve, write, hwrite, hresponse]
    · simp [connect, hresolve, write, hwrite]

/-- The handshake succeeds if both requests can be made and what it looks at is in order; it
has then read `b1` and `b2`. -/
theorem socks5Handshake_eq_ok_iff {conn' : Conn} (hread1 : conn.incoming.read 2 = some (b1, i1))
    (hread2 : i1.read 10 = some (b2, i2)) :
    socks5Handshake P conn targetAddr = .ok (conn', .ok ()) ↔
      Passes b1 b2 ∧ P.writeOk conn.written.length = true ∧
        ∃ addr, P.resolveTCPAddr targetAddr = some addr ∧
          P.writeOk (conn.written.length + 1) = true ∧
          ⟨i2, conn.written ++ [[0x05, 0x01, 0x00]] ++ [connectRequest addr]⟩ = conn' := by
  obtain ⟨-, -, hlen⟩ := Incoming.read_eq_some (by decide) hread1
  by_cases hwrite : P.writeOk conn.written.length = true
  · have hconnect := @connect_eq_ok_iff P targetAddr b2 i2
      ⟨i1, conn.written ++ [[0x05, 0x01, 0x00]]⟩ conn' hread2
    rw [List.length_append, List.length_singleton] at hconnect
    simp only [socks5Handshake, write, hwrite, if_true, hread1,
      index_filled hlen (show 0 < 2 by decide), index_filled hlen (show 1 < 2 by decide), ok_bind]
    by_cases hversion : byteAt b1 0 = 0x05
    · by_cases hmethod : byteAt b1 1 = 0xFF
      · simp [hversion, hmethod, Passes]
      · simp only [hversion, hmethod, ne_eq, not_true_eq_false, if_false, Passes, hconnect]
        constructor
        · rintro ⟨addr, hresolve, hwrite2, hreply, rfl⟩
          exact ⟨⟨⟨trivial, not_false⟩, hreply⟩, trivial, addr, hresolve, hwrite2, rfl⟩
        · rintro ⟨⟨-, hreply⟩, -, addr, hresolve, hwrite2, rfl⟩
          exact ⟨addr, hresolve, hwrite2, hreply, rfl⟩
    · simp [hversion, Passes]
  · simp [socks5Handshake, write, hwrite]

/-! ## Cuts -/

variable {m : MethodReply} {r : ConnectReply} {tunnel : Bytes}

/-- How the handshake succeeds, by the sizes of the two reads. A CONNECT reply of which only one
byte came counts as a success whatever its code, since the buffer begins as zeros. If one byte
of the method reply came, the second is taken for the version of the CONNECT reply. -/
def Lucky (m : MethodReply) (r : ConnectReply) (size1 size2 : ℕ) : Prop :=
  m.version = 0x05 ∧
    (size1 = 2 ∧ m.method ≠ 0xFF ∧ (size2 = 1 ∨ r.code = 0x00) ∨
      size1 = 1 ∧ m.method = 0x05 ∧ size2 = 1)

theorem byteAt_one_eq_zero_iff {x y : UInt8} {more : Bytes} (hpos : 0 < b2.length)
    (hfront : x :: y :: more = b2 ++ i2.rest) :
    byteAt b2 1 = 0x00 ↔ b2.length = 1 ∨ y = 0x00 := by
  rw [byteAt_front hfront]
  split
  · next htwo =>
    show y = 0x00 ↔ _
    constructor
    · exact .inr
    · rintro (hone | hzero)
      · omega
      · exact hzero
  · next hone => exact ⟨fun _ => .inl (by omega), fun _ => rfl⟩

theorem byteAt_zero {x : UInt8} {more : Bytes} (hpos : 0 < b2.length)
    (hfront : x :: more = b2 ++ i2.rest) : byteAt b2 0 = x := by
  rw [byteAt_front hfront, if_pos hpos]
  rfl

section

variable (hstream : conn.incoming.rest = m.bytes ++ r.bytes ++ tunnel)
  (hread1 : conn.incoming.read 2 = some (b1, i1)) (hread2 : i1.read 10 = some (b2, i2))
include hstream hread1 hread2

theorem passes_iff_lucky : Passes b1 b2 ↔ Lucky m r b1.length b2.length := by
  obtain ⟨hfront1, hpos1, hlen1⟩ := Incoming.read_eq_some (by decide) hread1
  obtain ⟨hfront2, hpos2, -⟩ := Incoming.read_eq_some (by decide) hread2
  obtain ⟨more, hmore⟩ : ∃ more, m.version :: m.method :: 0x05 :: r.code :: more =
      b1 ++ i1.rest := ⟨_, by rw [← hfront1, hstream]; rfl⟩
  rcases Nat.lt_or_ge b1.length 2 with hone | htwo
  · -- the method byte is still to come, and 5 after it
    obtain ⟨v, rfl⟩ := List.length_eq_one_iff.mp (show b1.length = 1 by omega)
    obtain ⟨rfl, htail⟩ := List.cons.inj hmore
    have hrest : m.method :: 0x05 :: r.code :: more = b2 ++ i2.rest := htail.trans hfront2
    have hfive : (0x05 : UInt8) ≠ 0x00 := by decide
    rw [Passes, byteAt_zero hpos2 hrest, byteAt_one_eq_zero_iff hpos2 hrest]
    simp [Lucky, hfive, byteAt]
  · obtain ⟨v, w, rfl⟩ := List.length_eq_two.mp (show b1.length = 2 by omega)
    obtain ⟨rfl, htail⟩ := List.cons.inj hmore
    obtain ⟨rfl, htail'⟩ := List.cons.inj htail
    have hrest : 0x05 :: r.code :: more = b2 ++ i2.rest := htail'.trans hfront2
    rw [Passes, byteAt_zero hpos2 hrest, byteAt_one_eq_zero_iff hpos2 hrest]
    simp [Lucky, byteAt, and_assoc]

/-- What is left is the tunnel if the reads were as long as the replies. -/
theorem rest_eq_tunnel_iff : i2.rest = tunnel ↔ b1.length + b2.length = 2 + r.bytes.length := by
  obtain ⟨hfront1, -, -⟩ := Incoming.read_eq_some (by decide) hread1
  obtain ⟨hfront2, -, -⟩ := Incoming.read_eq_some (by decide) hread2
  have hall : (b1 ++ b2) ++ i2.rest = (m.bytes ++ r.bytes) ++ tunnel := by
    rw [← hstream, hfront1, hfront2, List.append_assoc]
  have hlen : (m.bytes ++ r.bytes).length = 2 + r.bytes.length := List.length_append
  constructor
  · intro hrest
    have hlens := congrArg List.length hall
    simp only [List.length_append, hrest] at hlens hlen
    omega
  · intro hsizes
    have hsame : (b1 ++ b2).length = (m.bytes ++ r.bytes).length := by
      rw [List.length_append, hsizes, hlen]
    exact (List.append_inj hall hsame).2

end

theorem exists_conn_iff (hread1 : conn.incoming.read 2 = some (b1, i1))
    (hread2 : i1.read 10 = some (b2, i2)) :
    (∃ conn', socks5Handshake P conn targetAddr = .ok (conn', .ok ())) ↔
      Works P conn targetAddr ∧ Passes b1 b2 := by
  simp only [socks5Handshake_eq_ok_iff hread1 hread2, Works, Option.isSome_iff_exists]
  constructor
  · rintro ⟨conn', hpasses, hwrite, addr, hresolve, hwrite2, -⟩
    exact ⟨⟨hwrite, hwrite2, addr, hresolve⟩, hpasses⟩
  · rintro ⟨⟨hwrite, hwrite2, addr, hresolve⟩, hpasses⟩
    exact ⟨_, hpasses, hwrite, addr, hresolve, hwrite2, rfl⟩

/-- **The handshake is right exactly for some cuts of the stream.** If the proxy agrees, the two
reads must return the two replies, no less and no more; if it does not agree, they must not
return so little of the replies that zeros of the buffers stand in for the rest.
GOLINE: transport/wss.go:275-341 -/
theorem handshake_correct_iff (P : Platform) (conn : Conn) (targetAddr : Bytes) (m : MethodReply)
    (r : ConnectReply) (tunnel : Bytes)
    (hstream : conn.incoming.rest = m.bytes ++ r.bytes ++ tunnel) :
    ∃ b1 i1 b2 i2, conn.incoming.read 2 = some (b1, i1) ∧ i1.read 10 = some (b2, i2) ∧
      (Correct P conn targetAddr m r tunnel ↔
        (Accepts m r → Works P conn targetAddr ∧ b1.length = 2 ∧ b2.length = r.bytes.length) ∧
        (¬ Accepts m r → ¬ (Works P conn targetAddr ∧ Lucky m r b1.length b2.length))) := by
  have hlong : 3 ≤ r.bytes.length := by
    rw [ConnectReply.bytes, List.length_append, List.length_append]
    exact Nat.le_add_right_of_le (Nat.le_add_right _ _)
  have hrest : conn.incoming.rest ≠ [] := by
    rw [hstream]
    exact List.cons_ne_nil _ _
  obtain ⟨b1, i1, hread1⟩ := Incoming.exists_read (n := 2) hrest
  obtain ⟨hfront1, hpos1, hlen1⟩ := Incoming.read_eq_some (by decide) hread1
  have hrest1 : i1.rest ≠ [] := by
    intro hnil
    have hlens := congrArg List.length (hstream.symm.trans hfront1)
    rw [hnil, List.append_nil, List.length_append, List.length_append] at hlens
    omega
  obtain ⟨b2, i2, hread2⟩ := Incoming.exists_read (n := 10) hrest1
  refine ⟨b1, i1, b2, i2, hread1, hread2, ?_⟩
  have hsome : (∃ conn', socks5Handshake P conn targetAddr = .ok (conn', .ok ())) ↔
      Works P conn targetAddr ∧ Lucky m r b1.length b2.length := by
    rw [exists_conn_iff hread1 hread2, passes_iff_lucky hstream hread1 hread2]
  have hleft : ∀ conn', socks5Handshake P conn targetAddr = .ok (conn', .ok ()) →
      conn'.incoming.rest = i2.rest := by
    intro conn' hok
    obtain ⟨-, -, addr, -, -, rfl⟩ := (socks5Handshake_eq_ok_iff hread1 hread2).mp hok
    rfl
  have htunnel := rest_eq_tunnel_iff hstream hread1 hread2
  constructor
  · rintro ⟨hiff, hexact⟩
    refine ⟨fun haccepts => ?_, fun hrefuses hlucky => hrefuses (hiff.mp (hsome.mpr hlucky))⟩
    obtain ⟨conn', hok⟩ := hiff.mpr haccepts
    obtain ⟨hworks, -, hcut⟩ := hsome.mp ⟨conn', hok⟩
    have hsizes := htunnel.mp ((hleft conn' hok).symm.trans (hexact conn' hok))
    rcases hcut with ⟨htwo, -, -⟩ | ⟨hone, -, hsingle⟩
    · exact ⟨hworks, htwo, by omega⟩
    · omega
  · rintro ⟨hagree, hrefuse⟩
    by_cases haccepts : Accepts m r
    · obtain ⟨hworks, htwo, hall⟩ := hagree haccepts
      have hlucky : Lucky m r b1.length b2.length :=
        ⟨haccepts.1, .inl ⟨htwo, haccepts.2.1, .inr haccepts.2.2⟩⟩
      refine ⟨⟨fun _ => haccepts, fun _ => hsome.mpr ⟨hworks, hlucky⟩⟩, fun conn' hok => ?_⟩
      rw [hleft conn' hok, htunnel]
      omega
    · have hnone := hrefuse haccepts
      refine ⟨⟨fun hok => absurd (hsome.mp hok) hnone, fun h => absurd h haccepts⟩, ?_⟩
      intro conn' hok
      exact absurd (hsome.mp ⟨conn', hok⟩) hnone

end Reads

/-! ## Two streams -/

/-- A system that resolves every name and writes without an error. -/
def working : Platform := ⟨fun _ => some ⟨[10, 0, 0, 1], 443⟩, fun _ => true⟩

/-- The replies `05 00` and `05 00 00 01 0a000001 01bb`, and a byte of the tunnel, one by one. -/
theorem handshake_correct_ipv4 :
    Correct working ⟨⟨[[5, 0], [5, 0, 0, 1, 10, 0, 0, 1, 1, 187], [42]], by decide⟩, []⟩ []
      ⟨5, 0⟩ ⟨0, .ipv4 [10, 0, 0, 1] rfl, 1, 187⟩ [42] := by
  obtain ⟨b1, i1, b2, i2, hread1, hread2, hcorrect⟩ := handshake_correct_iff working
    ⟨⟨[[5, 0], [5, 0, 0, 1, 10, 0, 0, 1, 1, 187], [42]], by decide⟩, []⟩ []
    ⟨5, 0⟩ ⟨0, .ipv4 [10, 0, 0, 1] rfl, 1, 187⟩ [42] rfl
  cases hread1
  cases hread2
  refine hcorrect.mpr ⟨fun _ => ⟨⟨rfl, rfl, rfl⟩, rfl, rfl⟩, fun hrefuses => ?_⟩
  exact absurd ⟨rfl, by decide, rfl⟩ hrefuses

/-- The proxy agrees and its method reply comes in two chunks: the handshake fails. A reply with
an IPv6 address is left on the connection from its eleventh byte on. -/
theorem handshake_misframed :
    Accepts ⟨5, 0⟩ ⟨0, .ipv4 [10, 0, 0, 1] rfl, 1, 187⟩ ∧
      (socks5Handshake working
        ⟨⟨[[5], [0], [5, 0, 0, 1, 10, 0, 0, 1, 1, 187], [42]], by decide⟩, []⟩ []).map Prod.snd =
          .ok (.error (.invalidResponseVersion 0)) ∧
      (socks5Handshake working
        ⟨⟨[[5, 0], [5, 0, 0, 4, 0, 0, 0, 0, 0, 0, 0, 0, 0, 0, 0, 0, 0, 0, 0, 1, 1, 187], [42]],
          by decide⟩, []⟩ []).map (fun res => (res.1.incoming.rest, res.2)) =
          .ok ([0, 0, 0, 0, 0, 0, 0, 0, 0, 1, 1, 187, 42], .ok ()) := by
  refine ⟨⟨rfl, by decide, rfl⟩, rfl, rfl⟩

end N2nGo.Transport
