import N2nGo.Lib.Fault
import Mathlib.Data.List.Lemmas
import Mathlib.Data.List.TakeWhile

/-!
# The textual forms of Go's `net` and `net/netip` packages

Addresses travel through the code as text: a MAC address keys a map by its
`HardwareAddr.String`, a socket by its `UDPAddr.String`. This file transcribes
those functions and their parsers, byte for byte, as the packages document them.
An `IP` is a byte slice of length 0, 4 or 16, as in Go.
-/

set_option autoImplicit false

namespace N2nGo.Lib.Net

/-! ## Digits -/

/-- `strconv.Itoa` on a non-negative integer. -/
def itoa (n : ℕ) : Bytes := (Nat.toDigits 10 n).map fun c => UInt8.ofNat c.toNat

/-- The lower-case hexadecimal digit of a value below 16. -/
def hexDigit (n : UInt8) : UInt8 := if n < 10 then 48 + n else 87 + n

/-- `strconv.FormatUint(n, 16)`. -/
def hexNat (n : ℕ) : Bytes := (Nat.toDigits 16 n).map fun c => UInt8.ofNat c.toNat

def isDigit (c : UInt8) : Bool := 48 ≤ c && c ≤ 57

/-- The value of a hexadecimal digit of either case. -/
def hexValue (c : UInt8) : Option ℕ :=
  if 48 ≤ c && c ≤ 57 then some (c.toNat - 48)
  else if 97 ≤ c && c ≤ 102 then some (c.toNat - 87)
  else if 65 ≤ c && c ≤ 70 then some (c.toNat - 55)
  else none

/-! ## MAC addresses -/

/-- `HardwareAddr.String`: two hexadecimal digits a byte, separated by colons. -/
def hardwareAddrString : Bytes → Bytes
  | [] => []
  | [b] => [hexDigit (b >>> 4), hexDigit (b &&& 15)]
  | b :: rest => hexDigit (b >>> 4) :: hexDigit (b &&& 15) :: 58 :: hardwareAddrString rest

/-- `xtoi2(s, e)`: the byte written by the two hexadecimal digits in front of `s`,
which must then end or go on with `e`. -/
def xtoi2 (s : Bytes) (e : UInt8) : Option UInt8 :=
  match s with
  | a :: b :: rest =>
    if rest.head?.any (· != e) then none
    else match hexValue a, hexValue b with
      | some x, some y => some (UInt8.ofNat (16 * x + y))
      | _, _ => none
  | _ => none

theorem hardwareAddrString_cons (b : UInt8) (rest : Bytes) :
    hardwareAddrString (b :: rest) = hexDigit (b >>> 4) :: hexDigit (b &&& 15) ::
      if rest = [] then [] else 58 :: hardwareAddrString rest := by
  cases rest with
  | nil => rfl
  | cons c rest => rfl

theorem xtoi2_hexDigit : ∀ n : Fin 256, xtoi2 [hexDigit (UInt8.ofNat n >>> 4),
    hexDigit (UInt8.ofNat n &&& 15)] 0 = some (UInt8.ofNat n) := by
  decide +kernel

variable {b : UInt8}

/-- The loop of `ParseMAC` over groups of two digits. -/
def parseMACPairs (sep : UInt8) : ℕ → Bytes → Option Bytes
  | 0, _ => some []
  | n + 1, s => do
    let b ← xtoi2 s sep
    let rest ← parseMACPairs sep n (s.drop 3)
    some (b :: rest)

/-- The loop of `ParseMAC` over groups of four digits. -/
def parseMACQuads (sep : UInt8) : ℕ → Bytes → Option Bytes
  | 0, _ => some []
  | n + 1, s => do
    let b ← xtoi2 (s.take 2) 0
    let b' ← xtoi2 (s.drop 2) sep
    let rest ← parseMACQuads sep n (s.drop 5)
    some (b :: b' :: rest)

/-- `net.ParseMAC`. -/
def parseMAC (s : Bytes) : Option Bytes :=
  if s.length < 14 then none
  else if s[2]? = some 58 ∨ s[2]? = some 45 then
    let n := (s.length + 1) / 3
    if (s.length + 1) % 3 ≠ 0 ∨ ¬ (n = 6 ∨ n = 8 ∨ n = 20) then none
    else parseMACPairs (s.getD 2 0) n s
  else if s[4]? = some 46 then
    let n := 2 * (s.length + 1) / 5
    if (s.length + 1) % 5 ≠ 0 ∨ ¬ (n = 6 ∨ n = 8 ∨ n = 20) then none
    else parseMACQuads 46 (n / 2) s
  else none

variable {rest : Bytes}

theorem xtoi2_cons {a e : UInt8} (h : rest = [] ∨ rest.head? = some e) :
    xtoi2 (a :: b :: rest) e = xtoi2 [a, b] 0 := by
  unfold xtoi2
  rcases h with rfl | h
  · simp
  · simp [h]

theorem xtoi2_hexDigits {e : UInt8} (h : rest = [] ∨ rest.head? = some e) (b : UInt8) :
    xtoi2 (hexDigit (b >>> 4) :: hexDigit (b &&& 15) :: rest) e = some b := by
  have hb := xtoi2_hexDigit ⟨b.toNat, b.toNat_lt⟩
  simp only [UInt8.ofNat_toNat] at hb
  rw [xtoi2_cons h, hb]

theorem parseMACPairs_hardwareAddrString (bs : Bytes) :
    parseMACPairs 58 bs.length (hardwareAddrString bs) = some bs := by
  induction bs with
  | nil => rfl
  | cons b rest ih =>
    rw [hardwareAddrString_cons, List.length_cons, parseMACPairs]
    by_cases hrest : rest = []
    · subst hrest
      rw [if_pos rfl, xtoi2_hexDigits (Or.inl rfl)]
      rfl
    · rw [if_neg hrest, xtoi2_hexDigits (Or.inr rfl)]
      simp [ih]

theorem length_hardwareAddrString (bs : Bytes) :
    (hardwareAddrString bs).length = 3 * bs.length - 1 := by
  induction bs with
  | nil => rfl
  | cons b rest ih =>
    rw [hardwareAddrString_cons]
    by_cases hrest : rest = []
    · simp [hrest]
    · have hpos := List.length_pos_of_ne_nil hrest
      rw [if_neg hrest]
      simp only [List.length_cons, ih]
      omega

/-- The text has the length of the address, and is read back as it. -/
theorem hardwareAddrString_injective : Function.Injective hardwareAddrString := by
  intro a b h
  have hlen : a.length = b.length := by
    have heq := congrArg List.length h
    rw [length_hardwareAddrString, length_hardwareAddrString] at heq
    omega
  have hread := parseMACPairs_hardwareAddrString a
  rw [h, hlen, parseMACPairs_hardwareAddrString] at hread
  exact (Option.some.inj hread).symm

variable {bs : Bytes}

/-- `ParseMAC` reads what `HardwareAddr.String` has written. -/
theorem parseMAC_hardwareAddrString (h : bs.length = 6) :
    parseMAC (hardwareAddrString bs) = some bs := by
  have hne : bs ≠ [] := by
    rintro rfl
    cases h
  have hlen := length_hardwareAddrString bs
  have hsep : (hardwareAddrString bs)[2]? = some 58 := by
    obtain ⟨b, rest, rfl⟩ := List.exists_cons_of_ne_nil hne
    have hrest : rest ≠ [] := by
      rintro rfl
      cases h
    rw [hardwareAddrString_cons, if_neg hrest]
    rfl
  unfold parseMAC
  rw [if_neg (by omega), if_pos (Or.inl hsep)]
  have hn : ((hardwareAddrString bs).length + 1) / 3 = bs.length := by omega
  simp only [hn, List.getD, hsep, Option.getD_some]
  rw [if_neg (by omega)]
  exact parseMACPairs_hardwareAddrString bs

/-! ## IP addresses -/

/-- The prefix `::ffff:0:0/96` of an IPv4 address in 16-byte form. -/
def v4InV6Prefix : Bytes := [0, 0, 0, 0, 0, 0, 0, 0, 0, 0, 255, 255]

/-- `IP.To4`; the result is empty where Go returns nil. -/
def to4 (ip : Bytes) : Bytes :=
  if ip.length = 4 then ip
  else if ip.length = 16 ∧ ip.take 12 = v4InV6Prefix then ip.drop 12
  else []

/-- `IP.Equal`: an IPv4 address and its 16-byte form are the same address. -/
def ipEqual (ip x : Bytes) : Bool :=
  if ip.length = x.length then ip == x
  else if ip.length = 4 ∧ x.length = 16 then x.take 12 == v4InV6Prefix && ip == x.drop 12
  else if ip.length = 16 ∧ x.length = 4 then ip.take 12 == v4InV6Prefix && ip.drop 12 == x
  else false

/-- Dotted decimal. -/
def dotted : Bytes → Bytes
  | [] => []
  | [b] => itoa b.toNat
  | b :: rest => itoa b.toNat ++ 46 :: dotted rest

/-- The 16-bit groups of a 16-byte address. -/
def groups : Bytes → List ℕ
  | a :: b :: rest => (256 * a.toNat + b.toNat) :: groups rest
  | _ => []

/-- The first longest run of at least two zero groups, as `[start, end)`; `(255, 255)`
when there is none. -/
def zeroRun (g : List ℕ) : ℕ × ℕ :=
  (List.range 8).foldl (fun best i =>
    let l := ((g.drop i).takeWhile (· == 0)).length
    if 2 ≤ l ∧ best.2 - best.1 < l then (i, i + l) else best) (255, 255)

/-- The printing loop of `Addr.appendTo6` from group `i` on. -/
def printGroups (g : List ℕ) (zs ze : ℕ) : ℕ → ℕ → Bytes
  | 0, _ => []
  | fuel + 1, i =>
    if 8 ≤ i then []
    else if i = zs then
      if 8 ≤ ze then [58, 58]
      else [58, 58] ++ hexNat (g.getD ze 0) ++ printGroups g zs ze fuel (ze + 1)
    else (if 0 < i then [58] else []) ++ hexNat (g.getD i 0) ++ printGroups g zs ze fuel (i + 1)

/-- The text of a 16-byte address that is not an IPv4 address in disguise. -/
def string6 (ip : Bytes) : Bytes :=
  let g := groups ip
  printGroups g (zeroRun g).1 (zeroRun g).2 8 0

/-- `IP.String`. -/
def ipString (ip : Bytes) : Bytes :=
  if ip.length = 0 then ascii "<nil>"
  else if ip.length ≠ 4 ∧ ip.length ≠ 16 then
    63 :: ip.flatMap fun (b : UInt8) => [hexDigit (b >>> 4), hexDigit (b &&& 15)]
  else if (to4 ip).length = 4 then dotted (to4 ip)
  else string6 ip

variable {ip : Bytes}

/-- Equal addresses have the same text. -/
theorem ipString_eq_of_ipEqual {x : Bytes} (h : ipEqual ip x = true) :
    ipString ip = ipString x := by
  have hmapped : ∀ {a b : Bytes}, a.length = 4 → b.length = 16 → b.take 12 = v4InV6Prefix →
      a = b.drop 12 → ipString a = ipString b := by
    intro a b ha hb hstarts hdrop
    have hto4a : to4 a = a := if_pos ha
    have hto4b : to4 b = a := by
      unfold to4
      rw [if_neg (by omega), if_pos ⟨hb, hstarts⟩, hdrop]
    unfold ipString
    rw [hto4a, hto4b]
    simp [ha, hb]
  unfold ipEqual at h
  split at h
  · rw [eq_of_beq h]
  · split at h
    · next hlen =>
      obtain ⟨hstarts, hdrop⟩ := Bool.and_eq_true_iff.mp h
      exact hmapped hlen.1 hlen.2 (eq_of_beq hstarts) (eq_of_beq hdrop)
    · split at h
      · next hlen =>
        obtain ⟨hstarts, hdrop⟩ := Bool.and_eq_true_iff.mp h
        exact (hmapped hlen.2 hlen.1 (eq_of_beq hstarts) (eq_of_beq hdrop).symm).symm
      · cases h

/-- `parseIPv4Fields`, one byte of the text at a time: `fields` are the octets read
so far, `val` the value of the octet being read and `digLen` its number of digits. -/
def parseIPv4Fields : Bytes → Bytes → ℕ → ℕ → Option Bytes
  | [], fields, val, _ =>
    if fields.length < 3 then none else some (fields ++ [UInt8.ofNat val])
  | c :: rest, fields, val, digLen =>
    if isDigit c then
      if digLen = 1 ∧ val = 0 then none
      else
        let val' := val * 10 + (c.toNat - 48)
        if 255 < val' then none else parseIPv4Fields rest fields val' (digLen + 1)
    else if c = 46 then
      if digLen = 0 ∨ rest = [] ∨ fields.length = 3 then none
      else parseIPv4Fields rest (fields ++ [UInt8.ofNat val]) 0 0
    else none

/-- The loop of `parseIPv6`: `ip` holds the bytes read so far and `ellipsis` the
position of `::`. Every round but the last appends one 16-bit group, so eight rounds
fill the address. -/
def parseIPv6Loop : ℕ → Bytes → Option ℕ → Bytes → Option (Bytes × Option ℕ × Bytes)
  | 0, ip, ellipsis, s => some (ip, ellipsis, s)
  | fuel + 1, ip, ellipsis, s =>
    let digits := s.takeWhile fun c => (hexValue c).isSome
    let acc := digits.foldl (fun n c => 16 * n + (hexValue c).getD 0) 0
    let ip' := ip ++ [UInt8.ofNat (acc / 256), UInt8.ofNat acc]
    if digits.length = 0 ∨ 4 < digits.length then none
    else match s.drop digits.length with
      | [] => some (ip', ellipsis, [])
      | [58] => none
      | 58 :: 58 :: rest =>
        if ellipsis.isSome then none
        else if rest = [] then some (ip', some ip'.length, [])
        else parseIPv6Loop fuel ip' (some ip'.length) rest
      | 58 :: rest => parseIPv6Loop fuel ip' ellipsis rest
      | 46 :: _ =>
        -- a trailing dotted IPv4 address fills the last four bytes
        if (ellipsis.isNone ∧ ip.length ≠ 12) ∨ 16 < ip.length + 4 then none
        else (parseIPv4Fields s [] 0 0).map fun f => (ip ++ f, ellipsis, [])
      | _ => none

/-- `parseIPv6` on a text without zone. -/
def parseIPv6 (s : Bytes) : Option Bytes := do
  let (ellipsis, s) := if s.take 2 = [58, 58] then (some 0, s.drop 2) else (none, s)
  if ellipsis.isSome ∧ s = [] then some (List.replicate 16 0)
  else
    let (ip, ellipsis, rest) ← parseIPv6Loop 8 [] ellipsis s
    if rest ≠ [] then none
    else match ellipsis with
      | some e =>
        if ip.length < 16 then some (ip.take e ++ List.replicate (16 - ip.length) 0 ++ ip.drop e)
        else none
      | none => if ip.length < 16 then none else some ip

/-- A `netip.Addr`: 4 or 16 bytes and a zone. -/
structure Addr where
  bytes : Bytes
  zone : Bytes
  deriving DecidableEq, Repr

/-- `netip.ParseAddr`: the first of `.`, `:` and `%` decides the family. -/
def parseAddr (s : Bytes) : Option Addr :=
  match s.find? (fun c => c == 46 || c == 58 || c == 37) with
  | some 46 => (parseIPv4Fields s [] 0 0).map fun b => ⟨b, []⟩
  | some 58 =>
    let zone := (s.dropWhile (· != 37)).drop 1
    if s.contains 37 && zone.isEmpty then none
    else (parseIPv6 (s.takeWhile (· != 37))).map fun b => ⟨b, zone⟩
  | _ => none

/-- `netip.Addr.String`. -/
def Addr.string (a : Addr) : Bytes :=
  let text :=
    if a.bytes.length = 4 then dotted a.bytes
    else if a.bytes.take 12 = v4InV6Prefix then ascii "::ffff:" ++ dotted (a.bytes.drop 12)
    else string6 a.bytes
  if a.zone = [] then text else text ++ 37 :: a.zone

/-- `net.ParseIP`: 16 bytes, or empty where Go returns nil. -/
def parseIP (s : Bytes) : Bytes :=
  match parseAddr s with
  | some ⟨b, []⟩ => if b.length = 4 then v4InV6Prefix ++ b else b
  | _ => []

/-! ## Sockets -/

/-- `net.JoinHostPort`. -/
def joinHostPort (host port : Bytes) : Bytes :=
  if host.contains 58 then 91 :: host ++ [93, 58] ++ port else host ++ 58 :: port

theorem length_joinHostPort (host port : Bytes) : (joinHostPort host port).length =
    host.length + port.length + if host.contains 58 then 3 else 1 := by
  unfold joinHostPort
  split
  · rw [List.length_append, List.length_append, List.length_cons, List.length_cons, List.length_cons,
      List.length_nil]
    omega
  · rw [List.length_append, List.length_cons]
    omega

/-- `net.SplitHostPort`. -/
def splitHostPort (hostport : Bytes) : Option (Bytes × Bytes) :=
  if ¬ hostport.contains 58 then none
  else
    -- the port starts after the last colon
    let port := (hostport.reverse.takeWhile (· != 58)).reverse
    let i := hostport.length - port.length - 1
    if hostport.head? = some 91 then
      let host := (hostport.takeWhile (· != 93)).drop 1
      let after := hostport.drop (host.length + 2)
      if hostport.contains 93 ∧ host.length + 2 = i ∧ ¬ host.contains 91 ∧
          ¬ after.contains 91 ∧ ¬ after.contains 93 then some (host, port)
      else none
    else
      let host := hostport.take i
      if host.contains 58 ∨ hostport.contains 91 ∨ hostport.contains 93 then none
      else some (host, port)

/-- `net.LookupPort("udp", service)` with its error dropped: the number written, or the
port of a named service, and 0 on error. -/
def lookupPort (services : Bytes → Option ℕ) (service : Bytes) : ℕ :=
  let digits := if service.head? = some 43 ∨ service.head? = some 45 then service.drop 1 else service
  if digits.all isDigit then
    let n := digits.foldl (fun n c => 10 * n + (c.toNat - 48)) 0
    if 65535 < n ∨ service.head? = some 45 then 0 else n
  else (services service).getD 0

/-- A `net.UDPAddr`. -/
structure UDPAddr where
  ip : Bytes
  port : ℕ
  zone : Bytes
  deriving DecidableEq, Repr

/-- `(*UDPAddr).String`. -/
def UDPAddr.string (a : UDPAddr) : Bytes :=
  let ip := if a.ip = [] then [] else ipString a.ip
  let host := if a.zone = [] then ip else ip ++ 37 :: a.zone
  joinHostPort host (itoa a.port)

variable {c : UInt8}

theorem ne_of_isDigit (hb : isDigit b = true) (hc : isDigit c = false) : b ≠ c := by
  rintro rfl
  rw [hb] at hc
  cases hc

theorem itoa_ne_nil (n : ℕ) : itoa n ≠ [] := by simp [itoa, Nat.toDigits_ne_nil]

theorem isDigit_of_mem_itoa {n : ℕ} (h : b ∈ itoa n) : isDigit b = true := by
  obtain ⟨c, hc, rfl⟩ := List.mem_map.mp h
  have hdigit := Nat.isDigit_of_mem_toDigits (by decide) (by decide) hc
  simp only [Char.isDigit, Bool.and_eq_true, decide_eq_true_eq] at hdigit
  have h1 : 48 ≤ c.toNat := UInt32.le_iff_toNat_le.mp hdigit.1
  have h2 : c.toNat ≤ 57 := UInt32.le_iff_toNat_le.mp hdigit.2
  unfold isDigit
  simp only [Bool.and_eq_true, decide_eq_true_eq, UInt8.le_iff_toNat_le, UInt8.toNat_ofNat']
  have hmod : c.toNat % 2 ^ 8 = c.toNat := Nat.mod_eq_of_lt (by omega)
  rw [hmod]
  exact ⟨h1, h2⟩

/-- A group that is not the first follows a colon. -/
theorem colon_mem_printGroups (g : List ℕ) (zs ze fuel : ℕ) {i : ℕ} (hi : 0 < i) (hlt : i < 8) :
    (58 : UInt8) ∈ printGroups g zs ze (fuel + 1) i := by
  unfold printGroups
  rw [if_neg (by omega)]
  split
  · split
    · simp
    · simp
  · simp

theorem colon_mem_string6 (ip : Bytes) : (58 : UInt8) ∈ string6 ip := by
  show _ ∈ printGroups _ _ _ (7 + 1) 0
  unfold printGroups
  rw [if_neg (by omega)]
  split
  · split
    · simp
    · simp
  · exact List.mem_append_right _ (colon_mem_printGroups _ _ _ 6 (by omega) (by omega))

/-- The text of an address without a colon does not begin with a letter. -/
theorem head_ipString (hcolon : (58 : UInt8) ∉ ipString ip) (h : (ipString ip).head? = some b) :
    isDigit b = true ∨ b = 60 ∨ b = 63 := by
  unfold ipString at h hcolon
  split at h
  · cases h
    exact Or.inr (Or.inl rfl)
  · next hempty =>
    rw [if_neg hempty] at hcolon
    split at h
    · cases h
      exact Or.inr (Or.inr rfl)
    · next hlen =>
      rw [if_neg hlen] at hcolon
      split at h
      · next hfour =>
        refine Or.inl ?_
        obtain ⟨a, rest, hip⟩ := List.exists_cons_of_length_eq_add_one hfour
        have hmem : b ∈ itoa a.toNat := by
          rw [hip] at h
          cases rest with
          | nil => exact List.mem_of_head? h
          | cons a' rest =>
            have hdot : dotted (a :: a' :: rest) = itoa a.toNat ++ 46 :: dotted (a' :: rest) := rfl
            rw [hdot, List.head?_append_of_ne_nil _ (itoa_ne_nil _)] at h
            exact List.mem_of_head? h
        exact isDigit_of_mem_itoa hmem
      · next hfour =>
        rw [if_neg hfour] at hcolon
        exact absurd (colon_mem_string6 ip) hcolon

/-- The text of a socket begins with a digit or with punctuation. -/
theorem head_string (a : UDPAddr) (h : a.string.head? = some b) :
    isDigit b = true ∨ b ∈ ([37, 58, 60, 63, 91] : Bytes) := by
  have hip : ∀ b, (58 : UInt8) ∉ (if a.ip = [] then [] else ipString a.ip) →
      (if a.ip = [] then [] else ipString a.ip).head? = some b →
      isDigit b = true ∨ b ∈ ([37, 58, 60, 63, 91] : Bytes) := by
    intro b hcolon hb
    split at hb
    · cases hb
    · next hne =>
      rw [if_neg hne] at hcolon
      rcases head_ipString hcolon hb with hdigit | rfl | rfl
      · exact Or.inl hdigit
      · simp
      · simp
  unfold UDPAddr.string at h
  generalize (if a.ip = [] then [] else ipString a.ip) = ip at hip h
  have hhost : ∀ b, (58 : UInt8) ∉ (if a.zone = [] then ip else ip ++ 37 :: a.zone) →
      (if a.zone = [] then ip else ip ++ 37 :: a.zone).head? = some b →
      isDigit b = true ∨ b ∈ ([37, 58, 60, 63, 91] : Bytes) := by
    intro b hcolon hb
    split at hb
    · next hzone =>
      rw [if_pos hzone] at hcolon
      exact hip b hcolon hb
    · next hzone =>
      rw [if_neg hzone] at hcolon
      cases ip with
      | nil =>
        cases hb
        simp
      | cons b' ip => exact hip b (fun hmem => hcolon (List.mem_append_left _ hmem)) hb
  simp only at h
  generalize (if a.zone = [] then ip else ip ++ 37 :: a.zone) = host at hhost h
  unfold joinHostPort at h
  split at h
  · cases h
    simp
  · next hcolon =>
    rw [List.contains_iff_mem] at hcolon
    cases host with
    | nil =>
      cases h
      simp
    | cons b' host => exact hhost b hcolon h

/-- A single colon in front leaves no first group. -/
theorem parseIPv6_colon {q : Bytes} (h : ∀ b ∈ q, b ≠ 58) : parseIPv6 (58 :: q) = none := by
  have htake : (58 :: q).take 2 ≠ [58, 58] := by
    cases q with
    | nil => exact fun heq => by cases heq
    | cons b q => exact fun heq => h b List.mem_cons_self (List.cons.inj (List.cons.inj heq).2).1
  have hloop : parseIPv6Loop 8 [] none (58 :: q) = none := by
    have hdigits : (58 :: q).takeWhile (fun c => (hexValue c).isSome) = [] :=
      List.takeWhile_cons_of_neg (by decide)
    unfold parseIPv6Loop
    simp only [hdigits, List.length_nil, true_or, if_true]
  unfold parseIPv6
  rw [if_neg htake]
  simp only [hloop]
  rfl

theorem parseIP_string_of_nil {a : UDPAddr} (h : a.ip = []) : parseIP a.string = [] := by
  have hnone : parseAddr a.string = none := by
    unfold UDPAddr.string
    simp only [h, if_true]
    by_cases hzone : a.zone = []
    · rw [if_pos hzone]
      have hport : ∀ b ∈ (itoa a.port).takeWhile (· != 37), b ≠ 58 := by
        intro b hb
        exact ne_of_isDigit (isDigit_of_mem_itoa ((List.takeWhile_sublist _).subset hb)) (by decide)
      unfold parseAddr
      have hfirst : (joinHostPort [] (itoa a.port)).find?
          (fun c => c == 46 || c == 58 || c == 37) = some 58 := rfl
      have hhost : (joinHostPort [] (itoa a.port)).takeWhile (· != 37) =
          58 :: (itoa a.port).takeWhile (· != 37) := rfl
      rw [hfirst, hhost]
      simp only [parseIPv6_colon hport]
      split
      · rfl
      · rfl
    · -- the zone comes first
      rw [if_neg hzone]
      have hfirst : (joinHostPort ([] ++ 37 :: a.zone) (itoa a.port)).find?
          (fun c => c == 46 || c == 58 || c == 37) = some 37 := by
        unfold joinHostPort
        split
        · rfl
        · rfl
      unfold parseAddr
      rw [hfirst]
      rfl
  unfold parseIP
  rw [hnone]

/-! ## Reading back what was written -/

/-- The last digit comes off the end. -/
theorem itoa_eq (n : ℕ) :
    itoa n = (if n < 10 then [] else itoa (n / 10)) ++ [UInt8.ofNat (48 + n % 10)] := by
  unfold itoa
  rw [Nat.toDigits_eq_if (by omega)]
  split
  · next h => simp [Nat.toNat_digitChar_of_lt_ten h, Nat.mod_eq_of_lt h]
  · simp [Nat.toNat_digitChar_of_lt_ten (Nat.mod_lt n (by omega : 0 < 10))]

theorem toNat_digit (n : ℕ) : (UInt8.ofNat (48 + n % 10)).toNat = 48 + n % 10 :=
  UInt8.toNat_ofNat_of_lt' (by rw [UInt8.size]; omega)

theorem isDigit_digit (n : ℕ) : isDigit (UInt8.ofNat (48 + n % 10)) = true := by
  simp only [isDigit, Bool.and_eq_true, decide_eq_true_eq, UInt8.le_iff_toNat_le, toNat_digit,
    UInt8.reduceToNat]
  omega

/-- The decimal value of a text of digits. -/
theorem foldl_itoa (n : ℕ) : (itoa n).foldl (fun n c => 10 * n + (c.toNat - 48)) 0 = n := by
  induction n using Nat.strong_induction_on with
  | _ n ih =>
    rw [itoa_eq]
    by_cases h : n < 10
    · rw [if_pos h]
      simp only [List.nil_append, List.foldl_cons, List.foldl_nil, toNat_digit]
      omega
    · rw [if_neg h]
      simp only [List.foldl_append, ih (n / 10) (by omega), List.foldl_cons, List.foldl_nil, toNat_digit]
      omega

/-- `LookupPort` reads a port number as `Itoa` writes it. -/
theorem lookupPort_itoa (services : Bytes → Option ℕ) {n : ℕ} (h : n ≤ 65535) :
    lookupPort services (itoa n) = n := by
  have hsign : ∀ c : UInt8, isDigit c = false → (itoa n).head? ≠ some c := by
    intro c hc hhead
    exact ne_of_isDigit (isDigit_of_mem_itoa (List.mem_of_head? hhead)) hc rfl
  have hplus := hsign 43 (by decide)
  have hminus := hsign 45 (by decide)
  have hall : (itoa n).all isDigit = true := List.all_eq_true.mpr fun c hc => isDigit_of_mem_itoa hc
  unfold lookupPort
  simp only [hplus, hminus, or_self, or_false, if_false, hall, if_true, foldl_itoa]
  rw [if_neg (by omega)]

/-- An octet as `Itoa` writes it is read digit by digit up to its value. -/
theorem parseIPv4Fields_itoa (rest fields : Bytes) {n : ℕ} (h : n ≤ 255) :
    parseIPv4Fields (itoa n ++ rest) fields 0 0 =
      parseIPv4Fields rest fields n (itoa n).length := by
  induction n using Nat.strong_induction_on generalizing rest with
  | _ n ih =>
    -- `itoa` puts the last digit at the end, the parser comes to it last
    rw [itoa_eq]
    by_cases hn : n < 10
    · rw [if_pos hn]
      simp only [List.nil_append, List.cons_append, parseIPv4Fields, isDigit_digit, if_true,
        toNat_digit]
      rw [if_neg (by omega), if_neg (by omega)]
      congr 1
      omega
    · rw [if_neg hn, List.append_assoc, ih (n / 10) (by omega) _ (by omega)]
      simp only [List.cons_append, List.nil_append, parseIPv4Fields, isDigit_digit, if_true,
        toNat_digit, List.length_append, List.length_cons, List.length_nil]
      rw [if_neg (by omega), if_neg (by omega)]
      congr 1
      omega

variable {fields : Bytes}

/-- `.` ends an octet. -/
theorem parseIPv4Fields_dot {val digLen : ℕ} (hlen : digLen ≠ 0) (hrest : rest ≠ [])
    (hfields : fields.length ≠ 3) :
    parseIPv4Fields (46 :: rest) fields val digLen =
      parseIPv4Fields rest (fields ++ [UInt8.ofNat val]) 0 0 := by
  rw [parseIPv4Fields, if_neg (by decide), if_pos rfl, if_neg]
  rintro (h | h | h)
  · exact hlen h
  · exact hrest h
  · exact hfields h

/-- What follows the octets read so far in dotted decimal completes the address. -/
theorem parseIPv4Fields_dotted (hne : bs ≠ []) (hlen : fields.length + bs.length = 4) :
    parseIPv4Fields (dotted bs) fields 0 0 = some (fields ++ bs) := by
  induction bs generalizing fields with
  | nil => exact absurd rfl hne
  | cons b rest ih =>
    have hb : b.toNat ≤ 255 := by
      have := b.toNat_lt
      omega
    rw [List.length_cons] at hlen
    cases rest with
    | nil =>
      have hnext : parseIPv4Fields [] fields b.toNat (itoa b.toNat).length =
          some (fields ++ [UInt8.ofNat b.toNat]) := by
        rw [parseIPv4Fields, if_neg (by simp only [List.length_nil] at hlen; omega)]
      have hread := parseIPv4Fields_itoa [] fields hb
      rw [List.append_nil, hnext, UInt8.ofNat_toNat] at hread
      exact hread
    | cons c rest =>
      rw [List.length_cons] at hlen
      have hrest : dotted (c :: rest) ≠ [] := by
        cases rest with
        | nil => exact itoa_ne_nil _
        | cons d rest => exact List.append_ne_nil_of_left_ne_nil (itoa_ne_nil _) _
      have hdigits : (itoa b.toNat).length ≠ 0 := by
        rw [List.length_eq_zero_iff.ne]
        exact itoa_ne_nil _
      calc parseIPv4Fields (dotted (b :: c :: rest)) fields 0 0
          = parseIPv4Fields (itoa b.toNat ++ 46 :: dotted (c :: rest)) fields 0 0 := rfl
        _ = parseIPv4Fields (dotted (c :: rest)) (fields ++ [b]) 0 0 := by
          rw [parseIPv4Fields_itoa _ _ hb, parseIPv4Fields_dot hdigits hrest (by omega),
            UInt8.ofNat_toNat]
        _ = some (fields ++ b :: c :: rest) := by
          rw [ih (by simp) (by simp only [List.length_append, List.length_cons, List.length_nil]; omega)]
          simp

theorem mem_dotted (h : c ∈ dotted bs) : isDigit c = true ∨ c = 46 := by
  induction bs with
  | nil => cases h
  | cons b rest ih =>
    cases rest with
    | nil => exact Or.inl (isDigit_of_mem_itoa h)
    | cons d rest =>
      rcases List.mem_append.mp h with hb | hrest
      · exact Or.inl (isDigit_of_mem_itoa hb)
      · rcases List.mem_cons.mp hrest with hdot | hrest
        · exact Or.inr hdot
        · exact ih hrest

/-- The 16-byte form of an IPv4 address is the same address. -/
theorem ipEqual_to4 (h : (to4 ip).length = 4) : ipEqual (v4InV6Prefix ++ to4 ip) ip = true := by
  have hlen : (v4InV6Prefix ++ to4 ip).length = 16 := by
    rw [List.length_append, h]
    rfl
  unfold to4 at h
  split at h
  · next hfour =>
    have hto4 : to4 ip = ip := if_pos hfour
    unfold ipEqual
    rw [if_neg (by omega), if_neg (by omega), if_pos ⟨hlen, hfour⟩, hto4]
    simp [v4InV6Prefix]
  · split at h
    · next hsixteen hmapped =>
      have hto4 : to4 ip = ip.drop 12 := by
        unfold to4
        rw [if_neg hsixteen, if_pos hmapped]
      have heq : v4InV6Prefix ++ to4 ip = ip := by
        rw [hto4, ← hmapped.2, List.take_append_drop]
      rw [heq]
      unfold ipEqual
      rw [if_pos rfl]
      exact beq_self_eq_true ip
    · cases h

/-- `ParseIP` reads dotted decimal into the 16-byte form. -/
theorem parseIP_dotted (h : bs.length = 4) : parseIP (dotted bs) = v4InV6Prefix ++ bs := by
  have hne : bs ≠ [] := by
    rintro rfl
    cases h
  have hfirst : (dotted bs).find? (fun c => c == 46 || c == 58 || c == 37) = some 46 := by
    obtain ⟨b, rest, rfl⟩ := List.exists_cons_of_ne_nil hne
    obtain ⟨c, rest, rfl⟩ := List.exists_cons_of_ne_nil (l := rest) (by
      rintro rfl
      cases h)
    have hdigits : (itoa b.toNat).find? (fun c => c == 46 || c == 58 || c == 37) = none := by
      rw [List.find?_eq_none]
      intro c hc hsep
      have hdigit := isDigit_of_mem_itoa hc
      simp only [Bool.or_eq_true, beq_iff_eq] at hsep
      rcases hsep with (hdot | hcolon) | hpercent
      · exact ne_of_isDigit hdigit (by decide) hdot
      · exact ne_of_isDigit hdigit (by decide) hcolon
      · exact ne_of_isDigit hdigit (by decide) hpercent
    rw [show dotted (b :: c :: rest) = itoa b.toNat ++ 46 :: dotted (c :: rest) from rfl,
      List.find?_append, hdigits]
    rfl
  have hfour : parseIPv4Fields (dotted bs) [] 0 0 = some bs :=
    parseIPv4Fields_dotted hne (by simpa using h)
  have hread : parseAddr (dotted bs) = some ⟨bs, []⟩ := by
    unfold parseAddr
    rw [hfirst]
    simp only [hfour]
    rfl
  unfold parseIP
  rw [hread]
  simp only
  rw [if_pos h]

/-- A byte with no meaning of its own to `SplitHostPort`. -/
def Plain (c : UInt8) : Prop := c ≠ 58 ∧ c ≠ 91 ∧ c ≠ 93

theorem plain_of_isDigit (h : isDigit c = true) : Plain c :=
  ⟨ne_of_isDigit h (by decide), ne_of_isDigit h (by decide), ne_of_isDigit h (by decide)⟩

theorem plain_of_mem_dotted (h : c ∈ dotted bs) : Plain c := by
  rcases mem_dotted h with hdigit | rfl
  · exact plain_of_isDigit hdigit
  · exact ⟨by decide, by decide, by decide⟩

/-- The port that `SplitHostPort` finds is what follows the last colon. -/
theorem takeWhile_port {host port : Bytes} (hport : (58 : UInt8) ∉ port) :
    ((host ++ 58 :: port).reverse.takeWhile (· != 58)).reverse = port := by
  have hrev : ∀ c ∈ port.reverse, (c != 58) = true := by
    intro c hc
    rw [bne_iff_ne]
    rintro rfl
    exact hport (List.mem_reverse.mp hc)
  rw [List.reverse_append, List.reverse_cons, List.append_assoc, List.takeWhile_append_of_pos hrev]
  simp

/-- A host and a port without colons and brackets are found again. -/
theorem splitHostPort_append {host port : Bytes}
    (hhost : ∀ c ∈ host, Plain c) (hport : ∀ c ∈ port, Plain c) :
    splitHostPort (host ++ 58 :: port) = some (host, port) := by
  have hplain : ∀ c ∈ host ++ 58 :: port, c ≠ 91 ∧ c ≠ 93 :=
    List.forall_mem_append.mpr ⟨fun c hc => (hhost c hc).2,
      List.forall_mem_cons.mpr ⟨by decide, fun c hc => (hport c hc).2⟩⟩
  have hopen : 91 ∉ host ++ 58 :: port := fun h => (hplain 91 h).1 rfl
  have hclose : 93 ∉ host ++ 58 :: port := fun h => (hplain 93 h).2 rfl
  have hcolon : (58 : UInt8) ∉ host := fun h => (hhost 58 h).1 rfl
  have hhead : (host ++ 58 :: port).head? ≠ some 91 := fun h => hopen (List.mem_of_head? h)
  have hi : (host ++ 58 :: port).length - port.length - 1 = host.length := by
    simp only [List.length_append, List.length_cons]
    omega
  unfold splitHostPort
  simp only [takeWhile_port fun h => (hport 58 h).1 rfl, hi, List.take_left,
    List.contains_iff_mem]
  rw [if_neg (by simp), if_neg hhead, if_neg]
  rintro (h | h | h)
  · exact hcolon h
  · exact hopen h
  · exact hclose h

/-- A host with a colon is not found without brackets around it. -/
theorem splitHostPort_eq_none {host port : Bytes} (hcolon : (58 : UInt8) ∈ host)
    (hhead : host.head? ≠ some 91) (hport : (58 : UInt8) ∉ port) :
    splitHostPort (host ++ 58 :: port) = none := by
  have hopen : (host ++ 58 :: port).head? ≠ some 91 := by
    rw [List.head?_append_of_ne_nil _ (List.ne_nil_of_mem hcolon)]
    exact hhead
  have hi : (host ++ 58 :: port).length - port.length - 1 = host.length := by
    simp only [List.length_append, List.length_cons]
    omega
  unfold splitHostPort
  simp only [takeWhile_port hport, hi, List.take_left, List.contains_iff_mem]
  rw [if_neg (by simp), if_neg hopen, if_pos (Or.inl hcolon)]

theorem ne_bracket_of_mem_hexNat {n : ℕ} (h : c ∈ hexNat n) : c ≠ 91 := by
  obtain ⟨d, hd, rfl⟩ := List.mem_map.mp h
  have hdigit : ∃ k < 16, d = Nat.digitChar k := by
    clear h
    induction n using Nat.strong_induction_on with
    | _ n ih =>
      rw [Nat.toDigits_eq_if (by omega)] at hd
      split at hd
      · next hn => exact ⟨n, hn, List.mem_singleton.mp hd⟩
      · rcases List.mem_append.mp hd with hd | hd
        · exact ih (n / 16) (by omega) hd
        · exact ⟨n % 16, Nat.mod_lt _ (by omega), List.mem_singleton.mp hd⟩
  obtain ⟨k, hk, rfl⟩ := hdigit
  have hbyte : ∀ k < 16, UInt8.ofNat (Nat.digitChar k).toNat ≠ 91 := by decide
  exact hbyte k hk

theorem ne_bracket_of_mem_printGroups {g : List ℕ} {zs ze fuel i : ℕ} :
    ∀ c ∈ printGroups g zs ze fuel i, c ≠ 91 := by
  have hhex : ∀ n, ∀ c ∈ hexNat n, c ≠ 91 := fun _ _ => ne_bracket_of_mem_hexNat
  have hcolon : ∀ c ∈ ([58] : Bytes), c ≠ 91 := List.forall_mem_singleton.mpr (by decide)
  induction fuel generalizing i with
  | zero => exact fun c hc => absurd hc List.not_mem_nil
  | succ fuel ih =>
    unfold printGroups
    split
    · exact fun c hc => absurd hc List.not_mem_nil
    · split
      · split
        · exact List.forall_mem_append.mpr ⟨hcolon, hcolon⟩
        · exact List.forall_mem_append.mpr ⟨List.forall_mem_append.mpr
            ⟨List.forall_mem_append.mpr ⟨hcolon, hcolon⟩, hhex _⟩, ih⟩
      · refine List.forall_mem_append.mpr ⟨List.forall_mem_append.mpr ⟨?_, hhex _⟩, ih⟩
        split
        · exact hcolon
        · exact fun c hc => absurd hc List.not_mem_nil

/-! ## The bytes of an IP -/

/-- A byte that an IP in text may have. -/
def isIPByte (b : UInt8) : Bool := (hexValue b).isSome || b == 46 || b == 58

theorem isIPByte_of_isDigit (h : isDigit b = true) : isIPByte b = true := by
  have hhex : (hexValue b).isSome = true := by
    unfold isDigit at h
    unfold hexValue
    rw [if_pos h]
    rfl
  simp [isIPByte, hhex]

variable {s r : Bytes}

theorem isIPByte_of_parseIPv4Fields {val digLen : ℕ}
    (h : parseIPv4Fields s fields val digLen = some r) : ∀ b ∈ s, isIPByte b = true := by
  induction s generalizing fields val digLen with
  | nil => exact fun b hb => absurd hb List.not_mem_nil
  | cons c rest ih =>
    refine List.forall_mem_cons.mpr ?_
    unfold parseIPv4Fields at h
    split at h
    · next hdigit =>
      refine ⟨isIPByte_of_isDigit hdigit, ?_⟩
      split at h
      · cases h
      · simp only at h
        split at h
        · cases h
        · exact ih h
    · split at h
      · next hdot =>
        refine ⟨by rw [hdot]; decide, ?_⟩
        split at h
        · cases h
        · exact ih h
      · cases h

theorem isIPByte_of_mem_colons : ∀ b ∈ ([58, 58] : Bytes), isIPByte b = true := by
  simp [isIPByte]

/-- The loop of `parseIPv6` stops in front of the first byte that is none of an IP. -/
theorem isIPByte_of_parseIPv6Loop {fuel : ℕ} {ip' : Bytes} {ellipsis ellipsis' : Option ℕ}
    (h : parseIPv6Loop fuel ip ellipsis s = some (ip', ellipsis', rest)) :
    ∃ used, s = used ++ rest ∧ ∀ b ∈ used, isIPByte b = true := by
  induction fuel generalizing ip ellipsis s with
  | zero =>
    cases h
    exact ⟨[], rfl, fun b hb => absurd hb List.not_mem_nil⟩
  | succ fuel ih =>
    have hdigits : ∀ b ∈ s.takeWhile (fun c => (hexValue c).isSome), isIPByte b = true := by
      intro b hb
      have hhex : (hexValue b).isSome = true := List.mem_takeWhile_imp (p := fun c => (hexValue c).isSome) hb
      simp [isIPByte, hhex]
    have hstarts : s.takeWhile (fun c => (hexValue c).isSome) <+: s := List.takeWhile_prefix _
    unfold parseIPv6Loop at h
    simp only at h
    generalize s.takeWhile (fun c => (hexValue c).isSome) = digits at hdigits hstarts h
    have hsplit : s = digits ++ s.drop digits.length := (List.prefix_iff_eq_append.mp hstarts).symm
    have hgoes : ∀ more : Bytes, (∀ b ∈ more, isIPByte b = true) →
        ∀ b ∈ digits ++ more, isIPByte b = true :=
      fun more hmore => List.forall_mem_append.mpr ⟨hdigits, hmore⟩
    split at h
    · cases h
    · split at h
      · next hdrop =>
        cases h
        refine ⟨s, (List.append_nil s).symm, ?_⟩
        rw [hsplit, hdrop, List.append_nil]
        exact hdigits
      · cases h
      · next rest' hdrop =>
        rw [hdrop] at hsplit
        split at h
        · cases h
        · split at h
          · next hrest =>
            cases h
            refine ⟨digits ++ [58, 58], by rw [hsplit, hrest, List.append_nil], ?_⟩
            exact hgoes [58, 58] isIPByte_of_mem_colons
          · obtain ⟨used, rfl, hbytes⟩ := ih h
            refine ⟨digits ++ 58 :: 58 :: used, by rw [hsplit]; simp, ?_⟩
            exact hgoes _ (List.forall_mem_cons.mpr
              ⟨by decide, List.forall_mem_cons.mpr ⟨by decide, hbytes⟩⟩)
      · next rest' _ hdrop =>
        rw [hdrop] at hsplit
        obtain ⟨used, rfl, hbytes⟩ := ih h
        refine ⟨digits ++ 58 :: used, by rw [hsplit]; simp, ?_⟩
        exact hgoes _ (List.forall_mem_cons.mpr ⟨by decide, hbytes⟩)
      · split at h
        · cases h
        · obtain ⟨f, hfields, hres⟩ := Option.map_eq_some_iff.mp h
          cases hres
          exact ⟨s, (List.append_nil s).symm, isIPByte_of_parseIPv4Fields hfields⟩
      · cases h

/-- What `parseIPv6` accepts: `::` alone, or what the loop reads to the end, behind a leading
`::` if there is one. What is missing then is filled in at the ellipsis. -/
theorem parseIPv6_cases (h : parseIPv6 s = some r) :
    (s = [58, 58] ∧ r = List.replicate 16 0) ∨
    ∃ colons rest ellipsis ip ellipsis',
      s = colons ++ rest ∧ (colons = [] ∨ colons = [58, 58]) ∧
      parseIPv6Loop 8 [] ellipsis rest = some (ip, ellipsis', []) ∧
      ((¬ ip.length < 16 ∧ r = ip) ∨
        ip.length < 16 ∧
          ∃ e, r = ip.take e ++ List.replicate (16 - ip.length) 0 ++ ip.drop e) := by
  unfold parseIPv6 at h
  generalize hstart : (if s.take 2 = [58, 58] then (some 0, s.drop 2) else (none, s)) = start at h
  obtain ⟨colons, hs, hcolons⟩ : ∃ colons, s = colons ++ start.2 ∧
      (colons = [] ∧ start.1 = none ∨ colons = [58, 58]) := by
    by_cases hcolons : s.take 2 = [58, 58]
    · rw [if_pos hcolons] at hstart
      rw [← hstart]
      exact ⟨_, (List.take_append_drop 2 s).symm, Or.inr hcolons⟩
    · rw [if_neg hcolons] at hstart
      rw [← hstart]
      exact ⟨[], rfl, Or.inl ⟨rfl, rfl⟩⟩
  simp only at h
  split at h
  · next hnil =>
    rcases hcolons with ⟨-, hnone⟩ | rfl
    · rw [hnone] at hnil
      cases hnil.1
    · rw [hnil.2, List.append_nil] at hs
      exact Or.inl ⟨hs, (Option.some.inj h).symm⟩
  · obtain ⟨⟨ip, ellipsis, rest⟩, hloop, h⟩ := Option.bind_eq_some_iff.mp h
    simp only at h
    split at h
    · cases h
    · next hend =>
      rw [not_not.mp hend] at hloop
      refine Or.inr ⟨colons, _, _, ip, ellipsis, hs, hcolons.imp_left And.left, hloop, ?_⟩
      by_cases hlen : ip.length < 16
      · simp only [if_pos hlen] at h
        cases ellipsis with
        | none => cases h
        | some e => exact Or.inr ⟨hlen, e, (Option.some.inj h).symm⟩
      · simp only [if_neg hlen] at h
        cases ellipsis with
        | none => exact Or.inl ⟨hlen, (Option.some.inj h).symm⟩
        | some e => cases h

theorem isIPByte_of_parseIPv6 (h : parseIPv6 s = some r) : ∀ b ∈ s, isIPByte b = true := by
  rcases parseIPv6_cases h with ⟨rfl, -⟩ | ⟨colons, rest, _, _, _, rfl, hcolons, hloop, -⟩
  · exact isIPByte_of_mem_colons
  · obtain ⟨used, hused, hbytes⟩ := isIPByte_of_parseIPv6Loop hloop
    rw [List.append_nil] at hused
    rw [hused]
    refine List.forall_mem_append.mpr ⟨?_, hbytes⟩
    rcases hcolons with rfl | rfl
    · exact fun b hb => absurd hb List.not_mem_nil
    · exact isIPByte_of_mem_colons

theorem isIPByte_of_parseIP (h : parseIP s ≠ []) : ∀ b ∈ s, isIPByte b = true := by
  unfold parseIP at h
  split at h
  · next b haddr =>
    unfold parseAddr at haddr
    split at haddr
    · obtain ⟨r, hfields, -⟩ := Option.map_eq_some_iff.mp haddr
      exact isIPByte_of_parseIPv4Fields hfields
    · simp only at haddr
      split at haddr
      · cases haddr
      · next hpercent =>
        obtain ⟨r, hv6, hzone⟩ := Option.map_eq_some_iff.mp haddr
        -- an empty zone without a percent sign is no zone
        have hzone : (s.dropWhile (· != 37)).drop 1 = [] := congrArg Addr.zone hzone
        have hnone : (37 : UInt8) ∉ s := by
          intro hmem
          apply hpercent
          rw [hzone]
          simp [hmem]
        have hwhole : s.takeWhile (· != 37) = s := by
          refine List.takeWhile_eq_self_iff.mpr fun b hb => ?_
          rw [bne_iff_ne]
          rintro rfl
          exact hnone hb
        rw [hwhole] at hv6
        exact isIPByte_of_parseIPv6 hv6
    · cases haddr
  · exact absurd rfl h

/-- `(*UDPAddr).String` on a pointer that may be nil. -/
def udpAddrString : Option UDPAddr → Bytes
  | some a => a.string
  | none => ascii "<nil>"

/-! ## The length of an IP -/

theorem length_of_parseIPv4Fields {val digLen : ℕ}
    (h : parseIPv4Fields s fields val digLen = some r) (hfields : fields.length ≤ 3) :
    r.length = 4 := by
  induction s generalizing fields val digLen with
  | nil =>
    unfold parseIPv4Fields at h
    split at h
    · cases h
    · cases h
      rw [List.length_append, List.length_singleton]
      omega
  | cons c rest ih =>
    unfold parseIPv4Fields at h
    split at h
    · split at h
      · cases h
      · simp only at h
        split at h
        · cases h
        · exact ih h hfields
    · split at h
      · split at h
        · cases h
        · next hgoes =>
          refine ih h ?_
          have hthree : fields.length ≠ 3 := fun heq => hgoes (.inr (.inr heq))
          rw [List.length_append, List.length_singleton]
          omega
      · cases h

/-- Every round of the loop reads two bytes, and there are eight rounds. -/
theorem length_of_parseIPv6Loop {fuel : ℕ} {ip' : Bytes} {ellipsis ellipsis' : Option ℕ}
    (hip : ip.length + 2 * fuel ≤ 16)
    (h : parseIPv6Loop fuel ip ellipsis s = some (ip', ellipsis', rest)) : ip'.length ≤ 16 := by
  induction fuel generalizing ip ellipsis s with
  | zero =>
    cases h
    omega
  | succ fuel ih =>
    have hgroup : ∀ a b : UInt8, (ip ++ [a, b]).length = ip.length + 2 := by
      intro a b
      rw [List.length_append]
      rfl
    unfold parseIPv6Loop at h
    simp only at h
    split at h
    · cases h
    · split at h
      · cases h
        rw [hgroup]
        omega
      · cases h
      · split at h
        · cases h
        · split at h
          · cases h
            rw [hgroup]
            omega
          · exact ih (by rw [hgroup]; omega) h
      · exact ih (by rw [hgroup]; omega) h
      · split at h
        · cases h
        · next hroom =>
          obtain ⟨f, hfields, hres⟩ := Option.map_eq_some_iff.mp h
          cases hres
          have hfour := length_of_parseIPv4Fields hfields (Nat.zero_le 3)
          have hfits : ¬ 16 < ip.length + 4 := fun hlong => hroom (.inr hlong)
          rw [List.length_append]
          omega
      · cases h

theorem length_of_parseIPv6 (h : parseIPv6 s = some r) : r.length = 16 := by
  rcases parseIPv6_cases h with ⟨-, rfl⟩ | ⟨_, _, _, ip, _, -, -, hloop, hres⟩
  · exact List.length_replicate
  · have hle := length_of_parseIPv6Loop (Nat.le_refl 16) hloop
    rcases hres with ⟨hlong, rfl⟩ | ⟨hshort, e, rfl⟩
    · omega
    · simp only [List.length_append, List.length_take, List.length_drop, List.length_replicate]
      omega

theorem length_parseIP (h : parseIP s ≠ []) : (parseIP s).length = 16 := by
  unfold parseIP at h ⊢
  split at h
  · next b haddr =>
    unfold parseAddr at haddr
    split at haddr
    · obtain ⟨r, hfields, hres⟩ := Option.map_eq_some_iff.mp haddr
      cases hres
      have hfour := length_of_parseIPv4Fields hfields (Nat.zero_le 3)
      rw [if_pos hfour, List.length_append, hfour]
      rfl
    · simp only at haddr
      split at haddr
      · cases haddr
      · obtain ⟨r, hparsed, hres⟩ := Option.map_eq_some_iff.mp haddr
        have hbytes : r = b := congrArg Addr.bytes hres
        have hlen : b.length = 16 := hbytes ▸ length_of_parseIPv6 hparsed
        rw [if_neg (by omega)]
        exact hlen
    · cases haddr
  · exact absurd rfl h

end N2nGo.Lib.Net
