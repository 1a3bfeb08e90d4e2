import N2nGo.Lib.Slices
import N2nGo.Lib.Text
import N2nGo.Lib.Run
import Mathlib.Data.List.Sort

/-!
# The hosts file

Package `syshosts`: the lines of the system's hosts file in memory. An entry keeps the
line as text and, for a line that names hosts, its IP and its hostnames; the operations
change text and hostnames separately. Only the text is written back to disk.

Hostnames are slices, and slices of different entries may lie in one array, so a `Hosts`
has the arrays with its entries. What an operation collects in a slice of its own and then
drops is not modelled. Go maps that only answer whether a key was seen are lists.
-/

set_option autoImplicit false

namespace N2nGo.Syshosts

open N2nGo.Lib

/-- GOLINE: syshosts/hostsfiles.go:34-39 -/
structure HostEntry where
  ip : Text
  hostnames : Slice
  raw : Text
  isActive : Bool
  deriving DecidableEq

/-- The path of the file is left out.
GOLINE: syshosts/hostsfiles.go:42-46 -/
structure Hosts where
  arrays : Arrays Text
  entries : List HostEntry

/-- GOLINE: syshosts/hostsfiles.go:22-31, 150-152, 162-164, 338-351, 422-424 -/
inductive Err where
  | invalidIP
  | hostnameNotFound
  | ipNotFound
  | hostEntryNotFound
  | noHostname
  | noValidHostname
  | emptyHostname
  deriving DecidableEq

/-- `net.ParseIP(t) != nil`. -/
def isIP (t : Text) : Bool := Net.parseIP t.bytes != []

/-- The fields of the line are an array; the hostnames are all but the first.
GOLINE: syshosts/hostsfiles.go:102-131 -/
def parseLine (m : Arrays Text) (line : Text) : Arrays Text × HostEntry :=
  let trimmedLine := Text.trimSpace line
  let entry : HostEntry := ⟨[], .nil, line, false⟩
  if trimmedLine = [] ∨ trimmedLine.head? = some Text.hash then (m, entry)
  else
    let fields := Text.fields trimmedLine
    if fields.length < 2 then (m, entry)
    else
      let ipStr := fields.headD []
      if ¬ isIP ipStr then (m, entry)
      else
        (m.alloc fields,
          { entry with
            isActive := true
            ip := ipStr
            hostnames := (⟨m.next, 0, fields.length, fields.length⟩ : Slice).sub 1 fields.length })

/-- GOLINE: syshosts/hostsfiles.go:134-136 -/
def formatEntry (ip : Text) (hostnames : List Text) : Text := ip ++ Text.tab :: Text.join hostnames

/-- GOLINE: syshosts/extents.go:9-20 -/
def insertRaw (h : Hosts) : List Text → Hosts
  | [] => h
  | line :: lines =>
    let parsed := parseLine h.arrays line
    insertRaw ⟨parsed.1, h.entries ++ [parsed.2]⟩ lines

/-- The lines are those that the scanner finds in the file.
GOLINE: syshosts/hostsfiles.go:59-99 -/
def newHosts (lines : List Text) : Hosts := insertRaw ⟨⟨fun _ => [], 0⟩, []⟩ lines

/-! ## Reading and writing the file -/

/-- What the scanner drops at the end of a line. -/
def dropCR (line : Text) : Text :=
  if line.getLast? = some Text.carriageReturn then line.dropLast else line

/-- The pieces between the newlines; what follows the last newline is a line only if it is
not empty. -/
def splitLines (content : Text) : List Text :=
  let pieces := content.splitOn Text.newline
  if pieces.getLast? = some [] then pieces.dropLast else pieces

/-- `bufio.MaxScanTokenSize`. -/
def maxScanTokenSize : ℕ := 64 * 1024

inductive LoadErr where
  | failedToReadHostsFile
  | errorScanningHostsFile
  deriving DecidableEq

/-- The content of the file, if it can be read. The buffer of the scanner has to hold a line.
GOLINE: syshosts/hostsfiles.go:59-79 -/
def loadAndParse : Option Text → Except LoadErr Hosts
  | none => .error .failedToReadHostsFile
  | some content =>
    let lines := splitLines content
    if lines.any fun line => maxScanTokenSize ≤ line.bytes.length then
      .error .errorScanningHostsFile
    else .ok (newHosts (lines.map dropCR))

/-- What is written to the file.
GOLINE: syshosts/hostsfiles.go:247-260 -/
def write (h : Hosts) : Text :=
  let output := [Text.newline].intercalate (h.entries.map (·.raw))
  if output.getLast? = some Text.newline then output else output ++ [Text.newline]

/-- GOLINE: syshosts/hostsfiles.go:509-526 -/
def string (h : Hosts) : Text :=
  let output := [Text.newline].intercalate (h.entries.map (·.raw))
  if 0 < h.entries.length ∧ output.getLast? ≠ some Text.newline then output ++ [Text.newline]
  else output

/-! ## Looking up -/

/-- GOLINE: syshosts/hostsfiles.go:269-289 -/
def has (h : Hosts) (ip host : Text) : Bool :=
  let host := Text.trimSpace host
  if host = [] then false
  else h.entries.any fun e =>
    decide (e.isActive ∧ e.ip = ip) && (e.hostnames.read h.arrays).any (· == host)

/-- GOLINE: syshosts/hostsfiles.go:292-311 -/
def hasHostname (h : Hosts) (host : Text) : Bool :=
  let host := Text.trimSpace host
  if host = [] then false
  else h.entries.any fun e => e.isActive && (e.hostnames.read h.arrays).any (· == host)

/-! ## Changing the entries -/

/-- Trimmed hostnames without the empty ones.
GOLINE: syshosts/hostsfiles.go:155-161, 342-348 -/
def cleaned (hosts : List Text) : List Text := (hosts.map Text.trimSpace).filter (· ≠ [])

/-- The hostnames that are not yet known, each once.
GOLINE: syshosts/hostsfiles.go:169-181, syshosts/extents.go:36-46, 78-87 -/
def unseen : (known hosts : List Text) → List Text
  | _, [] => []
  | known, host :: hosts =>
    if host ∈ known then unseen known hosts else host :: unseen (host :: known) hosts

/-- The first line with this IP gets the hostnames it does not have; none if there is no such
line. Each hostname is appended by itself.
GOLINE: syshosts/hostsfiles.go:166-190 -/
def addToLine (grow : ℕ → ℕ → ℕ) (m : Arrays Text) (ip : Text) (validHosts : List Text) :
    List HostEntry → Option (Arrays Text × List HostEntry)
  | [] => none
  | e :: es =>
    if e.isActive ∧ e.ip = ip then
      let added := unseen (e.hostnames.read m) validHosts
      let appended := Slice.appendAll grow m e.hostnames added
      let raw := if added = [] then e.raw else formatEntry e.ip (appended.2.read appended.1)
      some (appended.1, { e with hostnames := appended.2, raw := raw } :: es)
    else
      match addToLine grow m ip validHosts es with
      | none => none
      | some (m', es') => some (m', e :: es')

/-- GOLINE: syshosts/hostsfiles.go:142-203 -/
def add (grow : ℕ → ℕ → ℕ) (h : Hosts) (ip : Text) (hosts : List Text) : Hosts × Except Err Unit :=
  if ¬ isIP ip then (h, .error .invalidIP)
  else if hosts = [] then (h, .error .noHostname)
  else
    let validHosts := cleaned hosts
    if validHosts = [] then (h, .error .noValidHostname)
    else
      match addToLine grow h.arrays ip validHosts h.entries with
      | some (m, es) => (⟨m, es⟩, .ok ())
      | none =>
        let made := Slice.make h.arrays hosts.length validHosts
        (⟨made.1, h.entries ++ [⟨ip, made.2, formatEntry ip (made.2.read made.1), true⟩]⟩, .ok ())

/-- A loop over the entries that replaces each of them by any number of others. -/
def rebuild {σ : Type} (f : Arrays Text → σ → HostEntry → Arrays Text × σ × List HostEntry) :
    Arrays Text → σ → List HostEntry → Arrays Text × σ × List HostEntry
  | m, st, [] => (m, st, [])
  | m, st, e :: es =>
    let here := f m st e
    let rest := rebuild f here.1 here.2.1 es
    (rest.1, rest.2.1, here.2.2 ++ rest.2.2)

/-- The entry with these hostnames in a new slice of this capacity. -/
def rewritten (m : Arrays Text) (e : HostEntry) (cap : ℕ) (hosts : List Text) :
    Arrays Text × HostEntry :=
  let made := Slice.make m cap hosts
  (made.1, { e with hostnames := made.2, raw := formatEntry e.ip (made.2.read made.1) })

/-- GOLINE: syshosts/hostsfiles.go:353-355 -/
structure RemoveFlags where
  foundIP : Bool
  modified : Bool
  entryRemoved : Bool

/-- GOLINE: syshosts/hostsfiles.go:358-399 -/
def removeStep (ip : Text) (hostsToRemove : List Text) (m : Arrays Text) (st : RemoveFlags)
    (e : HostEntry) : Arrays Text × RemoveFlags × List HostEntry :=
  if e.isActive ∧ e.ip = ip then
    let hostnames := e.hostnames.read m
    let remaining := hostnames.filter (· ∉ hostsToRemove)
    if ¬ hostnames.any (· ∈ hostsToRemove) then (m, { st with foundIP := true }, [e])
    else if remaining = [] then (m, ⟨true, true, true⟩, [])
    else if remaining.length < hostnames.length then
      let new := rewritten m e hostnames.length remaining
      (new.1, ⟨true, true, st.entryRemoved⟩, [new.2])
    else (m, ⟨true, true, st.entryRemoved⟩, [e])
  else (m, st, [e])

/-- The new entries are kept only if a whole entry was removed.
GOLINE: syshosts/hostsfiles.go:330-412 -/
def remove (h : Hosts) (ip : Text) (hosts : List Text) : Hosts × Except Err Unit :=
  if ¬ isIP ip then (h, .error .invalidIP)
  else if hosts = [] then (h, .error .noHostname)
  else
    let hostsToRemove := cleaned hosts
    if hostsToRemove = [] then (h, .error .noValidHostname)
    else
      let res := rebuild (removeStep ip hostsToRemove) h.arrays ⟨false, false, false⟩ h.entries
      if ¬ res.2.1.foundIP then (h, .error .ipNotFound)
      else if ¬ res.2.1.modified then (h, .error .hostEntryNotFound)
      else if res.2.1.entryRemoved then (⟨res.1, res.2.2⟩, .ok ())
      else (h, .ok ())

/-- The state is `found`; `modified` is set where it is.
GOLINE: syshosts/hostsfiles.go:430-464 -/
def removeByHostnameStep (host : Text) (m : Arrays Text) (found : Bool) (e : HostEntry) :
    Arrays Text × Bool × List HostEntry :=
  if ¬ e.isActive then (m, found, [e])
  else
    let hostnames := e.hostnames.read m
    let remaining := hostnames.filter (· ≠ host)
    if host ∉ hostnames then (m, found, [e])
    else if remaining = [] then (m, true, [])
    else
      let new := rewritten m e hostnames.length remaining
      (new.1, true, [new.2])

/-- GOLINE: syshosts/hostsfiles.go:417-474 -/
def removeByHostname (h : Hosts) (host : Text) : Hosts × Except Err Unit :=
  let host := Text.trimSpace host
  if host = [] then (h, .error .emptyHostname)
  else
    let res := rebuild (removeByHostnameStep host) h.arrays false h.entries
    if ¬ res.2.1 then (h, .error .hostnameNotFound) else (⟨res.1, res.2.2⟩, .ok ())

/-- GOLINE: syshosts/hostsfiles.go:478-505 -/
def removeByIP (h : Hosts) (ip : Text) : Hosts :=
  { h with entries := h.entries.filter fun e => ¬ (e.isActive ∧ e.ip = ip) }

/-- GOLINE: syshosts/extents.go:31-59, 326-349 -/
def uniqueInLineStep (m : Arrays Text) (_ : Unit) (e : HostEntry) :
    Arrays Text × Unit × List HostEntry :=
  let hostnames := e.hostnames.read m
  if ¬ e.isActive ∨ e.hostnames.len ≤ 1 then (m, (), [e])
  else
    let uniqueHosts := unseen [] hostnames
    if uniqueHosts.length = hostnames.length then (m, (), [e])
    else
      let new := rewritten m e hostnames.length uniqueHosts
      (new.1, (), [new.2])

/-- The state is what was seen in earlier lines. An entry without hostnames is dropped.
GOLINE: syshosts/extents.go:63-104, 351-383 -/
def uniqueAcrossStep (m : Arrays Text) (seenGlobal : List Text) (e : HostEntry) :
    Arrays Text × List Text × List HostEntry :=
  if ¬ e.isActive then (m, seenGlobal, [e])
  else
    let hostnames := e.hostnames.read m
    let uniqueHosts := unseen seenGlobal hostnames
    let seenGlobal := seenGlobal ++ uniqueHosts
    if uniqueHosts = [] then (m, seenGlobal, [])
    else if uniqueHosts.length = hostnames.length then (m, seenGlobal, [e])
    else
      let new := rewritten m e hostnames.length uniqueHosts
      (new.1, seenGlobal, [new.2])

/-- Where nothing is modified, the new entries are the old ones.
GOLINE: syshosts/extents.go:26-109, 324-388 -/
def removeDuplicateHosts (h : Hosts) : Hosts :=
  let inLine := rebuild uniqueInLineStep h.arrays () h.entries
  let across := rebuild uniqueAcrossStep inLine.1 [] inLine.2.2
  ⟨across.1, across.2.2⟩

/-- The chunks from `start` on.
GOLINE: syshosts/extents.go:132-156 -/
def chunks (s : Slice) (count : ℕ) : (fuel start : ℕ) → List Slice
  | 0, _ => []
  | fuel + 1, start =>
    if start < s.len then
      s.sub start (min (start + count) s.len) :: chunks s count fuel (start + count)
    else []

/-- GOLINE: syshosts/extents.go:125-157 -/
def wrapStep (count : ℕ) (m : Arrays Text) (_ : Unit) (e : HostEntry) :
    Arrays Text × Unit × List HostEntry :=
  if ¬ e.isActive ∨ e.hostnames.len ≤ count then (m, (), [e])
  else
    (m, (), (chunks e.hostnames count e.hostnames.len 0).map fun chunk =>
      ⟨e.ip, chunk, formatEntry e.ip (chunk.read m), true⟩)

/-- GOLINE: syshosts/extents.go:114-162 -/
def wrapLinesAtMaxHostsPerLine (h : Hosts) (count : ℤ) : Hosts :=
  if count ≤ 0 then h
  else
    let res := rebuild (wrapStep count.toNat) h.arrays () h.entries
    ⟨res.1, res.2.2⟩

/-- The hostnames of each IP, the entries to keep, and whether an IP occurs twice.
GOLINE: syshosts/extents.go:187-207, 276-292 -/
def combineLoop (m : Arrays Text) : List HostEntry → Table Text (List Text) → List HostEntry → Bool →
    Table Text (List Text) × List HostEntry × Bool
  | [], ipMap, keepEntries, modified => (ipMap, keepEntries, modified)
  | e :: es, ipMap, keepEntries, modified =>
    if ¬ e.isActive then combineLoop m es ipMap (keepEntries ++ [e]) modified
    else
      match ipMap.lookup e.ip with
      | none =>
        combineLoop m es (ipMap.insert e.ip (e.hostnames.read m)) (keepEntries ++ [e]) modified
      | some hosts => combineLoop m es (ipMap.insert e.ip (hosts ++ e.hostnames.read m)) keepEntries true

/-- GOLINE: syshosts/extents.go:216-245, 299-318 -/
def combineStep (ipMap : Table Text (List Text)) (m : Arrays Text) (_ : Unit) (e : HostEntry) :
    Arrays Text × Unit × List HostEntry :=
  if ¬ e.isActive then (m, (), [e])
  else
    let allHostsForIP := (ipMap.lookup e.ip).getD []
    let new := rewritten m e allHostsForIP.length (unseen [] allHostsForIP)
    (new.1, (), [new.2])

/-- GOLINE: syshosts/extents.go:176-248, 267-321 -/
def combineDuplicateIPs (h : Hosts) : Hosts :=
  let collected := combineLoop h.arrays h.entries ∅ [] false
  if ¬ collected.2.2 then h
  else
    let res := rebuild (combineStep collected.1) h.arrays () collected.2.1
    ⟨res.1, res.2.2⟩

/-- GOLINE: syshosts/extents.go:391-404 -/
def removeEmptyActiveEntriesInternal (h : Hosts) : Hosts :=
  { h with entries := h.entries.filter fun e => ¬ (e.isActive ∧ e.hostnames.len = 0) }

/-- The internal functions repeat the exported ones.
GOLINE: syshosts/extents.go:254-264 -/
def clean (h : Hosts) : Hosts :=
  removeEmptyActiveEntriesInternal (removeDuplicateHosts (combineDuplicateIPs h))

/-- `sort.Strings`; equal strings are the same string. -/
def sortStrings (hosts : List Text) : List Text :=
  hosts.insertionSort fun a b => a.bytes ≤ b.bytes

/-- `sort.StringsAreSorted`. -/
def stringsAreSorted : List Text → Bool
  | a :: b :: hosts => !decide (b.bytes < a.bytes) && stringsAreSorted (b :: hosts)
  | _ => true

/-- GOLINE: syshosts/extents.go:413-421 -/
def sortHostsStep (m : Arrays Text) (_ : Unit) (e : HostEntry) : Arrays Text × Unit × List HostEntry :=
  if e.isActive ∧ 1 < e.hostnames.len ∧ ¬ stringsAreSorted (e.hostnames.read m) then
    let sorted := e.hostnames.overwrite m (sortStrings (e.hostnames.read m))
    (sorted, (), [{ e with raw := formatEntry e.ip (e.hostnames.read sorted) }])
  else (m, (), [e])

/-- GOLINE: syshosts/extents.go:408-425 -/
def sortHosts (h : Hosts) : Hosts :=
  let res := rebuild sortHostsStep h.arrays () h.entries
  ⟨res.1, res.2.2⟩

/-- `bytes.Compare`. -/
def bytesCompare (a b : Bytes) : ℤ := if a < b then -1 else if a = b then 0 else 1

/-- GOLINE: syshosts/extents.go:459-498 -/
def compareIPStrings (ipStr1 ipStr2 : Text) : ℤ :=
  let ip1 := Net.parseIP ipStr1.bytes
  let ip2 := Net.parseIP ipStr2.bytes
  if ip1 = [] ∧ ip2 = [] then 0
  else if ip1 = [] then -1
  else if ip2 = [] then 1
  else
    let isV4 := fun ip => Net.to4 ip ≠ []
    if isV4 ip1 ∧ ¬ isV4 ip2 then -1
    else if ¬ isV4 ip1 ∧ isV4 ip2 then 1
    else bytesCompare ip1 ip2

/-- `compareIPStrings(a, b) < 0`.
GOLINE: syshosts/extents.go:468-498 -/
def ipLess (a b : Text) : Bool := compareIPStrings a b < 0

/-- GOLINE: syshosts/extents.go:431-457 -/
def sortIPs (h : Hosts) : Hosts :=
  let activeEntries := h.entries.filter (·.isActive)
  let nonActiveEntries := h.entries.filter (!·.isActive)
  { h with
    entries := nonActiveEntries ++ activeEntries.insertionSort fun a b => ¬ ipLess b.ip a.ip }

/-! ## Sequences of operations -/

inductive Operation where
  | add (ip : Text) (hosts : List Text)
  | remove (ip : Text) (hosts : List Text)
  | removeByHostname (host : Text)
  | removeByIP (ip : Text)
  | insertRaw (lines : List Text)
  | removeDuplicateHosts
  | wrapLinesAtMaxHostsPerLine (count : ℤ)
  | combineDuplicateIPs
  | clean
  | sortHosts
  | sortIPs

/-- One operation; errors are dropped. -/
def step (grow : ℕ → ℕ → ℕ) (h : Hosts) : Operation → Go (Hosts × Unit)
  | .add ip hosts => .ok ((add grow h ip hosts).1, ())
  | .remove ip hosts => .ok ((remove h ip hosts).1, ())
  | .removeByHostname host => .ok ((removeByHostname h host).1, ())
  | .removeByIP ip => .ok (removeByIP h ip, ())
  | .insertRaw lines => .ok (insertRaw h lines, ())
  | .removeDuplicateHosts => .ok (removeDuplicateHosts h, ())
  | .wrapLinesAtMaxHostsPerLine count => .ok (wrapLinesAtMaxHostsPerLine h count, ())
  | .combineDuplicateIPs => .ok (combineDuplicateIPs h, ())
  | .clean => .ok (clean h, ())
  | .sortHosts => .ok (sortHosts h, ())
  | .sortIPs => .ok (sortIPs h, ())

end N2nGo.Syshosts
