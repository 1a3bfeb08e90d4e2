import N2nGo.Lib.Rfc3339
import Mathlib.Data.List.Sort

/-!
# The log

Package `log`: events are written to a table of a database as JSON with the time as RFC 3339
text, and read back by their number or by their time. A query by time compares that text.

`Logger` holds the table and the package's variables; they start afresh with the process, the
table stays. How the driver's text for `inserted_at` is parsed is left open.
-/

set_option autoImplicit false

namespace N2nGo.Log

open N2nGo.Lib

/-- `log_data` is a JSON object: its `time` and the other fields. -/
structure LogData where
  time : Bytes
  fields : Bytes
  deriving DecidableEq

/-- GOLINE: log/log.go:54-59 -/
structure Row where
  id : ℕ
  insertedAt : Bytes
  logData : LogData
  deriving DecidableEq

/-- GOLINE: log/log.go:228-232 -/
structure LogEntry where
  id : ℕ
  insertedAt : Time
  logData : LogData
  deriving DecidableEq

/-- What is logged: the time and the fields that `zerolog` puts into the JSON, and the
database's own time of the insertion. -/
structure Event where
  time : Time
  fields : Bytes
  insertedAt : Bytes
  deriving DecidableEq

structure Logger where
  rows : List Row
  /-- the largest number ever given, which `AUTOINCREMENT` keeps -/
  seq : ℕ
  /-- `dbWriterInstance` and `dbHandle` are set -/
  opened : Bool
  writeSinceStart : ℕ

/-- GOLINE: log/log.go:32-33, 144-146 -/
inductive LogErr where
  | notInitialized
  | alreadyInitialized
  deriving DecidableEq

/-! ## Writing -/

/-- The row of an event; its time is written in the format that `Init` sets.
GOLINE: log/log.go:161-164 -/
def row (id : ℕ) (e : Event) : Row := ⟨id, e.insertedAt, ⟨e.time.format, e.fields⟩⟩

/-- GOLINE: log/log.go:92-102 -/
def Logger.write (s : Logger) (e : Event) : Logger :=
  { s with
    rows := s.rows ++ [row (s.seq + 1) e]
    seq := s.seq + 1
    writeSinceStart := s.writeSinceStart + 1 }

/-- GOLINE: log/log.go:133-168 -/
def Logger.init (s : Logger) : Except LogErr Logger :=
  if s.opened then .error .alreadyInitialized else .ok { s with opened := true }

/-- The functions that log do nothing as long as the logger is the one that does nothing.
GOLINE: log/log.go:201-224 -/
def Logger.log (s : Logger) (e : Event) : Logger := if s.opened then s.write e else s

/-- The last event is written before the database is closed.
GOLINE: log/log.go:170-199 -/
def Logger.close (s : Logger) (closing : Event) : Logger :=
  if s.opened then { s.write closing with opened := false } else s

/-- A new process with the same file. -/
def Logger.restart (s : Logger) : Logger := { s with opened := false, writeSinceStart := 0 }

inductive Op where
  | init
  | log (e : Event)
  | close (closing : Event)
  | restart

def Logger.apply (s : Logger) : Op → Logger
  | .init => (s.init).toOption.getD s
  | .log e => s.log e
  | .close closing => s.close closing
  | .restart => s.restart

def Logger.run (s : Logger) (ops : List Op) : Logger := ops.foldl Logger.apply s

/-- No database yet. -/
def Logger.empty : Logger := ⟨[], 0, false, 0⟩

/-! ## Reading -/

section Queries

variable (parseDBTimestamp : Bytes → Time)

def scan (r : Row) : LogEntry := ⟨r.id, parseDBTimestamp r.insertedAt, r.logData⟩

/-- GOLINE: log/log.go:234-236 -/
def defaultLimit : ℕ := 100

/-- `ORDER BY id DESC`. -/
def NewestFirst (r s : Row) : Prop := s.id ≤ r.id

instance : DecidableRel NewestFirst := fun r s => inferInstanceAs (Decidable (s.id ≤ r.id))

/-- `ORDER BY json_extract(log_data, '$.time') ASC, id ASC`. -/
def ByTimeThenId (r s : Row) : Prop :=
  byteLe r.logData.time s.logData.time = true ∧ (r.logData.time = s.logData.time → r.id ≤ s.id)

instance : DecidableRel ByTimeThenId := fun r s =>
  inferInstanceAs (Decidable (byteLe r.logData.time s.logData.time = true ∧
    (r.logData.time = s.logData.time → r.id ≤ s.id)))

/-- GOLINE: log/log.go:279-316 -/
def getLastNLogs (s : Logger) (n : ℤ) : Except LogErr (List LogEntry) :=
  if s.opened then
    if n ≤ 0 then .ok []
    else .ok (((s.rows.insertionSort NewestFirst).take n.toNat).map (scan parseDBTimestamp)).reverse
  else .error .notInitialized

/-- GOLINE: log/log.go:271-274 -/
def getLogsSinceStart (s : Logger) : Except LogErr (List LogEntry) :=
  getLastNLogs parseDBTimestamp s s.writeSinceStart

/-- GOLINE: log/log.go:329-332 -/
def effectiveLimit (limit : ℤ) : ℕ := if limit ≤ 0 then defaultLimit else limit.toNat

/-- GOLINE: log/log.go:323-366 -/
def getLogsBetween (s : Logger) (start stop : Time) (limit : ℤ) :
    Except LogErr (List LogEntry) :=
  if s.opened then
    let startTimeStr := start.format
    let endTimeStr := stop.format
    let matching := s.rows.filter fun r =>
      byteLe startTimeStr r.logData.time && byteLe r.logData.time endTimeStr
    .ok (((matching.insertionSort ByTimeThenId).take (effectiveLimit limit)).map
      (scan parseDBTimestamp))
  else .error .notInitialized

/-- GOLINE: log/log.go:374-377 -/
def getLogsSince (s : Logger) (start now : Time) (limit : ℤ) : Except LogErr (List LogEntry) :=
  getLogsBetween parseDBTimestamp s start now limit

end Queries

end N2nGo.Log
