import Scriptorium.Script.Act
import Scriptorium.Script.Numeral

/-!
# Values handed over

What of a value crosses the border between a script and the host, in both directions.
-/

namespace Scriptorium.Script

/-- The values before the first `nil`. -/
def untilNil : List Value → List Value
  | [] | .nil :: _ => []
  | v :: vs => v :: untilNil vs

namespace Store

/-- The items of a table from one on, up to the first that is missing. -/
def sequence (s : Store) (p : Nat) : List Value :=
  let t := s.table p
  untilNil (t.items.toList ++
    (List.range t.entries.size).map fun i => t.getEntry (.integer (Int64.ofNat (t.items.size + i + 1))))

/-- A value as the host sees it, with tables as lists. Items that are tables themselves are empty lists. -/
def datumIn (s : Store) (items : Nat → List Datum) : Value → Datum
  | .nil => .nil
  | .boolean b => .boolean b
  | .integer n => .integer n
  | .float x => .number x
  | .text b => .text b
  | .table p => .list (items p)
  | .closure _ | .builtin _ => .function
  | .thread _ => .thread
  | .object p =>
    match s.objects[p]? with
    | some (.grid t) => .grid t
    | some (.space name _) => .hostObject name
    | none => .nil
  | .failure f => .failure f.caughtText

/-- An argument for the host. -/
def datum (s : Store) (v : Value) : Datum :=
  s.datumIn (fun p => (s.sequence p).map (s.datumIn fun _ => [])) v

mutual

/-- A value that the host gives to a script, with new tables and objects where it needs them. -/
def ofDatum : Datum → Store → Value × Store
  | .nil, s | .function, s | .thread, s => (.nil, s)
  | .boolean b, s => (.boolean b, s)
  | .integer n, s => (.integer n, s)
  | .number x, s => (.float x, s)
  | .text b, s => (.text b, s)
  | .list items, s =>
    let (vs, s) := ofDatums items s
    s.newTable (.ofItems vs)
  | .record fields, s =>
    let (fields, s) := ofFields fields s
    s.newTable (.ofFields fields)
  | .grid t, s => s.newObject (.grid t)
  | .hostObject name, s => s.newObject (.space name none)
  | .failure text, s => (.failure (.conversion text), s)

def ofDatums : List Datum → Store → List Value × Store
  | [], s => ([], s)
  | d :: ds, s =>
    let (v, s) := ofDatum d s
    let (vs, s) := ofDatums ds s
    (v :: vs, s)

def ofFields : List (String × Datum) → Store → List (Bytes × Value) × Store
  | [], s => ([], s)
  | (name, d) :: fields, s =>
    let (v, s) := ofDatum d s
    let (fields, s) := ofFields fields s
    ((bytes name, v) :: fields, s)

end

end Store

namespace Act

/-- The values that data from the host become. -/
def ofData : List Datum → Act (List Value)
  | [] => .done []
  | d :: ds => .change (Store.ofDatum d) fun v => (ofData ds).bind fun vs => .done (v :: vs)

/-- Asks the host; its failure is raised. -/
def request (r : Request) : Act (List Value) :=
  .ask r fun
    | .ok ds => ofData ds
    | .error f => .raise (.failure f)

/-- Arguments for the host. -/
def data (vs : List Value) : Act (List Datum) := look fun s => vs.map s.datum

end Act

end Scriptorium.Script
