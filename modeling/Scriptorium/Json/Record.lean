import Scriptorium.Json.Value
import Scriptorium.Repetition

/-!
# Records in JSON

A record type is described by its fields: the key of each, how its value is read into a record and how it is
written. From the description follow both directions: `encode` writes an object of all fields in order,
`decode?` reads an object that names some of them in any order, or an array that gives the first ones in
order. What is not named keeps its value; an unknown key is ignored; a known one must not occur twice.
-/

namespace Scriptorium.Json

/-! ## Reading single values -/

def asBool? : Json → Option Bool
  | .bool b => some b
  | _ => none

def asString? : Json → Option String
  | .str s => some s
  | _ => none

def asUInt64? : Json → Option UInt64
  | .int n => if 0 ≤ n ∧ n < 0x10000000000000000 then some (UInt64.ofNat n.toNat) else none
  | _ => none

def asUInt32? : Json → Option UInt32
  | .int n => if 0 ≤ n ∧ n < 0x100000000 then some (UInt32.ofNat n.toNat) else none
  | _ => none

def asInt64? : Json → Option Int64
  | .int n => if -0x8000000000000000 ≤ n ∧ n < 0x8000000000000000 then some (Int64.ofInt n) else none
  | _ => none

/-- A value, or null for none. -/
def asOption? (read : Json → Option α) : Json → Option (Option α)
  | .null => some none
  | v => (read v).map some

def asList? (read : Json → Option α) : Json → Option (List α)
  | .arr items => items.mapM read
  | _ => none

/-- One of the named values: its name, or an object with its name as the only key and null. -/
def asChoice? (choices : List (String × α)) : Json → Option α
  | .str s => choices.lookup s
  | .obj [(s, .null)] => choices.lookup s
  | _ => none

/-! ## Records -/

/-- A field of a record type. -/
structure RecordField (σ : Type) where
  key : String
  read : Json → σ → Option σ
  write : σ → Json

/-- A field given by its place in the record and the two directions for its value. -/
def RecordField.of (key : String) (get : σ → α) (set : α → σ → σ) (decode : Json → Option α)
    (encode : α → Json) : RecordField σ :=
  { key
    read := fun v s => (decode v).map fun a => set a s
    write := fun s => encode (get s) }

/-- A record as an object. -/
def encode (fields : List (RecordField σ)) (s : σ) : Json := .obj (fields.map fun f => (f.key, f.write s))

/-- The record with the members' values in place of its own. -/
def readKeyed (fields : List (RecordField σ)) (s : σ) (members : List (String × Json)) : Option σ :=
  members.foldlM (fun s (key, v) =>
    match fields.find? (·.key == key) with
    | some f => f.read v s
    | none => some s) s

/-- The record with the items as the values of its first fields. -/
def readPlaced (s : σ) : List (RecordField σ) → List Json → Option σ
  | _, [] => some s
  | [], _ :: _ => none
  | f :: fields, v :: vs => (f.read v s).bind fun s => readPlaced s fields vs

/-- Does a known key occur twice? -/
def repeatsField (fields : List (RecordField σ)) (members : List (String × Json)) : Bool :=
  (firstRepeat? [] ((members.map (·.1)).filter fun k => fields.any (·.key == k))).isSome

/-- The record that a value writes, with the fields it does not name taken from `start`. -/
def decode? (fields : List (RecordField σ)) (start : σ) : Json → Option σ
  | .obj members => if repeatsField fields members then none else readKeyed fields start members
  | .arr items => readPlaced start fields items
  | _ => none

end Scriptorium.Json
