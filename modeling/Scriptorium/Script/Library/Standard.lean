import Scriptorium.Script.Library.Base
import Scriptorium.Script.Library.Format
import Scriptorium.Script.Library.Grid
import Scriptorium.Script.Library.List
import Scriptorium.Script.Library.Mathematics
import Scriptorium.Script.Library.Utf8

/-!
# The standard library

What each library function does, and the store that a script starts with.
-/

namespace Scriptorium.Script.Library

/-- What a library function does with its arguments. -/
def perform (c : Callee) (args : List Value) : Act (List Value) :=
  match c.builtin with
  | .assert => assert c args
  | .collectGarbage => collectGarbage c args
  | .error => error c args
  | .getMetatable => getMetatable c args
  | .ipairs => ipairs c args
  | .next => next c args
  | .pairs => pairs c args
  | .pcall => pcall args
  | .print => print args
  | .rawEqual => rawEqual c args
  | .rawGet => rawGet c args
  | .rawLength => rawLength c args
  | .rawSet => rawSetEntry c args
  | .select => select c args
  | .setMetatable => setMetatable c args
  | .toNumber => toNumber c args
  | .toText => toText c args
  | .type => type c args
  | .warn => .done []
  | .xpcall => xpcall args
  | .textByte => textByte c args
  | .textChar => textChar c args
  | .textFind => searchText true c args
  | .textFormat => textFormat c args
  | .textGlobalMatch => globalMatch c args
  | .textReplace => textReplace c args
  | .textLength => textLength c args
  | .textLower => mapBytes Char.toLower c args
  | .textMatch => searchText false c args
  | .textRepeat => textRepeat c args
  | .textReverse => textReverse c args
  | .textSub => textSub c args
  | .textUpper => mapBytes Char.toUpper c args
  | .listConcat => listConcat c args
  | .listInsert => listInsert c args
  | .listMove => listMove c args
  | .listPack => listPack args
  | .listRemove => listRemove c args
  | .listSort => listSort c args
  | .listUnpack => listUnpack c args
  | .mathAbs => mathAbs c args
  | .mathAcos => ofFloat Float.acos c args
  | .mathAsin => ofFloat Float.asin c args
  | .mathAtan => mathAtan c args
  | .mathCeil => rounded Float.ceil c args
  | .mathCos => ofFloat Float.cos c args
  | .mathDeg => ofFloat (fun x => x * (180.0 / circleRatio)) c args
  | .mathExp => ofFloat Float.exp c args
  | .mathFloor => rounded Float.floor c args
  | .mathFmod => mathFmod c args
  | .mathLog => mathLog c args
  | .mathMax => mathExtreme (fun v best => isLess best v) c args
  | .mathMin => mathExtreme isLess c args
  | .mathModf => mathModf c args
  | .mathRad => ofFloat (fun x => x * (circleRatio / 180.0)) c args
  | .mathRandom => mathRandom c args
  | .mathRandomSeed => mathRandomSeed c args
  | .mathSin => ofFloat Float.sin c args
  | .mathSqrt => ofFloat Float.sqrt c args
  | .mathTan => ofFloat Float.tan c args
  | .mathToInteger => mathToInteger c args
  | .mathType => mathType c args
  | .mathUnsignedLess => mathUnsignedLess c args
  | .utf8Char => utf8Char c args
  | .utf8CodePoint => utf8CodePoint c args
  | .utf8Codes => utf8Codes c args
  | .utf8Length => utf8Length c args
  | .utf8Offset => utf8Offset c args
  | .ipairsStep => ipairsStep c args
  | .utf8Step => utf8Step c args
  | .gridColumns => gridColumns args
  | .gridColumnType => gridColumnType args
  | .gridGet => gridGet args
  | .gridRows => gridRows args

/-- The constants of a library, by name. -/
def constants (library : String) : List (String × Value) :=
  match library with
  | "math" =>
    [("pi", .float circleRatio), ("huge", .float (1.0 / 0.0)),
     ("maxinteger", .integer Int64.maxValue), ("mininteger", .integer Int64.minValue)]
  | "utf8" => [("charpattern", .text utf8Pattern)]
  | _ => []

/-- The table of a library. -/
def libraryTable (name : String) (members : List (String × Builtin)) : TableData :=
  .ofFields ((members.map fun (n, b) => (bytes n, .builtin b)) ++
    (constants name).map fun (n, v) => (bytes n, v))

/-- The version that scripts see. -/
def version : String := "Lua 5.4"

/-- The global variables before there are libraries. -/
def globalTable : TableData :=
  .ofFields ((Builtin.globals.map fun (n, b) => (bytes n, Value.builtin b)) ++
    [(bytes "_VERSION", .ofString version), (bytes "_G", .table 0)])

/-- The store with a library under its name. Texts have the functions of the library `string`. -/
def addLibrary (s : Store) (name : String) (members : List (String × Builtin)) : Store :=
  let (v, s) := s.newTable (libraryTable name members)
  let s := s.modifyTable 0 (·.setText (bytes name) v)
  if name = "string" then
    let (m, s) := s.newTable (.ofFields [(bytes "__index", v)])
    { s with textMetatable? := match m with
      | .table p => some p
      | _ => none }
  else s

/-- The store that a script starts with. The first table holds the global variables. -/
def initialStore (registry : Registry) : Store :=
  let start : Store := { registry, tables := #[globalTable] }
  let filled := Builtin.libraries.foldl (fun s (name, members) => addLibrary s name members) start
  (filled.newCell (.table 0)).2

end Scriptorium.Script.Library
