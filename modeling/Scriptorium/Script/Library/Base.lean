import Scriptorium.Script.Library.Argument

/-!
# Basic functions
-/

namespace Scriptorium.Script.Library

open Operation Args

/-- Raises a value; a text gets the place of the function so many levels up in front. -/
def raiseAt (level : Int64) (e : Value) : Act α :=
  match e with
  | .text b => if 0 < level then .failAt level.toNatClampNeg b else .raise e
  | e => .raise e

def assert (c : Callee) (args : List Value) : Act (List Value) := do
  if (value args 1).isTrue then return args
  let _ ← any c args 1
  raiseAt 1 ((at? args 2).getD (.ofString "assertion failed!"))

def error (c : Callee) (args : List Value) : Act (List Value) := do
  let level ← integerOr c args 2 1
  raiseAt level (value args 1)

/-- The results of a call whose error is caught: whether it went well, and its results or the error. -/
def caught : Except Value (List Value) → Act (List Value)
  | .ok vs => .done (.boolean true :: vs)
  | .error e => .done [.boolean false, e]

/-- Calls a function and catches its error. -/
def pcall (args : List Value) : Act (List Value) :=
  match args with
  | [] => .raiseText (bytes "not enough arguments to pcall")
  | f :: args => .protect f args caught

/-- How often a handler is called with its own errors. -/
def handlerRounds : Nat := 66

/-- Hands an error to a handler, and an error of the handler to the handler again. -/
def handle (handler : Value) : Nat → Value → Act (List Value)
  | 0, _ => .done [.boolean false, .ofString "error in error handling"]
  | rounds + 1, e => .protect handler [e] fun
    | .ok vs => .done [.boolean false, firstOf vs]
    | .error e => handle handler rounds e

/-- Calls a function and hands its error to a handler. -/
def xpcall (args : List Value) : Act (List Value) :=
  match args with
  | f :: handler :: args => .protect f args fun
    | .ok vs => .done (.boolean true :: vs)
    | .error e => handle handler handlerRounds e
  | _ => .raiseText (bytes "not enough arguments to xpcall")

def print (args : List Value) : Act (List Value) := do
  let ds ← Act.data args
  .ask (.print (joinedText ds)) fun _ => .done []

def ipairs (c : Callee) (args : List Value) : Act (List Value) := do
  let v ← any c args 1
  return [.builtin .ipairsStep, v, .integer 0]

def ipairsStep (c : Callee) (args : List Value) : Act (List Value) := do
  let i := (← integer c args 2) + 1
  match ← index .unknown (value args 1) (.integer i) with
  | .nil => return [.nil]
  | v => return [.integer i, v]

def next (c : Callee) (args : List Value) : Act (List Value) := do
  let p ← table c args 1
  match ← Act.look fun s => (s.table p).next (value args 2) with
  | some (some (k, v)) => return [k, v]
  | some none => return [.nil]
  | none => Act.failHere (bytes "invalid key to 'next'")

def pairs (c : Callee) (args : List Value) : Act (List Value) := do
  let v ← any c args 1
  match ← Act.look fun s => s.metamethod v "pairs" with
  | .nil => return [.builtin .next, v, .nil]
  | f =>
    let vs ← Act.invoke f [v]
    return [value vs 1, value vs 2, value vs 3]

def rawEqual (c : Callee) (args : List Value) : Act (List Value) := do
  let a ← any c args 1
  let b ← any c args 2
  return [.boolean (a.same b)]

def rawLength (c : Callee) (args : List Value) : Act (List Value) :=
  match value args 1 with
  | .table p => do return [.integer (Int64.ofNat (← Act.look fun s => (s.table p).length))]
  | .text b => .done [.integer (Int64.ofNat b.size)]
  | _ => typeFault c args 1 "table or string"

def rawGet (c : Callee) (args : List Value) : Act (List Value) := do
  let p ← table c args 1
  let k ← any c args 2
  return [← Act.look fun s => (k.key?.map (s.table p).get).getD .nil]

def rawSetEntry (c : Callee) (args : List Value) : Act (List Value) := do
  let p ← table c args 1
  let k ← any c args 2
  let v ← any c args 3
  rawSet p k v
  return [.table p]

def select (c : Callee) (args : List Value) : Act (List Value) := do
  let rest := args.tail
  if let .text b := value args 1 then
    if b = bytes "#" then return [.integer (Int64.ofNat rest.length)]
  let n ← integer c args 1
  let fromEnd := (Int.ofNat rest.length + n.toInt).toNat
  if n < 0 then
    if rest.length < (-n).toNatClampNeg then c.argumentFault 1 (bytes "index out of range")
    else return rest.drop fromEnd
  else if n = 0 then c.argumentFault 1 (bytes "index out of range")
  else return rest.drop (n.toNatClampNeg - 1)

def setMetatable (c : Callee) (args : List Value) : Act (List Value) := do
  let p ← table c args 1
  let m? ← match at? args 2 with
    | some .nil => pure none
    | some (.table m) => pure (some m)
    | _ => typeFault c args 2 "nil or table"
  match ← Act.look fun s => s.metamethod (.table p) "metatable" with
  | .nil =>
    Act.modify fun s => s.modifyTable p fun t => { t with metatable? := m? }
    return [.table p]
  | _ => Act.fail (bytes "cannot change a protected metatable")

def getMetatable (c : Callee) (args : List Value) : Act (List Value) := do
  let v ← any c args 1
  Act.look fun s =>
    match v with
    | .object _ | .failure _ => [.boolean false]
    | v =>
      match s.metatable? v, s.metamethod v "metatable" with
      | none, _ => [.nil]
      | some m, .nil => [.table m]
      | some _, shown => [shown]

def toNumber (c : Callee) (args : List Value) : Act (List Value) := do
  if isAbsentAt args 2 then
    let v ← any c args 1
    return [v.number?.getD .nil]
  let base ← integer c args 2
  match value args 1 with
  | .text b =>
    if 2 ≤ base && base ≤ 36 then
      return [((Numeral.readInBase? base.toNatClampNeg (charsOf b)).map .integer).getD .nil]
    else c.argumentFault 2 (bytes "base out of range")
  | _ => typeFault c args 1 "string"

def toText (c : Callee) (args : List Value) : Act (List Value) := do
  return [.text (← Operation.text (← any c args 1))]

def type (c : Callee) (args : List Value) : Act (List Value) := do
  return [.ofString (← any c args 1).typeName]

/-- What `collectgarbage` answers to each of its options. Nothing is ever collected. -/
def collectorAnswers : List (String × Value) :=
  [("collect", .integer 0), ("count", .float 64.0), ("step", .boolean true),
   ("isrunning", .boolean true), ("stop", .integer 0), ("restart", .integer 0),
   ("setpause", .integer 200), ("setstepmul", .integer 100),
   ("incremental", .ofString "incremental"), ("generational", .ofString "incremental")]

def collectGarbage (c : Callee) (args : List Value) : Act (List Value) := do
  let option ← textOr c args 1 (bytes "collect")
  match collectorAnswers.find? fun (name, _) => bytes name == option with
  | some (_, answer) => return [answer]
  | none => c.argumentFault 1 (joined [bytes "invalid option '", option, bytes "'"])

end Scriptorium.Script.Library
