import Scriptorium.Script.Arithmetic
import Scriptorium.Script.Exchange
import Scriptorium.Host.Object

/-!
# Operations

What operators do with any values: they try the plain operation, then the metamethods of the operands, and
fail with a message that says which operand is at fault.
-/

namespace Scriptorium.Script.Operation

/-- Bytes from several parts. -/
def joined (parts : List Bytes) : Bytes := parts.foldl (· ++ ·) .empty

/-- A value is of a type that an operation cannot take. -/
def typeFault (verb : String) (v : Value) (origin : Origin) : Act α :=
  .read fun s => .failHere
    (joined [bytes "attempt to ", bytes verb, bytes " a ", s.typeNameOf v, bytes " value",
      origin.remark])

/-- The first result of a call. -/
def firstOf (vs : List Value) : Value := vs.headD .nil

/-- Calls a metamethod for its first result. -/
def callMetamethod (event : String) (f : Value) (args : List Value) : Act Value := do
  return firstOf (← Act.invoke f args (.named .metamethod (bytes event)))

/-- The metamethod of the first of two values that has one. -/
def metamethodOf (s : Store) (event : String) (a b : Value) : Value :=
  match s.metamethod a event with
  | .nil => s.metamethod b event
  | f => f

/-- Calls the metamethod of two operands, or does something else when there is none. -/
def orMetamethod (event : String) (a b : Value) (otherwise : Act Value) : Act Value :=
  .read fun s =>
    match metamethodOf s event a b with
    | .nil => otherwise
    | f => callMetamethod event f [a, b]

/-! ## Arithmetic -/

def isText : Value → Bool
  | .text _ => true
  | _ => false

def isNumber : Value → Bool
  | .integer _ | .float _ => true
  | _ => false

/-- The result of arithmetic, with the place of the operation in its fault. -/
def ofArithmetic : Except ArithmeticFault Value → Act Value
  | .ok v => .done v
  | .error e => .failHere (bytes e.message)

/-- Two operands of which one is a text cannot be taken as numbers. -/
def notNumerals (event : String) (a b : Value) : Act α :=
  .failHere
    (bytes ("attempt to " ++ event ++ " a '" ++ a.typeName ++ "' with a '" ++ b.typeName ++ "'"))

/-- Arithmetic on operands that are not both numbers. Texts are taken as the numbers that they write. -/
def arithSlow (op : ArithOp) (oa ob : Origin) (a b : Value) : Act Value :=
  orMetamethod op.event a b <|
    if isText a || isText b then
      match a.number?, b.number? with
      | some x, some y =>
        match Arithmetic.numbers? op x y with
        | some (.ok v) => .done v
        | some (.error e) => .raiseText (bytes e.message)
        | none => .done .nil
      | _, _ => notNumerals op.event a b
    else if isNumber a then typeFault "perform arithmetic on" b ob
    else typeFault "perform arithmetic on" a oa

def arith (op : ArithOp) (oa ob : Origin) (a b : Value) : Act Value :=
  match Arithmetic.numbers? op a b with
  | some r => ofArithmetic r
  | none => arithSlow op oa ob a b

def negate (oa : Origin) (a : Value) : Act Value :=
  match a with
  | .integer n => .done (.integer (-n))
  | .float x => .done (.float (-x))
  | a => orMetamethod "unm" a a <|
    if isText a then
      match a.number? with
      | some v => .done (Numeral.negated v)
      | none => notNumerals "unm" a a
    else typeFault "perform arithmetic on" a oa

/-- The whole number that a number is. Bitwise operations do not take texts as numbers. -/
def wholeNumber? : Value → Option Int64
  | .integer n => some n
  | .float x => wholeOf? x
  | _ => none

/-- Operands of a bitwise operation are no whole numbers. -/
def bitFault (oa ob : Origin) (a b : Value) : Act α :=
  if isNumber a && isNumber b then
    let origin := if (wholeNumber? a).isNone then oa else ob
    .failHere (joined [bytes "number", origin.remark, bytes " has no integer representation"])
  else if isNumber a then typeFault "perform bitwise operation on" b ob
  else typeFault "perform bitwise operation on" a oa

def bitwise (op : BitOp) (oa ob : Origin) (a b : Value) : Act Value :=
  match wholeNumber? a, wholeNumber? b with
  | some x, some y => .done (.integer (Arithmetic.bits op x y))
  | _, _ => orMetamethod op.event a b (bitFault oa ob a b)

def bitNot (oa : Origin) (a : Value) : Act Value :=
  match wholeNumber? a with
  | some x => .done (.integer (~~~x))
  | none => orMetamethod "bnot" a a (bitFault oa oa a a)

/-! ## Texts -/

/-- Joins two operands. -/
def concat (oa ob : Origin) (a b : Value) : Act Value :=
  match a.text?, b.text? with
  | some x, some y => .done (.text (x ++ y))
  | some _, none => orMetamethod "concat" a b (typeFault "concatenate" b ob)
  | none, _ => orMetamethod "concat" a b (typeFault "concatenate" a oa)

/-- Joins an operand with the ones before it, the last of them first. -/
def concatBack (last : Value) (origin : Origin) : List (Value × Origin) → Act Value
  | [] => .done last
  | (a, oa) :: before =>
    (concat oa origin a last).bind fun v => concatBack v .unknown before

def length (origin : Origin) (v : Value) : Act Value :=
  .read fun s =>
    match v with
    | .text b => .done (.integer (Int64.ofNat b.size))
    | .table p =>
      match s.metamethod v "len" with
      | .nil => .done (.integer (Int64.ofNat (s.table p).length))
      | f => callMetamethod "len" f [v]
    | .object p =>
      match s.objects[p]? with
      | some (.grid t) => .done (.integer (Int64.ofNat t.rowCount))
      | _ => typeFault "get length of" v origin
    | v => typeFault "get length of" v origin

/-! ## Equality and order -/

def equal (a b : Value) : Act Bool :=
  if a.same b then .done true
  else
    match a, b with
    | .table _, .table _ => .read fun s =>
      match metamethodOf s "eq" a b with
      | .nil => .done false
      | f => (callMetamethod "eq" f [a, b]).bind fun v => .done v.isTrue
    | _, _ => .done false

/-- Two values have no order. -/
def orderFault (a b : Value) : Act α :=
  .read fun s =>
    let ta := s.typeNameOf a
    let tb := s.typeNameOf b
    .failHere <|
      if ta = tb then joined [bytes "attempt to compare two ", ta, bytes " values"]
      else joined [bytes "attempt to compare ", ta, bytes " with ", tb]

def compare (op : CompareOp) (a b : Value) : Act Bool :=
  match Arithmetic.compare? op a b with
  | some r => .done r
  | none => .read fun s =>
    match metamethodOf s op.event a b with
    | .nil => orderFault a b
    | f => (callMetamethod op.event f [a, b]).bind fun v => .done v.isTrue

/-! ## Host objects -/

/-- The name of a value's kind in a refused conversion. -/
def kindOf (s : Store) (v : Value) : String := (s.datum v).kind

/-- A key of a host object as text. -/
def keyText (s : Store) (event : String) (k : Value) : Except HostFailure String :=
  match HostObject.asText (s.datum k) with
  | .error (.conversion t) =>
    .error (.conversion ("bad argument #2 to `HostObject." ++ event ++ "`: " ++ t))
  | r => r

/-- The value under a name in the table that a host object hides. -/
def hiddenValue (s : Store) (hidden? : Option Nat) (key : String) : Option Value :=
  match hidden?.map fun p => (s.table p).getText (bytes key) with
  | none | some .nil => none
  | some v => some v

/-- Reads a member of a host object. -/
def member (name : String) (hidden? : Option Nat) (key : Value) : Act Value :=
  .read fun s =>
    match keyText s "__index" key with
    | .error f => .raise (.failure f)
    | .ok key =>
      match HostObject.reading s.registry (hiddenValue s hidden?) name key with
      | .property m => (Act.request (.get name m)).bind fun vs => .done (firstOf vs)
      | .method m => .newClosure (.member name m)
      | .shadowed v => .done v
      | .unknown => .raise (.failure (HostObject.noMember name key))

/-- Assigns a member of a host object. -/
def setMember (name : String) (key v : Value) : Act Unit :=
  .read fun s =>
    match keyText s "__newindex" key with
    | .error f => .raise (.failure f)
    | .ok key =>
      match HostObject.assignable s.registry name key with
      | .error f => .raise (.failure f)
      | .ok m => (Act.request (.set name m (s.datum v))).bind fun _ => .done ()

/-- The fields and methods of a table object. -/
def gridMember (t : Table) (key : Value) : Value :=
  match key with
  | .text name =>
    if name = bytes "row_count" then .integer (Int64.ofNat t.rowCount)
    else if name = bytes "column_count" then .integer (Int64.ofNat t.columnCount)
    else if name = bytes "columns" then .builtin .gridColumns
    else if name = bytes "column_type" then .builtin .gridColumnType
    else if name = bytes "get" then .builtin .gridGet
    else if name = bytes "rows" then .builtin .gridRows
    else .nil
  | _ => .nil

/-! ## Indexing -/

/-- How often indexing goes on to another value. -/
def indexChain : Nat := 2000

/-- The value under a key. -/
def indexIn : Nat → Origin → Value → Value → Act Value
  | 0, _, _, _ => .failHere (bytes "'__index' chain too long; possibly a loop")
  | fuel + 1, origin, v, k =>
    let goOn (f : Value) : Act Value :=
      match f with
      | .closure _ | .builtin _ => callMetamethod "index" f [v, k]
      | f => indexIn fuel .unknown f k
    .read fun s =>
      match v with
      | .table p =>
        let t := s.table p
        match (k.key?.map t.get).getD .nil with
        | .nil =>
          match s.metamethod v "index" with
          | .nil => .done .nil
          | f => goOn f
        | found => .done found
      | .object p =>
        match s.objects[p]? with
        | some (.space name hidden?) => member name hidden? k
        | some (.grid t) => .done (gridMember t k)
        | none => .done .nil
      | v =>
        match s.metamethod v "index" with
        | .nil => typeFault "index" v origin
        | f => goOn f

def index (origin : Origin) (v k : Value) : Act Value := indexIn indexChain origin v k

/-- Sets the value under a key of a table, without its metatable. -/
def rawSet (p : Nat) (k v : Value) : Act Unit :=
  match k.key? with
  | some key => .modify fun s => s.modifyTable p (·.set key v)
  | none =>
    .failHere (bytes (if k.isNil then "table index is nil" else "table index is NaN"))

/-- Sets the value under a key. -/
def setIndexIn : Nat → Origin → Value → Value → Value → Act Unit
  | 0, _, _, _, _ => .failHere (bytes "'__newindex' chain too long; possibly a loop")
  | fuel + 1, origin, o, k, v =>
    let goOn (f : Value) : Act Unit :=
      match f with
      | .closure _ | .builtin _ =>
        (Act.invoke f [o, k, v] (.named .metamethod (bytes "newindex"))).bind fun _ => .done ()
      | f => setIndexIn fuel .unknown f k v
    .read fun s =>
      match o with
      | .table p =>
        let t := s.table p
        match t.metatable? with
        | none => rawSet p k v
        | some m =>
          match (k.key?.map t.get).getD .nil, (s.table m).getText (bytes "__newindex") with
          | .nil, .nil => rawSet p k v
          | .nil, f => goOn f
          | _, _ => rawSet p k v
      | .object p =>
        match s.objects[p]? with
        | some (.space name _) => setMember name k v
        | _ => typeFault "index" o origin
      | o =>
        match s.metamethod o "newindex" with
        | .nil => typeFault "index" o origin
        | f => goOn f

def setIndex (origin : Origin) (o k v : Value) : Act Unit := setIndexIn indexChain origin o k v

/-! ## Values as texts -/

/-- A place as an address. -/
def address (base place : Nat) : String :=
  let ds := Nat.toDigits 16 (base + 32 * place)
  "0x" ++ String.ofList (List.replicate (14 - ds.length) '0' ++ ds)

/-- The text of a host object. -/
def objectText (s : Store) (p : Nat) : String :=
  match s.objects[p]? with
  | some (.space name _) => "<" ++ name ++ ">"
  | some (.grid t) =>
    "table(" ++ toString t.rowCount ++ " rows x " ++ toString t.columnCount ++ " columns)"
  | none => ""

/-- The text of a value without its metamethod. -/
def plainText (s : Store) : Value → Bytes
  | .nil => bytes "nil"
  | .boolean b => bytes (if b then "true" else "false")
  | .text b => b
  | .table p => joined [s.typeNameOf (.table p), bytes ": ", bytes (address 0x55d000000000 p)]
  | .closure p => bytes ("function: " ++ address 0x55e000000000 p)
  | .builtin b => bytes ("function: builtin: " ++ b.qualifiedName)
  | .object p => bytes (objectText s p)
  | .thread p => bytes ("thread: " ++ address 0x55f000000000 p)
  | .failure f => bytes f.caughtText
  | v => (v.numeral?).getD .empty

/-- The text of a value. -/
def text (v : Value) : Act Bytes :=
  .read fun s =>
    match s.metamethod v "tostring" with
    | .nil => .done (plainText s v)
    | f => (callMetamethod "tostring" f [v]).bind fun r =>
      match r with
      | .text b => .done b
      | r =>
        match r.numeral? with
        | some b => .done b
        | none => .fail (bytes "'__tostring' must return a string")

end Scriptorium.Script.Operation
