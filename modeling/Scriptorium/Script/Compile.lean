import Scriptorium.Script.Syntax.Grammar

/-!
# From trees to code

The code of an expression leaves its values on top of the stack and touches nothing below. The code of a
statement leaves the stack as it was. Code is put together from the code of its parts; only gotos need to know
where their labels come to lie.
-/

namespace Scriptorium.Script

/-- Instructions with their lines. -/
abbrev Code := List (Instr × Nat)

namespace Compile

/-- One instruction. -/
def one (line : Nat) (i : Instr) : Code := [(i, line)]

/-- The value of a variable. -/
def load (shared : List Nat) : VariableRef → Instr
  | .slot n _ => if shared.contains n then .getCell n else .getSlot n
  | .captured i _ => .getCaptured i

/-- Sets a variable to the value on top. -/
def save (shared : List Nat) : VariableRef → Instr
  | .slot n _ => if shared.contains n then .setCell n else .setSlot n
  | .captured i _ => .setCaptured i

/-- Makes a variable with the value on top. -/
def fresh (shared : List Nat) (slot : Nat) : Instr :=
  if shared.contains slot then .newCell slot else .setSlot slot

/-- Does the last of the expressions give all its values? -/
def spreads (es : List Expr) : Bool := (es.getLast?).any Expr.isMulti

/-- How many values the expressions before one that spreads give. -/
def counted (es : List Expr) : Nat := if spreads es then es.length - 1 else es.length

/-- Values for the operands that are missing. -/
def nils (line n : Nat) : Code := List.replicate n (.push .nil, line)

/-- The operation of an operator on two operands. -/
def binaryCode (op : BinaryOp) (oa ob : Origin) (line : Nat) : Code :=
  match op with
  | .arith op => one line (.arith op oa ob)
  | .bitwise op => one line (.bitwise op oa ob)
  | .concat => one line (.concat [oa, ob])
  | .equal => one line .equal
  | .notEqual => [(.equal, line), (.not, line)]
  | .less => one line (.compare .less)
  | .lessEqual => one line (.compare .lessEqual)
  | .greater => [(.swap, line), (.compare .less, line)]
  | .greaterEqual => [(.swap, line), (.compare .lessEqual, line)]
  | .and | .or => []

def unaryCode (op : UnaryOp) (oa : Origin) (line : Nat) : Code :=
  match op with
  | .negate => one line (.negate oa)
  | .not => one line .not
  | .length => one line (.length oa)
  | .bitNot => one line (.bitNot oa)

mutual

/-- The code of an expression. Only a call or `...` can give other than one value. -/
def expression (shared : List Nat) (want : Want) : Expr → Code
  | .literal v | .constant _ v => one 0 (.push v)
  | .varargs => one 0 (.varargs want)
  | .var v => one 0 (load shared v)
  | .index o k line =>
    expression shared (.exactly 1) o ++ expression shared (.exactly 1) k ++
      one line (.index o.origin)
  | .call f args line =>
    expression shared (.exactly 1) f ++ expressions shared args ++
      one line (.call (counted args) (spreads args) want f.origin)
  | .method o name args line =>
    expression shared (.exactly 1) o ++ one line (.method name o.origin) ++
      expressions shared args ++
      one line (.call (counted args + 1) (spreads args) want (.named .method name))
  | .function n => one 0 (.closure n)
  | .paren e => expression shared (.exactly 1) e
  | .unary op a line => expression shared (.exactly 1) a ++ unaryCode op a.origin line
  | .binary op a b line =>
    let left := expression shared (.exactly 1) a
    let right := expression shared (.exactly 1) b
    match op with
    | .and => left ++ one line (.jumpKeepingFalse right.length) ++ right
    | .or => left ++ one line (.jumpKeepingTrue right.length) ++ right
    | op => left ++ right ++ binaryCode op a.origin b.origin line
  | .concat operands line =>
    singles shared operands ++ one line (.concat (operands.map Expr.origin))
  | .table fields line => one line .newTable ++ tableFields shared line 1 fields

/-- The code of expressions of which the last one gives all its values. -/
def expressions (shared : List Nat) : List Expr → Code
  | [] => []
  | [e] => expression shared .all e
  | e :: es => expression shared (.exactly 1) e ++ expressions shared es

/-- The code of expressions with one value each. -/
def singles (shared : List Nat) : List Expr → Code
  | [] => []
  | e :: es => expression shared (.exactly 1) e ++ singles shared es

/-- The code of the fields of a table, whose next item has a number. -/
def tableFields (shared : List Nat) (line next : Nat) : List TableField → Code
  | [] => []
  | [.item e] =>
    expression shared .all e ++
      one line (if e.isMulti then .initItems next 0 true else .initItems next 1 false)
  | .item e :: fields =>
    expression shared (.exactly 1) e ++ one line (.initItems next 1 false) ++
      tableFields shared line (next + 1) fields
  | .entry k v :: fields =>
    expression shared (.exactly 1) k ++ expression shared (.exactly 1) v ++ one line .initField ++
      tableFields shared line next fields

end

/-- The code of expressions adjusted to a number of values. -/
def exactly (shared : List Nat) (line : Nat) : Nat → List Expr → Code
  | n, [] => nils line n
  | n, [e] =>
    if e.isMulti then expression shared (.exactly n) e
    else
      match n with
      | 0 => expression shared (.exactly 1) e ++ one line (.drop 1)
      | n + 1 => expression shared (.exactly 1) e ++ nils line n
  | 0, e :: es => expression shared (.exactly 1) e ++ one line (.drop 1) ++ exactly shared line 0 es
  | n + 1, e :: es => expression shared (.exactly 1) e ++ exactly shared line n es

/-- The object and key of a target that is no variable. -/
def targetCode (shared : List Nat) : Expr → Code
  | .index o k _ => expression shared (.exactly 1) o ++ expression shared (.exactly 1) k
  | _ => []

/-- Sets a target to the value on top, below which its object and key lie. -/
def assignCode (shared : List Nat) (line : Nat) : Expr → Code
  | .var v => one line (save shared v)
  | .index o _ _ => one line (.setIndex o.origin)
  | _ => one line (.drop 1)

/-- The code of an assignment. Several values are kept in temporaries, from which the last target takes its
value first. -/
def assignment (shared : List Nat) (targets values : List Expr) (temporaries : List Nat)
    (line : Nat) : Code :=
  let places := targets.flatMap (targetCode shared)
  match targets, temporaries with
  | [target], _ => places ++ exactly shared line 1 values ++ assignCode shared line target
  | targets, temporaries =>
    places ++ exactly shared line targets.length values ++
      temporaries.reverse.map (fun t => (.setSlot t, line)) ++
      (targets.zip temporaries).reverse.flatMap fun (target, t) =>
        one line (.getSlot t) ++ assignCode shared line target

mutual

/-- The code of a statement. -/
def statement (shared : List Nat) : Stat → Code
  | .expression (.call f args line) =>
    expression shared (.exactly 0) (.call f args line)
  | .expression (.method o name args line) =>
    expression shared (.exactly 0) (.method o name args line)
  | .expression e => expression shared (.exactly 1) e ++ one 0 (.drop 1)
  | .assign targets values temporaries line => assignment shared targets values temporaries line
  | .declare slots values line =>
    exactly shared line slots.length values ++
      slots.reverse.map fun slot => (fresh shared slot, line)
  | .declareFunction slot n =>
    [(.push .nil, 0), (fresh shared slot, 0), (.closure n, 0),
      (save shared (.slot slot .empty), 0)]
  | .closing slot name line =>
    [(load shared (.slot slot name), line), (.markClosing name, line)]
  | .closeDownTo count line => one line (.closeDownTo count)
  | .block body => statements shared body
  | .whileLoop condition body line =>
    let test := expression shared (.exactly 1) condition
    let body := statements shared body
    test ++ one line (.jumpUnless (body.length + 1)) ++ body ++
      one line (.jumpBack (test.length + body.length + 1))
  | .repeatLoop body condition close line =>
    let round := statements shared body ++ expression shared (.exactly 1) condition ++
      statements shared close
    round ++
      [(.jumpUnless 1, line), (.jump 1, line), (.jumpBack (round.length + 2), line)]
  | .branch condition yes no line =>
    let yes := statements shared yes
    let no := statements shared no
    let test := expression shared (.exactly 1) condition
    if no.isEmpty then test ++ one line (.jumpUnless yes.length) ++ yes
    else
      test ++ one line (.jumpUnless (yes.length + 1)) ++ yes ++ one line (.jump no.length) ++ no
  | .count base control start limit step body forLine line =>
    let round := [(.getSlot base, line), (fresh shared control, line)] ++ statements shared body
    singles shared [start, limit, step] ++
      [(.setSlot (base + 2), line), (.setSlot (base + 1), line), (.setSlot base, line)] ++
      one line (.forPrepare base (round.length + 1)) ++ round ++
      one forLine (.forStep base round.length)
  | .iterate base controls values body line =>
    let first := load shared (.slot (controls.headD 0) .empty)
    let take := one line (.forCall base controls.length) ++
      controls.reverse.map (fun c => (fresh shared c, line)) ++ one line first
    let body := statements shared body
    exactly shared line 4 values ++
      [(.setSlot (base + 3), line), (.setSlot (base + 2), line), (.setSlot (base + 1), line),
        (.setSlot base, line), (.getSlot (base + 3), line),
        (.markClosing (bytes "(for state)"), line)] ++
      take ++ one line (.forCheck base (body.length + 1)) ++ body ++
      one line (.jumpBack (take.length + body.length + 1))
  | .label n => one 0 (.label n)
  | .goto n line => one line (.goto n)
  | .result [.call f args line] true _ =>
    expression shared (.exactly 1) f ++ expressions shared args ++
      [(.tailCall (counted args) (spreads args) f.origin, line), (.result 0 true, line)]
  | .result [.method o name args line] true _ =>
    expression shared (.exactly 1) o ++ one line (.method name o.origin) ++
      expressions shared args ++
      [(.tailCall (counted args + 1) (spreads args) (.named .method name), line),
        (.result 0 true, line)]
  | .result values _ line =>
    expressions shared values ++ one line (.result (counted values) (spreads values))

def statements (shared : List Nat) : List Stat → Code
  | [] => []
  | s :: rest => statement shared s ++ statements shared rest

end

/-- Where a label lies. -/
def positionOf (code : Array (Instr × Nat)) (label : Nat) : Nat :=
  (code.findIdx? fun (i, _) => match i with
    | .label n => n == label
    | _ => false).getD code.size

/-- Gives gotos their places. -/
def link (leaps : List Leap) (code : Code) : Array (Instr × Nat) :=
  let code := code.toArray
  code.map fun (i, line) =>
    match i with
    | .goto n =>
      match leaps.find? (·.goto == n) with
      | some l => (.leap l.closing (positionOf code l.label), line)
      | none => (.goto n, line)
    | i => (i, line)

/-- The code of a function. Parameters that are captured move to cells first. -/
def function (f : FunctionTree) : Proto :=
  let captured := (List.range f.parameters).filter f.shared.contains
  let entry := captured.flatMap fun slot => [(Instr.getSlot slot, 0), (.newCell slot, 0)]
  let code := link f.leaps (entry ++ statements f.shared f.body ++ one f.lastLine (.result 0 false))
  { code := code.map (·.1), lines := code.map (·.2), slots := f.slots, parameters := f.parameters,
    isVariadic := f.isVariadic, captures := f.captures, hasCells := !f.shared.isEmpty }

end Compile

/-- How many bytes of a script's name messages show. -/
def shownName : Nat := 59

/-- Compiles a script. -/
def compile (name text : Bytes) : Except Bytes Chunk :=
  let name := name.extract 0 shownName
  match readScript text with
  | .ok functions => .ok ⟨name, functions.map Compile.function⟩
  | .error fault => .error (fault.message name)

end Scriptorium.Script
