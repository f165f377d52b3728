import Scriptorium.Script.Syntax.Scan
import Scriptorium.Script.Syntax.Scope

/-!
# Reading scripts

The grammar, read from the tokens in one pass. The first fault ends the reading; its message names the token that
does not fit. Nesting is limited, and so is the number of variables of a function.
-/

namespace Scriptorium.Script

/-- Why a text is no script. -/
inductive SyntaxFault where
  | at (line : Nat) (message : Bytes)
  | tooDeep
  deriving DecidableEq, Inhabited

/-- The message of a fault in a script with a name. -/
def SyntaxFault.message (name : Bytes) : SyntaxFault → Bytes
  | .at line message => name ++ bytes (":" ++ toString line ++ ": ") ++ message
  | .tooDeep => bytes "C stack overflow"

namespace Read

structure State where
  tokens : List Lexed
  /-- The line of the last token that was taken. -/
  lastLine : Nat := 1
  functions : Array FunctionTree := #[]
  /-- The scopes of the functions, the innermost first. -/
  scopes : List Scope
  depth : Nat := 0

abbrev Reader := StateT State (Except SyntaxFault)

/-- How deep statements and expressions can be nested. -/
def depthLimit : Nat := 196

/-- How many variables of a function can be in sight. -/
def localLimit : Nat := 200

/-! ## Tokens -/

def current : Reader Lexed := return (← get).tokens.headD ⟨.endOfText, 0, bytes "<eof>"⟩

def currentToken : Reader Token := return (← current).token

def line : Reader Nat := return (← current).line

/-- Fails without naming the present token. -/
def fail (message : Bytes) : Reader α := do throw (.at (← line) message)

/-- Fails at the present token. -/
def failNear (message : Bytes) : Reader α := do
  fail (message ++ bytes " near " ++ (← current).shown)

/-- Fails if the present token is a fault. -/
def check : Reader Unit := do
  match ← currentToken with
  | .fault message => fail message
  | _ => pure ()

/-- Goes to the next token. -/
def advance : Reader Unit := do
  let l ← line
  modify fun s => { s with tokens := s.tokens.tail, lastLine := l }
  check

/-- Is the present token this keyword? -/
def atKeyword (k : Keyword) : Reader Bool := do
  match ← currentToken with
  | .keyword j => return j == k
  | _ => return false

/-- Is the present token this symbol? -/
def atSymbol (s : Symbol) : Reader Bool := do
  match ← currentToken with
  | .symbol t => return t == s
  | _ => return false

/-- Takes a symbol if it is there. -/
def takeSymbol (s : Symbol) : Reader Bool := do
  if ← atSymbol s then
    advance
    return true
  else return false

def takeKeyword (k : Keyword) : Reader Bool := do
  if ← atKeyword k then
    advance
    return true
  else return false

/-- Fails because another token was expected. -/
def failExpecting (t : Token) : Reader α := failNear (t.expected ++ bytes " expected")

def expectSymbol (s : Symbol) : Reader Unit := do
  unless ← takeSymbol s do failExpecting (.symbol s)

def expectKeyword (k : Keyword) : Reader Unit := do
  unless ← takeKeyword k do failExpecting (.keyword k)

/-- Fails because a token that closes another one was expected. -/
def failClosing (closing opening : Token) (start : Nat) : Reader α := do
  if (← line) = start then failExpecting closing
  else
    failNear (closing.expected ++ bytes " expected (to close " ++ opening.expected ++
      bytes (" at line " ++ toString start ++ ")"))

def closeSymbol (closing opening : Symbol) (start : Nat) : Reader Unit := do
  unless ← takeSymbol closing do failClosing (.symbol closing) (.symbol opening) start

def closeKeyword (closing opening : Keyword) (start : Nat) : Reader Unit := do
  unless ← takeKeyword closing do failClosing (.keyword closing) (.keyword opening) start

def expectName : Reader Bytes := do
  match ← currentToken with
  | .name s =>
    advance
    return s
  | _ => failExpecting (.name .empty)

/-! ## Scopes -/

def scope : Reader Scope := return (← get).scopes.headD {}

def modifyScope (f : Scope → Scope) : Reader Unit :=
  modify fun s =>
    match s.scopes with
    | c :: outer => { s with scopes := f c :: outer }
    | [] => s

/-- Changes the scope, with a result. -/
def changeScope (f : Scope → α × Scope) : Reader α := do
  let (a, c) := f (← scope)
  modifyScope fun _ => c
  return a

def newSlot : Reader Nat := changeScope Scope.newSlot

def newSlots : Nat → Reader (List Nat)
  | 0 => return []
  | n + 1 => do
    let slot ← newSlot
    return slot :: (← newSlots n)

def newLabel : Reader Nat := changeScope fun s => (s.nextLabel, { s with nextLabel := s.nextLabel + 1 })

/-- Makes sure that so many more variables can come into sight. -/
def checkLocals (more : Nat) : Reader Unit := do
  let s ← scope
  if localLimit < s.locals.length + more then
    let place :=
      if s.line = 0 then "main function" else "function at line " ++ toString s.line
    failNear (bytes ("too many local variables (limit is " ++ toString localLimit ++ ") in " ++ place))

/-- Brings a variable into sight and gives its slot. -/
def declare (name : Bytes) (readOnly : Bool) : Reader Nat := do
  let slot ← newSlot
  modifyScope (·.bring name slot readOnly)
  return slot

/-- Looks a name up. -/
def meaning (name : Bytes) : Reader Meaning := do
  let s ← get
  let (m, scopes) := Scope.resolve name s.scopes
  set { s with scopes }
  return m

/-- The variable, constant or global that a name stands for. -/
def variableNamed (name : Bytes) : Reader Expr := do
  let l ← line
  match ← meaning name with
  | .reference v _ => return .var v
  | .constant v => return .constant name v
  | .global =>
    match ← meaning environmentName with
    | .reference v _ => return .index (.var v) (.literal (.text name)) l
    | .constant v => return .index (.constant environmentName v) (.literal (.text name)) l
    | .global => return .literal .nil

/-- Fails if the expression is a variable that cannot be assigned. -/
def checkAssignable (e : Expr) : Reader Unit := do
  let refuse (name : Bytes) : Reader Unit :=
    fail (bytes "attempt to assign to const variable '" ++ name ++ bytes "'")
  match e with
  | .var v =>
    let name := match v with
      | .slot _ name | .captured _ name => name
    match ← meaning name with
    | .reference _ true => refuse name
    | _ => pure ()
  | .constant name _ => refuse name
  | _ => pure ()

/-! ## Labels -/

/-- A goto whose label is still to come. -/
def addPending (name? : Option Bytes) (gotoLine : Nat) : Reader Stat := do
  let number ← changeScope fun s =>
    (s.nextGoto, { s with
      nextGoto := s.nextGoto + 1
      pending := ⟨name?, s.nextGoto, gotoLine, s.locals.length⟩ :: s.pending })
  return .goto number gotoLine

/-- A goto to a label that is known. -/
def addLeap (label closing gotoLine : Nat) : Reader Stat := do
  let number ← changeScope fun s =>
    (s.nextGoto, { s with
      nextGoto := s.nextGoto + 1
      leaps := ⟨s.nextGoto, label, closing⟩ :: s.leaps })
  return .goto number gotoLine

def gotoLabel (name : Bytes) (gotoLine : Nat) : Reader Stat := do
  match (← scope).labels.find? (·.name == name) with
  | some l => addLeap l.number l.closing gotoLine
  | none => addPending (some name) gotoLine

def breakLoop (breakLine : Nat) : Reader Stat := do
  match (← scope).loop? with
  | some (label, closing) => addLeap label closing breakLine
  | none => addPending none breakLine

/-- Fails if a label of this name is in sight. -/
def checkNewLabel (name : Bytes) : Reader Unit := do
  match (← scope).labels.find? (·.name == name) with
  | some l =>
    fail (bytes "label '" ++ name ++ bytes ("' already defined on line " ++ toString l.line))
  | none => pure ()

/-- A label. At the end of its block the variables of the block count as out of sight already. -/
def addLabel (name : Bytes) (labelLine : Nat) (isLast : Bool) : Reader Stat := do
  let number ← newLabel
  let s ← scope
  let l : Label :=
    if isLast then ⟨name, number, labelLine, s.blockInSight, s.blockClosing⟩
    else ⟨name, number, labelLine, s.locals.length, s.closing⟩
  match s.settle l with
  | .ok s => modifyScope fun _ => { s with labels := l :: s.labels }
  | .error (g, crossed) =>
    fail (bytes "<goto " ++ name ++ bytes ("> at line " ++ toString g.line ++
      " jumps into the scope of local '") ++ crossed ++ bytes "'")
  return .label number

/-- Fails for the first goto of a function whose label never came. -/
def checkPending : Reader Unit := do
  match (← scope).pending.getLast? with
  | none => pure ()
  | some ⟨none, _, l, _⟩ => fail (bytes ("break outside loop at line " ++ toString l))
  | some ⟨some name, _, l, _⟩ =>
    fail (bytes "no visible label '" ++ name ++ bytes ("' for <goto> at line " ++ toString l))

/-! ## Levels -/

/-- Goes one level deeper. -/
def deeper (r : Reader α) : Reader α := do
  if depthLimit ≤ (← get).depth then throw .tooDeep
  modify fun s => { s with depth := s.depth + 1 }
  let a ← r
  modify fun s => { s with depth := s.depth - 1 }
  return a

/-! ## Operators -/

def unaryOp? : Token → Option UnaryOp
  | .keyword .not => some .not
  | .symbol .minus => some .negate
  | .symbol .tilde => some .bitNot
  | .symbol .hash => some .length
  | _ => none

/-- An operator with how strongly it binds to its left and to its right. -/
def binaryOp? : Token → Option (BinaryOp × Nat × Nat)
  | .symbol .plus => some (.arith .add, 10, 10)
  | .symbol .minus => some (.arith .sub, 10, 10)
  | .symbol .star => some (.arith .mul, 11, 11)
  | .symbol .percent => some (.arith .mod, 11, 11)
  | .symbol .slash => some (.arith .div, 11, 11)
  | .symbol .doubleSlash => some (.arith .intDiv, 11, 11)
  | .symbol .caret => some (.arith .pow, 14, 13)
  | .symbol .ampersand => some (.bitwise .and, 6, 6)
  | .symbol .tilde => some (.bitwise .xor, 5, 5)
  | .symbol .bar => some (.bitwise .or, 4, 4)
  | .symbol .shiftLeft => some (.bitwise .shiftLeft, 7, 7)
  | .symbol .shiftRight => some (.bitwise .shiftRight, 7, 7)
  | .symbol .concat => some (.concat, 9, 8)
  | .symbol .equal => some (.equal, 3, 3)
  | .symbol .notEqual => some (.notEqual, 3, 3)
  | .symbol .less => some (.less, 3, 3)
  | .symbol .lessEqual => some (.lessEqual, 3, 3)
  | .symbol .greater => some (.greater, 3, 3)
  | .symbol .greaterEqual => some (.greaterEqual, 3, 3)
  | .keyword .and => some (.and, 2, 2)
  | .keyword .or => some (.or, 1, 1)
  | _ => none

/-- How strongly the operators with one operand bind. -/
def unaryPriority : Nat := 12

/-- An operation; joined operands are kept in one list. -/
def operation (op : BinaryOp) (a b : Expr) (l : Nat) : Expr :=
  match op, b with
  | .concat, .concat operands _ => .concat (a :: operands) l
  | .concat, b => .concat [a, b] l
  | op, b => .binary op a b l

/-! ## Functions -/

/-- Does the present token end a block? -/
def endsBlock (withUntil : Bool) : Reader Bool := do
  match ← currentToken with
  | .keyword .else | .keyword .elseif | .keyword .end | .endOfText => return true
  | .keyword .until => return withUntil
  | _ => return false

/-- Enters a function. -/
def enterFunction (start : Nat) (isVariadic : Bool) : Reader Unit :=
  modify fun s => { s with scopes := { line := start, isVariadic } :: s.scopes }

/-- Leaves a function and gives its number. -/
def leaveFunction (parameters : Nat) (body : List Stat) : Reader Nat := do
  checkPending
  let c ← scope
  let tree : FunctionTree :=
    { parameters, isVariadic := c.isVariadic, slots := c.slots, shared := c.shared,
      captures := c.captures.map (·.source), leaps := c.leaps, body, lastLine := (← get).lastLine }
  let number := (← get).functions.size
  modify fun s => { s with scopes := s.scopes.tail, functions := s.functions.push tree }
  return number

/-- Leaves a block; values that it has to close are closed at its end. -/
def leaveBlock (before : Scope) (body : List Stat) : Reader (List Stat) := do
  let s ← scope
  let l := (← get).lastLine
  modifyScope (·.leave before)
  return if before.closing < s.closing then body ++ [.closeDownTo before.closing l] else body

/-- The attribute of a variable that is being declared. -/
def variableMark : Reader (Option Bytes) := do
  if ← takeSymbol .less then
    let name ← expectName
    expectSymbol .greater
    return some name
  else return none

/-- Names with attributes, as a declaration lists them. -/
def declaredNames : Nat → Nat → Reader (List (Bytes × Option Bytes))
  | 0, _ => throw .tooDeep
  | fuel + 1, count => do
    checkLocals (count + 1)
    let name ← expectName
    let mark? ← variableMark
    match mark? with
    | none => pure ()
    | some a =>
      unless a == bytes "const" || a == bytes "close" do
        fail (bytes "unknown attribute '" ++ a ++ bytes "'")
    if ← takeSymbol .comma then
      return (name, mark?) :: (← declaredNames fuel (count + 1))
    else return [(name, mark?)]

/-- The names of parameters, and whether more arguments are taken. -/
def parameterNames : Nat → Reader (List Bytes × Bool)
  | 0 => throw .tooDeep
  | fuel + 1 => do
    match ← currentToken with
    | .name s =>
      advance
      if ← takeSymbol .comma then
        let (names, more) ← parameterNames fuel
        return (s :: names, more)
      else return ([s], false)
    | .symbol .dots =>
      advance
      return ([], true)
    | _ => failNear (bytes "<name> or '...' expected")

/-- Names with commas between them. -/
def moreNames : Nat → Reader (List Bytes)
  | 0 => throw .tooDeep
  | fuel + 1 => do
    if ← takeSymbol .comma then
      let name ← expectName
      return name :: (← moreNames fuel)
    else return []

/-- The constant that a declaration gives to its last variable, if that is known without running the script. -/
def constantOf? (names : List (Bytes × Option Bytes)) (values : List Expr) : Option Value :=
  match names.getLast?, values.getLast? with
  | some (_, some mark), some (.literal v) =>
    if mark == bytes "const" && names.length == values.length then some v else none
  | _, _ => none

/-- Brings declared variables into sight, and marks those that are to be closed. -/
def declareAll (l : Nat) : List (Bytes × Option Bytes) → Reader (List Nat × List Stat)
  | [] => return ([], [])
  | (name, mark?) :: rest => do
    let slot ← declare name mark?.isSome
    let isClosing := mark? == some (bytes "close")
    if isClosing then modifyScope fun s => { s with closing := s.closing + 1 }
    let (slots, closings) ← declareAll l rest
    return (slot :: slots, if isClosing then .closing slot name l :: closings else closings)

end Read

end Scriptorium.Script
