import Scriptorium.Script.Syntax.Read

/-!
# The grammar of scripts

Each rule of the grammar is a reader. Rules call each other at most a few times for each token, which bounds the
fuel that reading a whole script needs.
-/

namespace Scriptorium.Script.Read

mutual

/-- An operand with the operators after it that bind more strongly than `limit`. -/
def subexpression : Nat → Nat → Reader Expr
  | 0, _ => throw .tooDeep
  | fuel + 1, limit => deeper do
    let l ← line
    let first ← match unaryOp? (← currentToken) with
      | some op =>
        advance
        let a ← subexpression fuel unaryPriority
        pure (.unary op a l)
      | none => simpleExpression fuel
    operators fuel limit first

/-- Goes on with the operators after an operand. -/
def operators : Nat → Nat → Expr → Reader Expr
  | 0, _, _ => throw .tooDeep
  | fuel + 1, limit, a => do
    match binaryOp? (← currentToken) with
    | none => return a
    | some (op, left, right) =>
      if left ≤ limit then return a
      let l ← line
      advance
      let b ← subexpression fuel right
      operators fuel limit (operation op a b l)

def expression : Nat → Reader Expr
  | 0 => throw .tooDeep
  | fuel + 1 => subexpression fuel 0

def simpleExpression : Nat → Reader Expr
  | 0 => throw .tooDeep
  | fuel + 1 => do
    match ← currentToken with
    | .number v =>
      advance
      return .literal v
    | .text b =>
      advance
      return .literal (.text b)
    | .keyword .nil =>
      advance
      return .literal .nil
    | .keyword .true =>
      advance
      return .literal (.boolean true)
    | .keyword .false =>
      advance
      return .literal (.boolean false)
    | .symbol .dots =>
      unless (← scope).isVariadic do
        failNear (bytes "cannot use '...' outside a vararg function")
      advance
      return .varargs
    | .symbol .openBrace => tableExpression fuel
    | .keyword .function =>
      let l ← line
      advance
      return .function (← functionBody fuel false l)
    | _ => suffixedExpression fuel

/-- A name or an expression in parentheses. -/
def primaryExpression : Nat → Reader Expr
  | 0 => throw .tooDeep
  | fuel + 1 => do
    match ← currentToken with
    | .name s =>
      advance
      variableNamed s
    | .symbol .openParen =>
      let l ← line
      advance
      let e ← expression fuel
      closeSymbol .closeParen .openParen l
      return .paren e
    | _ => failNear (bytes "unexpected symbol")

def suffixedExpression : Nat → Reader Expr
  | 0 => throw .tooDeep
  | fuel + 1 => do
    let e ← primaryExpression fuel
    suffixes fuel e

/-- Goes on with the fields, keys and calls after an expression. -/
def suffixes : Nat → Expr → Reader Expr
  | 0, _ => throw .tooDeep
  | fuel + 1, e => do
    match ← currentToken with
    | .symbol .dot =>
      advance
      let l ← line
      let name ← expectName
      suffixes fuel (.index e (.literal (.text name)) l)
    | .symbol .openBracket =>
      let key ← keyInBrackets fuel
      suffixes fuel (.index e key (← get).lastLine)
    | .symbol .colon =>
      advance
      let name ← expectName
      let l ← line
      let args ← arguments fuel
      suffixes fuel (.method e name args l)
    | .symbol .openParen | .text _ | .symbol .openBrace =>
      let l ← line
      let args ← arguments fuel
      suffixes fuel (.call e args l)
    | _ => return e

def keyInBrackets : Nat → Reader Expr
  | 0 => throw .tooDeep
  | fuel + 1 => do
    advance
    let key ← expression fuel
    expectSymbol .closeBracket
    return key

def arguments : Nat → Reader (List Expr)
  | 0 => throw .tooDeep
  | fuel + 1 => do
    match ← currentToken with
    | .text b =>
      advance
      return [.literal (.text b)]
    | .symbol .openBrace => return [← tableExpression fuel]
    | .symbol .openParen =>
      let l ← line
      advance
      if ← takeSymbol .closeParen then return []
      let es ← expressions fuel
      closeSymbol .closeParen .openParen l
      return es
    | _ => failNear (bytes "function arguments expected")

/-- Expressions with commas between them. -/
def expressions : Nat → Reader (List Expr)
  | 0 => throw .tooDeep
  | fuel + 1 => do
    let e ← expression fuel
    if ← takeSymbol .comma then return e :: (← expressions fuel) else return [e]

def tableExpression : Nat → Reader Expr
  | 0 => throw .tooDeep
  | fuel + 1 => do
    let l ← line
    expectSymbol .openBrace
    let fields ← tableFields fuel
    closeSymbol .closeBrace .openBrace l
    return .table fields l

def tableFields : Nat → Reader (List TableField)
  | 0 => throw .tooDeep
  | fuel + 1 => do
    if ← atSymbol .closeBrace then return []
    let field ← tableField fuel
    if (← takeSymbol .comma) || (← takeSymbol .semicolon) then
      return field :: (← tableFields fuel)
    else return [field]

def tableField : Nat → Reader TableField
  | 0 => throw .tooDeep
  | fuel + 1 => do
    match ← currentToken, (← get).tokens.tail.head? with
    | .name s, some ⟨.symbol .assign, _, _⟩ =>
      advance
      advance
      return .entry (.literal (.text s)) (← expression fuel)
    | .symbol .openBracket, _ =>
      let key ← keyInBrackets fuel
      expectSymbol .assign
      return .entry key (← expression fuel)
    | _, _ => return .item (← expression fuel)

/-- A function after its name: its parameters and its body. -/
def functionBody : Nat → Bool → Nat → Reader Nat
  | 0, _, _ => throw .tooDeep
  | fuel + 1, isMethod, start => do
    enterFunction start false
    expectSymbol .openParen
    let (names, isVariadic) ←
      if ← atSymbol .closeParen then pure ([], false) else parameterNames fuel
    let names := if isMethod then bytes "self" :: names else names
    let _ ← declareAll start (names.map (·, none))
    modifyScope fun s => { s with isVariadic }
    expectSymbol .closeParen
    let body ← statements fuel
    closeKeyword .end .function start
    leaveFunction names.length body

/-- The statements up to the end of a block. -/
def statements : Nat → Reader (List Stat)
  | 0 => throw .tooDeep
  | fuel + 1 => do
    if ← endsBlock true then return []
    if ← atKeyword .return then statement fuel
    else
      let first ← statement fuel
      return first ++ (← statements fuel)

/-- A block of its own. -/
def block : Nat → Reader (List Stat)
  | 0 => throw .tooDeep
  | fuel + 1 => do
    let before ← scope
    modifyScope Scope.enter
    let body ← statements fuel
    leaveBlock before body

/-- A block that a break leaves, with the label that breaks lead to. -/
def loopBlock : Nat → Reader (List Stat × Stat)
  | 0 => throw .tooDeep
  | fuel + 1 => do
    let label ← newLabel
    let before ← scope
    modifyScope fun s => { s.enter with loop? := some (label, s.closing) }
    let body ← statements fuel
    return (← leaveBlock before body, .label label)

def statement : Nat → Reader (List Stat)
  | 0 => throw .tooDeep
  | fuel + 1 => deeper do
    let l ← line
    match ← currentToken with
    | .symbol .semicolon =>
      advance
      return []
    | .keyword .if =>
      let s ← branches fuel l
      return [s]
    | .keyword .while =>
      advance
      let condition ← expression fuel
      expectKeyword .do
      let (body, exit) ← loopBlock fuel
      closeKeyword .end .while l
      return [.whileLoop condition body l, exit]
    | .keyword .do =>
      advance
      let body ← block fuel
      closeKeyword .end .do l
      return [.block body]
    | .keyword .for =>
      advance
      forLoop fuel l
    | .keyword .repeat =>
      advance
      repeatLoop fuel l
    | .keyword .function =>
      advance
      namedFunction fuel l
    | .keyword .local =>
      advance
      if ← takeKeyword .function then
        checkLocals 1
        let name ← expectName
        let slot ← declare name false
        let bodyLine ← line
        return [.declareFunction slot (← functionBody fuel false bodyLine)]
      else localVariables fuel
    | .symbol .doubleColon =>
      advance
      let name ← expectName
      checkNewLabel name
      expectSymbol .doubleColon
      labelled fuel name l
    | .keyword .return =>
      advance
      returned fuel l
    | .keyword .break =>
      advance
      return [← breakLoop l]
    | .keyword .goto =>
      advance
      let nameLine ← line
      let name ← expectName
      return [← gotoLabel name nameLine]
    | _ => expressionStatement fuel

/-- A condition with its block, and what follows it up to the end. -/
def branches : Nat → Nat → Reader Stat
  | 0, _ => throw .tooDeep
  | fuel + 1, start => do
    let l ← line
    advance
    let condition ← expression fuel
    expectKeyword .then
    let yes ← block fuel
    if ← atKeyword .elseif then
      return .branch condition yes [← branches fuel start] l
    else if ← takeKeyword .else then
      let no ← block fuel
      closeKeyword .end .if start
      return .branch condition yes no l
    else
      closeKeyword .end .if start
      return .branch condition yes [] l

def repeatLoop : Nat → Nat → Reader (List Stat)
  | 0, _ => throw .tooDeep
  | fuel + 1, start => do
    let label ← newLabel
    let before ← scope
    modifyScope fun s => { s.enter with loop? := some (label, s.closing) }
    let body ← statements fuel
    closeKeyword .until .repeat start
    let condition ← expression fuel
    let close ← leaveBlock before []
    return [.repeatLoop body condition close start, .label label]

def forLoop : Nat → Nat → Reader (List Stat)
  | 0, _ => throw .tooDeep
  | fuel + 1, start => do
    let name ← expectName
    match ← currentToken with
    | .symbol .assign =>
      advance
      let first ← expression fuel
      expectSymbol .comma
      let limit ← expression fuel
      let step ←
        if ← takeSymbol .comma then expression fuel else pure (.literal (.integer 1))
      let before ← scope
      let base ← newSlots 3
      expectKeyword .do
      let doLine := (← get).lastLine
      let control ← declare name false
      let (body, exit) ← loopBlock fuel
      modifyScope (·.leave { before with pending := [] })
      closeKeyword .end .for start
      return [.count (base.headD 0) control first limit step body start doLine, exit]
    | .symbol .comma | .keyword .in =>
      let more ← moreNames fuel
      expectKeyword .in
      let l ← line
      let values ← expressions fuel
      let before ← scope
      let base ← newSlots 4
      modifyScope fun s => { s with closing := s.closing + 1 }
      expectKeyword .do
      let (controls, _) ← declareAll l ((name :: more).map (·, none))
      let (body, exit) ← loopBlock fuel
      modifyScope (·.leave { before with pending := [] })
      closeKeyword .end .for start
      return [.iterate (base.headD 0) controls values body l, exit,
        .closeDownTo before.closing start]
    | _ => failNear (bytes "'=' or 'in' expected")

/-- The function that a name with fields is assigned. -/
def namedFunction : Nat → Nat → Reader (List Stat)
  | 0, _ => throw .tooDeep
  | fuel + 1, start => do
    let name ← expectName
    let target ← variableNamed name
    let (target, isMethod) ← functionFields fuel target
    let body ← functionBody fuel isMethod start
    checkAssignable target
    return [.assign [target] [.function body] [] start]

/-- The fields after the name of a function; the last one may make it a method. -/
def functionFields : Nat → Expr → Reader (Expr × Bool)
  | 0, _ => throw .tooDeep
  | fuel + 1, e => do
    if ← takeSymbol .dot then
      let l ← line
      let name ← expectName
      functionFields fuel (.index e (.literal (.text name)) l)
    else if ← takeSymbol .colon then
      let l ← line
      let name ← expectName
      return (.index e (.literal (.text name)) l, true)
    else return (e, false)

def localVariables : Nat → Reader (List Stat)
  | 0 => throw .tooDeep
  | fuel + 1 => do
    let names ← declaredNames fuel 0
    if 1 < (names.filter (·.2 == some (bytes "close"))).length then
      fail (bytes "multiple to-be-closed variables in local list")
    let values ← if ← takeSymbol .assign then expressions fuel else pure []
    let l := (← get).lastLine
    match constantOf? names values, names.getLast? with
    | some v, some (name, _) =>
      let (slots, closings) ← declareAll l names.dropLast
      modifyScope fun s => { s with locals := ⟨name, .constant v, true⟩ :: s.locals }
      return .declare slots values.dropLast l :: closings
    | _, _ =>
      let (slots, closings) ← declareAll l names
      return .declare slots values l :: closings

/-- A label; the statements after it that do nothing do not make it less than the last of its block. -/
def labelled : Nat → Bytes → Nat → Reader (List Stat)
  | 0, _, _ => throw .tooDeep
  | fuel + 1, name, l => do
    let rest ← emptyStatements fuel
    checkNewLabel name
    let here ← addLabel name l (← endsBlock false)
    return rest ++ [here]

/-- Empty statements and further labels. -/
def emptyStatements : Nat → Reader (List Stat)
  | 0 => throw .tooDeep
  | fuel + 1 => do
    if (← atSymbol .semicolon) || (← atSymbol .doubleColon) then
      let first ← statement fuel
      return first ++ (← emptyStatements fuel)
    else return []

/-- The values that a function gives back. -/
def returned : Nat → Nat → Reader (List Stat)
  | 0, _ => throw .tooDeep
  | fuel + 1, l => do
    let values ←
      if (← endsBlock true) || (← atSymbol .semicolon) then pure [] else expressions fuel
    let _ ← takeSymbol .semicolon
    return [.result values ((← scope).closing == 0) l]

/-- A call or an assignment. -/
def expressionStatement : Nat → Reader (List Stat)
  | 0 => throw .tooDeep
  | fuel + 1 => do
    let e ← suffixedExpression fuel
    if (← atSymbol .assign) || (← atSymbol .comma) then assignment fuel [] e
    else
      match e with
      | .call .. | .method .. => return [.expression e]
      | _ => failNear (bytes "syntax error")

/-- An assignment after its targets, which are given with the newest first. -/
def assignment : Nat → List Expr → Expr → Reader (List Stat)
  | 0, _, _ => throw .tooDeep
  | fuel + 1, before, target => do
    match target with
    | .var _ | .constant .. | .index .. => checkAssignable target
    | _ => failNear (bytes "syntax error")
    if ← takeSymbol .comma then
      let next ← suffixedExpression fuel
      deeper (assignment fuel (target :: before) next)
    else
      expectSymbol .assign
      let values ← expressions fuel
      let targets := (target :: before).reverse
      let temporaries ← if before.isEmpty then pure [] else newSlots targets.length
      return [.assign targets values temporaries (← get).lastLine]

end

/-- The scope of a whole script, which captures the global variables. -/
def mainScope : Scope :=
  { isVariadic := true, captures := [⟨environmentName, .slot 0, false⟩] }

/-- The functions of a whole script; the last one is the script itself. -/
def script (fuel : Nat) : Reader (Array FunctionTree) := do
  check
  let body ← statements fuel
  match ← currentToken with
  | .endOfText => pure ()
  | _ => failExpecting .endOfText
  let _ ← leaveFunction 0 body
  return (← get).functions

end Read

/-- Reads a script. -/
def readScript (text : Bytes) : Except SyntaxFault (Array FunctionTree) :=
  let tokens := scan text
  ((Read.script (24 * (tokens.length + 8))).run { tokens, scopes := [Read.mainScope] }).map (·.1)

end Scriptorium.Script
