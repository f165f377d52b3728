import Scriptorium.Script.Library.Standard
import Scriptorium.Script.Compile

/-!
# The machine

The machine runs code and carries out acts, one step at a time. What waits for a result lies on a list of
frames, so that neither deep calls nor errors need anything outside the machine's state. It pauses when it asks
the host something, and when it is finished.
-/

namespace Scriptorium.Script

/-- A function of a script while it runs. -/
structure Activation where
  chunk : Chunk
  proto : Proto
  /-- The number of the next instruction. -/
  next : Nat := 0
  slots : Array Value
  /-- The places of the cells in slots whose variables are captured. -/
  cells : Array Nat
  captured : Array Nat
  /-- The operands, the last one first. -/
  stack : List Value := []
  /-- How many of the operands the last spreading expression has left. -/
  spread : Nat := 0
  varargs : List Value
  /-- The values to be closed, newest first. -/
  closing : List Value := []
  deriving Inhabited

/-- What waits for the results of what runs now. -/
inductive Frame where
  | script (a : Activation) (want : Want)
  /-- The border of a library function. -/
  | library
  | resume (k : List Value → Act (List Value))
  /-- Catches errors. -/
  | guard (k : Except Value (List Value) → Act (List Value))
  /-- A function that closes its values before it gives back its results, or before it hands on an error. -/
  | giving (a : Activation) (results : List Value)
  | failing (a : Activation) (e : Value)

inductive Control where
  | run (a : Activation)
  | act (x : Act (List Value))
  | deliver (vs : List Value)
  | raise (e : Value)
  | finished (r : Except Value (List Value))

instance : Inhabited Control := ⟨.deliver []⟩

structure Machine where
  store : Store
  control : Control
  frames : List Frame := []
  /-- How many functions of scripts wait, and how many library functions and acts. -/
  depth : Nat := 0
  inner : Nat := 0
  deriving Inhabited

/-- How many functions of scripts can wait for each other. -/
def depthLimit : Nat := 190000

/-- How many library functions and acts can wait for each other. -/
def innerLimit : Nat := 195

/-! ## Operands -/

/-- Takes operands off the stack; they come in the order in which they were pushed. -/
def takeOperands : Nat → List Value → List Value → List Value × List Value
  | 0, taken, stack => (taken, stack)
  | n + 1, taken, v :: stack => takeOperands n (v :: taken) stack
  | _ + 1, taken, [] => (taken, [])

/-- Pushes exactly so many of the values, with `nil` for those that are missing. -/
def pushExactly : Nat → List Value → List Value → List Value
  | 0, _, stack => stack
  | n + 1, [], stack => pushExactly n [] (.nil :: stack)
  | n + 1, v :: vs, stack => pushExactly n vs (v :: stack)

namespace Activation

def push (a : Activation) (v : Value) : Activation := { a with stack := v :: a.stack }

/-- Pushes the results that are wanted. -/
def pushResults (a : Activation) (want : Want) (vs : List Value) : Activation :=
  match want with
  | .exactly n => { a with stack := pushExactly n vs a.stack }
  | .all => { a with stack := vs.reverse ++ a.stack, spread := vs.length }

/-- Takes so many operands, and those of the last spreading expression. -/
def take (a : Activation) (count : Nat) (spread : Bool) : List Value × Activation :=
  let n := if spread then count + a.spread else count
  let (vs, stack) := takeOperands n [] a.stack
  (vs, { a with stack })

def slot (a : Activation) (n : Nat) : Value := a.slots.getD n .nil

def setSlot (a : Activation) (n : Nat) (v : Value) : Activation :=
  { a with slots := a.slots.set! n v }

def cellAt (a : Activation) (n : Nat) : Nat := a.cells.getD n 0

def capturedAt (a : Activation) (i : Nat) : Nat := a.captured.getD i 0

/-- Goes on at an instruction. -/
def goTo (a : Activation) (n : Nat) : Activation := { a with next := n }

/-- Skips instructions. -/
def skip (a : Activation) (n : Nat) : Activation := { a with next := a.next + n }

/-- The place in the script where a function is. -/
def place (a : Activation) : Bytes :=
  a.chunk.name ++ bytes (":" ++ toString (a.proto.lines.getD (a.next - 1) 0) ++ ": ")

end Activation

/-- The place of the function so many levels up; empty for a library function. -/
def placeAt : List Frame → Nat → Bytes
  | [], _ => .empty
  | .script a _ :: frames, n =>
    match n with
    | 0 => a.place
    | n + 1 => placeAt frames n
  | .library :: frames, n =>
    match n with
    | 0 => .empty
    | n + 1 => placeAt frames n
  | _ :: frames, n => placeAt frames n

/-! ## Calls -/

/-- The slots of a function with its arguments in them, and the arguments that are left. -/
def bindArguments : Nat → Nat → List Value → Array Value → Array Value × List Value
  | 0, _, args, slots => (slots, args)
  | _ + 1, _, [], slots => (slots, [])
  | n + 1, i, v :: args, slots => bindArguments n (i + 1) args (slots.set! i v)

/-- A function of a script as it starts. -/
def activate (chunk : Chunk) (proto : Proto) (captured : Array Nat) (args : List Value) :
    Activation :=
  let (slots, rest) :=
    bindArguments proto.parameters 0 args (Array.replicate proto.slots .nil)
  { chunk, proto, slots, captured
    cells := if proto.hasCells then Array.replicate proto.slots 0 else #[]
    varargs := if proto.isVariadic then rest else [] }

/-- Calls a method of the host. -/
def callMember (namespaceName : String) (m : Member) (args : List Value) : Act (List Value) := do
  let ds ← Act.data args
  Act.request (.call namespaceName m (HostObject.withoutSelf ds))

/-- What calling a value that is no function does. -/
def callOther (f : Value) (origin : Origin) (args : List Value) : Act (List Value) :=
  .read fun s =>
    match s.metamethod f "call" with
    | .nil => Operation.typeFault "call" f origin
    | g => .call g .unknown (f :: args) .done

namespace Machine

/-- The machine with an act to carry out. -/
def acting (m : Machine) (x : Act (List Value)) : Machine := { m with control := .act x }

/-- The machine with one more frame on top. -/
def pushFrame (m : Machine) (f : Frame) : Machine :=
  match f with
  | .script .. => { m with frames := f :: m.frames, depth := m.depth + 1 }
  | .resume _ | .guard _ => { m with frames := f :: m.frames, inner := m.inner + 1 }
  | f => { m with frames := f :: m.frames }

/-- Starts a library function. -/
def startLibrary (m : Machine) (x : Act (List Value)) : Machine :=
  (m.pushFrame .library).acting x

/-- Starts a call; its results go to the frame on top. -/
def enter (m : Machine) (f : Value) (origin : Origin) (args : List Value) : Machine :=
  if depthLimit ≤ m.depth then m.acting (.failHere (bytes "stack overflow"))
  else if innerLimit ≤ m.inner then m.acting (.failHere (bytes "C stack overflow"))
  else
    match f with
    | .builtin b => m.startLibrary (Library.perform ⟨b, origin⟩ args)
    | .closure p =>
      match m.store.closures[p]? with
      | some (.script chunk proto captured) =>
        { m with control := .run (activate chunk proto captured args) }
      | some (.member name member) => m.startLibrary (callMember name member args)
      | some (.matches text pattern next last?) =>
        m.startLibrary (Library.matchesStep p text pattern next last?)
      | none => m.acting (callOther f origin args)
    | f => m.acting (callOther f origin args)

/-- Goes on with the function that runs. -/
def going (m : Machine) (a : Activation) : Machine := { m with control := .run a }

/-- Carries out an act for the function that runs, which wants its results. -/
def operate (m : Machine) (a : Activation) (want : Want) (x : Act (List Value)) : Machine :=
  (m.pushFrame (.script a want)).acting x

/-- Carries out an act that gives one operand. -/
def operateOne (m : Machine) (a : Activation) (x : Act Value) : Machine :=
  m.operate a (.exactly 1) (x.bind fun v => .done [v])

/-- Carries out a test. -/
def operateTest (m : Machine) (a : Activation) (x : Act Bool) : Machine :=
  m.operate a (.exactly 1) (x.bind fun b => .done [.boolean b])

/-! ## Closing -/

/-- Closes a value with an error or `nil`. -/
def closeValue (v e : Value) : Act (List Value) :=
  if v.isTrue then
    .read fun s => .call (s.metamethod v "close") (.named .metamethod (bytes "close")) [v, e] .done
  else .done []

/-- Gives back results, after the values of the function are closed. -/
def give (m : Machine) (a : Activation) (vs : List Value) : Machine :=
  match a.closing with
  | [] => { m with control := .deliver vs }
  | v :: rest => (m.pushFrame (.giving { a with closing := rest } vs)).acting (closeValue v .nil)

/-- Hands on an error, after the values of the function are closed with it. -/
def handOn (m : Machine) (a : Activation) (e : Value) : Machine :=
  match a.closing with
  | [] => { m with control := .raise e }
  | v :: rest => (m.pushFrame (.failing { a with closing := rest } e)).acting (closeValue v e)

/-! ## Loops over numbers -/

/-- A value of a loop is no number. -/
def loopFault (what : String) (v : Value) : Act α :=
  .read fun s => .failHere
    (bytes ("bad 'for' " ++ what ++ " (number expected, got ") ++ s.typeNameOf v ++ bytes ")")

/-- The limit of a loop over whole numbers; nothing if there is no round. -/
def wholeLimit? (start step : Int64) (limit : Value) : Option Int64 :=
  let fit? : Option Int64 := match limit with
    | .integer n => some n
    | .float x =>
      if x.isNaN then none
      else
        let y := if step < 0 then x.ceil else x.floor
        if y < -9223372036854775808.0 then (if step < 0 then some Int64.minValue else none)
        else if 9223372036854775808.0 ≤ y then (if step < 0 then none else some Int64.maxValue)
        else some y.toInt64
    | _ => none
  fit?.bind fun n => if (if 0 < step then n < start else start < n) then none else some n

/-- How many more rounds a loop over whole numbers has after the first. -/
def roundsAfter (start limit step : Int64) : Int64 :=
  if 0 < step then ((limit.toUInt64 - start.toUInt64) / step.toUInt64).toInt64
  else ((start.toUInt64 - limit.toUInt64) / ((-(step + 1)).toUInt64 + 1)).toInt64

/-- The values that a loop keeps in its slots: nothing if there is no round. -/
inductive LoopStart where
  | none
  | values (start limit step : Value)
  | fault (what : String) (v : Value)
  | zeroStep

def loopStart (start limit step : Value) : LoopStart :=
  match start, step with
  | .integer first, .integer by_ =>
    if by_ = 0 then .zeroStep
    else
      match limit.number? with
      | some n =>
        match wholeLimit? first by_ n with
        | some last => .values start (.integer (roundsAfter first last by_)) step
        | none => .none
      | none => .fault "limit" limit
  | _, _ =>
    match limit.float?, step.float?, start.float? with
    | some last, some by_, some first =>
      if by_ == 0.0 then .zeroStep
      else if (if 0.0 < by_ then last < first else first < last) then .none
      else .values (.float first) (.float last) (.float by_)
    | none, _, _ => .fault "limit" limit
    | _, none, _ => .fault "step" step
    | _, _, none => .fault "initial value" start

/-- The counter and the limit of the next round, if there is one. -/
def loopStep (counter limit step : Value) : Option (Value × Value) :=
  match counter, limit, step with
  | .integer i, .integer left, .integer by_ =>
    if left = 0 then none else some (.integer (i + by_), .integer (left - 1))
  | .float x, .float last, .float by_ =>
    let x := x + by_
    if (if 0.0 < by_ then x ≤ last else last ≤ x) then some (.float x, limit) else none
  | _, _, _ => none

/-! ## Instructions -/

/-- The cells that a new function captures. -/
def capturedCells (a : Activation) (captures : List Capture) : Array Nat :=
  (captures.map fun
    | .slot n => a.cellAt n
    | .captured i => a.capturedAt i).toArray

/-- The operands of an operation. -/
def operands (a : Activation) : Value × Value × Activation :=
  match a.stack with
  | y :: x :: stack => (x, y, { a with stack })
  | [y] => (.nil, y, { a with stack := [] })
  | [] => (.nil, .nil, a)

/-- The operand on top. -/
def operand (a : Activation) : Value × Activation :=
  match a.stack with
  | x :: stack => (x, { a with stack })
  | [] => (.nil, a)

/-- The value under a key of a plain table, if there is one. -/
def plainIndex? (s : Store) (o k : Value) : Option Value :=
  match o, k with
  | .table p, .text name =>
    match (s.table p).getText name with
    | .nil => none
    | v => some v
  | .table p, .integer n =>
    match (s.table p).getInteger n with
    | .nil => none
    | v => some v
  | _, _ => none

/-- Puts the items of a new table from a position on. -/
def putItems (t : TableData) : Nat → List Value → TableData
  | _, [] => t
  | i, v :: vs => putItems (t.putItem i v) (i + 1) vs

/-- Calls a value with its arguments, all of which lie on the stack. -/
def callTop (m : Machine) (a : Activation) (arguments : Nat) (spread : Bool) (want : Want)
    (callee : Origin) : Machine :=
  let (args, a) := a.take arguments spread
  let (f, a) := operand a
  (m.pushFrame (.script a want)).enter f callee args

/-- Executes an instruction; the activation goes on after it. -/
def execute (m : Machine) (a : Activation) : Instr → Machine
  | .push v => m.going (a.push v)
  | .drop n => m.going { a with stack := a.stack.drop n }
  | .getSlot n => m.going (a.push (a.slot n))
  | .getCell n => m.going (a.push (m.store.cell (a.cellAt n)))
  | .getCaptured i => m.going (a.push (m.store.cell (a.capturedAt i)))
  | .setSlot n =>
    let (v, a) := operand a
    m.going (a.setSlot n v)
  | .setCell n =>
    let (v, a) := operand a
    { m with store := m.store.setCell (a.cellAt n) v, control := .run a }
  | .setCaptured i =>
    let (v, a) := operand a
    { m with store := m.store.setCell (a.capturedAt i) v, control := .run a }
  | .newCell n =>
    let (v, a) := operand a
    let (p, store) := m.store.newCell v
    { m with store, control := .run { a with cells := a.cells.set! n p } }
  | .newTable =>
    let (v, store) := m.store.newTable {}
    { m with store, control := .run (a.push v) }
  | .index origin =>
    let (o, k, a) := operands a
    match plainIndex? m.store o k with
    | some v => m.going (a.push v)
    | none => m.operateOne a (Operation.index origin o k)
  | .setIndex origin =>
    let (v, a) := operand a
    let (o, k, a) := operands a
    m.operate a (.exactly 0) ((Operation.setIndex origin o k v).bind fun _ => .done [])
  | .initField =>
    let (k, v, a) := operands a
    match a.stack with
    | .table p :: _ =>
      m.operate a (.exactly 0) ((Operation.rawSet p k v).bind fun _ => .done [])
    | _ => m.going a
  | .initItems first count spread =>
    let (vs, a) := a.take count spread
    match a.stack with
    | .table p :: _ =>
      { m with store := m.store.modifyTable p (putItems · first vs), control := .run a }
    | _ => m.going a
  | .method name origin =>
    let (o, a) := operand a
    m.operate a (.exactly 2)
      ((Operation.index origin o (.text name)).bind fun f => .done [f, o])
  | .closure n =>
    let proto := a.chunk.functions.getD n default
    let (v, store) := m.store.newClosure (.script a.chunk proto (capturedCells a proto.captures))
    { m with store, control := .run (a.push v) }
  | .arith op oa ob =>
    let (x, y, a) := operands a
    match Arithmetic.numbers? op x y with
    | some (.ok v) => m.going (a.push v)
    | _ => m.operateOne a (Operation.arith op oa ob x y)
  | .bitwise op oa ob =>
    let (x, y, a) := operands a
    m.operateOne a (Operation.bitwise op oa ob x y)
  | .bitNot origin =>
    let (x, a) := operand a
    m.operateOne a (Operation.bitNot origin x)
  | .negate origin =>
    let (x, a) := operand a
    m.operateOne a (Operation.negate origin x)
  | .length origin =>
    let (x, a) := operand a
    m.operateOne a (Operation.length origin x)
  | .not =>
    let (x, a) := operand a
    m.going (a.push (.boolean !x.isTrue))
  | .concat origins =>
    let (vs, a) := a.take origins.length false
    match (vs.zip origins).reverse with
    | (last, origin) :: before => m.operateOne a (Operation.concatBack last origin before)
    | [] => m.going a
  | .equal =>
    let (x, y, a) := operands a
    if x.same y then m.going (a.push (.boolean true))
    else m.operateTest a (Operation.equal x y)
  | .compare op =>
    let (x, y, a) := operands a
    match Arithmetic.compare? op x y with
    | some b => m.going (a.push (.boolean b))
    | none => m.operateTest a (Operation.compare op x y)
  | .swap =>
    let (x, y, a) := operands a
    m.going ((a.push y).push x)
  | .jump n => m.going (a.skip n)
  | .jumpBack n => m.going (a.goTo (a.next - 1 - n))
  | .jumpUnless n =>
    let (x, a) := operand a
    m.going (if x.isTrue then a else a.skip n)
  | .jumpKeepingFalse n =>
    let (x, rest) := operand a
    m.going (if x.isTrue then rest else a.skip n)
  | .jumpKeepingTrue n =>
    let (x, rest) := operand a
    m.going (if x.isTrue then a.skip n else rest)
  | .label _ | .goto _ => m.going a
  | .leap count target =>
    match a.closing with
    | v :: rest =>
      if count < a.closing.length then
        m.operate { a with next := a.next - 1, closing := rest } (.exactly 0) (closeValue v .nil)
      else m.going (a.goTo target)
    | [] => m.going (a.goTo target)
  | .call n spread want callee => m.callTop a n spread want callee
  | .tailCall n spread callee =>
    let (args, rest) := a.take n spread
    let (f, rest) := operand rest
    match f with
    | .closure p =>
      match m.store.closures[p]? with
      | some (.script chunk proto captured) => m.going (activate chunk proto captured args)
      | _ => (m.pushFrame (.script rest .all)).enter f callee args
    | f => (m.pushFrame (.script rest .all)).enter f callee args
  | .varargs want => m.going (a.pushResults want a.varargs)
  | .result n spread =>
    let (vs, a) := a.take n spread
    m.give a vs
  | .forPrepare base n =>
    match loopStart (a.slot base) (a.slot (base + 1)) (a.slot (base + 2)) with
    | .none => m.going (a.skip n)
    | .values start limit step =>
      m.going (((a.setSlot base start).setSlot (base + 1) limit).setSlot (base + 2) step)
    | .fault what v => m.operate a (.exactly 0) (loopFault what v)
    | .zeroStep => m.operate a (.exactly 0) (.failHere (bytes "'for' step is zero"))
  | .forStep base n =>
    match loopStep (a.slot base) (a.slot (base + 1)) (a.slot (base + 2)) with
    | some (counter, limit) =>
      m.going (((a.setSlot base counter).setSlot (base + 1) limit).goTo (a.next - 1 - n))
    | none => m.going a
  | .forCall base n =>
    (m.pushFrame (.script a (.exactly n))).enter (a.slot base)
      (.named .iterator (bytes "for iterator")) [a.slot (base + 1), a.slot (base + 2)]
  | .forCheck base n =>
    let (v, a) := operand a
    m.going (if v.isNil then a.skip n else a.setSlot (base + 2) v)
  | .markClosing name =>
    let (v, a) := operand a
    if v.isTrue && (m.store.metamethod v "close").isNil then
      m.operate a (.exactly 0)
        (.failHere (bytes "variable '" ++ name ++ bytes "' got a non-closable value"))
    else m.going { a with closing := v :: a.closing }
  | .closeDownTo count =>
    match a.closing with
    | v :: rest =>
      if count < a.closing.length then
        m.operate { a with next := a.next - 1, closing := rest } (.exactly 0) (closeValue v .nil)
      else m.going a
    | [] => m.going a

/-! ## Steps -/

/-- Takes the frame on top off, which waits for results or an error. -/
def popped (m : Machine) (f : Frame) (frames : List Frame) : Machine :=
  match f with
  | .script .. => { m with frames, depth := m.depth - 1 }
  | .resume _ | .guard _ => { m with frames, inner := m.inner - 1 }
  | _ => { m with frames }

/-- Hands results to the frame on top. -/
def delivered (m : Machine) (vs : List Value) : Machine :=
  match m.frames with
  | [] => { m with control := .finished (.ok vs) }
  | f :: frames =>
    let m := m.popped f frames
    match f with
    | .script a want => m.going (a.pushResults want vs)
    | .library => { m with control := .deliver vs }
    | .resume k => m.acting (k vs)
    | .guard k => m.acting (k (.ok vs))
    | .giving a results => m.give a results
    | .failing a e => m.handOn a e

/-- Hands an error to the frame on top. -/
def raised (m : Machine) (e : Value) : Machine :=
  match m.frames with
  | [] => { m with control := .finished (.error e) }
  | f :: frames =>
    let m := m.popped f frames
    match f with
    | .script a _ | .giving a _ | .failing a _ => m.handOn a e
    | .guard k => m.acting (k (.error e))
    | .library | .resume _ => { m with control := .raise e }

/-- One step. A machine that asks the host or is finished stays as it is. -/
def step (m : Machine) : Machine :=
  match m.control with
  | .run a =>
    -- The machine lets go of the activation, so that its slots can be changed in place.
    let m := { m with control := .deliver [] }
    match a.proto.code[a.next]? with
    | some i => m.execute { a with next := a.next + 1 } i
    | none => m.give a []
  | .act x =>
    match x with
    | .done vs => { m with control := .deliver vs }
    | .raise e => { m with control := .raise e }
    | .read k => m.acting (k m.store)
    | .change f k =>
      let (v, store) := f m.store
      { m with store, control := .act (k v) }
    | .call f origin args k => (m.pushFrame (.resume k)).enter f origin args
    | .protect f args k => (m.pushFrame (.guard k)).enter f .unknown args
    | .ask .. => m
    | .place n k => m.acting (k (placeAt m.frames n))
  | .deliver vs => m.delivered vs
  | .raise e => m.raised e
  | .finished _ => m

/-- What the machine asks of the host. -/
def request? (m : Machine) : Option Request :=
  match m.control with
  | .act (.ask r _) => some r
  | _ => none

/-- How the machine has finished. -/
def outcome? (m : Machine) : Option (Except Value (List Value)) :=
  match m.control with
  | .finished r => some r
  | _ => none

/-- Does the machine wait, so that a step does nothing? -/
def paused (m : Machine) : Bool := m.request?.isSome || m.outcome?.isSome

/-- Answers what the machine asks. -/
def answer (m : Machine) (r : Reply) : Machine :=
  match m.control with
  | .act (.ask _ k) => m.acting (k r)
  | _ => m

/-- Raises an error in the midst of what the machine does. -/
def interrupt (m : Machine) (e : Value) : Machine :=
  match m.control with
  | .run a => { m.pushFrame (.script a (.exactly 0)) with control := .raise e }
  | .finished _ => m
  | _ => { m with control := .raise e }

/-- Takes at most so many steps, until the machine waits; with the number of steps that are left. -/
def advance : Nat → Machine → Nat × Machine
  | 0, m => (0, m)
  | n + 1, m => if m.paused then (n + 1, m) else advance n m.step

/-- The machine with a call to make. -/
def start (store : Store) (x : Act (List Value)) : Machine := { store, control := .act x }

end Machine

end Scriptorium.Script
