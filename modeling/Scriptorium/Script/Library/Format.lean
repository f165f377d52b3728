import Scriptorium.Script.Library.Argument

/-!
# Formatted texts

A format is text with directives. A directive has flags, a width, a precision and a letter that says how its
argument is written.
-/

namespace Scriptorium.Script.Library.Format

open Operation Args

structure Directive where
  left : Bool := false
  plus : Bool := false
  space : Bool := false
  alternate : Bool := false
  zero : Bool := false
  width : Nat := 0
  precision? : Option Nat := none
  letter : Char
  deriving DecidableEq, Repr, Inhabited

/-! ## Reading a directive -/

def flagChars : List Char := ['-', '+', ' ', '#', '0']

/-- The characters of a directive before its letter. -/
def modifiers (cs : List Char) : List Char :=
  cs.takeWhile fun c => flagChars.contains c || c.isDigit || c = '.'

/-- How long a directive can be. -/
def directiveLimit : Nat := 21

/-- The flags, width and precision of a directive, if they are of the form that its letter takes. -/
def readModifiers? (letter : Char) (flags : List Char) (withPrecision : Bool) (cs : List Char) :
    Option Directive :=
  let used := cs.takeWhile flags.contains
  let rest := cs.drop used.length
  let width := (rest.take 2).takeWhile Char.isDigit
  let rest := rest.drop width.length
  let (precision?, rest) := match rest with
    | '.' :: more =>
      if withPrecision then
        let ds := (more.take 2).takeWhile Char.isDigit
        (some (valueInBase 10 ds), more.drop ds.length)
      else (none, rest)
    | rest => (none, rest)
  if rest.isEmpty then
    some
      { left := used.contains '-', plus := used.contains '+', space := used.contains ' ',
        alternate := used.contains '#', zero := used.contains '0',
        width := valueInBase 10 width, precision?, letter }
  else none

/-- The flags that a letter takes, and whether it takes a precision; nothing for a letter without meaning. -/
def accepted? (letter : Char) : Option (List Char × Bool) :=
  match letter with
  | 'c' | 'p' => some (['-'], false)
  | 'd' | 'i' => some (['-', '+', ' ', '0'], true)
  | 'u' => some (['-', '0'], true)
  | 'o' | 'x' | 'X' => some (['-', '#', '0'], true)
  | 'a' | 'A' | 'e' | 'E' | 'f' | 'F' | 'g' | 'G' => some (flagChars, true)
  | 's' => some (['-'], true)
  | 'q' => some ([], false)
  | _ => none

/-! ## Writing -/

/-- Fills a text up to the width, with zeros after its sign if there are to be any. -/
def padded (d : Directive) (zeros : Bool) (sign body : List Char) : List Char :=
  let missing := d.width - (sign.length + body.length)
  if d.left then sign ++ body ++ List.replicate missing ' '
  else if zeros then sign ++ List.replicate missing '0' ++ body
  else List.replicate missing ' ' ++ sign ++ body

def signOf (d : Directive) (negative : Bool) : List Char :=
  if negative then ['-'] else if d.plus then ['+'] else if d.space then [' '] else []

/-- Digits filled with zeros up to the precision; zero with no precision is no digit at all. -/
def precise (d : Directive) (ds : List Char) : List Char :=
  match d.precision? with
  | some 0 => if ds = ['0'] then [] else ds
  | some p => List.replicate (p - ds.length) '0' ++ ds
  | none => ds

def decimalText (d : Directive) (n : Int64) : List Char :=
  padded d (d.zero && d.precision?.isNone) (signOf d (n < 0)) (precise d (Decimal.digits n.toInt.natAbs))

/-- A whole number without sign in a base. -/
def unsignedText (d : Directive) (base : Nat) (n : Int64) : List Char :=
  let u := n.toUInt64.toNat
  let ds := precise d (Nat.toDigits base u)
  let mark := if d.alternate && u != 0 then (if base = 16 then ['0', 'x'] else ['0']) else []
  let text := padded d (d.zero && d.precision?.isNone) mark ds
  if d.letter = 'X' then text.map Char.toUpper else text

def floatText (d : Directive) (x : Float) : List Char :=
  let sign := signOf d (Decimal.isNegative x)
  let b := Decimal.decode x
  let precision := d.precision?.getD 6
  let body :=
    if x.isNaN then "nan".toList
    else if x.isInf then "inf".toList
    else
      match d.letter.toLower with
      | 'e' => b.scientific d.alternate precision
      | 'f' => b.fixed d.alternate precision
      | 'a' => b.hexadecimal
      | _ => b.general d.alternate precision
  let text := padded d (d.zero && !x.isNaN && !x.isInf) (if x.isNaN then ['-'] else sign) body
  if d.letter.isUpper then text.map Char.toUpper else text

/-- A text that reads back as itself: with escapes for quotes, line ends and control characters. -/
def quotedChars : List Char → List Char
  | [] => []
  | c :: cs =>
    let rest := quotedChars cs
    if c = '"' || c = '\\' || c = '\n' then '\\' :: c :: rest
    else if c.toNat < 32 || c.toNat = 127 then
      if (cs.head?).any Char.isDigit then '\\' :: Decimal.paddedDigits 3 c.toNat ++ rest
      else '\\' :: Decimal.digits c.toNat ++ rest
    else c :: rest

/-- A float that reads back as itself. -/
def literalFloat (x : Float) : List Char :=
  if x.isNaN then "(0/0)".toList
  else if x.isInf then (if Decimal.isNegative x then "-1e9999" else "1e9999").toList
  else (if Decimal.isNegative x then ['-'] else []) ++ (Decimal.decode x).hexadecimal

/-- A value as it is written in a script. -/
def literal? : Value → Option (List Char)
  | .text b => some ('"' :: quotedChars (charsOf b) ++ ['"'])
  | .integer n =>
    some (if n = Int64.minValue then "0x8000000000000000".toList else (toString n.toInt).toList)
  | .float x => some (literalFloat x)
  | .nil => some "nil".toList
  | .boolean b => some (if b then "true" else "false").toList
  | _ => none

/-- The text of a directive for its argument. -/
def write (c : Callee) (args : List Value) (i : Nat) (d : Directive) : Act (List Char) := do
  match d.letter with
  | 'c' =>
    let n ← integer c args i
    return padded d false [] [Char.ofNat n.toUInt64.toUInt8.toNat]
  | 'd' | 'i' => return decimalText d (← integer c args i)
  | 'u' => return unsignedText d 10 (← integer c args i)
  | 'o' => return unsignedText d 8 (← integer c args i)
  | 'x' | 'X' => return unsignedText d 16 (← integer c args i)
  | 's' =>
    let cs := charsOf (← Operation.text (value args i))
    return padded d false [] (match d.precision? with
      | some p => cs.take p
      | none => cs)
  | 'q' =>
    match literal? (value args i) with
    | some cs => return cs
    | none => c.argumentFault i (bytes "value has no literal form")
  | 'p' => return padded d false [] "(null)".toList
  | _ => return floatText d (← float c args i)

/-- A directive cannot be read. -/
def directiveFault (before : String) (cs : List Char) (after : String) : Act α :=
  .fail (Operation.joined [bytes before, bytesOf ('%' :: cs), bytes after])

/-- The text of a format after `done`, of which the directives before argument `i` are written. The fuel is at
least the length of the format. -/
def expand (c : Callee) (args : List Value) : Nat → Nat → List Char → List Char → Act (List Char)
  | 0, _, done, _ | _, _, done, [] => .done done.reverse
  | fuel + 1, i, done, '%' :: '%' :: cs => expand c args fuel i ('%' :: done) cs
  | fuel + 1, i, done, '%' :: cs => do
    if args.length < i then c.argumentFault i (bytes "no value")
    let ms := modifiers cs
    if directiveLimit < ms.length then Act.fail (bytes "invalid format string to 'format'")
    match cs.drop ms.length with
    | [] => directiveFault "invalid conversion '" ms "' to 'format'"
    | letter :: rest =>
      match accepted? letter with
      | none => directiveFault "invalid conversion '" (ms ++ [letter]) "' to 'format'"
      | some (flags, withPrecision) =>
        if letter = 'q' && !ms.isEmpty then
          Act.fail (bytes "specifier '%q' cannot have modifiers")
        match readModifiers? letter flags withPrecision ms with
        | none => directiveFault "invalid conversion specification: '" (ms ++ [letter]) "'"
        | some d =>
          let text ← write c args i d
          expand c args fuel (i + 1) (text.reverse ++ done) rest
  | fuel + 1, i, done, ch :: cs => expand c args fuel i (ch :: done) cs

end Format

/-- A text with values put into it. -/
def textFormat (c : Callee) (args : List Value) : Act (List Value) := do
  let format := charsOf (← Args.text c args 1)
  return [.text (bytesOf (← Format.expand c args format.length 2 [] format))]

end Scriptorium.Script.Library
