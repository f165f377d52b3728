import Scriptorium.Text.Bytes

/-!
# Arguments

A command line is read from left to right: options with one dash and a letter or two dashes and a name, some
of which take a value, and other words. After `--` everything is a word. What an option takes as its value
can be attached to it or follow it; then it must not start with a dash.
-/

namespace Scriptorium.Command

/-- An option that a command knows. -/
structure OptionSpec where
  name : String
  letter? : Option Char := none
  takesValue : Bool := false
  repeatable : Bool := false
  /-- Can the text be its value? -/
  accepts : String → Bool := fun _ => true

/-- What is wrong with a command line. -/
inductive ArgumentFault where
  | unknownOption (text : String)
  | missingValue (name : String)
  | unwantedValue (name : String)
  | invalidValue (name value : String)
  | repeatedOption (name : String)
  | unexpectedWord (word : String)
  | missingWord (name : String)
  | missingOption (name because : String)
  | missingCommand
  | unknownCommand (name : String)
  deriving DecidableEq, Repr, Inhabited

def ArgumentFault.message : ArgumentFault → String
  | .unknownOption text => "unexpected argument '" ++ text ++ "' found"
  | .missingValue name => "a value is required for '--" ++ name ++ "' but none was supplied"
  | .unwantedValue name => "unexpected value for '--" ++ name ++ "' found; no value is allowed"
  | .invalidValue name value => "invalid value '" ++ value ++ "' for '" ++ name ++ "'"
  | .repeatedOption name => "the argument '--" ++ name ++ "' cannot be used multiple times"
  | .unexpectedWord word => "unexpected argument '" ++ word ++ "' found"
  | .missingWord name => "the argument <" ++ name ++ "> is required"
  | .missingOption name because => "'--" ++ because ++ "' requires '--" ++ name ++ "'"
  | .missingCommand => "a command is required"
  | .unknownCommand name => "unrecognized command '" ++ name ++ "'"

/-- Why a command line leads to no command. -/
inductive Detour where
  | help
  | version
  | fault (f : ArgumentFault)
  deriving DecidableEq, Repr, Inhabited

/-- An argument by its look. -/
inductive Argument where
  | separator
  | long (name : String) (value? : Option String)
  | short (letters : List Char)
  | word
  deriving DecidableEq, Repr

/-- An argument that is a lone dash is a word. -/
def Argument.ofText (text : String) : Argument :=
  match text.toList with
  | ['-', '-'] => .separator
  | '-' :: '-' :: cs =>
    let name := String.ofList (cs.takeWhile (· != '='))
    match cs.dropWhile (· != '=') with
    | _ :: value => .long name (some (String.ofList value))
    | [] => .long name none
  | '-' :: c :: cs => .short (c :: cs)
  | _ => .word

/-- The options and words read so far. -/
structure Arguments where
  options : List (String × String) := []
  words : List String := []
  deriving DecidableEq, Repr, Inhabited

namespace Arguments

def value? (a : Arguments) (name : String) : Option String := a.options.lookup name

def values (a : Arguments) (name : String) : List String :=
  (a.options.filter (·.1 == name)).map (·.2)

def has (a : Arguments) (name : String) : Bool := (a.value? name).isSome

end Arguments

/-- What may stand on a command line. -/
structure LineSpec where
  options : List OptionSpec
  /-- How many words there can be. -/
  wordLimit : Nat
  /-- Does the first word start a command with a line of its own? -/
  hasCommands : Bool := false

/-- The options that every line has or that only a line with commands has; they end the reading. -/
def detour? (spec : LineSpec) (name : String) : Option Detour :=
  if name = "help" then some .help
  else if name = "version" ∧ spec.hasCommands then some .version
  else none

def detourOfLetter? (spec : LineSpec) (letter : Char) : Option Detour :=
  if letter = 'h' then some .help
  else if letter = 'V' ∧ spec.hasCommands then some .version
  else none

/-- Reading in progress; an option may still wait for its value. -/
structure Reading where
  arguments : Arguments := {}
  pending? : Option OptionSpec := none

namespace Reading

/-- An option with its value, which is empty for one that takes none. -/
def add (r : Reading) (o : OptionSpec) (value : String) : Except Detour Reading :=
  if r.arguments.has o.name && !o.repeatable then .error (.fault (.repeatedOption o.name))
  else if o.takesValue && !o.accepts value then .error (.fault (.invalidValue o.name value))
  else
    .ok { arguments := { r.arguments with options := r.arguments.options ++ [(o.name, value)] } }

def addWord (spec : LineSpec) (r : Reading) (word : String) : Except Detour Reading :=
  if r.arguments.words.length < spec.wordLimit then
    .ok { r with arguments := { r.arguments with words := r.arguments.words ++ [word] } }
  else .error (.fault (.unexpectedWord word))

/-- An option by its name, with the value attached to it. -/
def addLong (spec : LineSpec) (r : Reading) (name : String) (value? : Option String) :
    Except Detour Reading :=
  match detour? spec name, spec.options.find? (·.name == name), value? with
  | some detour, _, none => .error detour
  | some _, _, some _ => .error (.fault (.unwantedValue name))
  | none, none, _ => .error (.fault (.unknownOption ("--" ++ name)))
  | none, some o, some value =>
    if o.takesValue then r.add o value else .error (.fault (.unwantedValue name))
  | none, some o, none => if o.takesValue then .ok { r with pending? := some o } else r.add o ""

/-- Options by their letters; what follows the letter of one that takes a value is its value. -/
def addShort (spec : LineSpec) : Reading → List Char → Except Detour Reading
  | r, [] => .ok r
  | r, c :: cs =>
    match detourOfLetter? spec c, spec.options.find? (·.letter? == some c) with
    | some detour, _ => .error detour
    | none, none => .error (.fault (.unknownOption (String.ofList ['-', c])))
    | none, some o =>
      if o.takesValue then
        match cs with
        | [] => .ok { r with pending? := some o }
        | '=' :: value => r.add o (String.ofList value)
        | value => r.add o (String.ofList value)
      else (r.add o "").bind fun r => addShort spec r cs

/-- Reads a line. A word that starts a command ends it; what begins there is left over. -/
def readLine (spec : LineSpec) : Reading → List String → Except Detour (Arguments × List String)
  | r, [] =>
    match r.pending? with
    | some o => .error (.fault (.missingValue o.name))
    | none => .ok (r.arguments, [])
  | r, text :: rest =>
    match r.pending?, Argument.ofText text with
    | some o, .word => (r.add o text).bind fun r => readLine spec r rest
    | some o, _ => .error (.fault (.missingValue o.name))
    | none, .word =>
      if spec.hasCommands then .ok (r.arguments, text :: rest)
      else (r.addWord spec text).bind fun r => readLine spec r rest
    | none, .separator => (rest.foldlM (addWord spec) r).map fun r => (r.arguments, [])
    | none, .long name value? => (r.addLong spec name value?).bind fun r => readLine spec r rest
    | none, .short letters => (r.addShort spec letters).bind fun r => readLine spec r rest

end Reading

end Scriptorium.Command
