import Scriptorium.Host.World
import Scriptorium.Host.Datum
import Scriptorium.HostLog.Policy
import Scriptorium.Delimited.Load
import Scriptorium.Disk.Glob
import Scriptorium.Numbers.Statistics
import Scriptorium.Text.Unseen

/-!
# Leaf services

A leaf service takes arguments from a script and may fail. Its failure never reaches the script: it is logged
once, as an API usage error with the name of the member, and the script gets the member's fallback. Only where the
host itself breaks off in a service there is nothing to fall back on.
-/

namespace Scriptorium

inductive UsageError where
  | missing (name : String)
  | wrongKind (name expected got : String)
  | notUtf8 (f : Text.Utf8Fault)
  | notNumber (index : Nat) (kind : String)
  | noNumbers
  | noTable
  | notTable (kind : String)
  | number (e : Numbers.NumberError)
  | table (e : TableError)
  | disk (path : String) (e : DiskError)
  | noSource (path : String)
  | targetExists (path : String)
  | isDirectory (path : String)
  | notFile (path : String)
  | pattern (pattern : String) (e : Glob.PatternError)

def UsageError.message : UsageError → String
  | .missing name => "missing argument '" ++ name ++ "'"
  | .wrongKind name expected got =>
    "argument '" ++ name ++ "' must be " ++ expected ++ ", got " ++ got
  | .notUtf8 f => (HostFailure.notUtf8 f).message
  | .notNumber index kind => "element " ++ toString index ++ " is not a number (" ++ kind ++ ")"
  | .noNumbers => "numbers must not be empty"
  | .noTable => "missing table argument"
  | .notTable kind => "expected a table object, got " ++ kind
  | .number e => e.message
  | .table e => e.message
  | .disk path e => path ++ ": " ++ e.message
  | .noSource path => "source file not found: " ++ path
  | .targetExists path => "destination exists: " ++ path ++ " (pass overwrite = true)"
  | .isDirectory path => path ++ " is a directory"
  | .notFile path => "not a file: " ++ path
  | .pattern text e => "invalid pattern " ++ Text.quoted text ++ ": " ++ e.message

/-- The text of a failed use of a member. -/
def usageText (call message : String) : String := call ++ ": " ++ message

/-- Why a leaf service gives no value. -/
inductive LeafFailure where
  | usage (e : UsageError)
  /-- The host has broken off. -/
  | crashed (text : String)

/-- A computation on the world that may fail; what it did before a failure stays done. -/
abbrev Leaf (α : Type) := World → Except LeafFailure α × World

namespace Leaf

instance : Monad Leaf where
  pure a w := (.ok a, w)
  bind f g w :=
    match f w with
    | (.ok a, w) => g a w
    | (.error e, w) => (.error e, w)

/-- Fails. -/
def fail (e : UsageError) : Leaf α := fun w => (.error (.usage e), w)

/-- Breaks off. -/
def crash (text : String) : Leaf α := fun w => (.error (.crashed text), w)

/-- An outcome that does not need the world. -/
def ofExcept (r : Except UsageError α) : Leaf α := fun w => (r.mapError .usage, w)

/-- The disk as it is. -/
def disk : Leaf Disk := fun w => (.ok w.disk, w)

/-- Logs what was done. -/
def info (message : String) : Leaf Unit := fun w => (.ok (), w.note .info message)

/-- Works on the disk; a failure is told with a path. -/
def onDisk (path : String) (f : Disk → Except DiskError α × Disk) : Leaf α := fun w =>
  let (r, disk) := f w.disk
  (r.mapError fun e => .usage (.disk path e), { w with disk })

/-- Works on the disk, where a failure changes nothing; it is told with a path. -/
def changeDisk (path : String) (f : Disk → Except DiskError Disk) : Leaf Unit :=
  onDisk path fun d =>
    match f d with
    | .ok d => (.ok (), d)
    | .error e => (.error e, d)

/-- The context that failures of leaf services are logged in. -/
def context : String := "api usage error"

/-- What the script gets of an outcome: a failure is logged under the member's name and replaced by the fallback. -/
def settled (call : String) (fallback : Datum) (r : Except UsageError Datum) (w : World) :
    Except HostFailure Datum × World :=
  let (d, log, disk) :=
    w.log.suppressed w.disk w.now context (fun e => usageText call e.message) fallback r
  (.ok d, { w with log, disk })

/-- The service as the script sees it. -/
def suppressed (call : String) (fallback : Datum) (service : Leaf Datum) (w : World) :
    Except HostFailure Datum × World :=
  match service w with
  | (.ok d, w) => settled call fallback (.ok d) w
  | (.error (.usage e), w) => settled call fallback (.error e) w
  | (.error (.crashed text), w) => (.error (.crashed text), w)

end Leaf

/-! ## Arguments -/

namespace Argument

/-- The text of bytes that are UTF-8. -/
def utf8 (bytes : Bytes) : Except UsageError String :=
  match String.fromUTF8? bytes with
  | some s => .ok s
  | none => .error (.notUtf8 ((Text.utf8Fault? bytes).getD ⟨0, none⟩))

/-- Is no value given? -/
def isAbsent (args : List Datum) (i : Nat) : Bool :=
  match args[i]? with
  | none | some .nil => true
  | some _ => false

def string (args : List Datum) (i : Nat) (name : String) : Except UsageError String :=
  match args[i]? with
  | some (.text bytes) => utf8 bytes
  | none | some .nil => .error (.missing name)
  | some d => .error (.wrongKind name "a string" d.kind)

/-- A number of either kind. -/
def asNumber? : Datum → Option Float
  | .integer n => some n.toFloat
  | .number x => some x
  | _ => none

def number (args : List Datum) (i : Nat) (name : String) : Except UsageError Float :=
  match args[i]? with
  | none | some .nil => .error (.missing name)
  | some d =>
    match asNumber? d with
    | some x => .ok x
    | none => .error (.wrongKind name "a number" d.kind)

/-- A whole number; a float counts when it is whole and below `9e15`. -/
def integer (args : List Datum) (i : Nat) (name : String) : Except UsageError Int64 :=
  match args[i]? with
  | some (.integer n) => .ok n
  | none | some .nil => .error (.missing name)
  | some (.number x) =>
    if x.floor == x && x.abs < 9.0e15 then .ok x.toInt64
    else .error (.wrongKind name "an integer" "number")
  | some d => .error (.wrongKind name "an integer" d.kind)

def integerOr (args : List Datum) (i : Nat) (name : String) (default : Int64) :
    Except UsageError Int64 :=
  if isAbsent args i then .ok default else integer args i name

/-- The numbers among items counted from `i`; each of them has to be one. -/
def allNumbers : Nat → List Datum → Except UsageError (List Float)
  | _, [] => .ok []
  | i, d :: ds =>
    match asNumber? d with
    | none => .error (.notNumber i d.kind)
    | some x => (allNumbers (i + 1) ds).map (x :: ·)

/-- Numbers, as the items of a single table or as the arguments themselves. -/
def numbers (args : List Datum) : Except UsageError (List Float) :=
  match args with
  | [.list items] => allNumbers 1 items
  | [.record _] => .ok []
  | args => allNumbers 1 args

/-- At least one number. -/
def someNumbers (args : List Datum) : Except UsageError (List Float) := do
  match ← numbers args with
  | [] => .error .noNumbers
  | xs => .ok xs

def table (args : List Datum) (i : Nat) : Except UsageError Table :=
  match args[i]? with
  | some (.grid t) => .ok t
  | some d => .error (.notTable d.kind)
  | none => .error .noTable

end Argument

end Scriptorium
