import Scriptorium.Host.Services
import Scriptorium.Registry.Basic
import Scriptorium.Decimal.Notation

/-!
# Host objects

A script reaches the host through one object for each namespace. What a key means is decided by the registry
alone: a registered member is read or called, and only a key that is not registered is looked up in the
table that the object hides. Only a writable property can be assigned. What is behind a member depends on the
object, not on the namespace that the member says it is of.
-/

namespace Scriptorium.HostObject

/-- The namespaces that there is something behind. -/
def bound : List String := ["host", "ui", "data", "doc", "math", "fs"]

/-- The warning for a namespace with nothing behind it. -/
def unboundWarning (namespaceName : String) : String :=
  "namespace '" ++ namespaceName ++ "' is registered but has no binding"

/-! ## Failures -/

def noMember (namespaceName key : String) : HostFailure :=
  .runtime ("'" ++ namespaceName ++ "' has no member '" ++ key ++ "'")

def readOnly (m : Member) : HostFailure := .runtime ("'" ++ m.qualifiedName ++ "' is read-only")

def unavailable (m : Member) : HostFailure :=
  .runtime ("'" ++ m.qualifiedName ++ "' is not available in this host")

def contentKind (kind : String) : HostFailure :=
  .runtime ("doc.content must be a string, got " ++ kind)

def savePathKind (kind : String) : HostFailure :=
  .runtime ("doc.save path must be a string, got " ++ kind)

/-! ## Keys -/

/-- What a key of an object means. -/
inductive Reading (α : Type) where
  | property (m : Member)
  | method (m : Member)
  /-- The value under the key in the hidden table. -/
  | shadowed (a : α)
  | unknown
  deriving DecidableEq, Repr

/-- The meaning of a key, with the values of the hidden table given. -/
def reading (r : Registry) (shadow : String → Option α) (namespaceName key : String) : Reading α :=
  match r.resolve namespaceName key with
  | some m =>
    match m.kind with
    | .property => .property m
    | .method => .method m
  | none =>
    match shadow key with
    | some a => .shadowed a
    | none => .unknown

/-- The property that an assignment to a key sets. -/
def assignable (r : Registry) (namespaceName key : String) : Except HostFailure Member :=
  match r.resolve namespaceName key with
  | none => .error (noMember namespaceName key)
  | some m => if m.kind = .property ∧ m.writable then .ok m else .error (readOnly m)

/-! ## Members -/

/-- The text of bytes that are UTF-8. -/
def utf8 (bytes : Bytes) : Except HostFailure String :=
  match String.fromUTF8? bytes with
  | some s => .ok s
  | none => .error (.notUtf8 ((Text.utf8Fault? bytes).getD ⟨0, none⟩))

/-- The value of a property that the object of a namespace has. -/
def get (w : World) (namespaceName : String) (m : Member) : Except HostFailure Datum :=
  match namespaceName, m.name with
  | "host", "active_doc" => .ok (if w.desk.hasDocument then .hostObject "doc" else .nil)
  | "doc", "file_path" => (w.desk.path.map fun p =>
      match p with
      | some path => Datum.ofString path
      | none => .nil).mapError .document
  | "doc", "page_count" =>
    (w.desk.pageCount.map fun n => Datum.integer (Int64.ofNat n)).mapError .document
  | "doc", "is_dirty" => (w.desk.isDirty.map Datum.boolean).mapError .document
  | "doc", "content" => (w.desk.readContent.map Datum.ofString).mapError .document
  | _, _ => .error (unavailable m)

/-- The text that a value assigned to the document's content stands for. -/
def contentOf : Datum → Except HostFailure String
  | .text bytes => utf8 bytes
  | .integer n => .ok (Datum.shown (.integer n))
  | .number x => .ok (Datum.shown (.number x))
  | d => .error (contentKind d.kind)

/-- Assigns a writable property that the object of a namespace has. -/
def set (w : World) (namespaceName : String) (m : Member) (d : Datum) :
    Except HostFailure Unit × World :=
  match namespaceName, m.name with
  | "doc", "content" =>
    match contentOf d with
    | .error e => (.error e, w)
    | .ok text =>
      match w.desk.writeContent text with
      | .ok desk => (.ok (), { w with desk })
      | .error e => (.error (.document e), w)
  | _, _ => (.error (readOnly m), w)

/-- A value as a text, where numbers are taken too. A value that is no number is written without a sign. -/
def asText : Datum → Except HostFailure String
  | .text bytes => utf8 bytes
  | .integer n => .ok (toString n.toInt)
  | .number x => .ok (if x.isNaN then "nan" else Decimal.numeralText x)
  | d => .error (.notText d.kind)

/-- Shows a message, with a title if one is given. -/
def showMessage (w : World) (args : List Datum) :
    Except HostFailure Unit × World :=
  let text := (args.headD .nil).shown
  match args with
  | [] | [_] | _ :: .nil :: _ => (.ok (), { w with notices := w.notices.message text none })
  | _ :: d :: _ =>
    match asText d with
    | .ok title => (.ok (), { w with notices := w.notices.message text (some title) })
    | .error e => (.error e, w)

/-- Saves the active document, to a path if one is given. -/
def saveDocument (w : World) (args : List Datum) : Except HostFailure Unit × World :=
  let save (path? : Option String) : Except HostFailure Unit × World :=
    match w.desk.save w.disk path? with
    | (.ok desk, disk) => (.ok (), { w with desk, disk })
    | (.error e, disk) => (.error (.document e), { w with disk })
  match args with
  | [] | .nil :: _ => save none
  | .text bytes :: _ =>
    match utf8 bytes with
    | .ok path => save (some path)
    | .error e => (.error e, w)
  | d :: _ => (.error (savePathKind d.kind), w)

/-- The name that a leaf service logs its failures under. The services of `data` have names of their own, whatever
namespace the member says it is of. -/
def callName (namespaceName : String) (m : Member) : String :=
  if namespaceName = "data" then "data." ++ m.name else m.qualifiedName

/-- Calls a method that the object of a namespace has. Its results are few: nothing, or the value of a leaf
service. -/
def call (w : World) (namespaceName : String) (m : Member) (args : List Datum) :
    Except HostFailure (List Datum) × World :=
  let done : Except HostFailure Unit × World → Except HostFailure (List Datum) × World
    | (r, w) => (r.map fun _ => [], w)
  match Services.find? namespaceName m.name with
  | some s =>
    let (r, w) := Leaf.suppressed (callName namespaceName m) s.fallback (s.run args) w
    (r.map fun d => [d], w)
  | none =>
    match namespaceName, m.name with
    | "host", "log" => (.ok [], w.note .info (joinedText args))
    | "ui", "show_message" => done (showMessage w args)
    | "ui", "status_bar" => (.ok [], { w with notices := w.notices.status (joinedText args) })
    | "doc", "save" => done (saveDocument w args)
    | _, _ => (.error (unavailable m), w)

/-- The arguments of a call without a host object in front, so that both ways to call a method agree. -/
def withoutSelf : List Datum → List Datum
  | .hostObject _ :: args => args
  | args => args

end Scriptorium.HostObject
