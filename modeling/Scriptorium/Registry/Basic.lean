import Scriptorium.Text.Bytes
import Scriptorium.Repetition

/-!
# The registry of script members

The registry is the catalogue of what scripts can reach: namespaces, each with methods and properties. A
`Builder` collects namespaces at start and refuses two of one name; the `Registry` built from it never
changes. Enabled namespaces are found by name through an index of their positions; a disabled namespace
stays in the catalogue but not in the index.
-/

namespace Scriptorium

inductive MemberKind where
  | method
  | property
  deriving DecidableEq, Repr, Inhabited

/-- The name of a kind of member. -/
def MemberKind.label : MemberKind → String
  | .method => "method"
  | .property => "property"

/-- A method or property of a namespace. `writable` matters for properties only. -/
structure Member where
  name : String
  kind : MemberKind
  namespaceName : String
  signature : String
  description : String
  example? : Option String := none
  rank : Nat := 0
  writable : Bool := false
  deriving DecidableEq, Repr, Inhabited

namespace Member

/-- Namespace and name, joined by a point. -/
def qualifiedName (m : Member) : String := m.namespaceName ++ "." ++ m.name

/-- Members are listed by rank, then by name. -/
def listedBefore (a b : Member) : Bool :=
  a.rank < b.rank || (a.rank == b.rank && !decide (b.name < a.name))

end Member

/-- A named group of members. A core namespace cannot be disabled. -/
structure Namespace where
  name : String
  description : String
  core : Bool := false
  enabled : Bool := true
  members : List Member := []
  deriving DecidableEq, Repr, Inhabited

namespace Namespace

def asCore (ns : Namespace) : Namespace := { ns with core := true }

/-- The namespace with one more member at the end. -/
def push (ns : Namespace) (name : String) (kind : MemberKind) (signature description : String)
    (writable : Bool) : Namespace :=
  { ns with
    members := ns.members ++
      [{ name, kind, namespaceName := ns.name, signature, description, writable }] }

def method (ns : Namespace) (name signature description : String) : Namespace :=
  ns.push name .method signature description false

def property (ns : Namespace) (name signature description : String) : Namespace :=
  ns.push name .property signature description false

def writableProperty (ns : Namespace) (name signature description : String) : Namespace :=
  ns.push name .property signature description true

/-- The namespace with its last member changed. -/
def modifyLast (ns : Namespace) (f : Member → Member) : Namespace :=
  { ns with members := ns.members.modify (ns.members.length - 1) f }

/-- Gives the last member a usage example. -/
def withExample (ns : Namespace) (text : String) : Namespace :=
  ns.modifyLast fun m => { m with example? := some text }

/-- Gives the last member a rank; lower ranks are listed first. -/
def withRank (ns : Namespace) (rank : Nat) : Namespace :=
  ns.modifyLast fun m => { m with rank }

def member? (ns : Namespace) (name : String) : Option Member :=
  ns.members.find? (·.name == name)

/-- The members by rank, then by name. -/
def listed (ns : Namespace) : List Member := ns.members.mergeSort Member.listedBefore

end Namespace

/-- Facts about the host that the registry carries. -/
structure HostFacts where
  hostName : String := "macrohost"
  hostVersion : String := "0.3.0"
  /-- Directories searched in order for a script named without a path. -/
  scriptDirs : List String := []
  deriving DecidableEq, Repr, Inhabited

/-! ## Building -/

inductive RegistryError where
  | duplicateNamespace (name : String)
  | duplicateMember (namespaceName member : String)
  /-- Registration after the registry was built. -/
  | sealed (name : String)
  | unknownNamespace (name : String)
  | coreNamespace (name : String)
  deriving DecidableEq, Repr

def RegistryError.message : RegistryError → String
  | .duplicateNamespace ns => "namespace '" ++ ns ++ "' is already registered"
  | .duplicateMember ns m => "member '" ++ ns ++ "." ++ m ++ "' is already registered"
  | .sealed ns => "cannot register '" ++ ns ++ "': the API registry is sealed after startup"
  | .unknownNamespace ns => "no namespace named '" ++ ns ++ "'"
  | .coreNamespace ns =>
    "namespace '" ++ ns ++ "' is part of the core API and cannot be disabled"

/-- Namespaces collected at start. -/
structure RegistryBuilder where
  facts : HostFacts := {}
  namespaces : List Namespace := []
  deriving DecidableEq, Repr, Inhabited

namespace RegistryBuilder

/-- Adds a namespace. Its name must be new, and so must each of its members' names. -/
def register (b : RegistryBuilder) (ns : Namespace) : Except RegistryError RegistryBuilder :=
  if b.namespaces.any (·.name == ns.name) then .error (.duplicateNamespace ns.name)
  else
    match firstRepeat? [] (ns.members.map (·.name)) with
    | some m => .error (.duplicateMember ns.name m)
    | none => .ok { b with namespaces := b.namespaces ++ [ns] }

/-- The list with the first namespace of a name enabled or disabled. -/
def setFlag (name : String) (enabled : Bool) : List Namespace → List Namespace
  | [] => []
  | ns :: rest =>
    if ns.name == name then { ns with enabled } :: rest else ns :: setFlag name enabled rest

/-- Enables or disables a registered namespace; a core one stays enabled. -/
def setEnabled (b : RegistryBuilder) (name : String) (enabled : Bool) :
    Except RegistryError RegistryBuilder :=
  match b.namespaces.find? (·.name == name) with
  | none => .error (.unknownNamespace name)
  | some ns =>
    if ns.core && !enabled then .error (.coreNamespace name)
    else .ok { b with namespaces := setFlag name enabled b.namespaces }

end RegistryBuilder

/-! ## The built registry -/

/-- A catalogue that no longer changes. -/
structure Registry where
  facts : HostFacts
  namespaces : List Namespace
  /-- Where the enabled namespaces stand, by name. -/
  index : List (String × Nat)
  deriving DecidableEq, Repr, Inhabited

/-- The positions of the enabled namespaces by name, the last one first. -/
def Registry.positions (namespaces : List Namespace) : List (String × Nat) :=
  ((namespaces.zipIdx.filter (·.1.enabled)).map fun (ns, i) => (ns.name, i)).reverse

def RegistryBuilder.build (b : RegistryBuilder) : Registry :=
  ⟨b.facts, b.namespaces, Registry.positions b.namespaces⟩

/-- Counts over the enabled namespaces, and the number of disabled ones. -/
structure RegistryStats where
  namespaces : Nat
  disabled : Nat
  methods : Nat
  properties : Nat
  deriving DecidableEq, Repr

namespace Registry

def enabledNamespaces (r : Registry) : List Namespace := r.namespaces.filter (·.enabled)

/-- The enabled namespace of a name. -/
def enabledNamespace? (r : Registry) (name : String) : Option Namespace :=
  (r.index.lookup name).bind (r.namespaces[·]?)

/-- A separator between a namespace and its member. -/
def isSeparator (c : Char) : Bool := c == '.' || c == ':'

/-- The members of a namespace by rank, then by name. Separators at the end of the name are ignored. -/
def lookup (r : Registry) (name : String) : List Member :=
  let trimmed := String.ofList (name.toList.reverse.dropWhile isSeparator).reverse
  match r.enabledNamespace? trimmed with
  | some ns => ns.listed
  | none => []

/-- A member of an enabled namespace. -/
def resolve (r : Registry) (namespaceName member : String) : Option Member :=
  (r.enabledNamespace? namespaceName).bind (·.member? member)

/-- Registration is over once the registry is built. -/
def register (_ : Registry) (ns : Namespace) : Except RegistryError Registry :=
  .error (.sealed ns.name)

/-- The warning that goes with a late registration. -/
def lateRegistrationWarning (ns : Namespace) : String :=
  "rejected late registration of namespace '" ++ ns.name ++ "'"

def stats (r : Registry) : RegistryStats :=
  let members := r.enabledNamespaces.flatMap (·.members)
  { namespaces := r.enabledNamespaces.length
    disabled := r.namespaces.length - r.enabledNamespaces.length
    methods := members.countP (·.kind == .method)
    properties := members.countP (·.kind == .property) }

end Registry

end Scriptorium
