import Scriptorium.Editor.Lexeme
import Scriptorium.Registry.Basic

/-!
# Completion

`typedAt?` finds what has been typed of a name at the cursor, with at most one qualifier before it.
`Completion.items` lists the candidates for it: members after a qualifier, and otherwise namespaces,
reserved words and builtin functions. Candidates are sorted by group, rank and label, and no label is
listed twice.
-/

namespace Scriptorium.Editor

open Text

/-- The builtin functions offered after the reserved words. -/
def builtinFunctions : List String :=
  ["print", "pairs", "ipairs", "tostring", "tonumber", "type", "pcall", "error", "select", "assert"]

inductive CompletionGroup where
  | api
  | keyword
  deriving DecidableEq, Repr, Inhabited

def CompletionGroup.label : CompletionGroup → String
  | .api => "api"
  | .keyword => "keyword"

inductive CompletionKind where
  | nameSpace
  | method
  | property
  | keyword
  | function
  deriving DecidableEq, Repr, Inhabited

def CompletionKind.label : CompletionKind → String
  | .nameSpace => "namespace"
  | .method => "method"
  | .property => "property"
  | .keyword => "keyword"
  | .function => "function"

/-- A completion candidate. -/
structure Completion where
  label : String
  kind : CompletionKind
  group : CompletionGroup
  rank : Nat
  detail? : Option String := none
  deriving DecidableEq, Repr, Inhabited

namespace Completion

/-- Candidates of the registry come before words of the language; then rank and label decide. -/
def listedBefore (a b : Completion) : Bool :=
  match a.group, b.group with
  | .api, .keyword => true
  | .keyword, .api => false
  | _, _ => a.rank < b.rank || (a.rank == b.rank && !decide (b.label < a.label))

/-- The first candidate of each label. -/
def keepFirst : List String → List Completion → List Completion
  | _, [] => []
  | seen, c :: cs =>
    if c.label ∈ seen then keepFirst seen cs else c :: keepFirst (c.label :: seen) cs

/-- Does the label begin with the typed characters? -/
def extends? (typed : List Char) (label : String) : Bool := startsWith label.toList typed

def ofMember (m : Member) : Completion :=
  { label := m.name
    kind := match m.kind with
      | .method => .method
      | .property => .property
    group := .api
    rank := m.rank
    detail? := some m.signature }

def ofNamespace (ns : Namespace) : Completion :=
  { label := ns.name, kind := .nameSpace, group := .api, rank := 0, detail? := some ns.description }

def ofKeyword (word : String) : Completion :=
  { label := word, kind := .keyword, group := .keyword, rank := 0 }

def ofBuiltin (name : String) : Completion :=
  { label := name, kind := .function, group := .keyword, rank := 1 }

/-- The typed text before and after its last separator. -/
def splitQualifier? (typed : List Char) : Option (List Char × List Char) :=
  let partialName := typed.reverse.takeWhile (!Registry.isSeparator ·)
  match typed.reverse.dropWhile (!Registry.isSeparator ·) with
  | _ :: qualifier => some (qualifier.reverse, partialName.reverse)
  | [] => none

/-- The members of a namespace that begin with the typed characters. -/
def memberCandidates (r : Registry) (qualifier typed : List Char) : List Completion :=
  ((r.lookup (String.ofList qualifier)).filter (extends? typed ·.name)).map ofMember

/-- The namespaces, reserved words and builtin functions that begin with the typed characters. -/
def plainCandidates (r : Registry) (typed : List Char) : List Completion :=
  (r.enabledNamespaces.filter (extends? typed ·.name)).map ofNamespace ++
    (keywords.filter (extends? typed)).map ofKeyword ++
    (builtinFunctions.filter (extends? typed)).map ofBuiltin

/-- The candidates for a typed text, best first. -/
def items (r : Registry) (typed : List Char) : List Completion :=
  let candidates := match splitQualifier? typed with
    | some (qualifier, typed) => memberCandidates r qualifier typed
    | none => plainCandidates r typed
  keepFirst [] (candidates.mergeSort listedBefore)

/-- The labels of the candidates, best first. -/
def labels (r : Registry) (typed : List Char) : List String := (items r typed).map (·.label)

end Completion

/-- What has been typed of a name up to the cursor: name characters, and a qualifying name with its
separator when one stands before them. There is nothing to complete inside strings and comments or in a
number. -/
def typedAt? (cs : List Char) (cursor : Nat) : Option (List Char) :=
  let cursor := snap cursor cs
  if !isCodePosition cs cursor then none
  else
    let back := (take cursor cs).reverse
    let word := (back.takeWhile isNameChar).reverse
    if ((word ++ drop cursor cs).head?).any Char.isDigit then none
    else
      match back.dropWhile isNameChar with
      | sep :: rest =>
        let qualifier := (rest.takeWhile isNameChar).reverse
        if Registry.isSeparator sep && (qualifier.head?).any isNameStart then
          some (qualifier ++ sep :: word)
        else some word
      | [] => some word

end Scriptorium.Editor
