import Scriptorium.Registry.Basic
import Scriptorium.Json.Writer

/-!
# The printed catalogue

The registry as documentation, in Markdown or JSON. Disabled namespaces are listed and marked.
-/

namespace Scriptorium.Registry

inductive CatalogueFormat where
  | markdown
  | json
  deriving DecidableEq, Repr

/-- One row of the table of members. -/
def memberRow (m : Member) : String :=
  let kind := if m.writable then "property (read/write)" else m.kind.label
  "| `" ++ m.name ++ "` | " ++ kind ++ " | `" ++ m.signature ++ "` | " ++ m.description ++ " |\n"

/-- The usage example of a member, if it has one. -/
def exampleBlock (m : Member) : String :=
  match m.example? with
  | some text => "\n`" ++ m.qualifiedName ++ "` example:\n\n```lua\n" ++ text ++ "\n```\n"
  | none => ""

/-- The section of a namespace. -/
def chapter (ns : Namespace) : String :=
  let state := if ns.enabled then "" else " (disabled)"
  "\n## `" ++ ns.name ++ "`" ++ state ++ "\n\n" ++ ns.description ++ "\n\n" ++
    "| Member | Kind | Signature | Description |\n|---|---|---|---|\n" ++
    String.join (ns.listed.map memberRow) ++ String.join (ns.members.map exampleBlock)

def markdown (r : Registry) : String :=
  "# " ++ r.facts.hostName ++ " scripting API (" ++ r.facts.hostVersion ++ ")\n" ++
    String.join (r.namespaces.map chapter)

def memberJson (m : Member) : Json :=
  Json.sorted <|
    [("name", .str m.name), ("kind", .str m.kind.label), ("namespace", .str m.namespaceName),
     ("signature", .str m.signature), ("description", .str m.description),
     ("rank", .int m.rank), ("writable", .bool m.writable)] ++
    match m.example? with
    | some text => [("example", .str text)]
    | none => []

def namespaceJson (ns : Namespace) : Json :=
  Json.sorted
    [("name", .str ns.name), ("description", .str ns.description), ("core", .bool ns.core),
     ("enabled", .bool ns.enabled), ("members", .arr (ns.members.map memberJson))]

def statsJson (s : RegistryStats) : Json :=
  Json.sorted
    [("namespaces", .int s.namespaces), ("disabled", .int s.disabled),
     ("methods", .int s.methods), ("properties", .int s.properties)]

def catalogueJson (r : Registry) : Json :=
  Json.sorted
    [("host", .str r.facts.hostName), ("version", .str r.facts.hostVersion),
     ("stats", statsJson r.stats), ("namespaces", .arr (r.namespaces.map namespaceJson))]

/-- The catalogue in a format. -/
def catalogue (r : Registry) : CatalogueFormat → String
  | .markdown => r.markdown
  | .json => (catalogueJson r).render

end Scriptorium.Registry
