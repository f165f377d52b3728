import Scriptorium.Script.Runner

/-!
# The floor

Scripts run on threads of their own, side by side with the editor and with each other. What they share is the
world; the floor is the world with the runs that are under way. It changes by one event at a time, whichever
comes next: the editor does something with a document, a run starts, gets through the gate that it has waited
for, asks the host something, or ends. An event that cannot happen gives nothing.
-/

namespace Scriptorium.Script

/-- A run under way. It goes for the document that is current when it starts, if there is one. -/
structure Visit where
  run : Nat
  /-- The document whose gate the run holds, or waits for until it is inside. -/
  gate? : Option Nat
  inside : Bool
  deriving DecidableEq, Repr

structure Floor where
  world : World
  visits : List Visit := []
  /-- The numbers of all runs that were ever started. -/
  started : List Nat := []

inductive Event where
  /-- The editor puts a document on the desk. -/
  | add (document : Document)
  | activate (n : Nat)
  | deactivate
  /-- The editor lets go of a document. -/
  | drop (n : Nat)
  /-- A run comes to the gate of the current document. -/
  | start (run : Nat) (policy : BusyPolicy)
  /-- A run that has waited takes the gate. -/
  | letIn (run : Nat)
  /-- A run asks the host something. -/
  | ask (run : Nat) (q : Request)
  | finish (run : Nat)

namespace Floor

/-- The floor with another desk. -/
def onDesk (f : Floor) (desk : Desk) : Floor := { f with world := { f.world with desk } }

def desk (f : Floor) : Desk := f.world.desk

/-- The visit of a run that is inside, or waits. -/
def visit? (f : Floor) (run : Nat) (inside : Bool) : Option Visit :=
  f.visits.find? fun v => v.run == run && v.inside == inside

/-- A run starts; it goes in, waits or is turned away. -/
def start (f : Floor) (run : Nat) (policy : BusyPolicy) : Floor :=
  let f := { f with started := run :: f.started }
  match enter policy run f.desk with
  | .admitted gate? desk => { f.onDesk desk with visits := ⟨run, gate?, true⟩ :: f.visits }
  | .waiting n desk => { f.onDesk desk with visits := ⟨run, some n, false⟩ :: f.visits }
  | .rejected => f

/-- The floor without the visit of a run. -/
def without (f : Floor) (run : Nat) : Floor := { f with visits := f.visits.filter (·.run != run) }

/-- The floor after an event. -/
def step? (f : Floor) : Event → Option Floor
  | .add document => some (f.onDesk (f.desk.add document).2)
  | .activate n =>
    match f.desk.sheets[n]? with
    | some s => if s.kept then some (f.onDesk (f.desk.activate n)) else none
    | none => none
  | .deactivate => some (f.onDesk f.desk.deactivate)
  | .drop n => some (f.onDesk (f.desk.close n))
  | .start run policy => if run ∈ f.started then none else some (f.start run policy)
  | .letIn run =>
    match f.visit? run false with
    | some ⟨_, some n, _⟩ =>
      (f.desk.tryLock n run).map fun desk =>
        { (f.without run).onDesk desk with visits := ⟨run, some n, true⟩ :: (f.without run).visits }
    | _ => none
  | .ask run q =>
    (f.visit? run true).map fun _ => { f with world := (hostReply f.world q).2 }
  | .finish run =>
    (f.visit? run true).map fun v => (f.without run).onDesk (leave v.gate? f.desk)

/-- The floor after events, one after the other. -/
def run? (f : Floor) : List Event → Option Floor
  | [] => some f
  | e :: es => (f.step? e).bind (run? · es)

/-- A floor on which nothing has happened yet: there are no documents and no runs. -/
def opening (world : World) : Floor := { world := { world with desk := {} } }

end Floor

/-- Would a request write or save a document? -/
def Request.writes : Request → Bool
  | .set name m _ => name == "doc" && m.name == "content"
  | .call name m _ => name == "doc" && m.name == "save"
  | .print _ | .get .. => false

/-- The document that a request writes or saves, if it does so. -/
def Request.target? (w : World) (q : Request) : Option Nat :=
  if q.writes then w.desk.current?.map (·.1) else none

end Scriptorium.Script
