import Scriptorium.Script.Store
import Scriptorium.Host.Datum

/-!
# Acts

An act is what a library function does: it reads and changes the store, calls functions of the script, asks
the host, raises errors and catches them. An act is data, which the machine carries out step by step; so the
library never runs a script by itself.
-/

namespace Scriptorium.Script

/-- What a script asks of the host: to print, or to use a member of the object of a namespace. -/
inductive Request where
  | print (line : String)
  | get (namespaceName : String) (m : Member)
  | set (namespaceName : String) (m : Member) (d : Datum)
  | call (namespaceName : String) (m : Member) (args : List Datum)
  deriving Inhabited

/-- The answer of the host. -/
abbrev Reply := Except HostFailure (List Datum)

inductive Act (α : Type) : Type where
  | done (a : α)
  | raise (e : Value)
  | read (k : Store → Act α)
  /-- Changes the store, with a value as result. -/
  | change (f : Store → Value × Store) (k : Value → Act α)
  /-- Calls a value, which comes from somewhere. -/
  | call (f : Value) (origin : Origin) (args : List Value) (k : List Value → Act α)
  /-- Calls a value and catches the error that ends the call. -/
  | protect (f : Value) (args : List Value) (k : Except Value (List Value) → Act α)
  | ask (r : Request) (k : Reply → Act α)
  /-- The place in the script, as messages begin with it, of the function so many levels up. -/
  | place (level : Nat) (k : Bytes → Act α)

namespace Act

def bind : Act α → (α → Act β) → Act β
  | .done a, f => f a
  | .raise e, _ => .raise e
  | .read k, f => .read fun s => (k s).bind f
  | .change g k, f => .change g fun v => (k v).bind f
  | .call g o args k, f => .call g o args fun vs => (k vs).bind f
  | .protect g args k, f => .protect g args fun r => (k r).bind f
  | .ask r k, f => .ask r fun a => (k a).bind f
  | .place n k, f => .place n fun p => (k p).bind f

instance : Monad Act where
  pure := .done
  bind := bind

/-- The store as it is. -/
def store : Act Store := .read .done

/-- Looks something up in the store. -/
def look (f : Store → α) : Act α := .read fun s => .done (f s)

def modify (f : Store → Store) : Act Unit := .change (fun s => (.nil, f s)) fun _ => .done ()

def newTable (t : TableData) : Act Value := .change (·.newTable t) .done

def newClosure (c : Closure) : Act Value := .change (·.newClosure c) .done

def newObject (o : HostThing) : Act Value := .change (·.newObject o) .done

/-- Calls a value. -/
def invoke (f : Value) (args : List Value) (origin : Origin := .unknown) : Act (List Value) :=
  .call f origin args .done

/-- Raises an error with a text. -/
def raiseText (message : Bytes) : Act α := .raise (.text message)

/-- Raises an error with the place of the function so many levels up. -/
def failAt (level : Nat) (message : Bytes) : Act α := .place level fun p => raiseText (p ++ message)

/-- Raises an error of the function that is running, as a script's own operations do. -/
def failHere (message : Bytes) : Act α := failAt 0 message

/-- Raises an error of a library function, in the place of its caller. -/
def fail (message : Bytes) : Act α := failAt 1 message

/-- Goes through a list. -/
def forEach (f : α → Act Unit) : List α → Act Unit
  | [] => .done ()
  | a :: as => (f a).bind fun _ => forEach f as

end Act

end Scriptorium.Script
