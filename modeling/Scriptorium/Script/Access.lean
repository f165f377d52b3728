import Scriptorium.Script.Session

/-!
# Access from outside

The host can look into a session between scripts: at its global variables, and through them at the host
objects, exactly as a script would. Each access gives nothing if it does not end.
-/

namespace Scriptorium.Script.Session

/-- The value of a global variable. -/
def variableValue (s : Session) (name : String) : Value :=
  (s.store.table s.store.globals).getText (bytes name)

/-- Puts a value that the host has made into the store of the session. -/
def withStore (s : Session) (store : Store) : Session := { s with store }

/-- Changes the world of the session. -/
def mapWorld (s : Session) (f : World → World) : Session := { s with world := f s.world }

/-- An act for a single value. -/
def performOne (s : Session) (x : Act Value) : Option (Except HostFailure Value × Session) :=
  (s.perform (x.bind fun v => .done [v])).map fun (r, s) =>
    (r.map Operation.firstOf, s)

/-- Reads a member. -/
def readMember (s : Session) (on : Value) (name : String) :
    Option (Except HostFailure Value × Session) :=
  s.performOne (Operation.index .unknown on (.ofString name))

/-- Assigns a member. -/
def assignMember (s : Session) (on : Value) (name : String) (v : Value) :
    Option (Except HostFailure Value × Session) :=
  s.performOne ((Operation.setIndex .unknown on (.ofString name) v).bind fun _ => .done .nil)

/-- What is not a function cannot be called from outside. -/
def notCallable (typeName : String) : HostFailure :=
  .conversion ("error converting Lua " ++ typeName ++ " to function")

/-- Calls a member for its first result. -/
def callMember (s : Session) (on : Value) (name : String) (args : List Value) :
    Option (Except HostFailure Value × Session) :=
  s.performOne <| (Operation.index .unknown on (.ofString name)).bind fun f =>
    match f with
    | .closure _ | .builtin _ => (Act.invoke f args).bind fun vs => .done (Operation.firstOf vs)
    | f => .raise (.failure (notCallable f.typeName))

/-- What has no length cannot be measured from outside. -/
def noLength : HostFailure := .conversion "attempt to get length of a value without length"

/-- The length of a value. -/
def lengthOf (s : Session) (v : Value) : Option (Except HostFailure Value × Session) :=
  (s.performOne (Operation.length .unknown v)).map fun (r, s) =>
    (r.mapError fun _ => noLength, s)

/-- The text of a value. -/
def textOf (s : Session) (v : Value) : Option (Except HostFailure Value × Session) :=
  s.performOne ((Operation.text v).bind fun b => .done (.text b))

end Scriptorium.Script.Session
