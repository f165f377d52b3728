/-!
# Notices to the user

Scripts and the engine post notices; the editor collects them while it listens.
-/

namespace Scriptorium

inductive Notice where
  | message (text title : String)
  | status (text : String)
  deriving DecidableEq, Repr, Inhabited

/-- The notices posted so far, and whether somebody still listens. -/
structure NoticeBoard where
  posted : List Notice := []
  listening : Bool := true
  deriving DecidableEq, Repr, Inhabited

namespace NoticeBoard

/-- The title of a message that gives none. -/
def defaultTitle : String := "Message"

/-- Posts a notice; nobody gets it when nobody listens. -/
def post (b : NoticeBoard) (n : Notice) : NoticeBoard :=
  if b.listening then { b with posted := b.posted ++ [n] } else b

/-- Posts a message, under the default title if none is given. -/
def message (b : NoticeBoard) (text : String) (title? : Option String) : NoticeBoard :=
  b.post (.message text (title?.getD defaultTitle))

/-- Posts a status line. -/
def status (b : NoticeBoard) (text : String) : NoticeBoard := b.post (.status text)

end NoticeBoard

end Scriptorium
