/-!
# Name patterns

A pattern is matched against a whole name. `?` stands for any character, `*` for any characters, `[…]` and
`[!…]` for a character in or outside a set, and `**`, as a path component of its own, for whole components.
-/

namespace Scriptorium.Glob

/-- A member of a set of characters. -/
inductive Range where
  | single (c : Char)
  | between (a b : Char)
  deriving DecidableEq, Repr

def Range.has (c : Char) : Range → Bool
  | .single a => c == a
  | .between a b => a ≤ c && c ≤ b

inductive Token where
  | char (c : Char)
  | anyChar
  | anySequence
  | anyComponents
  | within (ranges : List Range)
  | except (ranges : List Range)
  deriving DecidableEq, Repr

inductive Fault where
  | wildcards
  | component
  | range
  deriving DecidableEq, Repr

/-- A fault in a pattern, at a character counted from zero. -/
structure PatternError where
  position : Nat
  fault : Fault
  deriving DecidableEq, Repr

def Fault.message : Fault → String
  | .wildcards => "wildcards are either regular `*` or recursive `**`"
  | .component => "recursive wildcards must form a single path component"
  | .range => "invalid range pattern"

def PatternError.message (e : PatternError) : String :=
  "Pattern syntax error near position " ++ toString e.position ++ ": " ++ e.fault.message

/-! ## Reading a pattern -/

/-- The members of a set between brackets. -/
def readRanges : List Char → List Range
  | a :: '-' :: b :: cs => .between a b :: readRanges cs
  | c :: cs => .single c :: readRanges cs
  | [] => []

/-- A set after its opening bracket: its text, which is never empty, and what follows the closing bracket. -/
def readSet? : List Char → Option (List Char × List Char)
  | [] => none
  | first :: cs =>
    let body := cs.takeWhile (· != ']')
    match cs.drop body.length with
    | _ :: rest => some (first :: body, rest)
    | [] => none

theorem readSet?_length {cs body rest : List Char} (h : readSet? cs = some (body, rest)) :
    rest.length < cs.length := by
  unfold readSet? at h
  split at h
  · simp at h
  · rename_i first cs
    simp only at h
    split at h
    · rename_i heq
      simp only [Option.some.injEq, Prod.mk.injEq] at h
      obtain ⟨_, rfl⟩ := h
      have := congrArg List.length heq
      simp only [List.length_drop, List.length_cons] at this ⊢
      omega
    · simp at h

/-- The tokens of a pattern of which `pos` characters are read. `last?` is the last of them, and `tokens` are
the tokens so far, newest first. -/
def readTokens (pos : Nat) (last? : Option Char) (tokens : List Token) :
    List Char → Except PatternError (List Token)
  | [] => .ok tokens.reverse
  | '?' :: cs => readTokens (pos + 1) (some '?') (.anyChar :: tokens) cs
  | '*' :: cs =>
    let stars := 1 + (cs.takeWhile (· == '*')).length
    let rest := cs.drop (stars - 1)
    if 2 < stars then .error ⟨pos + 2, .wildcards⟩
    else if stars = 1 then readTokens (pos + 1) (some '*') (.anySequence :: tokens) rest
    else if last?.any (· != '/') then .error ⟨pos - 1, .component⟩
    else
      let tokens := match tokens with
        | .anyComponents :: _ :: _ => tokens
        | _ => .anyComponents :: tokens
      match _h : rest with
      | [] => .ok tokens.reverse
      | c :: more =>
        if c = '/' then readTokens (pos + 3) (some '/') tokens more
        else .error ⟨pos + 2, .component⟩
  | '[' :: '!' :: cs =>
    match _h : readSet? cs with
    | some (body, rest) =>
      readTokens (pos + body.length + 3) (some ']') (.except (readRanges body) :: tokens) rest
    | none => .error ⟨pos, .range⟩
  | '[' :: cs =>
    match _h : readSet? cs with
    | some (body, rest) =>
      readTokens (pos + body.length + 2) (some ']') (.within (readRanges body) :: tokens) rest
    | none => .error ⟨pos, .range⟩
  | c :: cs => readTokens (pos + 1) (some c) (.char c :: tokens) cs
termination_by cs => cs.length
decreasing_by
  all_goals simp only [List.length_cons, List.length_drop]
  all_goals first
    | omega
    | exact Nat.lt_of_lt_of_le (readSet?_length _h) (by omega)
    | (replace _h := congrArg List.length _h
       simp only [rest, List.length_drop, List.length_cons] at _h
       omega)

/-- The tokens of a pattern. -/
def read (pattern : String) : Except PatternError (List Token) := readTokens 0 none [] pattern.toList

/-! ## Matching -/

/-- Does a token stand for this one character? -/
def Token.matchesChar (c : Char) : Token → Bool
  | .char a => c == a
  | .anyChar => true
  | .within ranges => ranges.any (·.has c)
  | .except ranges => !ranges.any (·.has c)
  | .anySequence | .anyComponents => false

/-- Does the test hold for some end of the text? -/
def someTail (test : List Char → Bool) : List Char → Bool
  | [] => test []
  | c :: cs => test (c :: cs) || someTail test cs

/-- Does the test hold for some end of the text that follows a separator, or for the empty end? -/
def someComponentTail (test : List Char → Bool) : List Char → Bool
  | [] => test []
  | c :: cs => (c == '/' && test cs) || someComponentTail test cs

/-- Do the tokens match the whole text? -/
def matchesTokens : List Token → List Char → Bool
  | [], cs => cs.isEmpty
  | .anySequence :: ts, cs => someTail (matchesTokens ts) cs
  | .anyComponents :: ts, cs => matchesTokens ts cs || someComponentTail (matchesTokens ts) cs
  | _ :: _, [] => false
  | t :: ts, c :: cs => t.matchesChar c && matchesTokens ts cs

end Scriptorium.Glob
