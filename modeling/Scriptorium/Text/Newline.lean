import Scriptorium.Text.Bytes

/-!
# Line ends

Inside the program a line ends at LF alone. `normalize` turns CR LF and a lone CR into LF; `lines` cuts
a text into its lines, where a final line end opens no further line and a CR before the LF belongs to
the line end.
-/

namespace Scriptorium.Text

/-- CR LF and CR become LF. -/
def normalize : List Char → List Char
  | [] => []
  | '\r' :: '\n' :: cs => '\n' :: normalize cs
  | c :: cs => (if c = '\r' then '\n' else c) :: normalize cs

theorem not_mem_normalize (cs : List Char) : '\r' ∉ normalize cs := by
  fun_induction normalize cs with
  | case1 => simp
  | case2 cs ih => simp [ih]
  | case3 c cs h ih =>
    by_cases hc : c = '\r'
    · simp [hc, ih]
    · simpa [hc, ih] using fun h => hc h.symm

theorem normalize_of_not_mem {cs : List Char} (h : '\r' ∉ cs) : normalize cs = cs := by
  fun_induction normalize cs with
  | case1 => rfl
  | case2 cs ih => simp at h
  | case3 c cs _ ih =>
    simp only [List.mem_cons, not_or] at h
    simp [ih h.2, Ne.symm h.1]

/-- A line without the CR of a CR LF line end. -/
def dropFinalCR (line : List Char) : List Char :=
  match line.getLast? with
  | some '\r' => line.dropLast
  | _ => line

/-- The pieces between LFs, where a final LF opens no further piece. -/
def rawLines (cs : List Char) : List (List Char) :=
  match (splitOn '\n' cs).reverse with
  | [] :: parts => parts.reverse
  | parts => parts.reverse

/-- The lines of a text without their line ends. -/
def lines (cs : List Char) : List (List Char) :=
  let cut := rawLines cs
  match cs.getLast? with
  | some '\n' => cut.map dropFinalCR
  | _ =>
    match cut.reverse with
    | [] => []
    | last :: front => (front.reverse.map dropFinalCR) ++ [last]

end Scriptorium.Text
