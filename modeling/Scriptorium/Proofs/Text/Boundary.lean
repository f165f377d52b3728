import Scriptorium.Text.Bytes

/-!
# Character boundaries

A byte offset is a boundary of a text when the text can be cut there. Cutting at a boundary gives back the
parts (`take_size_append`, `drop_size_append`), snapping always lands on one (`boundary_snap`) and leaves
one alone (`Boundary.snap_eq`), and two boundaries in order cut a text into three parts (`Boundary.split`). Cuts that fail
elsewhere are `front?`, `back?` and `splice?`.
-/

namespace Scriptorium.Text

variable {cs : List Char} {m n : Nat}

@[simp] theorem size_reverse (cs : List Char) : size cs.reverse = size cs := by
  induction cs with
  | nil => rfl
  | cons c cs ih => simp [ih, Nat.add_comm]

theorem size_eq_zero_iff : size cs = 0 ↔ cs = [] := by
  cases cs with
  | nil => simp
  | cons c cs => simp [Nat.ne_of_gt c.utf8Size_pos]

theorem size_cons_take_drop (c : Char) (x : List Char) (k offset : Nat) :
    offset + size (c :: x.take k) + size (x.drop k) = offset + size (c :: x) := by
  have hsize : size x = size (x.take k) + size (x.drop k) := by rw [← size_append, List.take_append_drop]
  rw [size, size, hsize]
  omega

theorem take_cons (n : Nat) (c : Char) (cs : List Char) :
    take n (c :: cs) = if c.utf8Size ≤ n then c :: take (n - c.utf8Size) cs else [] := by
  by_cases h : c.utf8Size ≤ n <;> simp [take, splitAt, h]

theorem take_of_size_le (h : size cs ≤ n) : take n cs = cs := by
  induction cs generalizing n with
  | nil => rfl
  | cons c cs ih =>
    rw [size_cons] at h
    rw [take_cons, if_pos (by omega), ih (by omega)]

/-- What is taken of a run is the run of what is taken. -/
theorem takeWhile_take (p : Char → Bool) (n : Nat) (cs : List Char) :
    (take n cs).takeWhile p = take n (cs.takeWhile p) := by
  induction cs generalizing n with
  | nil => rfl
  | cons c cs ih =>
    by_cases hc : p c = true
    · rw [List.takeWhile_cons_of_pos hc, take_cons, take_cons]
      split
      · rw [List.takeWhile_cons_of_pos hc, ih]
      · rfl
    · rw [List.takeWhile_cons_of_neg hc, take_cons]
      split
      · rw [List.takeWhile_cons_of_neg hc]
        rfl
      · rfl

@[simp] theorem take_size_append (a b : List Char) : take (size a) (a ++ b) = a := by
  rw [take, splitAt_size_append]

@[simp] theorem drop_size_append (a b : List Char) : drop (size a) (a ++ b) = b := by
  rw [drop, splitAt_size_append]

@[simp] theorem snap_size_append (a b : List Char) : snap (size a) (a ++ b) = size a := by
  rw [snap, take_size_append]

theorem append_inj_of_size {a b c d : List Char} (h : a ++ b = c ++ d) (hsize : size a = size c) : a = c ∧ b = d := by
  have htake := congrArg (take (size a)) h
  rw [take_size_append, hsize, take_size_append] at htake
  subst htake
  exact ⟨rfl, List.append_cancel_left h⟩

/-- The text can be cut at the byte `n`. -/
def Boundary (n : Nat) (cs : List Char) : Prop := ∃ a b, cs = a ++ b ∧ size a = n

theorem boundary_size_append (a b : List Char) : Boundary (size a) (a ++ b) := ⟨a, b, rfl, rfl⟩

theorem boundary_zero (cs : List Char) : Boundary 0 cs := ⟨[], cs, rfl, rfl⟩

theorem boundary_size (cs : List Char) : Boundary (size cs) cs := ⟨cs, [], by simp, rfl⟩

theorem boundary_snap (n : Nat) (cs : List Char) : Boundary (snap n cs) cs :=
  ⟨take n cs, drop n cs, (take_append_drop n cs).symm, rfl⟩

theorem Boundary.snap_eq (h : Boundary n cs) : snap n cs = n := by
  obtain ⟨a, b, rfl, rfl⟩ := h
  exact snap_size_append a b

theorem isBoundary_iff : isBoundary n cs = true ↔ Boundary n cs := by
  rw [isBoundary, beq_iff_eq]
  constructor
  · intro h
    rw [← h]
    exact boundary_snap n cs
  · exact Boundary.snap_eq

theorem Boundary.max (hm : Boundary m cs) (hn : Boundary n cs) : Boundary (max m n) cs := by
  rcases Nat.le_total m n with h | h
  · rwa [Nat.max_eq_right h]
  · rwa [Nat.max_eq_left h]

/-- Two boundaries in order cut a text into three parts. -/
theorem Boundary.split (hm : Boundary m cs) (hn : Boundary n cs) (h : m ≤ n) :
    ∃ a b c, cs = a ++ b ++ c ∧ size a = m ∧ size (a ++ b) = n := by
  obtain ⟨a, d, rfl, rfl⟩ := hm
  obtain ⟨e, c, he, rfl⟩ := hn
  rcases List.append_eq_append_iff.1 he with ⟨b, rfl, rfl⟩ | ⟨b, rfl, rfl⟩
  · exact ⟨a, b, c, by simp, rfl, rfl⟩
  · -- the second cut lies at or before the first, so nothing is between them
    obtain rfl : b = [] := by
      rw [size_append] at h
      exact size_eq_zero_iff.1 (by omega)
    exact ⟨e, [], d, by simp, by simp, by simp⟩

/-! ## Cuts that can fail -/

/-- The text before an offset, if the offset is on a boundary. -/
def front? (n : Nat) (cs : List Char) : Option (List Char) := if isBoundary n cs then some (take n cs) else none

/-- The text behind an offset, if the offset is on a boundary. -/
def back? (n : Nat) (cs : List Char) : Option (List Char) := if isBoundary n cs then some (drop n cs) else none

/-- The text with another one between two offsets, if they are in order and on boundaries. -/
def splice? (start stop : Nat) (text cs : List Char) : Option (List Char) :=
  if start ≤ stop then do
    let front ← front? start cs
    let back ← back? stop cs
    return front ++ text ++ back
  else none

theorem front?_eq_some (h : Boundary n cs) : front? n cs = some (take n cs) := if_pos (isBoundary_iff.2 h)

theorem back?_eq_some (h : Boundary n cs) : back? n cs = some (drop n cs) := if_pos (isBoundary_iff.2 h)

theorem splice?_eq_some {start stop : Nat} (hle : start ≤ stop) (hstart : Boundary start cs)
    (hstop : Boundary stop cs) (text : List Char) :
    splice? start stop text cs = some (take start cs ++ text ++ drop stop cs) := by
  rw [splice?, if_pos hle, front?_eq_some hstart, back?_eq_some hstop]
  rfl

end Scriptorium.Text
