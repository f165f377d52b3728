/-!
# Byte offsets in text

A text is a list of characters; positions in it are counted in UTF-8 bytes. `splitAt n` cuts a text at
the last character boundary at or before byte `n`, so an offset inside a character or past the end is
snapped back, and the two parts always join to the whole text.
-/

namespace Scriptorium.Text

/-- The number of bytes of a text in UTF-8. -/
def size : List Char → Nat
  | [] => 0
  | c :: cs => c.utf8Size + size cs

@[simp] theorem size_nil : size [] = 0 := rfl

@[simp] theorem size_cons (c : Char) (cs : List Char) : size (c :: cs) = c.utf8Size + size cs := rfl

@[simp] theorem size_append (a b : List Char) : size (a ++ b) = size a + size b := by
  induction a with
  | nil => simp
  | cons c cs ih => simp [ih, Nat.add_assoc]

/-- The text up to the last character boundary at or before byte `n`, and the rest. -/
def splitAt : Nat → List Char → List Char × List Char
  | _, [] => ([], [])
  | n, c :: cs =>
    if c.utf8Size ≤ n then
      let (front, back) := splitAt (n - c.utf8Size) cs
      (c :: front, back)
    else
      ([], c :: cs)

/-- The characters that lie wholly before byte `n`. -/
def take (n : Nat) (cs : List Char) : List Char := (splitAt n cs).1

/-- The characters from the boundary at or before byte `n` on. -/
def drop (n : Nat) (cs : List Char) : List Char := (splitAt n cs).2

/-- The character boundary at or before byte `n`. -/
def snap (n : Nat) (cs : List Char) : Nat := size (take n cs)

/-- The characters between two boundaries; empty when `b ≤ a`. -/
def slice (a b : Nat) (cs : List Char) : List Char := take (b - a) (drop a cs)

/-- Whether byte `n` of the text is the start of a character or the end of the text. -/
def isBoundary (n : Nat) (cs : List Char) : Bool := snap n cs == n

theorem take_append_drop (n : Nat) (cs : List Char) : take n cs ++ drop n cs = cs := by
  induction cs generalizing n with
  | nil => simp [take, drop, splitAt]
  | cons c cs ih =>
    by_cases h : c.utf8Size ≤ n
    · simpa [take, drop, splitAt, h] using ih (n - c.utf8Size)
    · simp [take, drop, splitAt, h]

theorem snap_le (n : Nat) (cs : List Char) : snap n cs ≤ n := by
  induction cs generalizing n with
  | nil => simp [snap, take, splitAt]
  | cons c cs ih =>
    by_cases h : c.utf8Size ≤ n
    · have := ih (n - c.utf8Size)
      simp only [snap, take, splitAt, h, if_true, size_cons] at this ⊢
      omega
    · simp [snap, take, splitAt, h]

theorem snap_le_size (n : Nat) (cs : List Char) : snap n cs ≤ size cs := by
  have h := congrArg size (take_append_drop n cs)
  rw [size_append] at h
  unfold snap
  omega

/-- Cutting at the size of the front part gives back both parts. -/
theorem splitAt_size_append (a b : List Char) : splitAt (size a) (a ++ b) = (a, b) := by
  induction a with
  | nil =>
    cases b with
    | nil => rfl
    | cons c cs => simp [splitAt, Nat.ne_of_gt c.utf8Size_pos]
  | cons c cs ih => simp [splitAt, ih]

/-- Does the text begin with the other one? -/
def startsWith (text front : List Char) : Bool := front.isPrefixOf text

/-- Does the needle occur in the text? -/
def contains : List Char → List Char → Bool
  | [], needle => needle.isEmpty
  | c :: cs, needle => needle.isPrefixOf (c :: cs) || contains cs needle

/-- The text before and after the first occurrence of a non-empty needle. -/
def splitOnce (needle : List Char) : List Char → Option (List Char × List Char)
  | [] => if needle.isEmpty then some ([], []) else none
  | c :: cs =>
    if needle.isPrefixOf (c :: cs) then some ([], (c :: cs).drop needle.length)
    else (splitOnce needle cs).map fun (front, back) => (c :: front, back)

/-- The parts of a text between the separators; a text without one is a single part. -/
def splitOn (sep : Char) : List Char → List (List Char)
  | [] => [[]]
  | c :: cs =>
    match splitOn sep cs with
    | [] => [[c]]
    | part :: parts => if c = sep then [] :: part :: parts else (c :: part) :: parts

/-- The parts of a list of texts joined by a separator. -/
def join (sep : List Char) : List (List Char) → List Char
  | [] => []
  | [part] => part
  | part :: parts => part ++ sep ++ join sep parts

end Scriptorium.Text
