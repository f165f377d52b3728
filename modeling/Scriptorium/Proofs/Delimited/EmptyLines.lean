import Scriptorium.Proofs.Delimited.SniffedDelimiter

/-!
# Empty lines in front of a text

The reader of records skips empty lines. In front of a text they change the lines that later records are counted on
and nothing else, except that a byte order mark behind them is text (`load_lineEnds_append`). The guess of a delimiter
does not skip them: it takes the first line for the header even when it is empty, and then no candidate has weight. So
it guesses a comma whatever the text holds (`sniff_eq_comma`), and the table is read with the right delimiter only if
that is the comma (`sniff_emptyLines`). A lone CR is no line end to the guess, and does not mislead it.
-/

namespace Scriptorium.Delimited

open Text

variable {d c : Char} {cs front line : List Char} {k : ℕ}

/-! ## What a reader leaves -/

theorem readQuoted_suffix (d : Char) (cs : List Char) : (readQuoted d cs).2 <:+ cs := by
  fun_induction readQuoted d cs with
  | case1 => exact List.suffix_refl _
  | case2 cs field rest hread ih =>
    rw [hread] at ih
    exact ih.trans ((List.suffix_cons _ _).trans (List.suffix_cons _ _))
  | case3 cs _ => exact (List.dropWhile_suffix _).trans (List.suffix_cons _ _)
  | case4 c cs _ _ field rest hread ih =>
    rw [hread] at ih
    exact ih.trans (List.suffix_cons _ _)

theorem readField_suffix (d : Char) (cs : List Char) : (readField d cs).2 <:+ cs := by
  unfold readField
  split
  · exact (readQuoted_suffix d _).trans (List.suffix_cons _ _)
  · exact List.dropWhile_suffix _

theorem readFields_suffix (d : Char) (cs : List Char) : (readFields d cs).2 <:+ cs := by
  fun_induction readFields d cs with
  | case1 cs field h => exact List.nil_suffix
  | case2 cs field rest _ _ hr h ih =>
    rw [hr] at ih
    have hfield := readField_suffix d cs
    rw [h] at hfield
    exact ih.trans ((List.suffix_cons _ _).trans hfield)
  | case3 cs field c rest h hc =>
    have hfield := readField_suffix d cs
    rw [h] at hfield
    exact (List.suffix_cons _ _).trans hfield

/-! ## Records further down -/

/-- The record, counted so many lines further down. -/
def Record.moved (k : ℕ) (r : Record) : Record := { r with line := r.line + k }

/-- The report, with its record counted so many lines further down. -/
def Skipped.moved (k : ℕ) (s : Skipped) : Skipped := { s with line := s.line + k }

/-- All records but the first, counted so many lines further down. -/
def moveDown (k : ℕ) : List Record → List Record
  | [] => []
  | r :: records => r :: records.map (Record.moved k)

theorem recordsFrom_of_dropWhile_eq_nil (h : cs.dropWhile isLineEnd = []) (n : ℕ) : recordsFrom d n cs = [] := by
  rw [recordsFrom]
  split
  · rfl
  · next heq => cases h.symm.trans heq

theorem recordsFrom_of_dropWhile_eq_cons {body : List Char} (h : cs.dropWhile isLineEnd = c :: body) (n : ℕ) :
    recordsFrom d n cs = ⟨n, (readFields d (c :: body)).1⟩ ::
      recordsFrom d (n + (lineFeeds cs - lineFeeds (readFields d (c :: body)).2)) (readFields d (c :: body)).2 := by
  rw [recordsFrom]
  split
  · next heq => cases h.symm.trans heq
  · next heq =>
    obtain ⟨rfl, rfl⟩ := List.cons.inj (h.symm.trans heq)
    rfl

theorem recordsFrom_add (d : Char) (n k : ℕ) (cs : List Char) :
    recordsFrom d (n + k) cs = (recordsFrom d n cs).map (Record.moved k) := by
  fun_induction recordsFrom d n cs with
  | case1 n cs h => exact recordsFrom_of_dropWhile_eq_nil h _
  | case2 n cs c body h read ih =>
    rw [recordsFrom_of_dropWhile_eq_cons h, List.map_cons, ← ih, Nat.add_right_comm n k]
    rfl

theorem recordsFrom_lineEnds_append (hfront : ∀ c ∈ front, isLineEnd c = true) (n : ℕ) (cs : List Char) :
    recordsFrom d n (front ++ cs) = moveDown (lineFeeds front) (recordsFrom d n cs) := by
  have hdrop : (front ++ cs).dropWhile isLineEnd = cs.dropWhile isLineEnd := List.dropWhile_append_of_pos hfront
  cases h : cs.dropWhile isLineEnd with
  | nil =>
    rw [recordsFrom_of_dropWhile_eq_nil h, recordsFrom_of_dropWhile_eq_nil (hdrop.trans h)]
    rfl
  | cons c body =>
    rw [recordsFrom_of_dropWhile_eq_cons h, recordsFrom_of_dropWhile_eq_cons (hdrop.trans h), moveDown,
      ← recordsFrom_add]
    congr 2
    -- the first record takes the line ends before it along
    have hbody : (readFields d (c :: body)).2 <:+ cs :=
      (readFields_suffix d _).trans (h ▸ List.dropWhile_suffix isLineEnd)
    have hle : lineFeeds (readFields d (c :: body)).2 ≤ lineFeeds cs := hbody.sublist.count_le '\n'
    have hsum : lineFeeds (front ++ cs) = lineFeeds front + lineFeeds cs := List.count_append
    omega

/-- Line ends in front of a text are read as a byte order mark there is, up to the lines of the records. -/
theorem readRecords_lineEnds_append (hne : front ≠ []) (hfront : ∀ c ∈ front, isLineEnd c = true) (cs : List Char) :
    readRecords d (front ++ cs) = moveDown (lineFeeds front) (readRecords d ('\uFEFF' :: cs)) := by
  have hmark : withoutMark (front ++ cs) = front ++ cs := by
    obtain ⟨c, rest, rfl⟩ := List.exists_cons_of_ne_nil hne
    refine withoutMark_of_ne ?_ _
    rintro rfl
    exact absurd (hfront _ List.mem_cons_self) (by decide)
  rw [readRecords, hmark]
  exact recordsFrom_lineEnds_append hfront 1 cs

theorem readRecords_mark (h : cs.head? ≠ some '\uFEFF') : readRecords d ('\uFEFF' :: cs) = readRecords d cs := by
  have hmark : withoutMark cs = cs := by
    cases cs with
    | nil => rfl
    | cons c cs => exact withoutMark_of_ne (fun hc => h (congrArg some hc)) _
  rw [readRecords, readRecords, hmark]
  rfl

/-! ## Loading -/

theorem rowsOf_moved (n : ℕ) (records : List Record) : rowsOf n (records.map (Record.moved k)) = rowsOf n records := by
  rw [rowsOf, rowsOf, List.filter_map, List.map_map]
  rfl

theorem skippedOf_moved (n : ℕ) (records : List Record) :
    skippedOf n (records.map (Record.moved k)) = (skippedOf n records).map (Skipped.moved k) := by
  rw [skippedOf, skippedOf, List.filter_map, List.map_map, List.map_map]
  rfl

theorem load_lineEnds_append (hne : front ≠ []) (hfront : ∀ c ∈ front, isLineEnd c = true) (d : Char) (cs : List Char) :
    load d (front ++ cs) =
      ((load d ('\uFEFF' :: cs)).1, (load d ('\uFEFF' :: cs)).2.map (Skipped.moved (lineFeeds front))) := by
  rw [load, load, readRecords_lineEnds_append hne hfront]
  cases readRecords d ('\uFEFF' :: cs) with
  | nil => rfl
  | cons header records =>
    dsimp only [moveDown]
    rw [rowsOf_moved, skippedOf_moved]

theorem load_mark (h : cs.head? ≠ some '\uFEFF') (d : Char) : load d ('\uFEFF' :: cs) = load d cs := by
  rw [load, load, readRecords_mark h]

/-! ## Guessing -/

theorem fieldCount_lineEnds_append (hne : front ≠ []) (hfront : ∀ c ∈ front, isLineEnd c = true) (line : List Char) :
    fieldCount d (front ++ line) = fieldCount d ('\uFEFF' :: line) := by
  rw [fieldCount, fieldCount, readRecords_lineEnds_append hne hfront]
  cases readRecords d ('\uFEFF' :: line) <;> rfl

theorem fieldCount_mark : fieldCount d ['\uFEFF'] = 1 := by
  have hnone : readRecords d ['\uFEFF'] = [] := recordsFrom_nil 1
  rw [fieldCount, hnone]

theorem fieldCount_lineEnds (hfront : ∀ c ∈ front, isLineEnd c = true) : fieldCount d front = 1 := by
  by_cases hne : front = []
  · have hnone : readRecords d [] = [] := recordsFrom_nil 1
    rw [hne, fieldCount, hnone]
  · rw [← List.append_nil front, fieldCount_lineEnds_append hne hfront, fieldCount_mark]

/-- Two first lines with as many fields for every candidate have one guess. -/
theorem sniff_congr {cs' first first' : List Char} {below : List (List Char)} (h : lines cs = first :: below)
    (h' : lines cs' = first' :: below) (hcount : ∀ d, fieldCount d first = fieldCount d first') :
    sniff cs = sniff cs' := by
  have hscore (d : Char) (sample : List (List Char)) : score d (first :: sample) = score d (first' :: sample) := by
    simp only [score, List.map_cons, hcount]
  have hheaviest (sample : List (List Char)) (best : Char) (weight : ℕ) (ds : List Char) :
      heaviest (first :: sample) best weight ds = heaviest (first' :: sample) best weight ds := by
    induction ds generalizing best weight with
    | nil => rfl
    | cons d ds ih => rw [heaviest, heaviest, hscore, ih, ih]
  rw [sniff, sniff, h, h', sampleSize, List.take_succ_cons, List.take_succ_cons, hheaviest]

/-- A first line that no candidate cuts leaves the comma. -/
theorem sniff_of_fieldCount_le {first : List Char} {below : List (List Char)} (h : lines cs = first :: below)
    (hcount : ∀ d, fieldCount d first ≤ 1) : sniff cs = comma := by
  rw [sniff, h, sampleSize, List.take_succ_cons]
  exact heaviest_of_le fun d _ => (score_eq_zero (hcount d) _).le

theorem lineEnds_dropFinalCR (hfront : ∀ c ∈ front, isLineEnd c = true) :
    ∀ c ∈ dropFinalCR front, isLineEnd c = true := by
  have hstart := dropFinalCR_prefix front
  exact fun c hc => hfront c (hstart.subset hc)

/-- Behind an empty line that ends at LF the guess is a comma, whatever stands there. -/
theorem sniff_eq_comma (hfront : ∀ c ∈ front, isLineEnd c = true) (hfeed : '\n' ∈ front) (cs : List Char) :
    sniff (front ++ cs) = comma := by
  obtain ⟨line, rest, rfl, hline⟩ := List.eq_append_cons_of_mem hfeed
  have hempty : ∀ c ∈ line, isLineEnd c = true := fun c hc => hfront c (List.mem_append_left _ hc)
  have hlines : lines (line ++ '\n' :: rest ++ cs) = dropFinalCR line :: lines (rest ++ cs) := by
    rw [List.append_assoc, List.cons_append, lines_append_lineFeed hline]
  exact sniff_of_fieldCount_le hlines fun d => (fieldCount_lineEnds (lineEnds_dropFinalCR hempty)).le

theorem dropFinalCR_append (hne : line ≠ []) (front : List Char) :
    dropFinalCR (front ++ line) = front ++ dropFinalCR line := by
  have hlast : (front ++ line).getLast? = line.getLast? := List.getLast?_append_of_ne_nil _ hne
  unfold dropFinalCR
  rw [hlast]
  split
  · exact List.dropLast_append_of_ne_nil hne
  · rfl

theorem dropFinalCR_mark (line : List Char) : dropFinalCR ('\uFEFF' :: line) = '\uFEFF' :: dropFinalCR line := by
  by_cases hne : line = []
  · rw [hne]
    rfl
  · exact dropFinalCR_append hne ['\uFEFF']

theorem lines_mark_append (hline : '\n' ∉ line) (rest : List Char) :
    lines ('\uFEFF' :: (line ++ '\n' :: rest)) = ('\uFEFF' :: dropFinalCR line) :: lines rest := by
  rw [← List.cons_append, lines_append_lineFeed (by simpa using hline), dropFinalCR_mark]

/-- CRs in front of a text do as much to the guess as a byte order mark does there. -/
theorem sniff_append_of_not_mem (hne : front ≠ []) (hfront : ∀ c ∈ front, isLineEnd c = true) (hfeed : '\n' ∉ front)
    (cs : List Char) : sniff (front ++ cs) = sniff ('\uFEFF' :: cs) := by
  rcases exists_line cs with hcs | ⟨line, rest, hline, rfl⟩
  · have hmem : '\n' ∉ front ++ cs := by simp [hfeed, hcs]
    have hmark : '\n' ∉ '\uFEFF' :: cs := by simp [hcs]
    exact sniff_congr (lines_of_not_mem hmem (by simp [hne])) (lines_of_not_mem hmark (by simp))
      fun d => fieldCount_lineEnds_append hne hfront cs
  · have hmem : '\n' ∉ front ++ line := by simp [hfeed, hline]
    rw [← List.append_assoc]
    refine sniff_congr (lines_append_lineFeed hmem rest) (lines_mark_append hline rest) fun d => ?_
    by_cases hempty : line = []
    · rw [hempty, List.append_nil, fieldCount_lineEnds (lineEnds_dropFinalCR hfront)]
      exact fieldCount_mark.symm
    · rw [dropFinalCR_append hempty, fieldCount_lineEnds_append hne hfront]

theorem fieldCount_mark_cons (h : line.head? ≠ some '\uFEFF') :
    fieldCount d ('\uFEFF' :: line) = fieldCount d line := by
  rw [fieldCount, fieldCount, readRecords_mark h]

theorem head?_ne_of_isPrefix (h : line <+: cs) (hcs : cs.head? ≠ some c) : line.head? ≠ some c := by
  obtain ⟨rest, rfl⟩ := h
  cases line with
  | nil => simp
  | cons x line => exact hcs

theorem sniff_mark (h : cs.head? ≠ some '\uFEFF') : sniff ('\uFEFF' :: cs) = sniff cs := by
  rcases exists_line cs with hcs | ⟨line, rest, hline, rfl⟩
  · by_cases hne : cs = []
    · rw [hne]
      exact sniff_of_fieldCount_le (lines_of_not_mem (by decide) (by simp)) fun d => fieldCount_mark.le
    · exact sniff_congr (lines_of_not_mem (by simpa using hcs) (by simp)) (lines_of_not_mem hcs hne)
        fun d => fieldCount_mark_cons h
  · have hstart := dropFinalCR_prefix line
    refine sniff_congr (lines_mark_append hline rest) (lines_append_lineFeed hline rest) fun d => ?_
    exact fieldCount_mark_cons (head?_ne_of_isPrefix (hstart.trans (List.prefix_append _ _)) h)

theorem sniff_lineEnds_append (hne : front ≠ []) (hfront : ∀ c ∈ front, isLineEnd c = true) (cs : List Char) :
    sniff (front ++ cs) = if '\n' ∈ front then comma else sniff ('\uFEFF' :: cs) := by
  split_ifs with hfeed
  · exact sniff_eq_comma hfront hfeed cs
  · exact sniff_append_of_not_mem hne hfront hfeed cs

/-! ## Empty lines -/

theorem loadFile_sniffed {disk : Disk} {path : String} (h : readFile disk path = .ok cs) :
    loadFile disk path none = load (sniff cs) cs := by
  rw [loadFile, h]
  rfl

/-- A text behind empty lines, each of which ends at LF, CR LF or CR, is loaded with any delimiter as it is without
them: the same table or the same error, and the same records skipped, counted as many lines further down as there are
LFs in front. Only a byte order mark at its start is then text, as it is behind another mark. But if one of the empty
lines ends at LF, the guessed delimiter is the comma. So the guess is the same exactly if there is no such line or the
comma is right, and a file is loaded to the same table or error exactly if there is none or the comma gives that one as
well. -/
theorem sniff_emptyLines (hne : front ≠ []) (hfront : ∀ c ∈ front, isLineEnd c = true) (cs : List Char) :
    sniff (front ++ cs) = (if '\n' ∈ front then comma else sniff ('\uFEFF' :: cs)) ∧
    (∀ d, load d (front ++ cs) =
      ((load d ('\uFEFF' :: cs)).1, (load d ('\uFEFF' :: cs)).2.map (Skipped.moved (lineFeeds front)))) ∧
    (cs.head? ≠ some '\uFEFF' →
      (∀ d, load d ('\uFEFF' :: cs) = load d cs) ∧
      (sniff (front ++ cs) = sniff cs ↔ '\n' ∉ front ∨ sniff cs = comma) ∧
      ∀ disk disk' path, readFile disk path = .ok cs → readFile disk' path = .ok (front ++ cs) →
        ((loadFile disk' path none).1 = (loadFile disk path none).1 ↔
          '\n' ∉ front ∨ (load comma cs).1 = (load (sniff cs) cs).1)) := by
  refine ⟨sniff_lineEnds_append hne hfront cs, fun d => load_lineEnds_append hne hfront d cs, fun hmark => ?_⟩
  have hguess : sniff (front ++ cs) = if '\n' ∈ front then comma else sniff cs := by
    rw [sniff_lineEnds_append hne hfront, sniff_mark hmark]
  have hload (d : Char) : (load d (front ++ cs)).1 = (load d cs).1 := by
    rw [load_lineEnds_append hne hfront, load_mark hmark]
  refine ⟨load_mark hmark, ?_, fun disk disk' path hread hread' => ?_⟩
  · rw [hguess]
    split_ifs with hfeed
    · simp [hfeed, eq_comm]
    · simp [hfeed]
  · rw [loadFile_sniffed hread, loadFile_sniffed hread', hload, hguess]
    split_ifs with hfeed <;> simp [hfeed]

/-- A file with semicolons. -/
def semicolons : List Char := "a;b\n1;2\n".toList

/-- A disk with a file of this text. -/
def diskWith (cs : List Char) : Disk := Disk.setEntry {} ["t.csv"] (.file (String.ofList cs).toUTF8)

theorem readFile_diskWith (cs : List Char) : readFile (diskWith cs) "/t.csv" = .ok cs := by
  have hread : (diskWith cs).read "/t.csv" = .ok (String.ofList cs).toUTF8 := rfl
  rw [readFile, hread]
  simp only [decodeAny_toUTF8, String.toList_ofList]

/-- An empty line of each kind in front makes a file with semicolons one column of text. -/
theorem sniff_emptyLines_semicolons : ∃ front, front = "\r\n\n\r".toList ∧ front ≠ [] ∧
    (∀ c ∈ front, isLineEnd c = true) ∧ semicolons.head? ≠ some '\uFEFF' ∧
    readFile (diskWith semicolons) "/t.csv" = .ok semicolons ∧
    readFile (diskWith (front ++ semicolons)) "/t.csv" = .ok (front ++ semicolons) ∧
    sniff (front ++ semicolons) = comma ∧ sniff semicolons = ';' ∧
    (loadFile (diskWith (front ++ semicolons)) "/t.csv" none).1 ≠ (loadFile (diskWith semicolons) "/t.csv" none).1 := by
  obtain ⟨front, hfront⟩ : ∃ front, front = "\r\n\n\r".toList := ⟨_, rfl⟩
  have hne : front ≠ [] := by rw [hfront]; decide
  have hends : ∀ c ∈ front, isLineEnd c = true := List.all_eq_true.1 (by rw [hfront]; rfl)
  have hfeed : '\n' ∈ front := by rw [hfront]; decide
  have hmark : semicolons.head? ≠ some '\uFEFF' := by decide
  have hsniff : sniff semicolons = ';' := by decide +kernel
  obtain ⟨hguess, -, hplain⟩ := sniff_emptyLines hne hends semicolons
  obtain ⟨-, -, hfiles⟩ := hplain hmark
  refine ⟨front, hfront, hne, hends, hmark, readFile_diskWith _, readFile_diskWith _, ?_, hsniff, ?_⟩
  · rw [hguess, if_pos hfeed]
  · rw [ne_eq, hfiles _ _ _ (readFile_diskWith _) (readFile_diskWith _), hsniff, not_or, not_not]
    refine ⟨hfeed, fun h => ?_⟩
    have hnames : (load comma semicolons).1.toOption.map Table.names ≠
        (load ';' semicolons).1.toOption.map Table.names := by decide +kernel
    exact hnames (by rw [h])

/-- A single LF in front of a file with semicolons hides them. -/
theorem semicolons_missed : sniff ('\n' :: semicolons) ≠ sniff semicolons ∧
    (load (sniff semicolons) semicolons).1.toOption.map Table.names = some ["a", "b"] ∧
    (load (sniff ('\n' :: semicolons)) ('\n' :: semicolons)).1.toOption.map Table.names = some ["a;b"] := by
  decide +kernel

end Scriptorium.Delimited
