import Scriptorium.Proofs.Delimited.TableRoundTrip
import Scriptorium.Proofs.Text.LineCuts

/-!
# Finding a delimiter again

The first line decides which candidates have weight: one that does not cut it has none, whatever stands below it
(`score_eq_zero`). The first line of a written table is its header unless a column name has a line end, and if the
names hold no other candidate, only the delimiter that was written cuts the header. So that delimiter is found again,
and the rows have no say in it: `sniff_render`.
-/

namespace Scriptorium.Delimited

open Text

variable {d e : Char} {cs line field first next : List Char} {sample fields : List (List Char)} {t : Table}

/-! ## Weights -/

theorem score_eq_zero (h : fieldCount d line ≤ 1) (sample : List (List Char)) : score d (line :: sample) = 0 := by
  show (if fieldCount d line ≤ 1 then 0 else _) = 0
  rw [if_pos h]

theorem score_pos (h : 2 ≤ fieldCount d line) (sample : List (List Char)) : 0 < score d (line :: sample) := by
  show 0 < if fieldCount d line ≤ 1 then 0 else _
  rw [if_neg (by omega)]
  apply Nat.mul_pos
  · exact List.count_pos_iff.2 List.mem_cons_self
  · omega

/-- What is heaviest so far stays so if no candidate to come has more weight. -/
theorem heaviest_of_le {best : Char} {weight : Nat} {ds : List Char} (h : ∀ e ∈ ds, score e sample ≤ weight) :
    heaviest sample best weight ds = best := by
  induction ds with
  | nil => rfl
  | cons e ds ih =>
    rw [heaviest, if_neg (Nat.not_lt.2 (h e List.mem_cons_self))]
    exact ih fun e he => h e (List.mem_cons_of_mem _ he)

/-- The only candidate that has weight is the heaviest. -/
theorem heaviest_of_only {ds : List Char} (hd : d ∈ ds) (hpos : 0 < score d sample)
    (hothers : ∀ e ∈ ds, e ≠ d → score e sample = 0) (best : Char) : heaviest sample best 0 ds = d := by
  induction ds with
  | nil => cases hd
  | cons e ds ih =>
    have hlater : ∀ e ∈ ds, e ≠ d → score e sample = 0 := fun e he => hothers e (List.mem_cons_of_mem _ he)
    by_cases he : e = d
    · subst he
      rw [heaviest, if_pos hpos]
      apply heaviest_of_le
      intro e' he'
      by_cases heq : e' = e
      · rw [heq]
      · rw [hlater e' he' heq]
        exact Nat.zero_le _
    · rw [heaviest, hothers e List.mem_cons_self he, if_neg (Nat.lt_irrefl 0)]
      exact ih (List.mem_of_ne_of_mem (Ne.symm he) hd) hlater

/-! ## Fields of a line -/

theorem readPlain_all (h : ∀ c ∈ cs, endsField d c = false) : (readPlain d cs).2 = [] :=
  List.dropWhile_eq_nil_iff.2 fun c hc => by rw [h c hc]; rfl

theorem readQuoted_all (h : ∀ c ∈ cs, endsField d c = false) : (readQuoted d cs).2 = [] := by
  fun_induction readQuoted d cs with
  | case1 => rfl
  | case2 cs field rest hread ih =>
    rw [hread] at ih
    exact ih fun c hc => h c (by simp [hc])
  | case3 cs _ => exact readPlain_all fun c hc => h c (List.mem_cons_of_mem _ hc)
  | case4 c cs _ _ field rest hread ih =>
    rw [hread] at ih
    exact ih fun c hc => h c (List.mem_cons_of_mem _ hc)

theorem readField_all (h : ∀ c ∈ cs, endsField d c = false) : (readField d cs).2 = [] := by
  unfold readField
  split
  · exact readQuoted_all fun c hc => h c (List.mem_cons_of_mem _ hc)
  · exact readPlain_all h

/-- A text in which no field ends is one field. -/
theorem readFields_all (h : ∀ c ∈ cs, endsField d c = false) : readFields d cs = ([(readField d cs).1], []) :=
  readFields_of_readField_nil (Prod.ext rfl (readField_all h))

theorem withoutMark_suffix (cs : List Char) : withoutMark cs <:+ cs := by
  unfold withoutMark
  split
  · exact List.suffix_cons _ _
  · exact List.suffix_refl _

/-- A line has the fields that are read from it behind a byte order mark. -/
theorem fieldCount_eq (h : ∀ c ∈ line, isLineEnd c = false) :
    fieldCount d line = (readFields d (withoutMark line)).1.length := by
  have hplain : ∀ c ∈ withoutMark line, isLineEnd c = false := fun c hc => h c ((withoutMark_suffix line).subset hc)
  rw [fieldCount, readRecords]
  cases hcs : withoutMark line with
  | nil => rw [recordsFrom_nil, readFields_nil]; rfl
  | cons c cs => rw [recordsFrom_cons (hplain c (hcs ▸ List.mem_cons_self))]

/-- What is not in a line does not cut it. -/
theorem fieldCount_of_not_mem (hd : d ∉ line) (h : ∀ c ∈ line, isLineEnd c = false) : fieldCount d line = 1 := by
  rw [fieldCount_eq h, readFields_all]
  · rfl
  · intro c hc
    have hmem := (withoutMark_suffix line).subset hc
    rw [endsField, h c hmem, Bool.or_false, beq_eq_false_iff_ne]
    rintro rfl
    exact hd hmem

/-! ## Written headers -/

theorem mem_writeField {c : Char} (h : c ∈ writeField d field) : c = '"' ∨ c ∈ field := by
  unfold writeField at h
  split at h
  · have hdoubled : c ∈ doubled field → c = '"' ∨ c ∈ field := by
      intro h
      obtain ⟨x, hx, hc⟩ := List.mem_flatMap.1 h
      split at hc
      · exact .inl (by simpa using hc)
      · exact .inr (List.mem_singleton.1 hc ▸ hx)
    simp only [List.mem_cons, List.mem_append, List.not_mem_nil, or_false] at h
    tauto
  · exact .inr h

/-- Writing adds delimiters and quotes to the fields and nothing else. -/
theorem mem_writeFields {c : Char} (h : c ∈ writeFields d fields) : c = d ∨ c = '"' ∨ ∃ field ∈ fields, c ∈ field := by
  induction fields with
  | nil => cases h
  | cons field fields ih =>
    have hfirst : c ∈ writeField d field → c = d ∨ c = '"' ∨ ∃ f ∈ field :: fields, c ∈ f := fun h =>
      .inr ((mem_writeField h).imp_right fun h => ⟨field, List.mem_cons_self, h⟩)
    cases fields with
    | nil => exact hfirst h
    | cons next fields =>
      rw [writeFields_cons_cons, List.mem_append, List.mem_cons] at h
      obtain h | rfl | h := h
      · exact hfirst h
      · exact .inl rfl
      · refine (ih h).imp_right (.imp_right ?_)
        rintro ⟨f, hf, hc⟩
        exact ⟨f, List.mem_cons_of_mem _ hf, hc⟩

/-- A byte order mark at the start of written fields is the start of the first one. -/
theorem withoutMark_writeFields (hd : Separates d) (first next : List Char) (fields : List (List Char)) :
    ∃ first', withoutMark (writeFields d (first :: next :: fields)) = writeFields d (first' :: next :: fields) := by
  obtain ⟨body, hquoted⟩ | ⟨hwritten, hplain⟩ := writeField_cases d first
  · refine ⟨first, ?_⟩
    rw [writeFields_cons_cons, hquoted]
    exact withoutMark_of_ne (by decide) _
  · cases first with
    | nil =>
      refine ⟨[], ?_⟩
      have hmark : d ≠ '\uFEFF' := by
        rintro rfl
        exact absurd hd.ascii (by decide)
      rw [writeFields_cons_cons, hwritten]
      exact withoutMark_of_ne hmark _
    | cons c first =>
      rw [writeFields_cons_cons, hwritten]
      by_cases hc : c = '\uFEFF'
      · have hrest : writeField d first = first := by
          rw [writeField, needsQuotes_eq_false_iff.2 fun x hx => hplain x (List.mem_cons_of_mem _ hx)]
          rfl
        subst hc
        exact ⟨first, by rw [writeFields_cons_cons, hrest]; rfl⟩
      · exact ⟨c :: first, by rw [writeFields_cons_cons, hwritten]; exact withoutMark_of_ne hc _⟩

/-- A written line has the fields that were written, of which there are two at least. -/
theorem fieldCount_writeFields (hd : Separates d)
    (h : ∀ c ∈ writeFields d (first :: next :: fields), isLineEnd c = false) :
    fieldCount d (writeFields d (first :: next :: fields)) = fields.length + 2 := by
  obtain ⟨first', hmark⟩ := withoutMark_writeFields hd first next fields
  have hread : readFields d (writeFields d (first' :: next :: fields) ++ []) = (first' :: next :: fields, []) :=
    readFields_writeFields hd (by simp) _ (by simp)
  rw [List.append_nil] at hread
  rw [fieldCount_eq h, hmark, hread]
  rfl

/-! ## Written tables -/

theorem separates_of_mem_candidates (h : d ∈ candidates) : Separates d := by
  have hall : candidates.all fun d => d.toNat < 128 ∧ d ≠ '"' ∧ isLineEnd d = false := rfl
  obtain ⟨hascii, hquote, hplain⟩ := of_decide_eq_true (List.all_eq_true.1 hall d h)
  exact ⟨hascii, hquote, hplain⟩

/-- The first line of a written table is its header. -/
theorem exists_lines_render (hnames : t.names.map String.toList = first :: next :: fields)
    (h : ∀ c ∈ writeFields d (first :: next :: fields), isLineEnd c = false) :
    ∃ below, lines (render d t) = writeFields d (first :: next :: fields) :: below := by
  have hne : t.names ≠ [] := by
    rintro hnil
    rw [hnil] at hnames
    cases hnames
  have hline : (writeFields d (first :: next :: fields)).isEmpty = false := by simp [writeFields_cons_cons]
  have hfeed : '\n' ∉ writeFields d (first :: next :: fields) := fun hmem => Bool.noConfusion (h _ hmem)
  have hreturn : '\r' ∉ writeFields d (first :: next :: fields) := fun hmem => Bool.noConfusion (h _ hmem)
  rw [render_eq hne, hnames, writeRecords, List.flatMap_cons, writeRecord]
  simp only [hline, Bool.false_eq_true, if_false, List.append_assoc, List.singleton_append]
  exact ⟨_, by rw [lines_append_lineFeed hfeed, dropFinalCR_of_not_mem hreturn]⟩

/-- A table of two columns or more, whose names have no line end and none of the other candidates, is written so that
its delimiter is found again, whatever its cells hold. Its file is then read as with this delimiter. -/
theorem sniff_render (hd : d ∈ candidates) (hcolumns : 2 ≤ t.names.length)
    (hlines : ∀ name ∈ t.names, ∀ c ∈ name.toList, isLineEnd c = false)
    (hothers : ∀ name ∈ t.names, ∀ c ∈ name.toList, c ∈ candidates → c = d) :
    sniff (render d t) = d ∧
      ∀ disk path disk', saveFile disk path d t = (.ok (), disk') →
        loadFile disk' path none = loadFile disk' path (some d) ∧
          loadFile disk' path none = load d (render d t) := by
  have hsep := separates_of_mem_candidates hd
  have hheader : ∀ c ∈ writeFields d (t.names.map String.toList), isLineEnd c = false ∧ (c ∈ candidates → c = d) := by
    intro c hc
    obtain rfl | rfl | ⟨field, hfield, hc⟩ := mem_writeFields hc
    · exact ⟨hsep.not_lineEnd, fun _ => rfl⟩
    · exact ⟨by decide, fun hquote => absurd hquote (by decide)⟩
    · obtain ⟨name, hname, rfl⟩ := List.mem_map.1 hfield
      exact ⟨hlines name hname c hc, hothers name hname c hc⟩
  obtain ⟨first, next, fields, hnames⟩ : ∃ first next fields, t.names.map String.toList = first :: next :: fields := by
    match t.names, hcolumns with
    | first :: next :: names, _ => exact ⟨_, _, _, rfl⟩
  rw [hnames] at hheader
  have hplain : ∀ c ∈ writeFields d (first :: next :: fields), isLineEnd c = false := fun c hc => (hheader c hc).1
  have hsniff : sniff (render d t) = d := by
    obtain ⟨below, hbelow⟩ := exists_lines_render hnames hplain
    rw [sniff, hbelow, sampleSize, List.take_succ_cons]
    apply heaviest_of_only hd
    · apply score_pos
      rw [fieldCount_writeFields hsep hplain]
      omega
    · intro e he hne
      apply score_eq_zero
      rw [fieldCount_of_not_mem (fun hmem => hne ((hheader e hmem).2 he)) hplain]
  refine ⟨hsniff, fun disk path disk' hsave => ?_⟩
  have hload (d? : Option Char) := loadFile_saveFile hsave d?
  rw [hload none, hload (some d), Option.getD_none, Option.getD_some, hsniff]
  exact ⟨rfl, rfl⟩

/-- Names in quotes, and rows in which every other candidate cuts more fields than the one that was written. -/
def crowded : Table where
  names := ["\uFEFFa", "b;\"c\""]
  rows := [[.text "1,2,3,4|5|6|7\t8\t9\t0", .null], [.text "x,x,x\ny,y,y\r\n;;;;;", .integer 7]]
  distinct := by decide
  rectangular := by decide

theorem sniff_render_crowded :
    ';' ∈ candidates ∧ 2 ≤ crowded.names.length ∧
      (∀ name ∈ crowded.names, ∀ c ∈ name.toList, isLineEnd c = false) ∧
      (∀ name ∈ crowded.names, ∀ c ∈ name.toList, c ∈ candidates → c = ';') ∧
      sniff (render ';' crowded) = ';' ∧
      ∃ disk', saveFile {} "/out.csv" ';' crowded = (.ok (), disk') ∧
        loadFile disk' "/out.csv" none = load ';' (render ';' crowded) := by
  have hall : crowded.names.all fun name => name.toList.all fun c =>
      isLineEnd c = false ∧ (c ∈ candidates → c = ';') := rfl
  have hchars (name : String) (hname : name ∈ crowded.names) (c : Char) (hc : c ∈ name.toList) :
      isLineEnd c = false ∧ (c ∈ candidates → c = ';') :=
    of_decide_eq_true (List.all_eq_true.1 (List.all_eq_true.1 hall name hname) c hc)
  have hlines : ∀ name ∈ crowded.names, ∀ c ∈ name.toList, isLineEnd c = false :=
    fun name hname c hc => (hchars name hname c hc).1
  have hothers : ∀ name ∈ crowded.names, ∀ c ∈ name.toList, c ∈ candidates → c = ';' :=
    fun name hname c hc => (hchars name hname c hc).2
  obtain ⟨hsniff, hload⟩ := sniff_render (by decide) (by decide) hlines hothers
  have hsave : saveFile {} "/out.csv" ';' crowded =
      (.ok (), Disk.setEntry {} ["out.csv"] (.file (String.ofList (render ';' crowded)).toUTF8)) := rfl
  exact ⟨by decide, by decide, hlines, hothers, hsniff, _, hsave, (hload {} "/out.csv" _ hsave).2⟩

end Scriptorium.Delimited
