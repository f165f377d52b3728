import Scriptorium.Settings.File
import Scriptorium.Proofs.Disk.ReadBack
import Scriptorium.Proofs.Json.PrettyLines
import Scriptorium.Proofs.Json.RecordFields
import Scriptorium.Proofs.Text.Lines
import Scriptorium.Proofs.Text.Trim

/-!
# Saving and loading settings

Settings are read back from the text they are saved as (`Settings.parse?_render`), and so from the file that
saving has written. No line of that text is taken for a comment.
-/

namespace Scriptorium

open Text Json

/-! ## Comments -/

namespace Settings

variable {cs : List Char}

/-- A line that begins with blanks and no slash is no comment. -/
theorem not_isComment (n : Nat) (h : BeginsLine cs) : isComment (List.replicate n ' ' ++ cs) = false := by
  obtain ⟨c, tail, rfl, hblank, hslash⟩ := h
  have hspaces : ∀ x ∈ List.replicate n ' ', isBlank x = true := fun x hx => by
    rw [List.eq_of_mem_replicate hx]
    rfl
  have htrim : trimStart (List.replicate n ' ' ++ c :: tail) = c :: tail := by
    rw [trimStart, List.dropWhile_append_of_pos hspaces, List.dropWhile_cons_of_neg (by simp [hblank])]
  rw [isComment, trim, htrim, startsWith, ← Bool.not_eq_true, List.isPrefixOf_iff_prefix]
  intro hprefix
  have hfront := trimEnd_prefix (c :: tail)
  obtain ⟨after, hafter⟩ := hprefix.trans hfront
  exact hslash (List.cons.inj hafter).1.symm

/-- The line that such a text begins with is no comment. -/
theorem not_isComment_takeWhile (n : Nat) (h : BeginsLine cs) :
    isComment ((List.replicate n ' ' ++ cs).takeWhile (· != '\n')) = false := by
  obtain ⟨c, tail, rfl, hblank, hslash⟩ := h
  have hc : c ≠ '\n' := by
    rintro rfl
    cases hblank
  rw [List.takeWhile_append_of_pos (by simp [List.mem_replicate]),
    List.takeWhile_cons_of_pos (by simpa using hc)]
  exact not_isComment n ⟨c, _, rfl, hblank, hslash⟩

theorem not_isComment_of_mem_splitOn {line : List Char} (h : Tidy cs) (hbegins : BeginsLine cs)
    (hline : line ∈ splitOn '\n' cs) : isComment line = false := by
  obtain ⟨parts, hsplit, hparts⟩ := splitOn_eq_cons '\n' cs
  rw [hsplit] at hline
  rcases List.mem_cons.1 hline with rfl | hline
  · exact not_isComment_takeWhile 0 hbegins
  · obtain ⟨before, after, hcs, rfl⟩ := hparts line hline
    obtain ⟨n, tail, rfl, htail⟩ := h.indented before after hcs
    exact not_isComment_takeWhile n htail

/-- Dropping comments leaves a written value as it is. -/
theorem dropComments_pretty {v : Json} (h : Exact v) : dropComments (pretty 0 v) = pretty 0 v := by
  have htidy := h.tidy 0
  have hbegins := h.beginsLine 0
  have hne : pretty 0 v ≠ [] := by
    obtain ⟨c, tail, hhead, -⟩ := hbegins
    rw [hhead]
    exact List.cons_ne_nil c tail
  have hplain : ∀ line ∈ splitOn '\n' (pretty 0 v), (!isComment line) = true := by
    intro line hline
    rw [not_isComment_of_mem_splitOn htidy hbegins hline, Bool.not_false]
  rw [dropComments, lines_eq_splitOn hne htidy.getLast?_ne htidy.no_return, List.filter_eq_self.2 hplain,
    join_splitOn]

end Settings

/-! ## The fields -/

theorem Provider.lookup_label (p : Provider) : asChoice? Provider.named (.str p.label) = some p := by
  cases p <;> rfl

theorem BusyPolicy.lookup_label (p : BusyPolicy) : asChoice? BusyPolicy.named (.str p.label) = some p := by
  cases p <;> rfl

theorem AssistSettings.decode?_encode (s : AssistSettings) :
    decode? fields {} (encode fields s) = some s := by
  rw [Json.decode?_encode (by decide)]
  simp only [fields, List.foldlM_cons, List.foldlM_nil, Option.bind_eq_bind, Option.bind_some,
    Option.pure_def, RecordField.copy_of Provider.lookup_label, RecordField.copy_of asString?_str,
    RecordField.copy_of asBool?_bool, RecordField.copy_of asOption?_ofOption,
    RecordField.copy_of asUInt64?_toNat]

theorem Settings.ofJson?_toJson (s : Settings) : ofJson? s.toJson = some s := by
  rw [ofJson?, toJson, Json.decode?_encode (by decide)]
  simp only [fields, List.foldlM_cons, List.foldlM_nil, Option.bind_eq_bind, Option.bind_some,
    Option.pure_def, RecordField.copy_of asUInt64?_toNat, RecordField.copy_of asInt64?_toInt,
    RecordField.copy_of BusyPolicy.lookup_label, RecordField.copy_of asList?_str,
    RecordField.copy_of asBool?_bool, RecordField.copy_of asOption?_ofOption,
    RecordField.copy_of asUInt32?_toNat, RecordField.copy_of AssistSettings.decode?_encode]

theorem AssistSettings.exact_encode (s : AssistSettings) : Exact (encode fields s) := by
  refine Json.exact_encode ?_
  simp only [fields, List.forall_mem_cons]
  exact ⟨.str _, .str _, .bool _, exact_ofOption _, .int _, by simp⟩

theorem Settings.exact_toJson (s : Settings) : Exact s.toJson := by
  refine Json.exact_encode ?_
  simp only [fields, List.forall_mem_cons]
  exact ⟨.int _, .int _, .int _, .str _, exact_strings _, exact_strings _, .bool _, exact_ofOption _, .int _,
    s.assist.exact_encode, by simp⟩

/-! ## Files -/

namespace Settings

theorem parse?_render (s : Settings) : parse? s.render = some s := by
  have hexact := s.exact_toJson
  rw [parse?, render, Json.render, String.toList_ofList, dropComments_pretty hexact, readStrict?,
    hexact.read?_pretty, Option.bind_some, ofJson?_toJson]

theorem readText_saveTo {s : Settings} {disk disk' : Disk} {path : String}
    (h : s.saveTo disk path = (.ok (), disk')) :
    disk'.readText path = .ok s.render := by
  rw [saveTo, writeBelow] at h
  split at h
  next => cases h
  next => exact Disk.readText_write h

/-- Saved settings survive: the text is read as the same settings, and a file that was saved holds that text and
loads without a warning. -/
theorem survives_save (s : Settings) : parse? s.render = some s ∧
    ∀ disk path disk', s.saveTo disk path = (.ok (), disk') →
      disk'.readText path = .ok s.render ∧ loadFrom disk' path = (s, []) := by
  refine ⟨s.parse?_render, fun disk path disk' h => ?_⟩
  have htext := readText_saveTo h
  refine ⟨htext, ?_⟩
  rw [loadFrom, htext]
  simp only [s.parse?_render]

/-- Strings that look like comments or need escapes, saved in a directory that is made for them. -/
theorem survives_save_hostile :
    ∃ s disk', s.searchPaths = ["// a\n// b", ""] ∧ s.logDirectory? = some "\"\\\x01\t" ∧
      s.assist.model = "//" ∧ saveTo s {} "/macrohost/settings.json" = (.ok (), disk') ∧
      loadFrom disk' "/macrohost/settings.json" = (s, []) := by
  refine ⟨
    { searchPaths := ["// a\n// b", ""]
      logDirectory? := some "\"\\\x01\t"
      assist := { model := "//" } }, _, rfl, rfl, rfl, rfl, ?_⟩
  exact ((survives_save _).2 {} "/macrohost/settings.json" _ rfl).2

end Settings

end Scriptorium
