import Mathlib.Data.List.DropRight
import Scriptorium.HostLog.Handles
import Scriptorium.Proofs.Text.FirstPlace

/-!
# What a log keeps in memory

A log keeps the last entries that it got since it was cleared, up to its capacity (`entries_foldl_remember`).
-/

namespace Scriptorium.HostLog

theorem entries_keep (log : HostLog) (e : LogEntry) :
    (log.keep e).entries.toList =
      (log.entries.toList ++ [e]).drop (if capacity ≤ log.entries.size then 1 else 0) := by
  unfold keep
  by_cases h : capacity ≤ log.entries.size
  · have hpos : 1 ≤ log.entries.toList.length := Nat.le_trans (by decide) h
    rw [if_pos h, if_pos h, List.drop_append_of_le_length hpos, Array.toList_push, Array.toList_extract,
      List.extract_eq_take_drop, List.take_of_length_le (by simp)]
  · simp [h]

/-- A log keeps the entries it gets, up to its capacity. -/
theorem entries_foldl_keep (log : HostLog) (gained : List LogEntry) :
    (gained.foldl keep log).entries.toList =
      (log.entries.toList ++ gained).drop
        (min gained.length (log.entries.size + gained.length - capacity)) := by
  induction gained generalizing log with
  | nil => simp
  | cons e gained ih =>
    have hkeep := log.entries_keep e
    have hsize := congrArg List.length hkeep
    rw [List.length_drop, List.length_append, Array.length_toList, Array.length_toList,
      List.length_singleton] at hsize
    have hle : (if capacity ≤ log.entries.size then 1 else 0) ≤ (log.entries.toList ++ [e]).length := by
      rw [List.length_append, List.length_singleton]
      split <;> omega
    rw [List.foldl_cons, ih, hkeep, ← List.drop_append_of_le_length hle, List.drop_drop, List.append_assoc,
      hsize, List.singleton_append, List.length_cons]
    generalize capacity = room
    congr 1
    split <;> omega

/-! ## Deeds -/

namespace Deed

/-- The entry that is appended, if it is not a clear. -/
def added? : Deed → Option LogEntry
  | .append now level message => some ⟨now, level, message⟩
  | .clear => none

/-- The entries that were appended, in order. -/
def appended (deeds : List Deed) : List LogEntry := deeds.filterMap added?

/-- The entries that were appended since the last clear. -/
def appendedSinceClear (deeds : List Deed) : List LogEntry := appended (deeds.rtakeWhile (·.added?.isSome))

theorem appendedSinceClear_append (deeds : List Deed) (now : Calendar.Moment) (level : LogLevel) (message : String) :
    appendedSinceClear (deeds ++ [.append now level message]) =
      appendedSinceClear deeds ++ [⟨now, level, message⟩] := by
  rw [appendedSinceClear, List.rtakeWhile_concat_pos _ _ _ rfl, appended, List.filterMap_append]
  rfl

theorem appendedSinceClear_clear (deeds : List Deed) : appendedSinceClear (deeds ++ [.clear]) = [] := by
  rw [appendedSinceClear, List.rtakeWhile_concat_neg _ _ _ Bool.false_ne_true]
  rfl

end Deed

/-- The log after a deed. -/
def remember (log : HostLog) : Deed → HostLog
  | .append now level message => log.keep ⟨now, level, message⟩
  | .clear => log.clear

theorem perform_fst (log : HostLog) (disk : Disk) (deed : Deed) : (log.perform disk deed).1 = log.remember deed := by
  cases deed <;> rfl

/-- A deed leaves the directory of the daily files as it is. -/
@[simp] theorem remember_directory? (log : HostLog) (deed : Deed) :
    (log.remember deed).directory? = log.directory? := by
  cases deed <;> rfl

/-- The oldest of the last entries makes room for a new one. -/
theorem rtake_concat {α : Type} (xs : List α) (x : α) {room : Nat} (hroom : 0 < room) :
    (xs ++ [x]).rtake room =
      (xs.rtake room ++ [x]).drop (if room ≤ (xs.rtake room).length then 1 else 0) := by
  have hlength : (xs.rtake room).length = min room xs.length := by
    rw [List.rtake, List.length_drop]
    omega
  rw [hlength, List.rtake, List.rtake, List.length_append, List.length_singleton]
  by_cases hfull : room ≤ xs.length
  · have hsum : xs.length + 1 - room = xs.length - room + 1 := by omega
    rw [if_pos (by omega), ← List.drop_append_of_le_length (by omega), List.drop_drop, hsum]
  · have hnone : xs.length + 1 - room = 0 ∧ xs.length - room = 0 := by omega
    rw [if_neg (by omega), hnone.1, hnone.2, List.drop_zero, List.drop_zero, List.drop_zero]

theorem entries_foldl_remember (directory? : Option String) (deeds : List Deed) :
    (deeds.foldl remember { directory? }).entries.toList = (Deed.appendedSinceClear deeds).rtake capacity := by
  induction deeds using List.reverseRecOn with
  | nil => rfl
  | append_singleton deeds deed ih =>
    rw [List.foldl_concat]
    cases deed with
    | append now level message =>
      rw [Deed.appendedSinceClear_append, rtake_concat _ _ (by decide), ← ih, Array.length_toList]
      exact entries_keep _ _
    | clear =>
      rw [Deed.appendedSinceClear_clear]
      rfl

/-! ## Looking for entries -/

theorem contains_iff {log : HostLog} {level : LogLevel} {needle : String} :
    log.contains level needle = true ↔
      ∃ e ∈ log.entries.toList, e.level = level ∧ needle.toList <:+: e.message.toList := by
  simp only [contains, ← Array.any_toList, List.any_eq_true, Bool.and_eq_true, beq_iff_eq, Text.contains_iff_isInfix]

end Scriptorium.HostLog
