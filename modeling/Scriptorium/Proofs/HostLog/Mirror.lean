import Scriptorium.Proofs.Disk.ReadBack
import Scriptorium.Proofs.HostLog.Memory
import Scriptorium.Proofs.HostLog.Retention

/-!
# Logs and their files

Whatever calls reach a log, through whatever handles, it has the last of the entries that were appended since it was
cleared, and its daily files have got the lines of all that were ever appended: clearing and the capacity are a matter
of memory alone (`kept_and_mirrored`). What calls do to a log is told from the calls and the handles (`deedsTo`).
-/

namespace Scriptorium

/-! ## Files that grow -/

namespace Disk

variable {d : Disk} {l : Location} {path : String}

/-- The bytes of the file at a place; without a file there are none. -/
def contents (d : Disk) (l : Location) : Bytes :=
  match d.find? l with
  | some (.file bytes) => bytes
  | _ => .empty

/-- The bytes of the file at a path; without a file there are none. -/
def fileBytes (d : Disk) (path : String) : Bytes :=
  match d.read path with
  | .ok bytes => bytes
  | .error _ => .empty

theorem fileBytes_of_locate (hl : d.locate path = .ok l) : d.fileBytes path = d.contents l := by
  rw [fileBytes, contents, read, stat_of_locate hl]
  cases d.find? l with
  | none => rfl
  | some e => cases e <;> rfl

theorem contents_setEntry (h : d.find? l ≠ some .directory) (bytes : Bytes) (k : Location) :
    (d.setEntry l (.file bytes)).contents k = if k = l then bytes else d.contents k := by
  by_cases hk : k = l
  · rw [if_pos hk, hk, contents, find?_setEntry_self h]
  · rw [if_neg hk, contents, contents, (ChangesFile.setEntry h bytes).elsewhere k hk]

/-- What is appended goes behind the bytes that are there. -/
theorem append_eq (d : Disk) (path : String) (bytes : Bytes) :
    d.append path bytes =
      (d.locateForWriting path).map fun l => d.setEntry l (.file (d.contents l ++ bytes)) := by
  unfold append contents
  cases d.locateForWriting path with
  | error e => rfl
  | ok l =>
    simp only [bind, Except.bind, Except.map]
    cases d.find? l with
    | none => simp [pure, Except.pure]
    | some e => cases e <;> simp [pure, Except.pure]

end Disk

namespace HostLog

open Calendar

variable {log : HostLog} {disk disk' : Disk} {dir name : String} {d d' : Date} {l : Location}

/-- The place of a daily file is called by the name of the file. -/
theorem getLast?_dailyPath (h : disk.locate (dailyPath dir d) = .ok l) : l.getLast? = some (fileName d) := by
  obtain ⟨hname, hnul⟩ := fileName_fileName d
  by_cases hdir : dir = ""
  · have hjoin : dailyPath dir d = fileName d := by simp [dailyPath, Path.join, hdir]
    have hnames : Disk.names (fileName d) = [fileName d] := by
      rw [Disk.names_eq, Disk.parts_of_not_mem hname.no_slash, String.ofList_toList]
    have hwalk := Disk.walk_of_locate h
    rw [hjoin, hnames] at hwalk
    obtain ⟨-, rfl⟩ := Disk.enters_of_walk hname.toEnters hwalk
    simp
  · obtain ⟨at_, -, -, -, rfl⟩ := (Disk.locate_join_eq_ok_iff hdir hname hnul).1 h
    simp

theorem fileName_eq_of_locateForWriting (h : disk.locateForWriting (dailyPath dir d) = .ok l)
    (h' : disk.locateForWriting (dailyPath dir d') = .ok l) : fileName d = fileName d' :=
  Option.some.inj ((getLast?_dailyPath (Disk.locate_of_locateForWriting h).1).symm.trans
    (getLast?_dailyPath (Disk.locate_of_locateForWriting h').1))

/-! ## What a deed writes -/

/-- The place of the file that an entry of the log goes to, if it can be written. -/
def place? (log : HostLog) (disk : Disk) (e : LogEntry) : Option Location :=
  log.directory?.bind fun dir => (disk.locateForWriting (dailyPath dir e.moment.date)).toOption

theorem place?_eq_some_iff {e : LogEntry} : log.place? disk e = some l ↔
    ∃ dir, log.directory? = some dir ∧ disk.locateForWriting (dailyPath dir e.moment.date) = .ok l := by
  rw [place?, Option.bind_eq_some_iff]
  refine exists_congr fun dir => and_congr_right fun _ => ?_
  cases disk.locateForWriting (dailyPath dir e.moment.date) <;> simp [Except.toOption]

/-- The bytes that an entry adds to its file. -/
def lineBytes (e : LogEntry) : Bytes := (e.line ++ "\n").toUTF8

theorem writeThrough_eq (log : HostLog) (e : LogEntry) (disk : Disk) :
    log.writeThrough e disk =
      match log.place? disk e with
      | some l => disk.setEntry l (.file (disk.contents l ++ lineBytes e))
      | none => disk := by
  unfold writeThrough place?
  cases log.directory? with
  | none => rfl
  | some dir =>
    simp only [Disk.append_eq, Option.bind_some]
    cases disk.locateForWriting (dailyPath dir e.moment.date) <;> rfl

theorem perform_snd (log : HostLog) (disk : Disk) (deed : Deed) :
    (log.perform disk deed).2 = (deed.added?.map fun e => log.writeThrough e disk).getD disk := by
  cases deed <;> rfl

theorem perform_sameDirectories (log : HostLog) (disk : Disk) (deed : Deed) :
    Disk.SameDirectories disk (log.perform disk deed).2 := by
  rw [perform_snd]
  cases deed.added? with
  | none => exact .refl disk
  | some e =>
    simp only [Option.map_some, Option.getD_some, writeThrough_eq]
    cases hl : log.place? disk e with
    | none => exact .refl disk
    | some l =>
      obtain ⟨dir, -, hl⟩ := place?_eq_some_iff.1 hl
      exact (Disk.ChangesFile.setEntry (Disk.locate_of_locateForWriting hl).2 _).sameDirectories

/-- A deed adds a line to the file of its entry, and no bytes anywhere else. -/
theorem contents_perform (log : HostLog) (disk : Disk) (deed : Deed) (l : Location) :
    (log.perform disk deed).2.contents l =
      match deed.added? with
      | some e => if log.place? disk e = some l then disk.contents l ++ lineBytes e else disk.contents l
      | none => disk.contents l := by
  rw [perform_snd]
  cases deed.added? with
  | none => rfl
  | some e =>
    simp only [Option.map_some, Option.getD_some, writeThrough_eq]
    cases hk : log.place? disk e with
    | none => rfl
    | some k =>
      obtain ⟨dir, -, hk⟩ := place?_eq_some_iff.1 hk
      simp only [Disk.contents_setEntry (Disk.locate_of_locateForWriting hk).2, Option.some.injEq, eq_comm (a := l)]
      split
      next h => rw [h]
      next => rfl

/-- The lines that deeds add to the daily file of a name. -/
def linesFor (name : String) (deeds : List Deed) : String :=
  String.join (((Deed.appended deeds).filter fun e => fileName e.moment.date = name).map fun e => e.line ++ "\n")

theorem linesFor_cons (name : String) (deed : Deed) (deeds : List Deed) :
    linesFor name (deed :: deeds) = linesFor name [deed] ++ linesFor name deeds := by
  unfold linesFor Deed.appended
  rw [List.filterMap_cons, ← String.join_append, ← List.map_append, ← List.filter_append]
  cases deed <;> rfl

theorem linesFor_singleton (name : String) (deed : Deed) :
    linesFor name [deed] =
      match deed.added? with
      | some e => if fileName e.moment.date = name then e.line ++ "\n" else ""
      | none => "" := by
  cases deed with
  | clear => rfl
  | append now level message =>
    have happended : Deed.appended [.append now level message] = [⟨now, level, message⟩] := rfl
    rw [linesFor, happended]
    show _ = if fileName now.date = name then _ else _
    by_cases h : fileName now.date = name
    · rw [if_pos h, List.filter_cons_of_pos (by simpa using h)]
      exact String.empty_append
    · rw [if_neg h, List.filter_cons_of_neg (by simpa using h)]
      rfl

theorem place?_congr (h : Disk.SameDirectories disk disk') (log : HostLog) (e : LogEntry) :
    log.place? disk' e = log.place? disk e := by
  refine Option.ext fun l => ?_
  simp only [place?_eq_some_iff, h.locateForWriting_eq_ok_iff]

/-- Of the entries of a log, those of the days with one file name go to the place of that file. -/
theorem place?_iff (hdir : log.directory? = some dir) (hl : disk.locateForWriting (dailyPath dir d) = .ok l)
    (e : LogEntry) : log.place? disk e = some l ↔ fileName e.moment.date = fileName d := by
  rw [place?_eq_some_iff]
  constructor
  · rintro ⟨dir', hdir', hl'⟩
    obtain rfl := Option.some.inj (hdir.symm.trans hdir')
    exact fileName_eq_of_locateForWriting hl' hl
  · intro hname
    have hpath : dailyPath dir e.moment.date = dailyPath dir d := congrArg (Path.join dir) hname
    exact ⟨dir, hdir, hpath ▸ hl⟩

theorem contents_perform_of_directory (hdir : log.directory? = some dir)
    (hl : disk.locateForWriting (dailyPath dir d) = .ok l) (deed : Deed) :
    (log.perform disk deed).2.contents l = disk.contents l ++ (linesFor (fileName d) [deed]).toUTF8 := by
  rw [contents_perform, linesFor_singleton]
  cases deed.added? with
  | none => exact ByteArray.append_empty.symm
  | some e =>
    simp only [place?_iff hdir hl]
    split
    · rfl
    · exact ByteArray.append_empty.symm

end HostLog

/-! ## Calls through handles -/

namespace Logbooks

open Calendar HostLog

variable {b b' : Logbooks} {c : Call} {calls : List Call} {disk : Disk} {dir : String} {d : Date} {i j : Nat}
  {l : Location} {log : HostLog} {deed : Deed}

/-- What calls do to a log, in order. At first the handles lead to the logs of the numbers given. -/
def deedsTo (i : Nat) : List Nat → List Call → List Deed
  | _, [] => []
  | handles, .copy h :: calls => deedsTo i (handles ++ (handles[h]?).toList) calls
  | handles, .perform h deed :: calls =>
    if handles[h]? = some i then deed :: deedsTo i handles calls else deedsTo i handles calls

theorem step?_cases (h : b.step? c = some b') :
    (∃ k i, c = .copy k ∧ b.handles[k]? = some i ∧ b' = { b with handles := b.handles ++ [i] }) ∨
      ∃ k deed i log, c = .perform k deed ∧ b.handles[k]? = some i ∧ b.logs[i]? = some log ∧
        b' = b.perform i log deed := by
  cases c with
  | copy k =>
    obtain ⟨i, hi, rfl⟩ := Option.map_eq_some_iff.1 h
    exact .inl ⟨k, i, rfl, hi, rfl⟩
  | perform k deed =>
    obtain ⟨i, hi, hmap⟩ := Option.bind_eq_some_iff.1 h
    obtain ⟨log, hlog, rfl⟩ := Option.map_eq_some_iff.1 hmap
    exact .inr ⟨k, deed, i, log, rfl, hi, hlog, rfl⟩

theorem run?_cons (h : b.run? (c :: calls) = some b') : ∃ next, b.step? c = some next ∧ next.run? calls = some b' :=
  Option.bind_eq_some_iff.1 h

@[simp] theorem perform_handles (b : Logbooks) (i : Nat) (log : HostLog) (deed : Deed) :
    (b.perform i log deed).handles = b.handles := rfl

theorem perform_logs (hlog : b.logs[i]? = some log) (deed : Deed) (j : Nat) :
    (b.perform i log deed).logs[j]? = if i = j then some (log.remember deed) else b.logs[j]? := by
  have hlt := (List.getElem?_eq_some_iff.1 hlog).1
  show (b.logs.set i (log.perform b.disk deed).1)[j]? = _
  rw [perform_fst, List.getElem?_set]
  split <;> simp [*]

/-- A log is what the deeds to it have made of it. -/
theorem run?_logs (h : b.run? calls = some b') (i : Nat) :
    b'.logs[i]? = (b.logs[i]?).map ((deedsTo i b.handles calls).foldl remember) := by
  induction calls generalizing b with
  | nil =>
    obtain rfl := Option.some.inj h
    simp [deedsTo]
  | cons c calls ih =>
    obtain ⟨next, hstep, hrun⟩ := run?_cons h
    obtain ⟨k, j, rfl, hk, rfl⟩ | ⟨k, deed, j, log, rfl, hk, hlog, rfl⟩ := step?_cases hstep
    · rw [ih hrun, deedsTo, hk]
      rfl
    · rw [ih hrun, deedsTo, hk, perform_logs hlog, perform_handles]
      by_cases hj : j = i
      · subst hj
        rw [if_pos rfl, if_pos rfl, hlog]
        rfl
      · rw [if_neg hj, if_neg (mt Option.some.inj hj)]

/-- A copy of a handle leads to no new log. -/
theorem run?_handles (h : b.run? calls = some b') : ∀ i ∈ b'.handles, i ∈ b.handles := by
  induction calls generalizing b with
  | nil =>
    obtain rfl := Option.some.inj h
    exact fun i hi => hi
  | cons c calls ih =>
    obtain ⟨next, hstep, hrun⟩ := run?_cons h
    intro i hi
    have hnext := ih hrun i hi
    obtain ⟨k, j, rfl, hk, rfl⟩ | ⟨k, deed, j, log, rfl, hk, hlog, rfl⟩ := step?_cases hstep
    · rcases List.mem_append.1 hnext with hmem | hmem
      · exact hmem
      · exact List.mem_singleton.1 hmem ▸ List.mem_of_getElem? hk
    · exact hnext

/-- Of the logs, the one of the number has the directory, and it alone writes to the place. -/
structure WritesAlone (b : Logbooks) (disk : Disk) (i : Nat) (dir : String) (l : Location) : Prop where
  directory : ∀ log, b.logs[i]? = some log → log.directory? = some dir
  alone : ∀ j log e, b.logs[j]? = some log → log.place? disk e = some l → j = i

theorem WritesAlone.perform (h : b.WritesAlone disk i dir l) (hlog : b.logs[j]? = some log) (deed : Deed) :
    (b.perform j log deed).WritesAlone disk i dir l := by
  have hsame (k : Nat) (log' : HostLog) (hk : (b.perform j log deed).logs[k]? = some log') :
      ∃ before, b.logs[k]? = some before ∧ log'.directory? = before.directory? := by
    rw [perform_logs hlog] at hk
    split at hk
    next heq =>
      obtain rfl := Option.some.inj hk
      exact ⟨log, heq ▸ hlog, remember_directory? log deed⟩
    next => exact ⟨log', hk, rfl⟩
  constructor
  · intro log' hk
    obtain ⟨before, hbefore, hdir⟩ := hsame i log' hk
    rw [hdir, h.directory before hbefore]
  · intro k log' e hk hplace
    obtain ⟨before, hbefore, hdir⟩ := hsame k log' hk
    refine h.alone k before e hbefore ?_
    rwa [place?, ← hdir]

/-- The file of a day gets the lines that the deeds to its log write on that day, in order. -/
theorem run?_contents (h : b.run? calls = some b') (hsame : Disk.SameDirectories disk b.disk)
    (halone : b.WritesAlone disk i dir l) (hl : disk.locateForWriting (dailyPath dir d) = .ok l) :
    b'.disk.contents l = b.disk.contents l ++ (linesFor (fileName d) (deedsTo i b.handles calls)).toUTF8 ∧
      Disk.SameDirectories disk b'.disk := by
  induction calls generalizing b with
  | nil =>
    obtain rfl := Option.some.inj h
    exact ⟨ByteArray.append_empty.symm, hsame⟩
  | cons c calls ih =>
    obtain ⟨next, hstep, hrun⟩ := run?_cons h
    obtain ⟨k, j, rfl, hk, rfl⟩ | ⟨k, deed, j, log, rfl, hk, hlog, rfl⟩ := step?_cases hstep
    · rw [deedsTo, hk]
      exact ih hrun hsame ⟨halone.directory, halone.alone⟩
    · obtain ⟨hcontents, hdirectories⟩ :=
        ih hrun (hsame.trans (perform_sameDirectories log b.disk deed)) (halone.perform hlog deed)
      refine ⟨?_, hdirectories⟩
      rw [hcontents, deedsTo, hk, perform_handles]
      show (log.perform b.disk deed).2.contents l ++ _ = _
      by_cases hj : j = i
      · subst hj
        have hplace := hsame.locateForWriting_eq_ok_iff.2 hl
        rw [if_pos rfl, contents_perform_of_directory (halone.directory log hlog) hplace,
          linesFor_cons _ deed (deedsTo j b.handles calls), ByteArray.append_assoc]
        exact congrArg (b.disk.contents l ++ ·) String.toByteArray_append.symm
      · have helsewhere (e : LogEntry) : log.place? b.disk e ≠ some l := by
          rw [place?_congr hsame]
          exact fun hplace => hj (halone.alone j log e hlog hplace)
        rw [if_neg (mt Option.some.inj hj), contents_perform]
        cases deed.added? with
        | none => rfl
        | some e => simp only [if_neg (helsewhere e)]

/-- Every handle leads to a log. What that log keeps are the last entries of those that were appended to it since it was
cleared, through whatever handles, and it finds a text exactly in these. If at first the daily file of a date can be
written in the directory of the log, and no other log writes to it, that file has got the lines of all entries that were
ever appended on days with this file, in order and behind the bytes that were there. -/
theorem kept_and_mirrored {directories : List (Option String)} (h : (opening directories disk).run? calls = some b) :
    ∀ (k i : Nat), b.handles[k]? = some i → ∃ log, b.logs[i]? = some log ∧
      let deeds := deedsTo i (List.range directories.length) calls
      let kept := (Deed.appendedSinceClear deeds).rtake capacity
      log.entries.toList = kept ∧
        (∀ level needle, log.contains level needle = true ↔
          ∃ e ∈ kept, e.level = level ∧ needle.toList <:+: e.message.toList) ∧
        ∀ dir d l, directories[i]? = some (some dir) → disk.locateForWriting (dailyPath dir d) = .ok l →
          (∀ (j : Nat) other d', directories[j]? = some (some other) →
            disk.locateForWriting (dailyPath other d') = .ok l → j = i) →
          b.disk.fileBytes (dailyPath dir d) =
            disk.fileBytes (dailyPath dir d) ++ (linesFor (fileName d) deeds).toUTF8 := by
  intro k i hi
  have hlt : i < directories.length := List.mem_range.1 (run?_handles h i (List.mem_of_getElem? hi))
  have hopening (j : Nat) :
      (opening directories disk).logs[j]? = (directories[j]?).map fun d? => { directory? := d? } :=
    List.getElem?_map
  have hlog := run?_logs h i
  rw [hopening, List.getElem?_eq_getElem hlt] at hlog
  have hentries := entries_foldl_remember directories[i] (deedsTo i (List.range directories.length) calls)
  refine ⟨_, hlog, hentries, fun level needle => ?_, fun dir d l hdir hl hother => ?_⟩
  · rw [contains_iff]
    exact hentries ▸ Iff.rfl
  · have halone : (opening directories disk).WritesAlone disk i dir l := by
      constructor
      · intro log hlog
        rw [hopening, hdir] at hlog
        exact congrArg HostLog.directory? (Option.some.inj hlog).symm
      · intro j log e hlog hplace
        obtain ⟨other, hother', hl'⟩ := place?_eq_some_iff.1 hplace
        rw [hopening] at hlog
        obtain ⟨d?, hd?, rfl⟩ := Option.map_eq_some_iff.1 hlog
        exact hother j other _ (hd?.trans (congrArg some hother')) hl'
    obtain ⟨hcontents, hsame⟩ := run?_contents h (.refl disk) halone hl
    have hlocate := (Disk.locate_of_locateForWriting hl).1
    rw [Disk.fileBytes_of_locate (hsame.locate hlocate), Disk.fileBytes_of_locate hlocate]
    exact hcontents

/-- Two entries through a copy of a handle, with a clear in between through the handle itself: the log keeps the second
one, the file has both. -/
theorem kept_and_mirrored_cleared :
    let today : Date := ⟨2026, 1, 31⟩
    let first : LogEntry := ⟨{ date := today, hour := 9 }, .info, "first"⟩
    let second : LogEntry := ⟨{ date := today, hour := 10 }, .warn, "second"⟩
    let disk : Disk := { entries := [(["logs"], .directory)] }
    let calls : List Call := [.copy 0, .perform 2 (.append first.moment .info "first"), .perform 0 .clear,
      .perform 2 (.append second.moment .warn "second")]
    ∃ b log, (opening [some "/logs", none] disk).run? calls = some b ∧ b.handles[2]? = some 0 ∧
      b.logs[0]? = some log ∧ log.entries.toList = [second] ∧ log.contains .warn "eco" = true ∧
        b.disk.fileBytes "/logs/host_20260131.log" =
          "[2026-01-31 09:00:00.000] [INFO] first\n[2026-01-31 10:00:00.000] [WARN] second\n".toUTF8 := by
  intro today first second disk calls
  obtain ⟨b, h, hhandle⟩ : ∃ b, (opening [some "/logs", none] disk).run? calls = some b ∧ b.handles[2]? = some 0 :=
    ⟨_, rfl, rfl⟩
  have hdeeds : deedsTo 0 (List.range 2) calls =
      [.append first.moment .info "first", .clear, .append second.moment .warn "second"] := rfl
  have hlines : linesFor (fileName today) (deedsTo 0 (List.range 2) calls) =
      "[2026-01-31 09:00:00.000] [INFO] first\n[2026-01-31 10:00:00.000] [WARN] second\n" := by
    rw [hdeeds, linesFor_cons, linesFor_cons _ .clear, linesFor_singleton, linesFor_singleton, linesFor_singleton]
    decide
  have hkept : (Deed.appendedSinceClear (deedsTo 0 (List.range 2) calls)).rtake capacity = [second] := by
    have hsince : Deed.appendedSinceClear (deedsTo 0 (List.range 2) calls) = [second] := rfl
    rw [hsince, List.rtake, List.length_singleton, Nat.sub_eq_zero_of_le (by decide), List.drop_zero]
  obtain ⟨log, hlog, hentries, hcontains, hfile⟩ := kept_and_mirrored h 2 0 hhandle
  have hpath : dailyPath "/logs" today = "/logs/host_20260131.log" := by decide
  have hplace : disk.locateForWriting (dailyPath "/logs" today) = .ok ["logs", fileName today] := by
    decide +kernel
  have hdisk := hfile "/logs" today ["logs", fileName today] rfl hplace fun j other d' hj _ => by
    rcases j with _ | _ | j
    · rfl
    · cases hj
    · cases hj
  refine ⟨b, log, h, hhandle, hlog, hentries.trans hkept, ?_, ?_⟩
  · exact (hcontains .warn "eco").2 ⟨second, hkept ▸ List.mem_singleton_self second, rfl, by decide⟩
  · have hbefore : disk.fileBytes "/logs/host_20260131.log" = .empty := by decide
    rw [hpath, hbefore, ByteArray.empty_append] at hdisk
    exact hdisk.trans (congrArg String.toUTF8 hlines)

end Logbooks

end Scriptorium
