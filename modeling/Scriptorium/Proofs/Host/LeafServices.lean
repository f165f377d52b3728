import Scriptorium.Host.Object
import Scriptorium.Proofs.Disk.Walks
import Scriptorium.Registry.Standard

/-!
# Leaf services

A leaf service works on the disk alone, and tells the log at most one thing, after it has succeeded (`Contained`).
So a service as scripts see it either gives its value with no error in the log, or its fallback with exactly one
(`suppressed_effect`), and documents and notices are out of its reach. Only what is told of a file is no more contained
than the calendar of the host: where that has no date for the time of the file, the host breaks off (`run_cases`).
-/

namespace Scriptorium

namespace Leaf

variable {α β : Type} {f : Leaf α} {g : α → Leaf β} {w : World}

/-- Nothing but the disk changes, and the host does not break off. -/
def Quiet (f : Leaf α) : Prop :=
  ∀ w, ∃ (r : Except UsageError α) (disk : Disk), f w = (r.mapError .usage, { w with disk })

/-- What a leaf service can do to the world, as long as the host does not break off. -/
inductive Effect (w : World) : Except LeafFailure α × World → Prop where
  | silent (r : Except UsageError α) (disk : Disk) : Effect w (r.mapError .usage, { w with disk })
  | told (a : α) (disk : Disk) (message : String) : Effect w (.ok a, { w with disk }.note .info message)

/-- Nothing but the disk and the log change, the log by at most one message, of a success. -/
def Contained (f : Leaf α) : Prop := ∀ w, Effect w (f w)

theorem Quiet.contained (h : Quiet f) : Contained f := fun w => by
  obtain ⟨r, disk, heq⟩ := h w
  rw [heq]
  exact .silent r disk

theorem quiet_pure (a : α) : Quiet (pure a : Leaf α) := fun w => ⟨.ok a, w.disk, rfl⟩

theorem quiet_fail (e : UsageError) : Quiet (fail e : Leaf α) := fun w => ⟨.error e, w.disk, rfl⟩

theorem quiet_ofExcept (r : Except UsageError α) : Quiet (ofExcept r) := fun w => ⟨r, w.disk, rfl⟩

theorem quiet_disk : Quiet disk := fun w => ⟨.ok w.disk, w.disk, rfl⟩

theorem quiet_onDisk (path : String) (f : Disk → Except DiskError α × Disk) : Quiet (onDisk path f) := fun w => by
  refine ⟨(f w.disk).1.mapError (.disk path), (f w.disk).2, ?_⟩
  rcases heq : f w.disk with ⟨r, disk⟩
  cases r <;> simp only [onDisk, heq, Except.mapError]

theorem Quiet.bind (hf : Quiet f) (hg : ∀ a, Quiet (g a)) : Quiet (f >>= g) := fun w => by
  obtain ⟨r, disk, hfirst⟩ := hf w
  cases r with
  | error e => exact ⟨.error e, disk, by simp only [Bind.bind, hfirst, Except.mapError]⟩
  | ok a =>
    obtain ⟨r, disk', hsecond⟩ := hg a { w with disk }
    exact ⟨r, disk', by simp only [Bind.bind, hfirst, Except.mapError, hsecond]⟩

theorem Quiet.bind_contained (hf : Quiet f) (hg : ∀ a, Contained (g a)) : Contained (f >>= g) := fun w => by
  obtain ⟨r, disk, hfirst⟩ := hf w
  cases r with
  | error e =>
    simp only [Bind.bind, hfirst, Except.mapError]
    exact .silent (.error e) disk
  | ok a =>
    simp only [Bind.bind, hfirst, Except.mapError]
    have hsecond := hg a { w with disk }
    generalize g a { w with disk } = result at hsecond
    cases hsecond with
    | silent r disk => exact .silent r disk
    | told a disk message => exact .told a disk message

/-- What is told comes last. -/
theorem contained_info (message : String) (a : α) : Contained (do info message; return a : Leaf α) := fun w =>
  .told a w.disk message

/-! ## Services as scripts see them -/

/-- What the script gets of a service, and what is left in the log: the value and no error, or the fallback and one
error under the name of the member. -/
theorem suppressed_effect {service : Leaf Datum} (h : Effect w (service w)) (call : String) (fallback : Datum) :
    ∃ d w', suppressed call fallback service w = (.ok d, w') ∧ w'.desk = w.desk ∧
      match (service w).1 with
      | .ok result => d = result ∧
          ∃ told : List LogEntry, (∀ e ∈ told, e.level ≠ .error) ∧ w'.log = told.foldl HostLog.keep w.log
      | .error _ => d = fallback ∧
          ∃ message, w'.log = w.log.keep ⟨w.now, .error, HostLog.failureMessage context (usageText call message)⟩ := by
  unfold suppressed
  generalize service w = result at h
  cases h with
  | silent r disk =>
    cases r with
    | ok a => exact ⟨_, _, rfl, rfl, rfl, [], List.forall_mem_nil _, rfl⟩
    | error e => exact ⟨_, _, rfl, rfl, rfl, e.message, rfl⟩
  | told a disk message => exact ⟨_, _, rfl, rfl, rfl, [⟨w.now, .info, message⟩], by simp, rfl⟩

/-- Where the host breaks off, so does the call. -/
theorem suppressed_crashed {service : Leaf Datum} {text : String} (h : service w = (.error (.crashed text), w))
    (call : String) (fallback : Datum) : suppressed call fallback service w = (.error (.crashed text), w) := by
  rw [suppressed, h]

end Leaf

namespace Services

open Leaf

variable {args : List Datum}

theorem quiet_makeParent (path : String) : Quiet (makeParent path) := by
  unfold makeParent
  split
  · exact quiet_onDisk _ _
  · exact quiet_pure ()

theorem quiet_readText : Quiet (readText args) :=
  (quiet_ofExcept _).bind fun _ => (quiet_onDisk _ _).bind fun _ => quiet_pure _

theorem contained_writeText : Contained (writeText args) :=
  (quiet_ofExcept _).bind_contained fun _ => (quiet_ofExcept _).bind_contained fun _ =>
    (quiet_makeParent _).bind_contained fun _ => (quiet_onDisk _ _).bind_contained fun _ => contained_info _ _

theorem quiet_testPath (test : Disk → String → Bool) : Quiet (testPath test args) :=
  (quiet_ofExcept _).bind fun _ => quiet_disk.bind fun _ => quiet_pure _

theorem contained_createDirectory : Contained (createDirectory args) := by
  refine (quiet_ofExcept _).bind_contained fun path => quiet_disk.bind_contained fun disk => ?_
  split
  · exact (quiet_onDisk _ _).bind_contained fun _ => contained_info _ _
  · exact (quiet_pure _).contained

theorem quiet_listEntries (wantDirectories : Bool) : Quiet (listEntries wantDirectories args) :=
  (quiet_ofExcept _).bind fun _ => (quiet_ofExcept _).bind fun _ => (quiet_ofExcept _).bind fun _ =>
    (quiet_onDisk _ _).bind fun _ => quiet_pure _

theorem contained_deleteFile : Contained (deleteFile args) := by
  refine (quiet_ofExcept _).bind_contained fun path => quiet_disk.bind_contained fun disk => ?_
  split
  · exact (quiet_fail _).contained
  · split
    · exact (quiet_onDisk _ _).bind_contained fun _ => contained_info _ _
    · exact (quiet_pure _).contained

theorem quiet_copy (source target : String) (overwrite : Bool) : Quiet (copy source target overwrite) := by
  refine quiet_disk.bind fun disk => ?_
  split
  · exact quiet_fail _
  · split
    · exact quiet_fail _
    · exact (quiet_makeParent _).bind fun _ => quiet_onDisk _ _

theorem contained_copyFile : Contained (copyFile args) :=
  (quiet_ofExcept _).bind_contained fun _ => (quiet_ofExcept _).bind_contained fun _ =>
    (quiet_copy _ _ _).bind_contained fun _ => contained_info _ _

/-- If the first of the arguments is the path of a file, the host has a date for the time when that was written. -/
def Datable (w : World) (args : List Datum) : Prop :=
  ∀ path bytes seconds, Argument.string args 0 "path" = .ok path → w.disk.stat path = .ok (.file bytes) →
    (w.disk.statusOf path).modified? = some seconds → w.timeText? seconds ≠ none

theorem timeText_crashed {w : World} {seconds : Int} (h : w.timeText? seconds = none) :
    timeText (some seconds) w = (.error (.crashed beyondCalendar), w) := by
  simp only [timeText, h]
  rfl

/-- The time of a file is told, unless the host has no date for it. -/
theorem timeText_cases (time? : Option Int) (w : World) :
    (∃ text, timeText time? w = (.ok text, w)) ∨ ∃ seconds, time? = some seconds ∧ w.timeText? seconds = none := by
  cases time? with
  | none => exact .inl ⟨_, rfl⟩
  | some seconds =>
    cases htext : w.timeText? seconds with
    | some text => exact .inl ⟨text, by simp only [timeText, htext]⟩
    | none => exact .inr ⟨seconds, rfl, htext⟩

theorem fileInfo_crashed {w : World} (h : ¬ Datable w args) :
    fileInfo args w = (.error (.crashed beyondCalendar), w) := by
  simp only [Datable, Classical.not_forall, Classical.not_not] at h
  obtain ⟨path, bytes, seconds, hpath, hstat, hstamped, hnone⟩ := h
  simp only [fileInfo, Bind.bind, Leaf.ofExcept, hpath, Leaf.onDisk, hstat, Except.mapError, Leaf.disk, hstamped,
    timeText_crashed hnone]

/-- The calendar does not reach the year 300000. -/
example :
    let file : Disk :=
      { entries := [(["a.txt"], .file .empty)], statuses := [(["a.txt"], { modified? := some 9404640000000 })] }
    (fileInfo [.ofString "a.txt"] { disk := file, now := default }).1 = .error (.crashed "No such local time") := rfl

theorem fileInfo_effect {w : World} (h : Datable w args) : Effect w (fileInfo args w) := by
  cases hpath : Argument.string args 0 "path" with
  | error e =>
    simp only [fileInfo, Bind.bind, Leaf.ofExcept, hpath, Except.mapError]
    exact .silent (.error e) w.disk
  | ok path =>
    cases hstat : w.disk.stat path with
    | error e =>
      simp only [fileInfo, Bind.bind, Leaf.ofExcept, hpath, Leaf.onDisk, hstat, Except.mapError]
      exact .silent (.error (.disk path e)) w.disk
    | ok entry =>
      cases entry with
      | directory =>
        simp only [fileInfo, Bind.bind, Leaf.ofExcept, hpath, Leaf.onDisk, hstat, Except.mapError, Leaf.fail]
        exact .silent (.error (.notFile path)) w.disk
      | file bytes =>
        rcases timeText_cases (w.disk.statusOf path).modified? w with ⟨text, htext⟩ | ⟨seconds, hstamped, hnone⟩
        · simp only [fileInfo, Bind.bind, Leaf.ofExcept, hpath, Leaf.onDisk, hstat, Except.mapError, Leaf.disk, htext]
          exact .silent (.ok _) w.disk
        · exact absurd hnone (h path bytes seconds hpath hstat hstamped)

theorem contained_loadTable : Contained (loadTable args) :=
  (quiet_ofExcept _).bind_contained fun _ => quiet_disk.bind_contained fun _ =>
    (quiet_ofExcept _).bind_contained fun _ => contained_info _ _

theorem quiet_saveTable : Quiet (saveTable args) := by
  refine (quiet_ofExcept _).bind fun t => (quiet_ofExcept _).bind fun path w => ?_
  rcases heq : Delimited.saveFile w.disk path Delimited.comma t with ⟨r, disk⟩
  refine ⟨(r.mapError .table).map fun _ => .boolean true, disk, ?_⟩
  cases r <;> simp only [Except.mapError, Except.map]

theorem contained_math {name : String} {s : Service} (h : math name = some s) : Contained (s.run args) := by
  unfold math ofNumbers ofPair at h
  split at h <;> first
    | cases h; exact (quiet_ofExcept _).contained
    | cases h

theorem fs_cases {name : String} {s : Service} (h : fs name = some s) :
    Contained (s.run args) ∨ name = "get_file_info" ∧ s.run = fileInfo := by
  unfold fs at h
  split at h <;> cases h
  · exact .inl quiet_readText.contained
  · exact .inl contained_writeText
  · exact .inl (quiet_testPath _).contained
  · exact .inl (quiet_testPath _).contained
  · exact .inl contained_createDirectory
  · exact .inl (quiet_listEntries false).contained
  · exact .inl (quiet_listEntries true).contained
  · exact .inl contained_deleteFile
  · exact .inl contained_copyFile
  · exact .inr ⟨rfl, rfl⟩

theorem contained_data {name : String} {s : Service} (h : data name = some s) : Contained (s.run args) := by
  unfold data at h
  split at h <;> cases h
  · exact contained_loadTable
  · exact (quiet_ofExcept _).contained
  · exact quiet_saveTable.contained

/-- Every leaf service is contained, unless it is asked about a file for whose time the host has no date. -/
theorem run_cases {namespaceName name : String} {s : Service} (h : find? namespaceName name = some s)
    (args : List Datum) (w : World) :
    Effect w (s.run args w) ∨ (namespaceName = "fs" ∧ name = "get_file_info" ∧ ¬ Datable w args) ∧
      s.run args w = (.error (.crashed beyondCalendar), w) := by
  unfold find? at h
  split at h
  · exact .inl (contained_math h w)
  · rcases fs_cases h with hcontained | ⟨rfl, hrun⟩
    · exact .inl (hcontained w)
    · rw [hrun]
      by_cases hdate : Datable w args
      · exact .inl (fileInfo_effect hdate)
      · exact .inr ⟨⟨rfl, rfl, hdate⟩, fileInfo_crashed hdate⟩
  · exact .inl (contained_data h w)
  · cases h

/-- Documents are out of the reach of leaf services, also where the host breaks off. -/
theorem desk_run {namespaceName name : String} {s : Service} {w : World} (h : find? namespaceName name = some s)
    (args : List Datum) (call : String) (fallback : Datum) :
    (suppressed call fallback (s.run args) w).2.desk = w.desk := by
  rcases run_cases h args w with heffect | ⟨-, hcrash⟩
  · obtain ⟨d, w', hrun, hdesk, -⟩ := suppressed_effect heffect call fallback
    rw [hrun, hdesk]
  · rw [suppressed_crashed hcrash]

/-! ## Fallbacks -/

/-- Each method of the standard leaf namespaces is served, under its own name. -/
theorem find?_standard : ∀ ns ∈ [Registry.dataNamespace, Registry.mathNamespace, Registry.fsNamespace],
    ∀ m ∈ ns.members, (find? ns.name m.name).isSome ∧ HostObject.callName ns.name m = m.qualifiedName := by
  decide

end Services

end Scriptorium
