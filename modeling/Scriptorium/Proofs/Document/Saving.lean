import Mathlib.Data.List.Induction
import Scriptorium.Document.Basic
import Scriptorium.Proofs.Disk.Siblings
import Scriptorium.Proofs.Disk.ReadBack

/-!
# Saving

A save writes its content beside the target and renames the written file. `Saved` says all that this can do to
the document and to the disk, one case for each step that can fail. So a save that fails has changed neither
the document nor its target (`persist_atomic`), and a save changes no place but the target and the one beside
it (`persist_frame`).
-/

namespace Scriptorium.Document

open Disk

variable {d : Document} {disk disk' : Disk} {path : String} {path? : Option String} {faults : Faults}

/-! ## The temporary file -/

/-- The name of the file that a save writes first. -/
def tempName (path : String) : String := (Path.fileName? path).getD "" ++ ".tmp"

theorem fileName_tempName (path : String) : FileName (tempName path) := by
  have hlong : 4 ≤ (tempName path).toList.length := by simp [tempName]
  have hne {short : String} (hshort : short.toList.length < 4) : tempName path ≠ short := by
    rintro rfl
    omega
  refine ⟨⟨hne (by decide), hne (by decide), hne (by decide)⟩, ?_⟩
  cases h : Path.fileName? path with
  | none => simp [tempName, h]
  | some name => simpa [tempName, h] using (fileName?_cases h).1.no_slash

theorem tempName_of_fileName? {name : String} (h : Path.fileName? path = some name) :
    tempName path ≠ name ∧ name.utf8ByteSize ≤ (tempName path).utf8ByteSize := by
  have hsize : (tempName path).utf8ByteSize = name.utf8ByteSize + 4 := by
    rw [tempName, h, Option.getD_some, String.utf8ByteSize_append]
    rfl
  refine ⟨fun heq => ?_, by omega⟩
  rw [heq] at hsize
  omega

/-- Whatever happens to the temporary file, the target stays where it is and as it is. -/
theorem target_of_changesFile {temp : Location} (htemp : disk.locate (tempPath path) = .ok temp)
    (h : ChangesFile temp disk disk') :
    disk'.locate path = disk.locate path ∧ disk.locate path ≠ .ok temp ∧ disk'.stat path = disk.stat path := by
  have hother (name : String) (hname : Path.fileName? path = some name) := tempName_of_fileName? hname
  obtain ⟨hlocate, hne⟩ := h.locate_sibling (fileName_tempName path) hother htemp
  exact ⟨hlocate, hne, h.stat_sibling (fileName_tempName path) hother htemp⟩

/-! ## What a save can do -/

/-- The path that a save writes to: the given one, or else the document's own. -/
def target? (d : Document) (path? : Option String) : Option String := path?.or d.path?

/-- Whatever a save writes first, it is renamed, or removed when it cannot be renamed. -/
theorem writeTo_of_written {disk₁ : Disk}
    (h : disk.write (tempPath path) d.content.toUTF8 faults.write? = (.ok (), disk₁)) :
    (∃ disk₂, disk₁.rename (tempPath path) path faults.rename? = .ok disk₂ ∧
      d.writeTo disk path faults = (.ok (), { d with dirty := false }, disk₂)) ∨
    ∃ e, d.writeTo disk path faults =
      (.error e, d, (disk₁.remove (tempPath path) faults.remove?).toOption.getD disk₁) := by
  unfold writeTo
  simp only
  rw [h]
  simp only
  cases disk₁.rename (tempPath path) path faults.rename? with
  | ok disk₂ => exact .inl ⟨disk₂, rfl, rfl⟩
  | error e => exact .inr ⟨_, rfl⟩

theorem writeTo_of_error {e : DiskError}
    (h : disk.write (tempPath path) d.content.toUTF8 faults.write? = (.error e, disk')) :
    d.writeTo disk path faults = (.error (diskError path e), d, disk') := by
  unfold writeTo
  simp only
  rw [h]

/-- A save without a path of its own is a save to the document's path. -/
theorem persist_eq_saveAs (h : d.target? path? = some path) :
    d.persist disk path? faults = d.saveAs disk path faults := by
  cases path? with
  | some given =>
    have hgiven : some given = some path := by rwa [target?, Option.some_or] at h
    rw [Option.some.inj hgiven, persist]
  | none =>
    have hown : d.path? = some path := by rwa [target?, Option.none_or] at h
    have hpersist : d.persist disk none faults = d.writeTo disk path faults := by
      rw [persist, save, hown]
    refine hpersist.trans ?_
    unfold saveAs
    cases hwrite : disk.write (tempPath path) d.content.toUTF8 faults.write? with
    | mk result disk₁ =>
      cases result with
      | error e => rw [writeTo_of_error hwrite]
      | ok _ =>
        rcases writeTo_of_written hwrite with ⟨disk₂, -, heq⟩ | ⟨e, heq⟩ <;> rw [heq]
        simp only [← hown]

/-- All that a save to a path can end in. -/
inductive Saved (d : Document) (disk : Disk) (path : String) (faults : Faults) :
    Except DocumentError Unit × Document × Disk → Prop where
  /-- The temporary file cannot be opened. -/
  | unopened (e : DocumentError) : Saved d disk path faults (.error e, d, disk)
  /-- The temporary file is written in part. -/
  | brokenOff {temp : Location} {n : Nat} {fault : DiskError} (e : DocumentError)
      (located : disk.locate (tempPath path) = .ok temp) (free : disk.find? temp ≠ some .directory)
      (faulty : faults.write? = some (.brokenOff n fault)) :
      Saved d disk path faults (.error e, d, disk.setEntry temp (.file (d.content.toUTF8.extract 0 n)))
  /-- The temporary file cannot be renamed, nor removed. -/
  | left {temp : Location} {fault : DiskError} (e : DocumentError)
      (located : disk.locate (tempPath path) = .ok temp) (free : disk.find? temp ≠ some .directory)
      (faulty : faults.remove? = some fault) :
      Saved d disk path faults (.error e, d, disk.setEntry temp (.file d.content.toUTF8))
  /-- The temporary file cannot be renamed and is removed. -/
  | removed {temp : Location} (e : DocumentError)
      (located : disk.locate (tempPath path) = .ok temp) (free : disk.find? temp ≠ some .directory) :
      Saved d disk path faults (.error e, d, (disk.setEntry temp (.file d.content.toUTF8)).erase temp)
  /-- The temporary file takes the place of the target. -/
  | renamed {temp dest : Location} {status : FileStatus}
      (located : disk.locate (tempPath path) = .ok temp) (free : disk.find? temp ≠ some .directory)
      (reached : disk.locate path = .ok dest) (replaceable : disk.find? dest ≠ some .directory)
      (beside : dest ≠ temp) :
      Saved d disk path faults (.ok (), { d with path? := some path, dirty := false },
        (((disk.setEntry temp (.file d.content.toUTF8)).erase temp).setEntry dest
          (.file d.content.toUTF8)).setStatus dest status)

theorem saved_saveAs (d : Document) (disk : Disk) (path : String) (faults : Faults) :
    Saved d disk path faults (d.saveAs disk path faults) := by
  unfold saveAs
  rcases disk.write_cases (tempPath path) d.content.toUTF8 faults.write? with
    ⟨e, hwrite⟩ | ⟨temp, htemp, ⟨n, e, hfault, hwrite⟩ | hwrite⟩
  · rw [writeTo_of_error hwrite]
    exact .unopened _
  · obtain ⟨hlocated, hfree⟩ := locate_of_locateForWriting htemp
    rw [writeTo_of_error hwrite]
    exact .brokenOff _ hlocated hfree hfault
  · obtain ⟨hlocated, hfree⟩ := locate_of_locateForWriting htemp
    have hchange := ChangesFile.setEntry hfree d.content.toUTF8
    have hthere := hchange.sameDirectories.locate hlocated
    have hwritten := find?_setEntry_self hfree d.content.toUTF8
    obtain ⟨htarget, hne, -⟩ := target_of_changesFile hlocated hchange
    rcases writeTo_of_written hwrite with ⟨disk₂, hrename, heq⟩ | ⟨e, heq⟩ <;> rw [heq]
    · obtain ⟨place, dest, bytes, hplace, hbytes, hdest, hreplaceable, rfl⟩ := rename_eq_ok hrename
      obtain rfl := Except.ok.inj (hthere.symm.trans hplace)
      obtain rfl := Entry.file.inj (Option.some.inj (hwritten.symm.trans hbytes))
      have hbeside : dest ≠ temp := by
        rintro rfl
        exact hne (htarget ▸ hdest)
      rw [hchange.elsewhere dest hbeside] at hreplaceable
      exact .renamed hlocated hfree (htarget ▸ hdest) hreplaceable hbeside
    · rw [remove_eq hthere hwritten]
      cases hfault : faults.remove? with
      | some fault => exact .left e hlocated hfree hfault
      | none => exact .removed e hlocated hfree

theorem saved_persist (h : d.target? path? = some path) :
    Saved d disk path faults (d.persist disk path? faults) :=
  persist_eq_saveAs h ▸ saved_saveAs d disk path faults

theorem persist_of_no_target (h : d.target? path? = none) :
    d.persist disk path? faults = (.error .noSavePath, d, disk) := by
  obtain ⟨rfl, hown⟩ := Option.or_eq_none_iff.1 h
  rw [persist, save, hown]

/-! ## Target and document -/

/-- A save that succeeds leaves the content at its target and the document clean at this path; one that fails
leaves the document, and what stands at the target, as they were. -/
theorem persist_atomic (d : Document) (disk : Disk) (path? : Option String) (faults : Faults) :
    match d.persist disk path? faults with
    | (.ok (), d', disk') => ∃ path, d.target? path? = some path ∧
        disk'.read path = .ok d.content.toUTF8 ∧ d' = { d with path? := some path, dirty := false }
    | (.error _, d', disk') => d' = d ∧ ∀ path, d.target? path? = some path → disk'.stat path = disk.stat path := by
  cases htarget : d.target? path? with
  | none =>
    rw [persist_of_no_target htarget]
    exact ⟨rfl, nofun⟩
  | some path =>
    have hsaved : Saved d disk path faults _ := saved_persist htarget
    revert hsaved
    generalize d.persist disk path? faults = result
    intro hsaved
    cases hsaved with
    | unopened e => exact ⟨rfl, fun _ _ => rfl⟩
    | brokenOff e located free faulty =>
      refine ⟨rfl, fun p hp => ?_⟩
      obtain rfl := Option.some.inj hp
      exact (target_of_changesFile located (.setEntry free _)).2.2
    | left e located free faulty =>
      refine ⟨rfl, fun p hp => ?_⟩
      obtain rfl := Option.some.inj hp
      exact (target_of_changesFile located (.setEntry free _)).2.2
    | removed e located free =>
      refine ⟨rfl, fun p hp => ?_⟩
      obtain rfl := Option.some.inj hp
      have hwritten := ChangesFile.setEntry free d.content.toUTF8
      exact (target_of_changesFile located (hwritten.trans (.erase hwritten.after))).2.2
    | @renamed temp dest status located free reached replaceable beside =>
      have hwritten := ChangesFile.setEntry free d.content.toUTF8
      have herased := hwritten.trans (.erase hwritten.after)
      have hfree := herased.elsewhere dest beside ▸ replaceable
      have hplaced := (ChangesFile.setEntry hfree d.content.toUTF8).setStatus dest status
      refine ⟨path, rfl, read_of_locate ?_ (find?_setEntry_self hfree _), rfl⟩
      exact (herased.sameDirectories.trans hplaced.sameDirectories).locate reached

/-! ## The rest of the disk -/

/-- A save changes no place but its target and the one of the temporary file. -/
theorem Saved.elsewhere {result : Except DocumentError Unit × Document × Disk}
    (h : Saved d disk path faults result) {l : Location} (htarget : disk.locate path ≠ .ok l)
    (htemp : disk.locate (tempPath path) ≠ .ok l) : result.2.2.find? l = disk.find? l := by
  have hne {temp : Location} (located : disk.locate (tempPath path) = .ok temp) : l ≠ temp := by
    rintro rfl
    exact htemp located
  cases h with
  | unopened e => rfl
  | brokenOff e located free faulty => exact (ChangesFile.setEntry free _).elsewhere l (hne located)
  | left e located free faulty => exact (ChangesFile.setEntry free _).elsewhere l (hne located)
  | removed e located free =>
    have hwritten := ChangesFile.setEntry free d.content.toUTF8
    exact (hwritten.trans (.erase hwritten.after)).elsewhere l (hne located)
  | @renamed temp dest status located free reached replaceable beside =>
    have hwritten := ChangesFile.setEntry free d.content.toUTF8
    have herased := hwritten.trans (.erase hwritten.after)
    have hplaced := ChangesFile.setEntry (herased.elsewhere dest beside ▸ replaceable) d.content.toUTF8
    refine (hplaced.elsewhere l ?_).trans (herased.elsewhere l (hne located))
    rintro rfl
    exact htarget reached

/-- No temporary file is left by a save whose write is not broken off and whose removal does not fail, unless
the save could not even begin. -/
theorem Saved.temp_removed {result : Except DocumentError Unit × Document × Disk}
    (h : Saved d disk path faults result) (hwrite : ∀ n e, faults.write? ≠ some (.brokenOff n e))
    (hremove : faults.remove? = none) :
    (∃ e, result = (.error e, d, disk)) ∨
      ∀ l, disk.locate (tempPath path) = .ok l → result.2.2.find? l = none := by
  cases h with
  | unopened e => exact .inl ⟨e, rfl⟩
  | brokenOff e located free faulty => exact absurd faulty (hwrite _ _)
  | left e located free faulty => rw [hremove] at faulty; cases faulty
  | removed e located free =>
    refine .inr fun l hl => ?_
    obtain rfl := Except.ok.inj (located.symm.trans hl)
    exact find?_erase_self (ChangesFile.setEntry free _).after
  | @renamed temp dest status located free reached replaceable beside =>
    refine .inr fun l hl => ?_
    obtain rfl := Except.ok.inj (located.symm.trans hl)
    have hwritten := ChangesFile.setEntry free d.content.toUTF8
    have herased := hwritten.trans (.erase hwritten.after)
    have hplaced := ChangesFile.setEntry (herased.elsewhere dest beside ▸ replaceable) d.content.toUTF8
    exact (hplaced.elsewhere temp (Ne.symm beside)).trans (find?_erase_self hwritten.after)

/-- Whether a save succeeds or fails, every place but its target and the temporary file beside it holds what
it held before. The temporary file is gone, unless the save failed with the whole disk as it was; only a
write that is broken off and a failing removal are left out. -/
theorem persist_frame (d : Document) (disk : Disk) (path? : Option String) (faults : Faults) :
    (∀ l, (∀ path, d.target? path? = some path →
        disk.locate path ≠ .ok l ∧ disk.locate (tempPath path) ≠ .ok l) →
      (d.persist disk path? faults).2.2.find? l = disk.find? l) ∧
    ((∀ n e, faults.write? ≠ some (.brokenOff n e)) → faults.remove? = none →
      (∃ e, d.persist disk path? faults = (.error e, d, disk)) ∨
        ∀ path, d.target? path? = some path → ∀ l, disk.locate (tempPath path) = .ok l →
          (d.persist disk path? faults).2.2.find? l = none) := by
  cases htarget : d.target? path? with
  | none =>
    rw [persist_of_no_target htarget]
    exact ⟨fun _ _ => rfl, fun _ _ => .inl ⟨_, rfl⟩⟩
  | some path =>
    have hsaved : Saved d disk path faults _ := saved_persist htarget
    refine ⟨fun l hl => ?_, fun hwrite hremove => ?_⟩
    · obtain ⟨hne, hbeside⟩ := hl path rfl
      exact hsaved.elsewhere hne hbeside
    · refine (hsaved.temp_removed hwrite hremove).imp_right fun hgone p hp => ?_
      obtain rfl := Option.some.inj hp
      exact hgone

/-- A file that happens to have the name of the temporary file is lost: saving `notes.txt` takes the place of
`notes.txt.tmp` and then moves it away. -/
theorem sibling_overwritten :
    ¬ ∀ (d : Document) (disk : Disk) (path? : Option String) (faults : Faults) (l : Location),
      (∀ path, d.target? path? = some path → disk.locate path ≠ .ok l) →
        (d.persist disk path? faults).2.2.find? l = disk.find? l := by
  intro h
  let disk : Disk :=
    { entries := [(["notes.txt"], .file "old".toUTF8), (["notes.txt.tmp"], .file "mine".toUTF8)] }
  let d : Document := { path? := some "notes.txt", content := "new", dirty := true }
  have hsame := h d disk none {} ["notes.txt.tmp"] fun path hpath => by
    obtain rfl : "notes.txt" = path := Option.some.inj hpath
    exact fun hl => absurd (Except.ok.inj hl) (by decide)
  have hlost : (d.persist disk none {}).2.2.find? ["notes.txt.tmp"] = none := by decide
  exact absurd (hlost.symm.trans hsame) (by decide)

/-- Saving over a directory fails and removes the temporary file. -/
theorem persist_frame_over_directory :
    let disk : Disk := { entries := [(["taken"], .directory), (["taken.txt"], .file "other".toUTF8)] }
    let d : Document := { path? := some "taken", content := "text", dirty := true }
    (d.persist disk none {}).2.2.find? ["taken.txt"] = disk.find? ["taken.txt"] ∧
      (d.persist disk none {}).2.2.find? ["taken.tmp"] = none := by
  intro disk d
  have hframe := persist_frame d disk none {}
  refine ⟨hframe.1 _ fun path hpath => ?_, ?_⟩
  · obtain rfl : "taken" = path := Option.some.inj hpath
    exact ⟨fun hl => absurd (Except.ok.inj hl) (by decide), fun hl => absurd (Except.ok.inj hl) (by decide)⟩
  · rcases hframe.2 nofun rfl with ⟨e, he⟩ | hgone
    · rw [he]
      rfl
    · exact hgone "taken" rfl ["taken.tmp"] rfl

end Scriptorium.Document
