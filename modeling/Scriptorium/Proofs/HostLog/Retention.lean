import Scriptorium.HostLog.Basic
import Scriptorium.Proofs.Calendar.Stamps
import Scriptorium.Proofs.Disk.Directories

/-!
# Retention of daily files

Opening a log makes its directory and removes from it the files whose name has a date more days ago than the
retention, nothing else (`openIn_effect`). The names are those of daily files and others that only read like
one; and where the calendar does not reach back as far as the retention, opening ends the program
(`retention_slips`).
-/

namespace Scriptorium.HostLog

open Calendar Disk

variable {disk : Disk} {dir name : String} {cs : List Char} {d today : Date} {limit : Int} {l : Location}

/-! ## Names with a date -/

/-- A name with a date between `host_` and `.log`. -/
def Dated (name : String) (d : Date) : Prop :=
  ∃ cs, name.toList = "host_".toList ++ cs ++ ".log".toList ∧ Stamped cs d

/-- A name with a date that is not written in eight digits. -/
def LooselyDated (name : String) (d : Date) : Prop :=
  ∃ cs, name.toList = "host_".toList ++ cs ++ ".log".toList ∧ Stamped cs d ∧
    ¬ (cs.length = 8 ∧ ∀ c ∈ cs, c.isDigit = true)

theorem stampOf?_eq_some_iff : stampOf? name = some cs ↔ name.toList = "host_".toList ++ cs ++ ".log".toList := by
  unfold stampOf?
  simp only [Bool.and_eq_true, List.isPrefixOf_iff_prefix, List.isSuffixOf_iff_suffix]
  constructor
  · intro h
    split_ifs at h with hends
    obtain ⟨⟨front, hfront⟩, ⟨middle, hmiddle⟩⟩ := hends
    obtain rfl := Option.some.inj h
    rw [← hfront, List.drop_left] at hmiddle ⊢
    rw [← hmiddle]
    simp
  · intro h
    have hback : ".log".toList <:+ cs ++ ".log".toList := List.suffix_append _ _
    rw [h, List.append_assoc, List.drop_left, if_pos ⟨List.prefix_append _ _, hback⟩]
    simp

theorem isExpired_iff : isExpired limit name = true ↔ ∃ d, Dated name d ∧ d.isValid = true ∧ d.serial < limit := by
  have hread (d : Date) : (stampOf? name).bind readStamp? = some d ↔ Dated name d ∧ d.isValid = true := by
    simp only [Option.bind_eq_some_iff, stampOf?_eq_some_iff, readStamp?_eq_some_iff, Dated]
    exact ⟨fun ⟨cs, hname, hcs, hvalid⟩ => ⟨⟨cs, hname, hcs⟩, hvalid⟩,
      fun ⟨⟨cs, hname, hcs⟩, hvalid⟩ => ⟨cs, hname, hcs, hvalid⟩⟩
  unfold isExpired
  cases h : (stampOf? name).bind readStamp? with
  | none =>
    refine iff_of_false nofun ?_
    rintro ⟨d, hdated, hvalid, -⟩
    cases h.symm.trans ((hread d).2 ⟨hdated, hvalid⟩)
  | some d =>
    simp only [decide_eq_true_eq]
    constructor
    · exact fun hlt => ⟨d, ((hread d).1 h).1, ((hread d).1 h).2, hlt⟩
    · rintro ⟨d', hdated, hvalid, hlt⟩
      obtain rfl := Option.some.inj (h.symm.trans ((hread d').2 ⟨hdated, hvalid⟩))
      exact hlt

/-- The names with a date are those of daily files, and others. -/
theorem dated_iff (hproper : d.Proper) :
    Dated name d ↔ ((0 ≤ d.year ∧ d.year ≤ 9999) ∧ name = fileName d) ∨ LooselyDated name d := by
  constructor
  · rintro ⟨cs, hname, hcs⟩
    by_cases height : cs.length = 8 ∧ ∀ c ∈ cs, c.isDigit = true
    · obtain ⟨hyear, rfl⟩ := hcs.eq_stamp height.2 height.1
      refine .inl ⟨hyear, String.toList_inj.1 ?_⟩
      rw [hname, fileName, String.toList_append, String.toList_append]
    · exact .inr ⟨cs, hname, hcs, height⟩
  · rintro (⟨hyear, rfl⟩ | ⟨cs, hname, hcs, -⟩)
    · exact ⟨_, by rw [fileName, String.toList_append, String.toList_append], stamped_stamp hyear hproper⟩
    · exact ⟨cs, hname, hcs⟩

/-- A name made like that of a daily file is a file name, and no path. -/
theorem fileName_of_stampChar (hname : name.toList = "host_".toList ++ cs ++ ".log".toList)
    (hcs : ∀ c ∈ cs, StampChar c) : FileName name ∧ '\x00' ∉ name.toList := by
  have hlength : 9 ≤ name.toList.length := by simp [hname]
  have hother {c : Char} (hc : ¬ StampChar c) (hends : c ∉ "host_".toList ∧ c ∉ ".log".toList) : c ∉ name.toList := by
    rw [hname, List.mem_append, List.mem_append]
    exact fun hmem => hmem.elim (fun hmem => hmem.elim hends.1 fun hmem => hc (hcs c hmem)) hends.2
  refine ⟨⟨⟨?_, ?_, ?_⟩, hother (by unfold StampChar; decide) (by decide)⟩,
    hother (by unfold StampChar; decide) (by decide)⟩
  all_goals
    rintro rfl
    revert hlength
    decide

/-- A name with a date is a file name, and no path. -/
theorem Dated.fileName (h : Dated name d) : FileName name ∧ '\x00' ∉ name.toList := by
  obtain ⟨cs, hname, hcs⟩ := h
  exact fileName_of_stampChar hname hcs.stampChar

/-- So is the name of the daily file of any date. -/
theorem fileName_fileName (d : Date) : FileName (HostLog.fileName d) ∧ '\x00' ∉ (HostLog.fileName d).toList := by
  have hname : (HostLog.fileName d).toList = "host_".toList ++ (stamp d).toList ++ ".log".toList := by
    rw [HostLog.fileName, String.toList_append, String.toList_append]
  refine fileName_of_stampChar hname fun c hc => ?_
  have hdigit {width n : Nat} (h : c ∈ (padded width n).toList) : StampChar c := .inr (.inl (isDigit_of_mem_padded h))
  simp only [stamp, yearText, String.toList_append, List.mem_append] at hc
  rcases hc with (hyear | hmonth) | hday
  · split_ifs at hyear with hfour hneg
    · exact hdigit hyear
    · rcases List.mem_append.1 (String.toList_append ▸ hyear) with hsign | hyear
      · exact .inr (.inr (.inl (List.mem_singleton.1 hsign)))
      · exact hdigit hyear
    · rcases List.mem_append.1 (String.toList_append ▸ hyear) with hsign | hyear
      · exact .inr (.inr (.inr (List.mem_singleton.1 hsign)))
      · exact hdigit hyear
  · exact hdigit hmonth
  · exact hdigit hday

/-! ## Removing -/

/-- The files that are removed: those in the directory whose name has a date before the limit. -/
theorem removeExpired_erases (dir : String) (limit : Int) (disk : Disk) :
    Erases (fun l => dir ≠ "" ∧ ∃ name d, Dated name d ∧ d.isValid = true ∧ d.serial < limit ∧
        disk.locate (Path.join dir name) = .ok l ∧ ∃ bytes, disk.find? l = some (.file bytes))
      disk (removeExpired dir limit disk) := by
  unfold removeExpired
  cases hlist : disk.list dir with
  | error e =>
    refine .none disk ?_
    rintro l ⟨hne, name, d, hdated, -, -, hl, -⟩
    obtain ⟨hname, hnul⟩ := hdated.fileName
    obtain ⟨at_, hat, hdir, -⟩ := (locate_join_eq_ok_iff hne hname hnul).1 hl
    obtain ⟨names, hnames⟩ := list_eq_ok_iff.2 ⟨at_, hat, hdir⟩
    cases hlist.symm.trans hnames
  | ok names =>
    obtain ⟨at_, hat, -⟩ := list_eq_ok_iff.1 ⟨names, hlist⟩
    have hne : dir ≠ "" := (locate_eq_ok_iff.1 hat).2.1
    have hall := erases_removeAll disk
      ((names.filter fun m => isExpired limit m.1).map fun m => Path.join dir m.1)
    rw [List.foldl_map] at hall
    refine hall.congr fun l => ?_
    simp only [List.mem_map, List.mem_filter, Prod.exists, isExpired_iff]
    constructor
    · rintro ⟨-, name, d, hdated, hvalid, hlt, hl, bytes, hfile⟩
      obtain ⟨hname, hnul⟩ := hdated.fileName
      obtain ⟨at', hat', -, -, rfl⟩ := (locate_join_eq_ok_iff hne hname hnul).1 hl
      obtain rfl := Except.ok.inj (hat.symm.trans hat')
      have hmem := (mem_list_iff hlist hat).2 (mem_entries_of_find? hfile (by simp))
      exact ⟨_, ⟨name, _, ⟨hmem, d, hdated, hvalid, hlt⟩, rfl⟩, hl, bytes, hfile⟩
    · rintro ⟨-, ⟨name, e, ⟨-, d, hdated, hvalid, hlt⟩, rfl⟩, hl, hfile⟩
      exact ⟨hne, name, d, hdated, hvalid, hlt, hl, hfile⟩

/-- The date lies more than so many days before the day. -/
def Expired (retentionDays : Nat) (today d : Date) : Prop := ∃ k, retentionDays < k ∧ Date.next^[k] d = today

/-- Opening a log makes the directory, and what it removes then are files in it whose name has a date more days
before today than the retention. That date is written as in the name of a daily file, or loosely. If the calendar
has no day so many days before today, the program ends and nothing is removed. A directory without a name is
never looked into. -/
theorem openIn_effect (dir : String) (retentionDays : Nat) (today : Date) (htoday : today.isValid = true)
    (disk : Disk) :
    Frame [] (AtOrAbove dir) disk (disk.makeDirectories dir).2 ∧
      match openIn dir retentionDays today disk with
      | (.error (.disk e), disk') => disk.makeDirectories dir = (.error e, disk')
      | (.error .beyondCalendar, disk') =>
        disk.makeDirectories dir = (.ok (), disk') ∧
          ¬ ∃ d : Date, d.isValid = true ∧ Date.next^[retentionDays] d = today
      | (.ok log, disk') =>
        ∃ made, disk.makeDirectories dir = (.ok (), made) ∧
          (∃ d : Date, d.isValid = true ∧ Date.next^[retentionDays] d = today) ∧ log = { directory? := some dir } ∧
            Erases (fun l => dir ≠ "" ∧ ∃ name d,
                ((0 ≤ d.year ∧ d.year ≤ 9999) ∧ name = fileName d ∨ LooselyDated name d) ∧
                  d.isValid = true ∧ Expired retentionDays today d ∧
                    made.locate (Path.join dir name) = .ok l ∧ ∃ bytes, made.find? l = some (.file bytes))
              made disk' := by
  refine ⟨makeDirectories_frame disk dir, ?_⟩
  unfold openIn
  rcases hmake : disk.makeDirectories dir with ⟨_ | _, made⟩
  · rfl
  · cases hlimit : today.daysBefore? retentionDays with
    | none => exact ⟨rfl, (Date.daysBefore?_eq_none_iff htoday _).1 hlimit⟩
    | some limit =>
      have hreach : ∃ d : Date, d.isValid = true ∧ Date.next^[retentionDays] d = today := by
        by_contra hno
        cases hlimit.symm.trans ((Date.daysBefore?_eq_none_iff htoday _).2 hno)
      have hserial : limit = today.serial - retentionDays := by
        unfold Date.daysBefore? at hlimit
        split_ifs at hlimit
        exact (Option.some.inj hlimit).symm
      refine ⟨made, rfl, hreach, rfl, (removeExpired_erases dir limit made).congr fun l => ?_⟩
      refine and_congr_right fun _ => exists_congr fun name => exists_congr fun d => ?_
      constructor
      · rintro ⟨hname, hvalid, hexpired, hrest⟩
        have hproper := (Date.isValid_iff.1 hvalid).2.2
        exact ⟨(dated_iff hproper).2 hname, hvalid,
          hserial ▸ (Date.serial_lt_iff hproper (Date.isValid_iff.1 htoday).2.2 _).2 hexpired, hrest⟩
      · rintro ⟨hname, hvalid, hlt, hrest⟩
        have hproper := (Date.isValid_iff.1 hvalid).2.2
        exact ⟨(dated_iff hproper).1 hname, hvalid,
          (Date.serial_lt_iff hproper (Date.isValid_iff.1 htoday).2.2 _).1 (hserial ▸ hlt), hrest⟩

/-- A daily file of 89 days ago is older than a retention of thirty days. -/
theorem openIn_effect_month :
    let today : Date := ⟨2026, 3, 31⟩
    let disk : Disk := { entries := [(["logs"], .directory), (["logs", "host_20260101.log"], .file "old".toUTF8)] }
    today.isValid = true ∧ (openIn "logs" 30 today disk).1.isOk = true ∧
      (openIn "logs" 30 today disk).2.find? ["logs", "host_20260101.log"] = none := by
  intro today disk
  have htoday : today.isValid = true := by decide
  have hok : (openIn "logs" 30 today disk).1.isOk = true := by decide +kernel
  refine ⟨htoday, hok, ?_⟩
  have heffect := (openIn_effect "logs" 30 today htoday disk).2
  revert heffect hok
  rcases openIn "logs" 30 today disk with ⟨_ | _, disk'⟩ <;> intro hok heffect
  · cases hok
  · obtain ⟨made, hmake, -, -, herases⟩ := heffect
    have hmade : made = disk := (Prod.mk.inj hmake).2.symm
    refine herases.erased _ ⟨by decide, "host_20260101.log", ⟨2026, 1, 1⟩, .inl ⟨by decide, by decide⟩, by decide,
      ⟨89, by decide, by decide +kernel⟩, ?_, "old".toUTF8, ?_⟩
    · rw [hmade]
      rfl
    · rw [hmade]
      rfl

theorem eight_le_stamp (d : Date) : 8 ≤ (stamp d).toList.length := by
  have hpadded (width n : Nat) : width ≤ (padded width n).toList.length := by
    rw [toList_padded, List.length_append, List.length_replicate]
    omega
  have hyear := hpadded 4
  have hmonth := hpadded 2 d.month
  have hday := hpadded 2 d.day
  have hfour : 4 ≤ (yearText d.year).toList.length := by
    unfold yearText
    split_ifs
    · exact hyear _
    · rw [String.toList_append, List.length_append]
      exact (hyear _).trans (Nat.le_add_left _ _)
    · rw [String.toList_append, List.length_append]
      exact (hyear _).trans (Nat.le_add_left _ _)
  simp only [stamp, String.toList_append, List.length_append]
  omega

/-- A retention that fits in 32 bits can reach beyond the calendar, which ends the program. And a file is removed
whose name is that of no daily file: seven digits are read as the first of November 2000. -/
theorem retention_slips :
    let today : Date := ⟨2026, 3, 31⟩
    let disk : Disk := { entries := [(["logs"], .directory), (["logs", "host_2000111.log"], .file "mine".toUTF8)] }
    (openIn "logs" 4294967295 today disk).1 = .error .beyondCalendar ∧
      (openIn "logs" 30 today disk).2.find? ["logs", "host_2000111.log"] = none ∧
        ∀ d, fileName d ≠ "host_2000111.log" := by
  refine ⟨by decide +kernel, by decide +kernel, fun d heq => ?_⟩
  have hlength := congrArg (fun name => name.toList.length) heq
  have height := eight_le_stamp d
  simp [fileName] at hlength
  omega

end Scriptorium.HostLog
