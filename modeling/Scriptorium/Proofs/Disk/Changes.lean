import Scriptorium.Proofs.Disk.Walks

/-!
# What changes a disk

All that a write, a rename and a removal can do: they fail and change nothing, or they change the entries
said here. Only a write that is broken off fails and leaves something behind.
-/

namespace Scriptorium.Disk

variable {d d' d'' : Disk} {at_ : Location} {path source target : String} {bytes : Bytes}
  {gone gone' : Location → Prop}

theorem locateForWriting_eq_ok_iff :
    d.locateForWriting path = .ok at_ ↔ endsInSlash path = false ∧ d.locate path = .ok at_ ∧
      d.find? at_ ≠ some .directory ∧ d.find? at_.dropLast = some .directory := by
  unfold locateForWriting
  by_cases hslash : endsInSlash path = true
  · -- a path that ends in a separator is never written to
    cases hl : d.locate (withoutSlashes path) with
    | error e => simp [hslash, hl, bind, Except.bind]
    | ok place =>
      simp only [hslash, if_true, hl, bind, Except.bind, Bool.true_eq_false, false_and, iff_false]
      split <;> simp [throw, throwThe, MonadExceptOf.throw]
  · cases hl : d.locate path with
    | error e => simp [hslash, hl, bind, Except.bind]
    | ok place =>
      simp only [hslash, if_false, hl, bind, Except.bind, Bool.false_eq_true, pure, Except.pure, throw, throwThe,
        MonadExceptOf.throw, Except.ok.injEq, true_and]
      split
      · next hdir =>
        refine iff_of_false nofun ?_
        rintro ⟨rfl, hnot, -⟩
        exact hnot hdir
      · next hdir =>
        split
        · next hparent =>
          refine ⟨fun h => ?_, fun h => congrArg _ h.1⟩
          obtain rfl := Except.ok.inj h
          exact ⟨rfl, hdir, hparent⟩
        · next hparent =>
          refine iff_of_false nofun ?_
          rintro ⟨rfl, -, hthere⟩
          cases hparent.symm.trans hthere
        · next hparent =>
          refine iff_of_false nofun ?_
          rintro ⟨rfl, -, hthere⟩
          cases hparent.symm.trans hthere

theorem SameDirectories.locateForWriting_eq_ok_iff (h : SameDirectories d d') :
    d'.locateForWriting path = .ok at_ ↔ d.locateForWriting path = .ok at_ := by
  simp only [Disk.locateForWriting_eq_ok_iff, h.locate_eq_ok_iff, ne_eq, h.directory]

/-- Where a file can be written, the path means that place, and no directory is there. -/
theorem locate_of_locateForWriting (h : d.locateForWriting path = .ok at_) :
    d.locate path = .ok at_ ∧ d.find? at_ ≠ some .directory :=
  have hplace := locateForWriting_eq_ok_iff.1 h
  ⟨hplace.2.1, hplace.2.2.1⟩

theorem write_cases (d : Disk) (path : String) (bytes : Bytes) (fault? : Option WriteFault) :
    (∃ e, d.write path bytes fault? = (.error e, d)) ∨
      ∃ at_, d.locateForWriting path = .ok at_ ∧
        ((∃ n e, fault? = some (.brokenOff n e) ∧
            d.write path bytes fault? = (.error e, d.setEntry at_ (.file (bytes.extract 0 n)))) ∨
          d.write path bytes fault? = (.ok (), d.setEntry at_ (.file bytes))) := by
  unfold write
  cases d.locateForWriting path with
  | error e => exact .inl ⟨e, rfl⟩
  | ok at_ =>
    rcases fault? with _ | ⟨e⟩ | ⟨n, e⟩
    · exact .inr ⟨at_, rfl, .inr rfl⟩
    · exact .inl ⟨e, rfl⟩
    · exact .inr ⟨at_, rfl, .inl ⟨n, e, rfl, rfl⟩⟩

theorem withoutSlashes_of_not_endsInSlash (h : endsInSlash path = false) : withoutSlashes path = path := by
  have hhead : ∀ c ∈ path.toList.reverse.head?, (c == '/') = false := by
    intro c hc
    rw [List.head?_reverse] at hc
    rw [endsInSlash, Option.mem_def.1 hc] at h
    simpa using h
  have hkeep : path.toList.reverse.dropWhile (· == '/') = path.toList.reverse := by
    cases hr : path.toList.reverse with
    | nil => rfl
    | cons c cs =>
      rw [hr] at hhead
      rw [List.dropWhile_cons, hhead c rfl]
      rfl
  rw [withoutSlashes, hkeep, List.reverse_reverse]
  split
  · next hnil => simp [String.toList_eq_nil_iff.1 hnil]
  · next cs hcs => exact String.ofList_toList

/-- A rename that succeeds has put the file that the source means in the place of the target, with its status. -/
theorem rename_eq_ok {fault? : Option DiskError} (h : d.rename source target fault? = .ok d') :
    ∃ place dest bytes, d.locate source = .ok place ∧ d.find? place = some (.file bytes) ∧
      d.locate target = .ok dest ∧ d.find? dest ≠ some .directory ∧
        d' = ((d.erase place).setEntry dest (.file bytes)).setStatus dest (d.status place) := by
  unfold rename at h
  simp only [bind, Except.bind, pure, Except.pure, throw, throwThe, MonadExceptOf.throw] at h
  cases hsource : d.locate source with
  | error e => simp [hsource] at h
  | ok place =>
    cases htarget : d.locate (withoutSlashes target) with
    | error e => simp only [hsource, htarget] at h; split_ifs at h
    | ok dest =>
      simp only [hsource, htarget] at h
      by_cases hslash : endsInSlash target = true
      · simp only [if_pos hslash] at h
        split_ifs at h
        split at h <;> cases h
      · by_cases hdest : d.find? dest = some .directory
        · simp only [if_pos hdest, if_neg hslash] at h
          split_ifs at h
          split at h <;> cases h
        · simp only [if_neg hslash, if_neg hdest] at h
          split_ifs at h
          split at h
          · cases h
          · cases h
          · cases h
          · cases h
          · next bytes hplace hparent =>
            cases fault? with
            | some e => cases h
            | none =>
              rw [withoutSlashes_of_not_endsInSlash (Bool.not_eq_true _ ▸ hslash)] at htarget
              exact ⟨place, dest, bytes, rfl, hplace, htarget, hdest, (Except.ok.inj h).symm⟩

/-! ## Removals -/

theorem remove_eq (hl : d.locate path = .ok at_) (hf : d.find? at_ = some (.file bytes))
    (fault? : Option DiskError) :
    d.remove path fault? = match fault? with
      | some e => .error e
      | none => .ok (d.erase at_) := by
  simp only [remove, hl, hf, bind, Except.bind]
  rfl

/-- The second disk is the first without certain files. -/
structure Erases (gone : Location → Prop) (d d' : Disk) : Prop where
  home : d'.home = d.home
  file : ∀ l, gone l → ∃ bytes, d.find? l = some (.file bytes)
  erased : ∀ l, gone l → d'.find? l = none
  kept : ∀ l, ¬ gone l → d'.find? l = d.find? l

namespace Erases

theorem congr (h : Erases gone d d') (hiff : ∀ l, gone' l ↔ gone l) : Erases gone' d d' where
  home := h.home
  file l hl := h.file l ((hiff l).1 hl)
  erased l hl := h.erased l ((hiff l).1 hl)
  kept l hl := h.kept l (mt (hiff l).2 hl)

/-- Nothing is erased. -/
theorem none (d : Disk) (h : ∀ l, ¬ gone l) : Erases gone d d :=
  ⟨rfl, fun l hl => absurd hl (h l), fun l hl => absurd hl (h l), fun _ _ => rfl⟩

theorem trans (h : Erases gone d d') (h' : Erases gone' d' d'') : Erases (fun l => gone l ∨ gone' l) d d'' where
  home := h'.home.trans h.home
  file l hl := by
    by_cases hgone : gone l
    · exact h.file l hgone
    · obtain ⟨bytes, hfile⟩ := h'.file l (hl.resolve_left hgone)
      exact ⟨bytes, (h.kept l hgone).symm.trans hfile⟩
  erased l hl := by
    by_cases hgone : gone' l
    · exact h'.erased l hgone
    · rw [h'.kept l hgone, h.erased l (hl.resolve_right hgone)]
  kept l hl := by
    rw [not_or] at hl
    rw [h'.kept l hl.2, h.kept l hl.1]

theorem sameDirectories (h : Erases gone d d') : SameDirectories d d' where
  home := h.home
  directory l := by
    by_cases hgone : gone l
    · obtain ⟨bytes, hfile⟩ := h.file l hgone
      simp [h.erased l hgone, hfile]
    · rw [h.kept l hgone]

end Erases

theorem erases_erase (h : d.find? at_ = some (.file bytes)) :
    Erases (· = at_) d (d.erase at_) := by
  have hfile : d.find? at_ ≠ some .directory := by simp [h]
  refine ⟨rfl, fun l hl => ⟨bytes, hl ▸ h⟩, fun l hl => ?_, fun l hl => ?_⟩
  · rw [hl, find?_erase_self hfile]
  · rw [find?_erase d at_ l (ne_root hfile), if_neg hl]

/-- The disk after a removal, whether it succeeds or not. -/
theorem erases_remove (d : Disk) (path : String) :
    Erases (fun l => d.locate path = .ok l ∧ ∃ bytes, d.find? l = some (.file bytes)) d
      (match d.remove path with
      | .ok d => d
      | .error _ => d) := by
  cases hl : d.locate path with
  | error e =>
    have hremove : d.remove path = .error e := by simp only [remove, hl, bind, Except.bind]
    rw [hremove]
    exact .none d (by simp)
  | ok at_ =>
    by_cases hfile : ∃ bytes, d.find? at_ = some (.file bytes)
    · obtain ⟨bytes, hbytes⟩ := hfile
      rw [remove_eq hl hbytes]
      refine (erases_erase hbytes).congr fun l => ?_
      rw [Except.ok.injEq]
      exact ⟨fun h => h.1.symm, fun h => ⟨h.symm, bytes, h ▸ hbytes⟩⟩
    · have hremove : ∃ e, d.remove path = .error e := by
        simp only [remove, hl, bind, Except.bind]
        split
        · next bytes hbytes => exact absurd ⟨bytes, hbytes⟩ hfile
        · exact ⟨_, rfl⟩
        · exact ⟨_, rfl⟩
      obtain ⟨e, he⟩ := hremove
      rw [he]
      refine .none d ?_
      rintro l ⟨hat, hbytes⟩
      exact hfile (Except.ok.inj hat ▸ hbytes)

/-- Removing one path after the other removes the files that they mean. -/
theorem erases_removeAll (d : Disk) (paths : List String) :
    Erases (fun l => ∃ path ∈ paths, d.locate path = .ok l ∧ ∃ bytes, d.find? l = some (.file bytes)) d
      (paths.foldl (fun d path =>
        match d.remove path with
        | .ok d => d
        | .error _ => d) d) := by
  induction paths generalizing d with
  | nil => exact .none d (by simp)
  | cons path paths ih =>
    have hfirst := erases_remove d path
    rw [List.foldl_cons]
    refine (hfirst.trans (ih _)).congr fun l => ?_
    simp only [List.mem_cons, exists_eq_or_imp, hfirst.sameDirectories.locate_eq_ok_iff]
    by_cases hgone : d.locate path = .ok l ∧ ∃ bytes, d.find? l = some (.file bytes)
    · simp only [hgone, and_self, true_or]
    · rw [hfirst.kept l hgone]

theorem list_eq_ok_iff {dir : String} :
    (∃ names, d.list dir = .ok names) ↔ ∃ at_, d.locate dir = .ok at_ ∧ d.find? at_ = some .directory := by
  unfold list
  cases hl : d.locate dir with
  | error e => simp [bind, Except.bind]
  | ok at_ =>
    simp only [bind, Except.bind, Except.ok.injEq, exists_eq_left']
    split
    · next h => simp [h, throw, throwThe, MonadExceptOf.throw]
    · next h => simp [h, throw, throwThe, MonadExceptOf.throw]
    · next h => simp [h, pure, Except.pure]

/-- The names in a directory are those of the entries in it. -/
theorem mem_list_iff {dir name : String} {e : Entry} {names : List (String × Entry)} (h : d.list dir = .ok names)
    (hl : d.locate dir = .ok at_) : (name, e) ∈ names ↔ (at_ ++ [name], e) ∈ d.entries := by
  obtain ⟨at', hat, hdir⟩ := list_eq_ok_iff.1 ⟨names, h⟩
  obtain rfl := Except.ok.inj (hl.symm.trans hat)
  simp only [list, hl, hdir, bind, Except.bind, pure, Except.pure, Except.ok.injEq] at h
  rw [← h]
  simp only [List.mem_filterMap, Prod.exists]
  constructor
  · rintro ⟨l, e', hmem, hname⟩
    split_ifs at hname with hparent
    obtain ⟨last, hlast, heq⟩ := Option.map_eq_some_iff.1 hname
    obtain ⟨rfl, rfl⟩ := Prod.mk.inj heq
    obtain ⟨front, rfl⟩ := List.getLast?_eq_some_iff.1 hlast
    rw [List.dropLast_concat] at hparent
    rwa [← hparent]
  · exact fun hmem => ⟨_, e, hmem, by simp⟩

theorem mem_entries_of_find? {e : Entry} (h : d.find? at_ = some e) (hroot : at_ ≠ []) : (at_, e) ∈ d.entries := by
  rw [find?, if_neg hroot] at h
  obtain ⟨front, back, hentries, -⟩ := List.lookup_eq_some_iff.1 h
  rw [hentries]
  simp

end Scriptorium.Disk
