import Mathlib.Logic.Relation
import Scriptorium.Proofs.Disk.Changes
import Scriptorium.Proofs.Disk.Siblings

/-!
# Directories that are made

What a change leaves as it was and what it may add are said by `Frame`: nothing that was there changes but at
the places named, and all that is new elsewhere are directories that certain paths mean. Making a directory
with those above it changes nothing that was there, and makes only what the path and its parents mean
(`makeDirectories_frame`), whether it ends well or stops half-way.
-/

namespace Scriptorium

/-- A directory above a path, as its text has them: its parent, the parent of that, and so on. -/
def Path.Above (path dir : String) : Prop := Relation.TransGen (fun p q => Path.parent? p = some q) path dir

namespace Disk

variable {d d' d'' : Disk} {at_ : Location} {path : String} {touched : List Location} {way way' : String → Prop}

/-! ## Frames -/

/-- Outside the touched places nothing that was there has changed, and what is new are directories that paths
of the given kind mean. -/
structure Frame (touched : List Location) (way : String → Prop) (d d' : Disk) : Prop
    extends KeepsDirectories d d' where
  kept : ∀ l e, l ∉ touched → d.find? l = some e → d'.find? l = some e
  made : ∀ l, l ∉ touched → d.find? l = none → d'.find? l ≠ none →
    d'.find? l = some .directory ∧ ∃ path, way path ∧ d'.locate path = .ok l

namespace Frame

theorem refl (touched : List Location) (way : String → Prop) (d : Disk) : Frame touched way d d where
  toKeepsDirectories := .refl d
  kept _ _ _ h := h
  made _ _ h hne := absurd h hne

theorem mono (h : Frame touched way d d') (hway : ∀ path, way path → way' path) : Frame touched way' d d' where
  toKeepsDirectories := h.toKeepsDirectories
  kept := h.kept
  made l hl hnone hne :=
    (h.made l hl hnone hne).imp_right fun ⟨path, hpath, hlocate⟩ => ⟨path, hway path hpath, hlocate⟩

theorem trans (h : Frame [] way d d') (h' : Frame touched way d' d'') : Frame touched way d d'' where
  toKeepsDirectories := h.toKeepsDirectories.trans h'.toKeepsDirectories
  kept l e hl he := h'.kept l e hl (h.kept l e (by simp) he)
  made l hl hnone hne := by
    cases hmid : d'.find? l with
    | none => exact h'.made l hl hmid hne
    | some e =>
      obtain ⟨hdir, path, hpath, hlocate⟩ := h.made l (by simp) hnone (by simp [hmid])
      exact ⟨h'.directory l hdir, path, hpath, h'.locate hlocate⟩

end Frame

/-- A change of one file touches its place only. -/
theorem ChangesFile.frame (h : ChangesFile at_ d d') (way : String → Prop) : Frame [at_] way d d' where
  toKeepsDirectories := h.sameDirectories.keeps
  kept l e hl he := by rw [h.elsewhere l (by simpa using hl), he]
  made l hl hnone hne := absurd ((h.elsewhere l (by simpa using hl)).trans hnone) hne

/-! ## Separators at the end of a path -/

theorem exists_slashes (path : String) :
    ∃ n, path.toList = (withoutSlashes path).toList ++ List.replicate n '/' := by
  have hcut := List.rdropWhile_append_rtakeWhile (p := (· == '/')) (l := path.toList)
  have hslashes : path.toList.rtakeWhile (· == '/') =
      List.replicate (path.toList.rtakeWhile (· == '/')).length '/' :=
    List.eq_replicate_length.2 fun c hc => by simpa using List.mem_rtakeWhile_imp hc
  revert hslashes hcut
  generalize path.toList.rtakeWhile (· == '/') = slashes
  intro hcut hslashes
  rw [List.rdropWhile] at hcut
  unfold withoutSlashes
  split
  · next hnil =>
    -- nothing but separators: the root keeps one of them
    rw [hnil, List.nil_append, hslashes] at hcut
    split_ifs with hempty
    · exact ⟨0, by simpa using hempty⟩
    · obtain ⟨n, hn⟩ := Nat.exists_eq_succ_of_ne_zero fun hzero : slashes.length = 0 => by
        rw [hzero] at hcut
        exact hempty (by simpa using hcut.symm)
      exact ⟨n, by rw [← hcut, hn, List.replicate_succ]; rfl⟩
  · next cs hne =>
    exact ⟨slashes.length, by rw [String.toList_ofList, ← hslashes, hcut]⟩

theorem names_slashes (cs : List Char) (n : Nat) :
    parts (cs ++ List.replicate n '/') = parts cs ++ List.replicate n "" := by
  induction n with
  | zero => simp
  | succ n ih =>
    rw [List.replicate_succ', List.replicate_succ', ← List.append_assoc, parts_slash, ih, List.append_assoc]

/-- A directory is also meant by its path with separators behind it. -/
theorem locate_of_withoutSlashes (hl : d.locate (withoutSlashes path) = .ok at_)
    (hd : d.find? at_ = some .directory) : d.locate path = .ok at_ := by
  obtain ⟨n, hn⟩ := exists_slashes path
  obtain ⟨hnul, hne, hwalk⟩ := locate_eq_ok_iff.1 hl
  have hfront : (withoutSlashes path).toList <+: path.toList := ⟨_, hn.symm⟩
  refine locate_eq_ok_iff.2 ⟨?_, ?_, ?_⟩
  · simpa [hn] using hnul
  · rintro rfl
    exact hne (String.toList_eq_nil_iff.1 (List.prefix_nil.1 hfront))
  · rw [origin, isAbsolute_of_front hfront hne, ← origin.eq_def, names_eq, hn, names_slashes, walk_append,
      ← names_eq, hwalk]
    exact walk_all_stays (fun name hname => .inl (List.eq_of_mem_replicate hname)) hd

/-! ## Making directories -/

/-- A directory that is made was not there before, and the path means it. -/
theorem makeDirectory_eq_ok (h : d.makeDirectory path = .ok d') :
    ∃ at_, d.find? at_ = none ∧ d' = d.setEntry at_ .directory ∧ KeepsDirectories d d' ∧
      d'.locate path = .ok at_ := by
  unfold makeDirectory at h
  cases hl : d.locate (if endsInName path then withoutSlashes path else path) with
  | error e => simp [hl, bind, Except.bind] at h
  | ok at_ =>
    simp only [hl, bind, Except.bind] at h
    split at h
    · cases h
    · next hnone hparent =>
      obtain rfl := Except.ok.inj h
      have hroot : at_ ≠ [] := ne_root (d := d) (by simp [hnone])
      have hkeeps : KeepsDirectories d (d.setEntry at_ .directory) := by
        refine ⟨rfl, fun l hdir => ?_⟩
        rw [find?_setEntry d at_ l _ hroot]
        split_ifs
        · rfl
        · exact hdir
      refine ⟨at_, hnone, rfl, hkeeps, ?_⟩
      have hlocate := hkeeps.locate hl
      split_ifs at hlocate
      · exact locate_of_withoutSlashes hlocate (by rw [find?_setEntry d at_ at_ _ hroot, if_pos rfl])
      · exact hlocate
    · cases h
    · cases h

theorem makeDirectory_frame (h : d.makeDirectory path = .ok d') : Frame [] (· = path) d d' := by
  obtain ⟨at_, hnone, hset, hkeeps, hlocate⟩ := makeDirectory_eq_ok h
  have hfind (l : Location) : d'.find? l = if l = at_ then some .directory else d.find? l := by
    rw [hset, find?_setEntry d at_ l _ (ne_root (d := d) (by simp [hnone]))]
  refine ⟨hkeeps, fun l e _ he => ?_, fun l _ hl hne => ?_⟩
  · rw [hfind, if_neg, he]
    rintro rfl
    cases hnone.symm.trans he
  · rw [hfind] at hne
    split_ifs at hne with hat
    · exact ⟨by rw [hfind, if_pos hat], path, rfl, hat ▸ hlocate⟩
    · exact absurd hl hne

/-- The path itself or a directory above it. -/
def AtOrAbove (path dir : String) : Prop := Relation.ReflTransGen (fun p q => Path.parent? p = some q) path dir

theorem makeDirectoriesFrom_frame (fuel : Nat) (d : Disk) (path : String) :
    Frame [] (AtOrAbove path) d (d.makeDirectoriesFrom fuel path).2 := by
  induction fuel generalizing d path with
  | zero => exact .refl _ _ d
  | succ fuel ih =>
    -- making the directory itself, with what may have been made above it
    have hself {d₁ d₂ : Disk} (h : d₁.makeDirectory path = .ok d₂) : Frame [] (AtOrAbove path) d₁ d₂ :=
      (makeDirectory_frame h).mono fun p hp => hp ▸ .refl
    -- one round, as it is written
    change Frame [] (AtOrAbove path) d (if path.isEmpty then (Except.ok (), d) else _).2
    by_cases hempty : path.isEmpty = true
    · rw [if_pos hempty]
      exact .refl _ _ d
    · rw [if_neg hempty]
      cases hmake : d.makeDirectory path with
      | ok d₁ => exact hself hmake
      | error e =>
        cases e with
        | notFound =>
          cases hparent : Path.parent? path with
          | none => exact .refl _ _ d
          | some dir =>
            have habove : Frame [] (AtOrAbove path) d (d.makeDirectoriesFrom fuel dir).2 :=
              (ih d dir).mono fun p hp => .head hparent hp
            simp only
            revert habove
            rcases d.makeDirectoriesFrom fuel dir with ⟨_ | _, d₁⟩ <;> intro habove
            · exact habove
            · simp only
              cases hagain : d₁.makeDirectory path with
              | ok d₂ => exact habove.trans (hself hagain)
              | error e => exact habove
        | _ => exact .refl _ _ d

/-- Making a directory and those above it makes nothing else, and changes nothing that was there. -/
theorem makeDirectories_frame (d : Disk) (path : String) :
    Frame [] (AtOrAbove path) d (d.makeDirectories path).2 := makeDirectoriesFrom_frame _ d path

end Disk

end Scriptorium
