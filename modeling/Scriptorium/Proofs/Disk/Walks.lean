import Mathlib.Tactic.SplitIfs
import Scriptorium.Disk.Basic

/-!
# Walks

A walk looks at directories only, so disks with the same directories lead every path that can be walked to
the same place (`SameDirectories.locate`). The empty name and `.` stay where they are.
-/

namespace Scriptorium.Disk

variable {d d' d'' : Disk} {at_ start goal : Location} {name path : String} {front back : List String}

/-! ## Steps -/

/-- A name that leads to where it starts. -/
def Stays (name : String) : Prop := name = "" ∨ name = "."

instance : DecidablePred Stays := fun _ => inferInstanceAs (Decidable (_ ∨ _))

/-- A name that leads into a directory. -/
structure Enters (name : String) : Prop where
  ne_empty : name ≠ ""
  ne_dot : name ≠ "."
  ne_dots : name ≠ ".."

theorem Enters.not_stays (h : Enters name) : ¬ Stays name := fun hs => hs.elim h.ne_empty h.ne_dot

theorem walk_stays (h : Stays name) (hd : d.find? at_ = some .directory) :
    d.walk at_ (name :: back) = d.walk at_ back := by
  rw [walk, hd]
  exact if_pos h

theorem walk_enters (h : Enters name) (hsize : name.utf8ByteSize ≤ 255)
    (hd : d.find? at_ = some .directory) : d.walk at_ (name :: back) = d.walk (at_ ++ [name]) back := by
  simp [walk, hd, h.ne_empty, h.ne_dot, h.ne_dots, Nat.not_lt.2 hsize]

/-- Every name that is walked is walked from a directory. -/
theorem directory_of_walk_cons (h : d.walk at_ (name :: back) = .ok goal) :
    d.find? at_ = some .directory := by
  rw [walk] at h
  split at h
  · cases h
  · cases h
  · assumption

theorem enters_of_walk (h : Enters name) (hw : d.walk at_ [name] = .ok goal) :
    name.utf8ByteSize ≤ 255 ∧ goal = at_ ++ [name] := by
  have hd := directory_of_walk_cons hw
  simp only [walk, hd, h.ne_empty, h.ne_dot, h.ne_dots, or_self, if_false] at hw
  split_ifs at hw with hsize
  exact ⟨Nat.not_lt.1 hsize, (Except.ok.inj hw).symm⟩

theorem walk_append (d : Disk) (at_ : Location) (front back : List String) :
    d.walk at_ (front ++ back) = (d.walk at_ front).bind (d.walk · back) := by
  induction front generalizing at_ with
  | nil => rfl
  | cons name front ih =>
    rw [List.cons_append, walk, walk]
    split
    · rfl
    · rfl
    · split_ifs
      · exact ih at_
      · exact ih at_.dropLast
      · rfl
      · exact ih (at_ ++ [name])

theorem walk_append_eq_ok_iff :
    d.walk at_ (front ++ back) = .ok goal ↔ ∃ l, d.walk at_ front = .ok l ∧ d.walk l back = .ok goal := by
  rw [walk_append]
  cases d.walk at_ front with
  | error e => simp [Except.bind]
  | ok l => simp [Except.bind]

/-- A name that stays makes no difference before another name. -/
theorem walk_stays_cons (h : Stays name) (hback : back ≠ []) :
    d.walk at_ (name :: back) = d.walk at_ back := by
  cases hd : d.find? at_ with
  | none =>
    obtain ⟨next, back, rfl⟩ := List.exists_cons_of_ne_nil hback
    rw [walk, walk, hd]
  | some e =>
    cases e with
    | directory => exact walk_stays h hd
    | file bytes =>
      obtain ⟨next, back, rfl⟩ := List.exists_cons_of_ne_nil hback
      rw [walk, walk, hd]

/-- Names that stay ask only what stands where they are. -/
theorem walk_stays_congr (h : ∀ name ∈ back, Stays name) (hfind : d'.find? at_ = d.find? at_) :
    d'.walk at_ back = d.walk at_ back ∧ ∀ l, d.walk at_ back = .ok l → l = at_ := by
  induction back with
  | nil => exact ⟨rfl, fun l hl => (Except.ok.inj hl).symm⟩
  | cons name back ih =>
    have hname := h name (by simp)
    cases hd : d.find? at_ with
    | none =>
      rw [hd] at hfind
      simp [walk, hfind, hd]
    | some e =>
      rw [hd] at hfind
      cases e with
      | file bytes => simp [walk, hfind, hd]
      | directory =>
        rw [walk_stays hname hfind, walk_stays hname hd]
        exact ih fun n hn => h n (by simp [hn])

/-- Where the walk of a path starts. -/
def origin (d : Disk) (path : String) : Location := if Path.isAbsolute path then [] else d.home

theorem locate_eq_ok_iff : d.locate path = .ok goal ↔
    '\x00' ∉ path.toList ∧ path ≠ "" ∧ d.walk (d.origin path) (names path) = .ok goal := by
  rw [locate, ← origin.eq_def]
  split_ifs with hnul hempty
  · exact iff_of_false nofun fun h => h.1 (List.contains_iff_mem.1 hnul)
  · exact iff_of_false nofun fun h => h.2.1 (String.isEmpty_iff.1 hempty)
  · exact ⟨fun h => ⟨mt List.contains_iff_mem.2 hnul, mt String.isEmpty_iff.2 hempty, h⟩, fun h => h.2.2⟩

theorem walk_of_locate (h : d.locate path = .ok goal) : d.walk (d.origin path) (names path) = .ok goal :=
  (locate_eq_ok_iff.1 h).2.2

theorem locate_congr (h : d'.walk (d'.origin path) (names path) = d.walk (d.origin path) (names path)) :
    d'.locate path = d.locate path := by
  unfold locate
  rw [← origin.eq_def, ← origin.eq_def, h]

theorem stat_of_locate (h : d.locate path = .ok at_) :
    d.stat path = match d.find? at_ with
      | some e => .ok e
      | none => .error .notFound := by
  rw [stat, h]
  rfl

theorem exists_locate_of_stat {e : Entry} (h : d.stat path = .ok e) :
    ∃ at_, d.locate path = .ok at_ ∧ d.find? at_ = some e := by
  cases hl : d.locate path with
  | error error => simp [stat, hl, bind, Except.bind] at h
  | ok at_ =>
    rw [stat_of_locate hl] at h
    cases hfind : d.find? at_ with
    | none => simp [hfind] at h
    | some entry =>
      rw [hfind] at h
      exact ⟨at_, rfl, hfind.trans (congrArg some (Except.ok.inj h))⟩

/-- The walk of a name that stays ends where it is, in a directory. -/
theorem walk_all_stays (h : ∀ name ∈ back, Stays name) (hd : d.find? at_ = some .directory) :
    d.walk at_ back = .ok at_ := by
  induction back with
  | nil => rfl
  | cons name back ih =>
    rw [walk_stays (h name (by simp)) hd]
    exact ih fun n hn => h n (by simp [hn])

/-! ## Disks with the same directories -/

/-- No directory of the first disk is lost in the second, and the home is the same. -/
structure KeepsDirectories (d d' : Disk) : Prop where
  home : d'.home = d.home
  directory : ∀ l, d.find? l = some .directory → d'.find? l = some .directory

namespace KeepsDirectories

theorem refl (d : Disk) : KeepsDirectories d d := ⟨rfl, fun _ h => h⟩

theorem trans (h : KeepsDirectories d d') (h' : KeepsDirectories d' d'') : KeepsDirectories d d'' where
  home := h'.home.trans h.home
  directory l hl := h'.directory l (h.directory l hl)

theorem walk (h : KeepsDirectories d d') (hw : d.walk start front = .ok goal) :
    d'.walk start front = .ok goal := by
  induction front generalizing start with
  | nil => exact hw
  | cons name front ih =>
    have hd := directory_of_walk_cons hw
    rw [Disk.walk, hd] at hw
    rw [Disk.walk, h.directory start hd]
    simp only at hw ⊢
    split_ifs at hw ⊢ <;> exact ih hw

theorem origin (h : KeepsDirectories d d') (path : String) : d'.origin path = d.origin path := by
  rw [Disk.origin, Disk.origin, h.home]

theorem locate (h : KeepsDirectories d d') (hl : d.locate path = .ok goal) : d'.locate path = .ok goal := by
  have hw := walk_of_locate hl
  rw [← hl]
  exact locate_congr (by rw [hw, h.origin, h.walk hw])

end KeepsDirectories

/-- Both disks have the same directories and the same home. -/
structure SameDirectories (d d' : Disk) : Prop where
  home : d'.home = d.home
  directory : ∀ l, d'.find? l = some .directory ↔ d.find? l = some .directory

namespace SameDirectories

theorem refl (d : Disk) : SameDirectories d d := ⟨rfl, fun _ => Iff.rfl⟩

theorem trans (h : SameDirectories d d') (h' : SameDirectories d' d'') : SameDirectories d d'' where
  home := h'.home.trans h.home
  directory l := (h'.directory l).trans (h.directory l)

theorem symm (h : SameDirectories d d') : SameDirectories d' d where
  home := h.home.symm
  directory l := (h.directory l).symm

theorem keeps (h : SameDirectories d d') : KeepsDirectories d d' := ⟨h.home, fun l => (h.directory l).2⟩

theorem walk (h : SameDirectories d d') (hw : d.walk start front = .ok goal) :
    d'.walk start front = .ok goal := h.keeps.walk hw

theorem origin (h : SameDirectories d d') (path : String) : d'.origin path = d.origin path :=
  h.keeps.origin path

theorem locate (h : SameDirectories d d') (hl : d.locate path = .ok goal) : d'.locate path = .ok goal :=
  h.keeps.locate hl

theorem locate_eq_ok_iff (h : SameDirectories d d') : d'.locate path = .ok goal ↔ d.locate path = .ok goal :=
  ⟨h.symm.locate, h.locate⟩

end SameDirectories

/-- The disks differ at most at one place, where neither has a directory. -/
structure ChangesFile (at_ : Location) (d d' : Disk) : Prop where
  home : d'.home = d.home
  elsewhere : ∀ l, l ≠ at_ → d'.find? l = d.find? l
  before : d.find? at_ ≠ some .directory
  after : d'.find? at_ ≠ some .directory

/-- The root is a directory. -/
theorem ne_root (h : d.find? at_ ≠ some .directory) : at_ ≠ [] := by
  rintro rfl
  exact h rfl

theorem find?_setEntry_self (h : d.find? at_ ≠ some .directory) (bytes : Bytes) :
    (d.setEntry at_ (.file bytes)).find? at_ = some (.file bytes) := by
  rw [find?_setEntry d at_ at_ _ (ne_root h), if_pos rfl]

theorem find?_erase_self (h : d.find? at_ ≠ some .directory) : (d.erase at_).find? at_ = none := by
  rw [find?_erase d at_ at_ (ne_root h), if_pos rfl]

namespace ChangesFile

theorem sameDirectories (h : ChangesFile at_ d d') : SameDirectories d d' where
  home := h.home
  directory l := by
    by_cases hl : l = at_
    · subst hl
      exact iff_of_false h.after h.before
    · rw [h.elsewhere l hl]

theorem trans (h : ChangesFile at_ d d') (h' : ChangesFile at_ d' d'') : ChangesFile at_ d d'' where
  home := h'.home.trans h.home
  elsewhere l hl := (h'.elsewhere l hl).trans (h.elsewhere l hl)
  before := h.before
  after := h'.after

theorem setEntry (h : d.find? at_ ≠ some .directory) (bytes : Bytes) :
    ChangesFile at_ d (d.setEntry at_ (.file bytes)) where
  home := rfl
  elsewhere l hl := by rw [find?_setEntry d at_ l _ (ne_root h), if_neg hl]
  before := h
  after := by simp [find?_setEntry_self h bytes]

theorem erase (h : d.find? at_ ≠ some .directory) : ChangesFile at_ d (d.erase at_) where
  home := rfl
  elsewhere l hl := by rw [find?_erase d at_ l (ne_root h), if_neg hl]
  before := h
  after := by simp [find?_erase_self h]

/-- What is told of a file does not count. -/
theorem setStatus (h : ChangesFile at_ d d') (l : Location) (s : FileStatus) :
    ChangesFile at_ d (d'.setStatus l s) := ⟨h.home, h.elsewhere, h.before, h.after⟩

theorem markLike (h : ChangesFile at_ d d') (source target : String) :
    ChangesFile at_ d (d'.markLike source target) := by
  unfold Disk.markLike
  split
  · exact h.setStatus _ _
  · exact h

end ChangesFile

end Scriptorium.Disk
