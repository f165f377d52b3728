import Mathlib.Data.List.DropRight
import Scriptorium.Proofs.Disk.Walks
import Scriptorium.Proofs.Text.Lines

/-!
# Siblings

`Path.withFileName` names a file beside the one that a path names: walking there goes through the same
directories (`walk_withFileName`), and the last step leads to the new name. Separators and `.` at the end
of a path lead nowhere else.
-/

namespace Scriptorium.Disk

open Text

variable {d : Disk} {at_ goal : Location} {path name new : String} {cs : List Char} {front back : List String}

/-! ## Names of a path -/

/-- The names between the separators. -/
def parts (cs : List Char) : List String := (splitOn '/' cs).map String.ofList

theorem names_eq (path : String) : names path = parts path.toList := rfl

theorem parts_of_not_mem (h : '/' ∉ cs) : parts cs = [String.ofList cs] := by
  rw [parts, splitOn_of_not_mem h]
  rfl

theorem parts_append (a b : List Char) : parts (a ++ '/' :: b) = parts a ++ parts b := by
  rw [parts, splitOn_append, List.map_append]
  rfl

theorem parts_slash (cs : List Char) : parts (cs ++ ['/']) = parts cs ++ [""] := parts_append cs []

theorem parts_dot (cs : List Char) : parts (cs ++ ['/', '.']) = parts cs ++ ["."] := parts_append cs ['.']

/-! ## Walks to a name behind a path -/

/-- Behind both lists of names, every further name leads to the same place. -/
def SameWay (front back : List String) : Prop :=
  ∀ d at_ name, walk d at_ (front ++ [name]) = walk d at_ (back ++ [name])

namespace SameWay

theorem refl (front : List String) : SameWay front front := fun _ _ _ => rfl

theorem trans {a b c : List String} (h : SameWay a b) (h' : SameWay b c) : SameWay a c :=
  fun d at_ name => (h d at_ name).trans (h' d at_ name)

theorem symm {a b : List String} (h : SameWay a b) : SameWay b a :=
  fun d at_ name => (h d at_ name).symm

theorem concat (h : Stays name) (front : List String) : SameWay (front ++ [name]) front := by
  intro d at_ next
  rw [List.append_assoc, walk_append, walk_append]
  congr 1
  funext l
  exact walk_stays_cons h (by simp)

/-- What is cut off the end of a path leads nowhere else. -/
theorem trimBack (cs : List Char) : SameWay (parts cs.reverse) (parts (Path.trimBack cs).reverse) := by
  fun_induction Path.trimBack cs with
  | case1 => exact .refl _
  | case2 cs _ ih =>
    rw [List.reverse_cons, parts_slash]
    exact (concat (.inl rfl) _).trans ih
  | case3 cs ih =>
    rw [List.reverse_cons, parts_slash] at ih
    rw [List.reverse_cons, List.reverse_cons, List.append_assoc, List.singleton_append, parts_dot]
    exact (concat (.inr rfl) _).trans ((concat (.inl rfl) _).symm.trans ih)
  | case4 => exact .refl _

end SameWay

/-- A file name that a path can end in. -/
structure FileName (name : String) : Prop extends Enters name where
  no_slash : '/' ∉ name.toList

theorem FileName.not_isAbsolute (h : FileName name) : Path.isAbsolute name = false := by
  rw [Path.isAbsolute, beq_eq_false_iff_ne]
  intro hhead
  exact h.no_slash (List.mem_of_mem_head? hhead)

/-- Joining puts a name behind a path. -/
theorem walk_join {dir : String} (hdir : dir ≠ "") (h : FileName new) :
    d.walk at_ (names (Path.join dir new)) = d.walk at_ (names dir ++ [new]) := by
  have hjoin : Path.join dir new =
      if dir.toList.getLast? = some '/' then dir ++ new else dir ++ "/" ++ new := by
    simp [Path.join, h.not_isAbsolute, hdir]
  have hnew : parts new.toList = [new] := by rw [parts_of_not_mem h.no_slash, String.ofList_toList]
  rw [hjoin]
  split_ifs with hlast
  · obtain ⟨front, hfront⟩ := List.getLast?_eq_some_iff.1 hlast
    rw [names_eq, names_eq, String.toList_append, hfront, List.append_assoc, List.singleton_append,
      parts_append, parts_slash, hnew]
    exact (SameWay.concat (.inl rfl) _ d at_ new).symm
  · rw [names_eq, names_eq, String.toList_append, String.toList_append, List.append_assoc, ← hnew]
    exact congrArg (d.walk at_) (parts_append _ _)

theorem isAbsolute_of_front {short : String} (h : short.toList <+: path.toList) (hne : short ≠ "") :
    Path.isAbsolute path = Path.isAbsolute short := by
  obtain ⟨back, hback⟩ := h
  obtain ⟨c, cs, hcs⟩ := List.exists_cons_of_ne_nil (mt String.toList_eq_nil_iff.1 hne)
  rw [Path.isAbsolute, Path.isAbsolute, ← hback, hcs]
  rfl

theorem isAbsolute_join {dir : String} (hdir : dir ≠ "") (h : FileName new) :
    Path.isAbsolute (Path.join dir new) = Path.isAbsolute dir := by
  refine isAbsolute_of_front ?_ hdir
  simp only [Path.join, h.not_isAbsolute, hdir, Bool.false_or, String.isEmpty_iff, if_false]
  split_ifs <;> simp [List.append_assoc]

/-- A name joined to the path of a directory means the entry of that name in the directory. -/
theorem locate_join_eq_ok_iff {dir : String} {l : Location} (hdir : dir ≠ "") (h : FileName new)
    (hnul : '\x00' ∉ new.toList) :
    d.locate (Path.join dir new) = .ok l ↔
      ∃ at_, d.locate dir = .ok at_ ∧ d.find? at_ = some .directory ∧ new.utf8ByteSize ≤ 255 ∧ l = at_ ++ [new] := by
  have hjoin : (Path.join dir new).toList = dir.toList ++ new.toList ∨
      (Path.join dir new).toList = dir.toList ++ '/' :: new.toList := by
    simp only [Path.join, h.not_isAbsolute, hdir, Bool.false_or, String.isEmpty_iff, if_false]
    split_ifs
    · exact .inl String.toList_append
    · exact .inr (by simp)
  have hmem : '\x00' ∉ (Path.join dir new).toList ↔ '\x00' ∉ dir.toList := by
    rcases hjoin with hjoin | hjoin <;> simp [hjoin, hnul]
  have hne : Path.join dir new ≠ "" := by
    intro hempty
    rw [hempty] at hjoin
    rcases hjoin with hjoin | hjoin
    · exact hdir (String.toList_eq_nil_iff.1 (List.append_eq_nil_iff.1 hjoin.symm).1)
    · simp at hjoin
  rw [locate_eq_ok_iff, hmem, origin, isAbsolute_join hdir h, ← origin.eq_def, walk_join hdir h, walk_append_eq_ok_iff]
  simp only [@locate_eq_ok_iff d _ dir]
  constructor
  · rintro ⟨hdirNul, -, at_, hwalk, hlast⟩
    exact ⟨at_, ⟨hdirNul, hdir, hwalk⟩, directory_of_walk_cons hlast, enters_of_walk h.toEnters hlast⟩
  · rintro ⟨at_, ⟨hdirNul, -, hwalk⟩, hdirectory, hsize, rfl⟩
    exact ⟨hdirNul, hne, at_, hwalk, walk_enters h.toEnters hsize hdirectory⟩

/-! ## The last name of a path -/

/-- The names of a path without those at the end that lead nowhere else. -/
def settled (cs : List Char) : List String := (parts cs).rdropWhile (decide <| Stays ·)

theorem settled_slash (cs : List Char) : settled (cs ++ ['/']) = settled cs := by
  rw [settled, parts_slash, List.rdropWhile_concat_pos _ _ _ (by decide)]
  rfl

theorem settled_dot (cs : List Char) : settled (cs ++ ['/', '.']) = settled cs := by
  rw [settled, parts_dot, List.rdropWhile_concat_pos _ _ _ (by decide)]
  rfl

theorem settled_trimBack (cs : List Char) : settled cs.reverse = settled (Path.trimBack cs).reverse := by
  fun_induction Path.trimBack cs with
  | case1 => rfl
  | case2 cs _ ih => rw [List.reverse_cons, settled_slash, ih]
  | case3 cs ih =>
    rw [List.reverse_cons, settled_slash] at ih
    rw [List.reverse_cons, List.reverse_cons, List.append_assoc, List.singleton_append, settled_dot, ih]
  | case4 => rfl

theorem exists_trail (cs : List Char) : ∃ trail, parts cs = settled cs ++ trail ∧ ∀ n ∈ trail, Stays n :=
  ⟨_, List.rdropWhile_append_rtakeWhile.symm, fun n hn => by simpa using List.mem_rtakeWhile_imp hn⟩

theorem trimBack_suffix (cs : List Char) : Path.trimBack cs <:+ cs := by
  fun_induction Path.trimBack cs with
  | case1 => exact List.suffix_rfl
  | case2 cs _ ih => exact ih.trans (List.suffix_cons '/' cs)
  | case3 cs ih => exact ih.trans (List.suffix_cons '.' _)
  | case4 => exact List.suffix_rfl

theorem trimBack_ne_nil (h : cs ≠ []) : Path.trimBack cs ≠ [] := by
  fun_induction Path.trimBack cs with
  | case1 => simp
  | case2 cs hcs ih => exact ih hcs
  | case3 cs ih => exact ih (by simp)
  | case4 => exact h

theorem fileName_ofList (hne : ¬ (cs = [] ∨ cs = ['.'] ∨ cs = ['.', '.'])) (hslash : '/' ∉ cs) :
    FileName (String.ofList cs) where
  ne_empty h := hne (.inl (by simpa using congrArg String.toList h))
  ne_dot h := hne (.inr (.inl (by simpa using congrArg String.toList h)))
  ne_dots h := hne (.inr (.inr (by simpa using congrArg String.toList h)))
  no_slash := by rwa [String.toList_ofList]

/-- A path that ends in a file name is that name, or has a separator before it; the path of another file
name is that other name, or joined to what is before the separator. -/
theorem fileName?_cases (h : Path.fileName? path = some name) :
    FileName name ∧
      ((Path.trimBack path.toList.reverse = name.toList.reverse ∧
          ∀ new, Path.withFileName path new = Path.join "" new) ∨
        ∃ before, Path.trimBack path.toList.reverse = name.toList.reverse ++ '/' :: before ∧
          ∀ new, Path.withFileName path new =
            Path.join (String.ofList (Path.trimBack ('/' :: before)).reverse) new) := by
  have hparent (new : String) :
      Path.withFileName path new = Path.join ((Path.parent? path).getD "") new := by
    rw [Path.withFileName, h]
  unfold Path.fileName? at h
  unfold Path.parent? at hparent
  revert h hparent
  generalize Path.trimBack path.toList.reverse = back
  intro h hparent
  simp only at h hparent
  split_ifs at h with hnone
  obtain rfl := Option.some.inj h
  rw [String.toList_ofList, List.reverse_reverse]
  have hcut := List.takeWhile_append_dropWhile (p := (· != '/')) (l := back)
  have hback : ¬ (back = [] ∨ back = ['/']) := by
    rintro (rfl | rfl) <;> simp at hnone
  simp only [if_neg hback, Option.getD_some] at hparent
  refine ⟨fileName_ofList hnone fun hmem => ?_, ?_⟩
  · simpa using List.mem_takeWhile_imp (List.mem_reverse.1 hmem)
  · cases hrest : back.dropWhile (· != '/') with
    | nil =>
      rw [hrest, List.append_nil] at hcut
      exact .inl ⟨hcut.symm, fun new => by rw [hparent, hrest]; rfl⟩
    | cons c before =>
      obtain rfl : c = '/' := by
        have hhead := List.head?_dropWhile_not (· != '/') back
        rw [hrest] at hhead
        simpa using hhead
      rw [hrest] at hcut
      exact .inr ⟨before, hcut.symm, fun new => by rw [hparent, hrest]⟩

/-- What is left of a path that ends in a file name, in front of the names that stay. -/
theorem names_of_trimBack {front : List String} (hname : FileName name)
    (h : parts (Path.trimBack path.toList.reverse).reverse = front ++ [name]) :
    ∃ trail, names path = front ++ name :: trail ∧ ∀ n ∈ trail, Stays n := by
  obtain ⟨trail, htrail, hstays⟩ := exists_trail path.toList
  have hlast : ¬ decide (Stays name) = true := by simpa using hname.not_stays
  have hsettled := settled_trimBack path.toList.reverse
  rw [List.reverse_reverse, settled.eq_def (Path.trimBack _).reverse, h,
    List.rdropWhile_concat_neg (decide <| Stays ·) _ _ hlast] at hsettled
  exact ⟨trail, by rw [names_eq, htrail, hsettled, List.append_assoc]; rfl, hstays⟩

/-- A path that ends in a file name consists of the names before it, that name, and names that stay; the path
of another file name leads from the names before it to that name. -/
theorem walk_withFileName (h : Path.fileName? path = some name) :
    FileName name ∧ ∃ front trail, names path = front ++ name :: trail ∧ (∀ n ∈ trail, Stays n) ∧
      ∀ new, FileName new → Path.isAbsolute (Path.withFileName path new) = Path.isAbsolute path ∧
        ∀ d at_, walk d at_ (names (Path.withFileName path new)) = walk d at_ (front ++ [new]) := by
  obtain ⟨hname, hcases⟩ := fileName?_cases h
  have hprefix : (Path.trimBack path.toList.reverse).reverse <+: path.toList := by
    simpa using List.reverse_prefix.2 (trimBack_suffix path.toList.reverse)
  refine ⟨hname, ?_⟩
  rcases hcases with ⟨hback, hnew⟩ | ⟨before, hback, hnew⟩
  · rw [hback, List.reverse_reverse] at hprefix
    have hparts : parts (Path.trimBack path.toList.reverse).reverse = [] ++ [name] := by
      rw [hback, List.reverse_reverse, parts_of_not_mem hname.no_slash, String.ofList_toList, List.nil_append]
    obtain ⟨trail, hnames, hstays⟩ := names_of_trimBack hname hparts
    refine ⟨[], trail, hnames, hstays, fun new hfile => ?_⟩
    have hjoin : Path.join "" new = new := by simp [Path.join]
    rw [hnew, hjoin, isAbsolute_of_front hprefix hname.ne_empty, hname.not_isAbsolute, hfile.not_isAbsolute]
    refine ⟨rfl, fun d at_ => ?_⟩
    rw [names_eq, parts_of_not_mem hfile.no_slash, String.ofList_toList, List.nil_append]
  · have hparts : parts (Path.trimBack path.toList.reverse).reverse = parts before.reverse ++ [name] := by
      rw [hback, List.reverse_append, List.reverse_reverse, List.reverse_cons, List.append_assoc,
        List.singleton_append, parts_append, parts_of_not_mem hname.no_slash, String.ofList_toList]
    obtain ⟨trail, hnames, hstays⟩ := names_of_trimBack hname hparts
    refine ⟨parts before.reverse, trail, hnames, hstays, fun new hfile => ?_⟩
    -- the directory is not empty, since a separator stands behind it
    have hdir : String.ofList (Path.trimBack ('/' :: before)).reverse ≠ "" := by
      intro he
      have hnil := trimBack_ne_nil (List.cons_ne_nil '/' before)
      exact hnil (by simpa using congrArg String.toList he)
    have hdirPrefix : (Path.trimBack ('/' :: before)).reverse <+: path.toList := by
      refine (List.reverse_prefix.2 (trimBack_suffix _)).trans (List.IsPrefix.trans ?_ hprefix)
      rw [hback, List.reverse_append]
      exact List.prefix_append _ _
    rw [hnew]
    refine ⟨?_, fun d at_ => ?_⟩
    · rw [isAbsolute_join hdir hfile]
      exact (isAbsolute_of_front (by rwa [String.toList_ofList]) hdir).symm
    · rw [walk_join hdir hfile, names_eq, String.toList_ofList, ← SameWay.trimBack, List.reverse_cons,
        parts_slash, SameWay.concat (.inl rfl)]

/-- A path that ends in no file name is the directory of a new one. -/
theorem withFileName_of_none (h : Path.fileName? path = none) (hne : path ≠ "") (new : String) :
    Path.withFileName path new = Path.join path new := by
  simp [Path.withFileName, h, hne]

/-! ## Changes beside a path -/

/-- A change of a sibling is not seen through a path. The sibling's name must not be shorter, for a name can
be too long to walk. -/
theorem ChangesFile.locate_sibling {d' : Disk} {sibling : Location} (hnew : FileName new)
    (hother : ∀ name, Path.fileName? path = some name → new ≠ name ∧ name.utf8ByteSize ≤ new.utf8ByteSize)
    (hsibling : d.locate (Path.withFileName path new) = .ok sibling) (h : ChangesFile sibling d d') :
    d'.locate path = d.locate path ∧ d.locate path ≠ .ok sibling := by
  have hwalk := walk_of_locate hsibling
  have hsame := h.sameDirectories
  cases hfile : Path.fileName? path with
  | none =>
    by_cases hempty : path = ""
    · subst hempty
      exact ⟨rfl, nofun⟩
    · -- the path itself is the directory, and that is there
      rw [withFileName_of_none hfile hempty, origin, isAbsolute_join hempty hnew, walk_join hempty hnew,
        ← origin.eq_def, walk_append_eq_ok_iff] at hwalk
      obtain ⟨dir, hdir, hlast⟩ := hwalk
      have hpath : d'.locate path = d.locate path := locate_congr (by rw [hsame.origin, hdir, hsame.walk hdir])
      refine ⟨hpath, fun hp => h.before ?_⟩
      rw [walk_of_locate hp] at hdir
      rw [Except.ok.inj hdir]
      exact directory_of_walk_cons hlast
  | some name =>
    obtain ⟨hname, front, trail, hnames, hstays, hreplace⟩ := walk_withFileName hfile
    obtain ⟨habsolute, hplace⟩ := hreplace new hnew
    obtain ⟨hne, hsize⟩ := hother name hfile
    rw [origin, habsolute, ← origin.eq_def, hplace, walk_append_eq_ok_iff] at hwalk
    obtain ⟨dir, hdir, hlast⟩ := hwalk
    have hdirectory := directory_of_walk_cons hlast
    obtain ⟨hshort, rfl⟩ := enters_of_walk hnew.toEnters hlast
    have hbeside : dir ++ [name] ≠ dir ++ [new] := by simpa using Ne.symm hne
    have hwalkPath : d.walk (d.origin path) (names path) = d.walk (dir ++ [name]) trail := by
      rw [hnames, walk_append, hdir]
      exact walk_enters hname.toEnters (Nat.le_trans hsize hshort) hdirectory
    have hwalkPath' : d'.walk (d'.origin path) (names path) = d'.walk (dir ++ [name]) trail := by
      rw [hnames, hsame.origin, walk_append, hsame.walk hdir]
      exact walk_enters hname.toEnters (Nat.le_trans hsize hshort) ((hsame.directory dir).2 hdirectory)
    obtain ⟨htrail, hend⟩ := walk_stays_congr hstays (h.elsewhere _ hbeside)
    refine ⟨locate_congr (by rw [hwalkPath, hwalkPath', htrail]), fun hp => hbeside ?_⟩
    exact (hend _ (by rw [← hwalkPath, walk_of_locate hp])).symm

theorem ChangesFile.stat_sibling {d' : Disk} {sibling : Location} (hnew : FileName new)
    (hother : ∀ name, Path.fileName? path = some name → new ≠ name ∧ name.utf8ByteSize ≤ new.utf8ByteSize)
    (hsibling : d.locate (Path.withFileName path new) = .ok sibling) (h : ChangesFile sibling d d') :
    d'.stat path = d.stat path := by
  obtain ⟨hpath, hne⟩ := h.locate_sibling hnew hother hsibling
  cases hl : d.locate path with
  | error e => rw [stat, stat, hpath, hl]; rfl
  | ok at_ =>
    rw [stat_of_locate hl, stat_of_locate (hpath.trans hl), h.elsewhere at_]
    rintro rfl
    exact hne hl

end Scriptorium.Disk
