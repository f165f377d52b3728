import Scriptorium.Disk.Path

/-!
# The disk

A disk is a finite tree of directories and files, kept as a list of entries by location. Every operation
takes a path as a script or a user writes it, finds its location by walking the tree, and fails with the
error that the operating system gives. Writes, renames and removals can also be made to fail on purpose:
`Faults` says which of them fails, and how much of a failing write reaches the disk. Of files the disk also keeps
when they were last written and whether they are marked as read-only (`FileStatus`); a mark is told, but it hinders
nobody.
-/

namespace Scriptorium

/-- Bytes of a file. -/
abbrev Bytes := ByteArray

instance : DecidableEq Bytes := ByteArray.instDecidableEq

inductive DiskError where
  | notFound
  | exists
  | notDirectory
  | isDirectory
  | busy
  | nameTooLong
  | noSpace
  | nulInName
  | notText
  | notRegular
  deriving DecidableEq, Repr, Inhabited

def DiskError.message : DiskError → String
  | .notFound => "No such file or directory (os error 2)"
  | .exists => "File exists (os error 17)"
  | .notDirectory => "Not a directory (os error 20)"
  | .isDirectory => "Is a directory (os error 21)"
  | .busy => "Device or resource busy (os error 16)"
  | .nameTooLong => "File name too long (os error 36)"
  | .noSpace => "No space left on device (os error 28)"
  | .nulInName => "file name contained an unexpected NUL byte"
  | .notText => "stream did not contain valid UTF-8"
  | .notRegular => "the source path is neither a regular file nor a symlink to a regular file"

/-- A place in the tree: the names on the way from the root. -/
abbrev Location := List String

inductive Entry where
  | directory
  | file (bytes : Bytes)
  deriving DecidableEq, Inhabited

/-- What the system tells of a file besides its bytes. -/
structure FileStatus where
  /-- When it was last written, in seconds after the beginning of 1970, rounded down. -/
  modified? : Option Int := none
  readOnly : Bool := false
  deriving DecidableEq, Repr, Inhabited

structure Disk where
  /-- The directory that relative paths start from. -/
  home : Location := []
  /-- The entries below the root, each location at most once. -/
  entries : List (Location × Entry) := []
  /-- What is told of files. -/
  statuses : List (Location × FileStatus) := []
  /-- The time at which a file is written now. -/
  clock : Int := 0
  deriving Inhabited

/-- How a write can be made to fail. -/
inductive WriteFault where
  /-- The file cannot be opened. -/
  | unopened (error : DiskError)
  /-- The first bytes are written, and no more. -/
  | brokenOff (written : Nat) (error : DiskError)
  deriving DecidableEq, Repr, Inhabited

/-- The failure when the file is opened, if that is where the write fails. -/
def WriteFault.atOpening? : WriteFault → Option WriteFault
  | .unopened e => some (.unopened e)
  | .brokenOff _ _ => none

/-- Failures forced upon the next write, the next rename and the next removal. -/
structure Faults where
  write? : Option WriteFault := none
  rename? : Option DiskError := none
  remove? : Option DiskError := none
  deriving DecidableEq, Repr, Inhabited

namespace Disk

/-! ## Entries -/

/-- The entry at a location; the root is a directory. -/
def find? (d : Disk) (at_ : Location) : Option Entry :=
  if at_ = [] then some .directory else d.entries.lookup at_

variable {α : Type}

/-- What is kept by location, without what is kept for one. -/
def eraseEntry (at_ : Location) (entries : List (Location × α)) : List (Location × α) :=
  entries.filter (·.1 != at_)

/-- What is told of the file at a location. -/
def status (d : Disk) (at_ : Location) : FileStatus := (d.statuses.lookup at_).getD {}

/-- The disk with another status of the file at a location. -/
def setStatus (d : Disk) (at_ : Location) (s : FileStatus) : Disk :=
  { d with statuses := (at_, s) :: eraseEntry at_ d.statuses }

/-- The disk with an entry written at a location. -/
def setEntry (d : Disk) (at_ : Location) (e : Entry) : Disk :=
  { d with entries := (at_, e) :: eraseEntry at_ d.entries }.setStatus at_
    { d.status at_ with modified? := some d.clock }

/-- The disk without the entry at a location. -/
def erase (d : Disk) (at_ : Location) : Disk :=
  { d with entries := eraseEntry at_ d.entries, statuses := eraseEntry at_ d.statuses }

@[simp] theorem find?_setStatus (d : Disk) (a b : Location) (s : FileStatus) :
    (d.setStatus a s).find? b = d.find? b := rfl

theorem lookup_eraseEntry (a b : Location) (entries : List (Location × α)) :
    (eraseEntry a entries).lookup b = if b = a then none else entries.lookup b := by
  induction entries with
  | nil => simp [eraseEntry]
  | cons e es ih =>
    obtain ⟨l, x⟩ := e
    by_cases hl : l = a
    · subst hl
      by_cases hb : b = l
      · subst hb; simpa [eraseEntry] using ih
      · have : eraseEntry l ((l, x) :: es) = eraseEntry l es := by simp [eraseEntry]
        rw [this, ih]
        simp [hb, List.lookup_cons, beq_false_of_ne hb]
    · have : eraseEntry a ((l, x) :: es) = (l, x) :: eraseEntry a es := by simp [eraseEntry, hl]
      rw [this]
      by_cases hb : b = l
      · subst hb; simp [hl]
      · simp [List.lookup_cons, beq_false_of_ne hb, ih]

theorem find?_setEntry (d : Disk) (a b : Location) (e : Entry) (h : a ≠ []) :
    (d.setEntry a e).find? b = if b = a then some e else d.find? b := by
  by_cases hb : b = []
  · subst hb; simp [find?, Ne.symm h]
  · by_cases hba : b = a
    · subst hba; simp [find?, setEntry, setStatus, hb]
    · simp [find?, setEntry, setStatus, hb, hba, List.lookup_cons, beq_false_of_ne hba, lookup_eraseEntry]

theorem find?_erase (d : Disk) (a b : Location) (h : a ≠ []) :
    (d.erase a).find? b = if b = a then none else d.find? b := by
  by_cases hb : b = []
  · subst hb; simp [find?, Ne.symm h]
  · simp [find?, erase, hb, lookup_eraseEntry]

/-! ## From paths to locations -/

/-- Walks names from a location. Every location that is stepped on has to be a directory; the last one
reached need not exist. -/
def walk (d : Disk) : Location → List String → Except DiskError Location
  | at_, [] => .ok at_
  | at_, name :: rest =>
    match d.find? at_ with
    | none => .error .notFound
    | some (.file _) => .error .notDirectory
    | some .directory =>
      if name = "" ∨ name = "." then d.walk at_ rest
      else if name = ".." then d.walk at_.dropLast rest
      else if 255 < name.utf8ByteSize then .error .nameTooLong
      else d.walk (at_ ++ [name]) rest

/-- The names of a path, empty ones included. -/
def names (path : String) : List String := (Text.splitOn '/' path.toList).map String.ofList

/-- The location that a path means. -/
def locate (d : Disk) (path : String) : Except DiskError Location :=
  if path.toList.contains '\x00' then .error .nulInName
  else if path.isEmpty then .error .notFound
  else d.walk (if Path.isAbsolute path then [] else d.home) (names path)

/-- The path without the separators at its end; the root stays the root. -/
def withoutSlashes (path : String) : String :=
  match (path.toList.reverse.dropWhile (· == '/')).reverse with
  | [] => if path.isEmpty then "" else "/"
  | cs => String.ofList cs

/-- Does the path end in a separator? -/
def endsInSlash (path : String) : Bool := path.toList.getLast? == some '/'

/-- Does the path end in a name, not in `.`, `..` or the root? -/
def endsInName (path : String) : Bool :=
  match (names (withoutSlashes path)).getLast? with
  | some name => name != "" && name != "." && name != ".."
  | none => false

/-! ## Looking -/

/-- The entry that a path means. -/
def stat (d : Disk) (path : String) : Except DiskError Entry := do
  match d.find? (← d.locate path) with
  | some e => return e
  | none => throw .notFound

/-- What is told of the file that a path means. -/
def statusOf (d : Disk) (path : String) : FileStatus :=
  match d.locate path with
  | .ok at_ => d.status at_
  | .error _ => {}

def isFile (d : Disk) (path : String) : Bool :=
  match d.stat path with
  | .ok (.file _) => true
  | _ => false

def isDirectory (d : Disk) (path : String) : Bool :=
  match d.stat path with
  | .ok .directory => true
  | _ => false

/-- Is there anything at the path? -/
def isThere (d : Disk) (path : String) : Bool :=
  match d.stat path with
  | .ok _ => true
  | .error _ => false

/-- The bytes of a file. -/
def read (d : Disk) (path : String) : Except DiskError Bytes := do
  match ← d.stat path with
  | .file bytes => return bytes
  | .directory => throw .isDirectory

/-- The text of a file, which has to be UTF-8. -/
def readText (d : Disk) (path : String) : Except DiskError String := do
  match String.fromUTF8? (← d.read path) with
  | some text => return text
  | none => throw .notText

/-- The names in a directory with their entries. -/
def list (d : Disk) (path : String) : Except DiskError (List (String × Entry)) := do
  let at_ ← d.locate path
  match d.find? at_ with
  | none => throw .notFound
  | some (.file _) => throw .notDirectory
  | some .directory =>
    return d.entries.filterMap fun (l, e) =>
      if l.dropLast = at_ then l.getLast?.map (·, e) else none

/-- The absolute path of a location. -/
def pathOf (at_ : Location) : String := "/" ++ "/".intercalate at_

/-- The absolute path of an entry that exists. -/
def canonical (d : Disk) (path : String) : Except DiskError String := do
  let at_ ← d.locate path
  match d.find? at_ with
  | some _ => return pathOf at_
  | none => throw .notFound

/-! ## Changing -/

/-- The location at which opening a path for writing puts its file. Its directory has to be there. -/
def locateForWriting (d : Disk) (path : String) : Except DiskError Location := do
  let at_ ← d.locate (if endsInSlash path then withoutSlashes path else path)
  match d.find? at_ with
  | some .directory => throw .isDirectory
  | _ =>
    if endsInSlash path then throw .isDirectory
    match d.find? at_.dropLast with
    | some .directory => return at_
    | some (.file _) => throw .notDirectory
    | none => throw .notFound

/-- Writes a file as a whole. A write that breaks off leaves the first bytes behind. -/
def write (d : Disk) (path : String) (bytes : Bytes) (fault? : Option WriteFault := none) :
    Except DiskError Unit × Disk :=
  match d.locateForWriting path with
  | .error e => (.error e, d)
  | .ok at_ =>
    match fault? with
    | some (.unopened e) => (.error e, d)
    | some (.brokenOff n e) => (.error e, d.setEntry at_ (.file (bytes.extract 0 n)))
    | none => (.ok (), d.setEntry at_ (.file bytes))

/-- Adds bytes at the end of a file, which is made if it is not there. -/
def append (d : Disk) (path : String) (bytes : Bytes) : Except DiskError Disk := do
  let at_ ← d.locateForWriting path
  match d.find? at_ with
  | some (.file old) => return d.setEntry at_ (.file (old ++ bytes))
  | _ => return d.setEntry at_ (.file bytes)

/-- Removes a file. -/
def remove (d : Disk) (path : String) (fault? : Option DiskError := none) : Except DiskError Disk := do
  let at_ ← d.locate path
  match d.find? at_ with
  | some (.file _) =>
    match fault? with
    | some e => throw e
    | none => return d.erase at_
  | some .directory => throw .isDirectory
  | none => throw .notFound

/-- Gives a file another name, in place of a file that has it. -/
def rename (d : Disk) (source target : String) (fault? : Option DiskError := none) :
    Except DiskError Disk := do
  let from_ ← d.locate source
  if target.isEmpty then throw .notFound
  if !endsInName target then throw .busy
  let dest ← d.locate (withoutSlashes target)
  match d.find? from_, d.find? dest.dropLast with
  | none, _ | _, none => throw .notFound
  | _, some (.file _) => throw .notDirectory
  | some .directory, _ => throw .isDirectory
  | some (.file bytes), some .directory =>
    if endsInSlash target then throw .notDirectory
    if d.find? dest = some .directory then throw .isDirectory
    match fault? with
    | some e => throw e
    | none => return ((d.erase from_).setEntry dest (.file bytes)).setStatus dest (d.status from_)

/-- Makes a directory in one that is there. -/
def makeDirectory (d : Disk) (path : String) : Except DiskError Disk := do
  let at_ ← d.locate (if endsInName path then withoutSlashes path else path)
  match d.find? at_, d.find? at_.dropLast with
  | some _, _ => throw .exists
  | none, some .directory => return d.setEntry at_ .directory
  | none, some (.file _) => throw .notDirectory
  | none, none => throw .notFound

/-- Makes a directory, and with the fuel for it the directories above. -/
def makeDirectoriesFrom (d : Disk) : Nat → String → Except DiskError Unit × Disk
  | 0, _ => (.error .notFound, d)
  | fuel + 1, path =>
    if path.isEmpty then (.ok (), d)
    else
      match d.makeDirectory path with
      | .ok d => (.ok (), d)
      | .error .notFound =>
        match Path.parent? path with
        | none => (.error .notFound, d)
        | some dir =>
          match d.makeDirectoriesFrom fuel dir with
          | (.error e, d) => (.error e, d)
          | (.ok (), d) =>
            match d.makeDirectory path with
            | .ok d => (.ok (), d)
            | .error e => (if d.isDirectory path then .ok () else .error e, d)
      | .error e => (if d.isDirectory path then .ok () else .error e, d)

/-- Makes a directory and those above it that are missing; one that is there already is fine. -/
def makeDirectories (d : Disk) (path : String) : Except DiskError Unit × Disk :=
  d.makeDirectoriesFrom (path.length + 1) path

/-- Marks a file as read-only exactly if another one is. -/
def markLike (d : Disk) (source target : String) : Disk :=
  match d.locate target with
  | .ok dest => d.setStatus dest { d.status dest with readOnly := (d.statusOf source).readOnly }
  | .error _ => d

@[simp] theorem find?_markLike (d : Disk) (source target : String) (at_ : Location) :
    (d.markLike source target).find? at_ = d.find? at_ := by
  unfold markLike
  split <;> rfl

/-- Copies a file: opens the source, opens the destination, which empties it and gives it the mark of the source, and
then copies what the source holds. -/
def copy (d : Disk) (source target : String) (fault? : Option WriteFault := none) :
    Except DiskError Unit × Disk :=
  match d.stat source with
  | .error e => (.error e, d)
  | .ok .directory => (.error .notRegular, d)
  | .ok (.file _) =>
    match d.write target .empty (fault?.bind WriteFault.atOpening?) with
    | (.error e, d) => (.error e, d)
    | (.ok (), d) =>
      let d := d.markLike source target
      match d.read source with
      | .error e => (.error e, d)
      | .ok bytes => d.write target bytes fault?

end Disk

end Scriptorium
