import Scriptorium.Host.Leaf

/-!
# Services for scripts

The members of `math`, `fs` and `data`, each with the fallback that a script gets when it fails.
-/

namespace Scriptorium.Services

/-- A service with its fallback. -/
structure Service where
  fallback : Datum
  run : List Datum → Leaf Datum

/-- A service that only computes. -/
def pureService (fallback : Datum) (f : List Datum → Except UsageError Datum) : Service :=
  ⟨fallback, fun args => .ofExcept (f args)⟩

/-! ## `math` -/

/-- A number computed from at least one number. -/
def ofNumbers (f : List Float → Float) : Service :=
  pureService .nil fun args => (Argument.someNumbers args).map fun xs => .number (f xs)

/-- Several statistics of the same numbers. -/
def statistics (xs : List Float) : Datum :=
  .record
    [("count", .integer (Int64.ofNat xs.length)), ("sum", .number (Numbers.sum xs)),
     ("mean", .number (Numbers.mean xs)), ("min", .number (Numbers.minimum xs)),
     ("max", .number (Numbers.maximum xs)), ("median", .number (Numbers.median xs)),
     ("std_dev", .number (Numbers.standardDeviation xs))]

/-- A whole number computed from two. -/
def ofPair (f : Int64 → Int64 → Except Numbers.NumberError Int64) : Service :=
  pureService .nil fun args => do
    let a ← Argument.integer args 0 "a"
    let b ← Argument.integer args 1 "b"
    return .integer (← (f a b).mapError .number)

def math (member : String) : Option Service :=
  match member with
  | "average" => some (ofNumbers Numbers.mean)
  | "sum" => some (pureService .nil fun args =>
      (Argument.numbers args).map fun xs => .number (Numbers.sum xs))
  | "median" => some (ofNumbers Numbers.median)
  | "standard_deviation" => some (ofNumbers Numbers.standardDeviation)
  | "max" => some (ofNumbers Numbers.maximum)
  | "min" => some (ofNumbers Numbers.minimum)
  | "statistics" => some (pureService .nil fun args => (Argument.someNumbers args).map statistics)
  | "power" => some (pureService .nil fun args => do
      let base ← Argument.number args 0 "base"
      let exponent ← Argument.number args 1 "exponent"
      return .number (base.pow exponent))
  | "round" => some (pureService .nil fun args => do
      let x ← Argument.number args 0 "number"
      let digits ← Argument.integerOr args 1 "digits" 0
      return .number (← (Numbers.roundTo x digits).mapError .number))
  | "factorial" => some (pureService .nil fun args => do
      let n ← Argument.integer args 0 "n"
      return .integer (← (Numbers.factorial n).mapError .number))
  | "gcd" => some (ofPair Numbers.gcd)
  | "lcm" => some (ofPair Numbers.lcm)
  | "is_prime" => some (pureService .nil fun args =>
      (Argument.integer args 0 "n").map fun n => .boolean (Numbers.isPrime n))
  | "fibonacci" => some (pureService .nil fun args => do
      let count ← Argument.integer args 0 "count"
      return .list ((← (Numbers.fibonacci count).mapError .number).map .integer))
  | _ => none

/-! ## `fs` -/

/-- Makes the directory that a path lies in. -/
def makeParent (path : String) : Leaf Unit :=
  match Path.directory? path with
  | some dir => .onDisk dir (·.makeDirectories dir)
  | none => pure ()

def readText (args : List Datum) : Leaf Datum := do
  let path ← Leaf.ofExcept (Argument.string args 0 "path")
  return Datum.ofString (← Leaf.onDisk path fun d => (d.readText path, d))

def writeText (args : List Datum) : Leaf Datum := do
  let path ← Leaf.ofExcept (Argument.string args 0 "path")
  let content ← Leaf.ofExcept (Argument.string args 1 "content")
  makeParent path
  Leaf.onDisk path (·.write path content.toUTF8)
  Leaf.info ("fs.write_text: wrote " ++ path)
  return .boolean true

/-- Tests a path. -/
def testPath (test : Disk → String → Bool) (args : List Datum) : Leaf Datum := do
  let path ← Leaf.ofExcept (Argument.string args 0 "path")
  return .boolean (test (← Leaf.disk) path)

def createDirectory (args : List Datum) : Leaf Datum := do
  let path ← Leaf.ofExcept (Argument.string args 0 "path")
  if !(← Leaf.disk).isDirectory path then
    Leaf.onDisk path (·.makeDirectories path)
    Leaf.info ("fs.create_dir: created " ++ path)
  return .boolean true

/-- The paths of the files or of the directories in a directory whose names match, in order. -/
def listing (tokens : List Glob.Token) (wantDirectories : Bool) (dir : String)
    (names : List (String × Entry)) : List String :=
  let chosen := names.filter fun (name, e) =>
    (e matches .directory) == wantDirectories && Glob.matchesTokens tokens name.toList
  (chosen.map fun (name, _) => Path.join dir name).mergeSort fun a b => !decide (b < a)

/-- The pattern that every name matches. -/
def everyName : String := "*"

def listEntries (wantDirectories : Bool) (args : List Datum) : Leaf Datum := do
  let dir ← Leaf.ofExcept (Argument.string args 0 "dir")
  let pattern ← Leaf.ofExcept <|
    if wantDirectories || Argument.isAbsent args 1 then .ok everyName
    else Argument.string args 1 "pattern"
  let tokens ← Leaf.ofExcept ((Glob.read pattern).mapError (.pattern pattern))
  let names ← Leaf.onDisk dir fun d => (d.list dir, d)
  return .list ((listing tokens wantDirectories dir names).map Datum.ofString)

def deleteFile (args : List Datum) : Leaf Datum := do
  let path ← Leaf.ofExcept (Argument.string args 0 "path")
  let disk ← Leaf.disk
  if disk.isDirectory path then Leaf.fail (.isDirectory path)
  else
    if disk.isThere path then
      Leaf.changeDisk path (·.remove path)
      Leaf.info ("fs.delete_file: deleted " ++ path)
    return .boolean true

/-- Copies a file, to a path where nothing may be unless overwriting is asked for. -/
def copy (source target : String) (overwrite : Bool) (fault? : Option WriteFault := none) : Leaf Unit := do
  let disk ← Leaf.disk
  if !disk.isFile source then Leaf.fail (.noSource source)
  else if disk.isThere target && !overwrite then Leaf.fail (.targetExists target)
  else
    makeParent target
    Leaf.onDisk target (·.copy source target fault?)

def copyFile (args : List Datum) : Leaf Datum := do
  let source ← Leaf.ofExcept (Argument.string args 0 "source")
  let target ← Leaf.ofExcept (Argument.string args 1 "dest")
  copy source target (args[2]?.any fun d => d matches .boolean true)
  Leaf.info ("fs.copy_file: " ++ source ++ " -> " ++ target)
  return .boolean true

/-- The end of a host that is asked for the date of a time beyond its calendar. -/
def beyondCalendar : String := "No such local time"

/-- The text of the time at which a file was written; it is empty where that is not known. -/
def timeText (time? : Option Int) : Leaf String := fun w =>
  match time? with
  | none => (.ok "", w)
  | some seconds =>
    match w.timeText? seconds with
    | some text => (.ok text, w)
    | none => Leaf.crash beyondCalendar w

def fileInfo (args : List Datum) : Leaf Datum := do
  let path ← Leaf.ofExcept (Argument.string args 0 "path")
  let entry ← Leaf.onDisk path fun d => (d.stat path, d)
  match entry with
  | .directory => Leaf.fail (.notFile path)
  | .file bytes =>
    let disk ← Leaf.disk
    let status := disk.statusOf path
    let modified ← timeText status.modified?
    let full := ((disk.canonical path).toOption).getD path
    return .record
      [("name", .ofString ((Path.fileName? path).getD "")), ("full_path", .ofString full),
       ("size", .integer (Int64.ofNat bytes.size)), ("modified", .ofString modified),
       ("extension", .ofString (((Path.extension? path).map ("." ++ ·)).getD "")),
       ("is_readonly", .boolean status.readOnly)]

def fs (member : String) : Option Service :=
  match member with
  | "read_text" => some ⟨.nil, readText⟩
  | "write_text" => some ⟨.boolean false, writeText⟩
  | "file_exists" => some ⟨.boolean false, testPath Disk.isFile⟩
  | "dir_exists" => some ⟨.boolean false, testPath Disk.isDirectory⟩
  | "create_dir" => some ⟨.boolean false, createDirectory⟩
  | "list_files" => some ⟨.list [], listEntries false⟩
  | "list_dirs" => some ⟨.list [], listEntries true⟩
  | "delete_file" => some ⟨.boolean false, deleteFile⟩
  | "copy_file" => some ⟨.boolean false, copyFile⟩
  | "get_file_info" => some ⟨.nil, fileInfo⟩
  | _ => none

/-! ## `data` -/

def loadTable (args : List Datum) : Leaf Datum := do
  let path ← Leaf.ofExcept (Argument.string args 0 "path")
  let disk ← Leaf.disk
  let t ← Leaf.ofExcept
    ((Delimited.loadFile disk path (some Delimited.comma)).1.mapError .table)
  Leaf.info ("data.load_csv: loaded " ++ path ++ " (" ++ toString t.rowCount ++ " rows, " ++
    toString t.columnCount ++ " columns)")
  return .grid t

def processTable (args : List Datum) : Leaf Datum :=
  Leaf.ofExcept ((Argument.table args 0).map fun t => .grid t.process)

def saveTable (args : List Datum) : Leaf Datum := do
  let t ← Leaf.ofExcept (Argument.table args 0)
  let path ← Leaf.ofExcept (Argument.string args 1 "path")
  fun w =>
    let (r, disk) := Delimited.saveFile w.disk path Delimited.comma t
    ((r.mapError fun e => .usage (.table e)).map fun _ => .boolean true, { w with disk })

def data (member : String) : Option Service :=
  match member with
  | "load_csv" => some ⟨.grid .empty, loadTable⟩
  | "process_table" => some ⟨.grid .empty, processTable⟩
  | "save_csv" => some ⟨.boolean false, saveTable⟩
  | _ => none

/-- The leaf service behind a member. -/
def find? (namespaceName member : String) : Option Service :=
  match namespaceName with
  | "math" => math member
  | "fs" => fs member
  | "data" => data member
  | _ => none

end Scriptorium.Services
