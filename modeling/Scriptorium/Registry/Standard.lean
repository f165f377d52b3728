import Scriptorium.Registry.Basic

/-!
# The standard members

The namespaces that every host offers: `host`, `ui`, `data` and `doc` are core, `math` and `fs` can be
disabled at start.
-/

namespace Scriptorium.Registry

/-- The members of `host`. -/
def hostNamespace : Namespace :=
  { name := "host", description := "Host application services.", core := true : Namespace }
    |>.method "log" "host.log(message)" "Append a message to the host log."
    |>.withExample "host.log(\"starting import\")"
    |>.property "active_doc" "host.active_doc" "The active document, or nil when none is open."

/-- The members of `ui`. -/
def uiNamespace : Namespace :=
  { name := "ui", description := "User interface notifications.", core := true : Namespace }
    |>.method "show_message" "ui.show_message(text, title?)" "Show a modal notification."
    |>.withExample "ui.show_message(\"Import finished\", \"Done\")"
    |>.method "status_bar" "ui.status_bar(text)" "Update the status bar text."

/-- The members of `data`. -/
def dataNamespace : Namespace :=
  { name := "data", description := "Tabular data loading and processing.", core := true : Namespace }
    |>.method "load_csv" "data.load_csv(path) -> table"
      "Load a comma-delimited file with a header line. Returns an empty table on failure."
    |>.withExample "local t = data.load_csv(\"sales.csv\")\nprint(t.row_count)"
    |>.method "process_table" "data.process_table(table) -> table"
      "Trim values, drop blank rows and convert columns to their inferred types. Returns a new table."
    |>.method "save_csv" "data.save_csv(table, path) -> boolean"
      "Write a table as CSV. Returns false on failure."
    |>.withRank 1

/-- The members of `doc`. -/
def docNamespace : Namespace :=
  { name := "doc", description := "The active document.", core := true : Namespace }
    |>.property "file_path" "doc.file_path" "Path of the document file, or nil if unsaved."
    |>.property "page_count" "doc.page_count" "Number of pages (500 characters per page)."
    |>.property "is_dirty" "doc.is_dirty" "True when there are unsaved changes."
    |>.writableProperty "content" "doc.content" "Full document text. Assigning replaces it."
    |>.method "save" "doc.save(path?)"
      "Save the document and clear the dirty flag. With a path, save there and adopt it."
    |>.withExample "doc.content = doc.content .. \"\\n-- reviewed\"\ndoc.save()"

/-- The members of `math`. -/
def mathNamespace : Namespace :=
  { name := "math"
    description := "Statistics and number helpers. Lua's own math functions stay available." : Namespace }
    |>.method "average" "math.average(numbers) -> number" "Mean of a list of numbers."
    |>.withExample "print(math.average(\x7b1, 2, 3, 4, 5\x7d))"
    |>.method "sum" "math.sum(numbers) -> number" "Sum of a list of numbers (0 for an empty list)."
    |>.method "median" "math.median(numbers) -> number" "Median of a list of numbers."
    |>.method "standard_deviation" "math.standard_deviation(numbers) -> number"
      "Population standard deviation."
    |>.withRank 1
    |>.method "statistics" "math.statistics(numbers) -> table"
      "count, sum, mean, min, max, median and std_dev in one table."
    |>.withExample "local s = math.statistics(\x7b3, 1, 2\x7d)\nprint(s.mean, s.median)"
    |>.method "max" "math.max(numbers) -> number" "Largest value of a list, or of the arguments."
    |>.withRank 1
    |>.method "min" "math.min(numbers) -> number" "Smallest value of a list, or of the arguments."
    |>.withRank 1
    |>.method "power" "math.power(base, exponent) -> number" "base raised to exponent."
    |>.withRank 2
    |>.method "round" "math.round(number, digits?) -> number"
      "Round half away from zero to `digits` decimals."
    |>.withRank 2
    |>.method "factorial" "math.factorial(n) -> integer" "n! for 0 <= n <= 20."
    |>.withRank 2
    |>.method "gcd" "math.gcd(a, b) -> integer" "Greatest common divisor."
    |>.withRank 3
    |>.method "lcm" "math.lcm(a, b) -> integer" "Least common multiple."
    |>.withRank 3
    |>.method "is_prime" "math.is_prime(n) -> boolean" "True when n is prime."
    |>.withRank 3
    |>.method "fibonacci" "math.fibonacci(count) -> table"
      "The first `count` Fibonacci numbers, starting at 0."
    |>.withRank 3

/-- The members of `fs`. -/
def fsNamespace : Namespace :=
  { name := "fs"
    description := "File and directory helpers. Failures are logged and return nil, false or an empty list." : Namespace }
    |>.method "read_text" "fs.read_text(path) -> string" "Whole file as text, or nil on failure."
    |>.withExample "local text = fs.read_text(\"notes.txt\")"
    |>.method "write_text" "fs.write_text(path, content) -> boolean"
      "Write text to a file, creating parent directories."
    |>.method "file_exists" "fs.file_exists(path) -> boolean" "True when path is an existing file."
    |>.method "dir_exists" "fs.dir_exists(path) -> boolean" "True when path is an existing directory."
    |>.method "create_dir" "fs.create_dir(path) -> boolean" "Create a directory and its parents."
    |>.withRank 1
    |>.method "list_files" "fs.list_files(dir, pattern?) -> table"
      "Sorted file paths in dir whose names match the glob pattern (default \"*\")."
    |>.withExample "for _, f in ipairs(fs.list_files(\"reports\", \"*.csv\")) do print(f) end"
    |>.method "list_dirs" "fs.list_dirs(dir) -> table" "Sorted subdirectory paths in dir."
    |>.method "delete_file" "fs.delete_file(path) -> boolean"
      "Delete a file. A missing file counts as deleted."
    |>.withRank 1
    |>.method "copy_file" "fs.copy_file(source, dest, overwrite?) -> boolean"
      "Copy a file, creating the destination directory. Refuses to overwrite unless asked."
    |>.withRank 1
    |>.method "get_file_info" "fs.get_file_info(path) -> table"
      "name, full_path, size, modified, extension and is_readonly, or nil."

/-- The namespaces that a host starts with, in their order. -/
def standardNamespaces : List Namespace :=
  [hostNamespace, uiNamespace, dataNamespace, docNamespace,
   mathNamespace, fsNamespace]

end Scriptorium.Registry

namespace Scriptorium.RegistryBuilder

/-- A builder that already holds the standard namespaces. -/
def standard (facts : HostFacts := {}) : RegistryBuilder :=
  { facts, namespaces := Registry.standardNamespaces }

end Scriptorium.RegistryBuilder
