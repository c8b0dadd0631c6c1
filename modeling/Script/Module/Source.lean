import Script.Module.FilePath
import Script.Dictionary

namespace Script

/-- The text of a module and the name of where it came from. -/
structure ModuleText where
  origin : String
  source : String
  deriving DecidableEq, Repr

/-- What reading a file gives. A file that nobody has tried to read yet is `unread`. -/
inductive Reading where
  | text (source : String)
  | notFound
  | failed (reason : String)
  | unread
  deriving DecidableEq, Repr

inductive Fetched where
  | found (text : ModuleText)
  | notFound (searched : List String)
  | unreadable (reason : String)
  | unread (path : String)
  deriving DecidableEq, Repr

/-- Where modules come from: a table by name, or files below a list of directories. -/
inductive ModuleSource where
  | table (modules : Dictionary String)
  | files (searchPaths : List String) (read : String → Reading)

namespace ModuleSource

def fileExtension : String := "lm"

/-- The files that may hold a module, in the order in which they are tried. -/
def candidates (searchPaths : List String) (name : String) : List String :=
  let path := if (FilePath.extension? name).isSome then name
    else FilePath.addExtension name fileExtension
  if FilePath.isAbsolute path then [path] else searchPaths.map (FilePath.join · path)

/-- The first candidate that is not missing decides. -/
def firstReadable (read : String → Reading) (searched : List String) : List String → Fetched
  | [] => .notFound searched
  | path :: others =>
    match read path with
    | .text source => .found ⟨path, source⟩
    | .notFound => firstReadable read searched others
    | .failed reason => .unreadable reason
    | .unread => .unread path

def fetch (source : ModuleSource) (name : String) : Fetched :=
  match source with
  | table modules =>
    match modules.get? name with
    | some text => .found ⟨name, text⟩
    | none => .notFound []
  | files searchPaths read =>
    let paths := candidates searchPaths name
    firstReadable read paths paths

theorem get?_of_fetch {modules : Dictionary String} {name : String} {text : ModuleText}
    (h : (table modules).fetch name = .found text) : modules.get? name = some text.source := by
  simp only [fetch] at h
  split at h
  next hm =>
    obtain rfl := Fetched.found.inj h
    exact hm
  · cases h

/-- A table has no files that are still to be read. -/
theorem fetch_table_ne_unread (modules : Dictionary String) (name path : String) :
    (table modules).fetch name ≠ .unread path := by
  simp only [fetch]
  split <;> simp

end ModuleSource

end Script
