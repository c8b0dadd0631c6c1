namespace Script

namespace FilePath

/-- The pieces of a text between the occurrences of a character. -/
def pieces (separator : Char) (text : String) : List String :=
  (text.toList.splitOn separator).map String.ofList

def isAbsolute (path : String) : Bool := path.toList.head? == some '/'

/-- The parts of a path up to its last one that is neither empty nor a single point. -/
def parts (path : String) : List String :=
  ((pieces '/' path).reverse.dropWhile fun part => part == "" || part == ".").reverse

/-- The name a path ends in, if it names something below a directory. -/
def fileName? (path : String) : Option String :=
  match (parts path).getLast? with
  | some ".." => none
  | name => name

/-- What follows the last point of the file name, provided something precedes the point. -/
def extension? (path : String) : Option String :=
  (fileName? path).bind fun name =>
    match (pieces '.' name).reverse with
    | [] | [_] => none
    | [_, ""] => none
    | after :: _ => some after

/-- The path up to the end of its file name, with a point and the extension behind it. A path
without a file name stays as it is. -/
def addExtension (path extension : String) : String :=
  match fileName? path with
  | none => path
  | some _ => "/".intercalate (parts path) ++ "." ++ extension

def join (directory path : String) : String :=
  if isAbsolute path then path
  else if directory == "" || directory.toList.getLast? == some '/' then directory ++ path
  else directory ++ "/" ++ path

/-- The directory that a file's path names, empty for a bare file name. -/
def parent (path : String) : String :=
  match (parts path).dropLast with
  | [] => ""
  | first :: others =>
    let kept := (others.reverse.dropWhile fun part => part == "" || part == ".").reverse
    if first == "" && kept.isEmpty then "/" else "/".intercalate (first :: kept)

end FilePath

end Script
