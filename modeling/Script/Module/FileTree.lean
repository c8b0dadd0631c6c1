import Script.Module.Source

namespace Script

/-- Files and directories held in memory. -/
inductive FileTree where
  | file (bytes : List UInt8)
  | directory (entries : List (String × FileTree))

namespace FileTree

def empty : FileTree := directory []

def entries : FileTree → List (String × FileTree)
  | file _ => []
  | directory es => es

/-- Puts a tree at the end of a chain of names, making the directories on the way. -/
def insert (tree leaf : FileTree) : List String → FileTree
  | [] => leaf
  | name :: names =>
    let below := ((tree.entries.lookup name).getD empty).insert leaf names
    directory (tree.entries.filter (·.1 != name) ++ [(name, below)])

/-- How opening and reading a file can fail, in the words of the operating system. -/
inductive Failure where
  | notFound
  | notDirectory
  | isDirectory
  | nameTooLong
  | nulInName
  | invalidText
  deriving DecidableEq, Repr

def Failure.reading : Failure → Reading
  | notFound => .notFound
  | notDirectory => .failed "Not a directory (os error 20)"
  | isDirectory => .failed "Is a directory (os error 21)"
  | nameTooLong => .failed "File name too long (os error 36)"
  | nulInName => .failed "file name contained an unexpected NUL byte"
  | invalidText => .failed "stream did not contain valid UTF-8"

/-- Follows the parts of a path from a tree whose surrounding directories are `above`, innermost
first. Whatever a part is looked up in has to be a directory. Nothing is known of the directories
outside the tree but that they are there. -/
def walk (above : List FileTree) (tree : FileTree) : List String → Except Failure FileTree
  | [] => .ok tree
  | part :: parts =>
    match tree with
    | file _ => .error .notDirectory
    | directory entries =>
      if part == "" || part == "." then walk above tree parts
      else if part == ".." then
        match above with
        | [] => walk [] empty parts
        | outer :: further => walk further outer parts
      else if 255 < part.utf8ByteSize then .error .nameTooLong
      else
        match entries.lookup part with
        | none => .error .notFound
        | some inner => walk (tree :: above) inner parts

def find (tree : FileTree) (path : String) : Except Failure FileTree :=
  if path.toList.contains '\x00' then .error .nulInName
  else if path == "" then .error .notFound
  else if 4096 ≤ path.utf8ByteSize then .error .nameTooLong
  else if FilePath.isAbsolute path then walk [] empty (FilePath.pieces '/' path)
  else walk [] tree (FilePath.pieces '/' path)

def readText (tree : FileTree) (path : String) : Except Failure String :=
  match tree.find path with
  | .error failure => .error failure
  | .ok (directory _) => .error .isDirectory
  | .ok (file bytes) =>
    match String.fromUTF8? ⟨bytes.toArray⟩ with
    | some text => .ok text
    | none => .error .invalidText

def read (tree : FileTree) (path : String) : Reading :=
  match tree.readText path with
  | .ok text => .text text
  | .error failure => failure.reading

end FileTree

end Script
