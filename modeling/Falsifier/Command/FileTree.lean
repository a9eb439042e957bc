import Falsifier.Dimacs.Reader

/-!
# File trees

What a path names in a tree of directories, and why there may be nothing to read there. The tree is
a value, so a command can be studied together with the files that it may read.

A path is a sequence of names, each looked up in the directory that the names before it lead to; an
empty name and `.` stay in a directory, and `..` goes back to the one above it, which for the root
is the root. Names and paths are bounded in length. A name after a file leads nowhere, and so does
the empty name that a final slash leaves behind.
-/

namespace Falsifier

inductive FileError where
  | missing
  | forbidden
  | notDirectory
  | isDirectory
  | longName
deriving DecidableEq

namespace FileError

/-- The number by which the system reports the error. -/
def code : FileError → Nat
  | missing => 2
  | forbidden => 13
  | notDirectory => 20
  | isDirectory => 21
  | longName => 36

def text : FileError → String
  | missing => "No such file or directory"
  | forbidden => "Permission denied"
  | notDirectory => "Not a directory"
  | isDirectory => "Is a directory"
  | longName => "File name too long"

def message (e : FileError) : String :=
  s!"{e.text} (os error {e.code})"

def all : List FileError :=
  [missing, forbidden, notDirectory, isDirectory, longName]

def ofCode? (n : Nat) : Option FileError :=
  all.find? (·.code == n)

theorem ofCode?_code (e : FileError) : ofCode? e.code = some e := by
  cases e <;> decide

end FileError

/-- What stands at a place in a tree. -/
inductive FileTree where
  | file (bytes : List UInt8)
  | directory (entries : List (String × FileTree))

namespace FileTree

/-- A name has at most this many bytes. -/
def nameLimit : Nat := 255

/-- A path has fewer bytes than this. -/
def pathLimit : Nat := 4096

/-- Follow names from a place. The directories above it come first, the closest one foremost. -/
def follow (above : List FileTree) (here : FileTree) : List String → Except FileError FileTree
  | [] => .ok here
  | name :: names =>
    match here with
    | file _ => .error .notDirectory
    | directory entries =>
      if name = "" ∨ name = "." then follow above here names
      else if name = ".." then
        match above with
        | [] => follow [] here names
        | parent :: higher => follow higher parent names
      else if nameLimit < name.utf8ByteSize then .error .longName
      else
        match entries.lookup name with
        | none => .error .missing
        | some next => follow (here :: above) next names

def bytes : FileTree → Except FileError (List UInt8)
  | file bytes => .ok bytes
  | directory _ => .error .isDirectory

end FileTree

/-- A tree, and the names that lead to the directory in which paths without a leading slash start. -/
structure FileSystem where
  root : FileTree
  working : List String

namespace FileSystem

def resolve (s : FileSystem) (path : String) : Except FileError FileTree :=
  if path = "" then .error .missing
  else if FileTree.pathLimit ≤ path.utf8ByteSize then .error .longName
  else
    let names := path.splitOn "/"
    FileTree.follow [] s.root (if names.head? = some "" then names else s.working ++ names)

/-- The source that a path gives: the bytes of the file, or a failure at once. -/
def input (s : FileSystem) (path : String) : Dimacs.Input :=
  match s.resolve path >>= FileTree.bytes with
  | .ok bytes => ⟨bytes, .complete⟩
  | .error e => ⟨[], .broken e.message⟩

end FileSystem
end Falsifier
