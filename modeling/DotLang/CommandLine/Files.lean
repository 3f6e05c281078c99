/-!
# Files

Why a file cannot be read, and trees of files in memory, in which a path means what it means on
a disk. A directory can be named but not read.

* `FileTree.find`: the file or directory that a path names.
* `FileTree.read`: the text of the file that a path names.
* `FileTree.insert`: puts a file into a tree.
-/

namespace DotLang.CommandLine

/-- Why a file could not be read. -/
inductive FileFault where
  | notFound
  | isDirectory
  /-- A path goes on behind the name of a file. -/
  | notDirectory
  | nameTooLong
  | forbidden
  | notText
  | other (text : String)
deriving DecidableEq

def FileFault.message : FileFault → String
  | notFound => "No such file or directory (os error 2)"
  | isDirectory => "Is a directory (os error 21)"
  | notDirectory => "Not a directory (os error 20)"
  | nameTooLong => "File name too long (os error 36)"
  | forbidden => "Permission denied (os error 13)"
  | notText => "stream did not contain valid UTF-8"
  | other text => text

/-- The text of a file, which must be UTF-8. -/
def decodeFile (bytes : ByteArray) : Except FileFault String :=
  match String.fromUTF8? bytes with
  | some text => .ok text
  | none => .error .notText

/-- A file, or a directory of named files and directories. -/
inductive FileTree where
  | file (content : ByteArray)
  | directory (entries : List (String × FileTree))

namespace FileTree

/-- The greatest number of bytes of a name. -/
def maxNameSize : Nat := 255

/-- The greatest number of bytes of a path. -/
def maxPathSize : Nat := 4095

/-- Follows the parts of a path from a place inside the directories `above`, the innermost first.
Two dots lead out of a directory, and out of the root back to it; one dot or nothing at all stays
where it is. Nothing leads on from a file. -/
def follow (place : FileTree) (above : List FileTree) :
    List String → Except FileFault FileTree
  | [] => .ok place
  | part :: rest =>
    match place with
    | file _ => .error .notDirectory
    | directory entries =>
      if part = "" || part = "." then follow place above rest
      else if part = ".." then
        match above with
        | [] => follow place [] rest
        | parent :: outer => follow parent outer rest
      else if maxNameSize < part.utf8ByteSize then .error .nameTooLong
      else
        match entries.lookup part with
        | none => .error .notFound
        | some entry => follow entry (place :: above) rest

/-- The parts of a path between its slashes. -/
def parts (path : String) : List String := (path.toList.splitOn '/').map String.ofList

/-- The file or directory that a path names. A path begins at the root if a slash stands in front
of it, and otherwise in the directory that the names `working` lead to. -/
def find (root : FileTree) (working : List String) (path : String) : Except FileFault FileTree :=
  if path = "" then .error .notFound
  else if maxPathSize < path.utf8ByteSize then .error .nameTooLong
  else
    root.follow [] (if (parts path).head? = some "" then parts path else working ++ parts path)

/-- The text of the file that a path names. -/
def read (root : FileTree) (working : List String) (path : String) : Except FileFault String :=
  match root.find working path with
  | .ok (file content) => decodeFile content
  | .ok (directory _) => .error .isDirectory
  | .error fault => .error fault

/-- The directory with another entry in place of the one of that name. A file gives way to a
directory. -/
def setEntry (tree : FileTree) (name : String) (entry : FileTree) : FileTree :=
  match tree with
  | file _ => directory [(name, entry)]
  | directory entries => directory ((name, entry) :: entries.filter fun e => e.1 ≠ name)

/-- The entry of a name, if there is one. There is none in a file. -/
def child? (tree : FileTree) (name : String) : Option FileTree :=
  match tree with
  | file _ => none
  | directory entries => entries.lookup name

/-- The entry of a name; an empty directory if there is none. -/
def entryD (tree : FileTree) (name : String) : FileTree :=
  (tree.child? name).getD (directory [])

/-- Puts a file where the names lead to, with the directories on the way. -/
def insert (tree : FileTree) (content : ByteArray) : List String → FileTree
  | [] => file content
  | name :: rest => tree.setEntry name ((tree.entryD name).insert content rest)

end FileTree

end DotLang.CommandLine
