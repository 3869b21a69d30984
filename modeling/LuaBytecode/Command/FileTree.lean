import LuaBytecode.Command.Files

/-!
# File trees

Files below one root, with one directory current.  A path is followed name by
name, and the first name that does not lead on decides what is wrong with it.

**Contents.**
* `FileTree` and the directories that are in it.
* `FileTree.follow`: where the parts of a path lead from a directory.
* `FileTree.target`: where a path leads.
* `FileTree.system`: the tree as files to read and write.
-/

namespace LuaBytecode

/-- Files by location, and the directory in which a path begins that does not begin at the root. -/
structure FileTree where
  current : Location
  files : List (Location × ByteArray)

namespace FileTree

/-- A path has fewer bytes than this. -/
def pathLimit : Nat :=
  4096

/-- A name has at most this many bytes. -/
def nameLimit : Nat :=
  255

/-- The parts of a path between its slashes. -/
def parts
    (path : String) : List String :=
  (path.splitOn "/").filter fun part => part != ""

/-- Whether a directory is at a location: it is on the way to the current one or to a file. -/
def hasDirectory
    (tree : FileTree)
    (location : Location) : Bool :=
  location.isPrefixOf tree.current ||
    tree.files.any fun file => location.isPrefixOf file.1 && location != file.1

/-- Where the parts of a path lead from a directory.  A slash after the last part says that it names
a directory: none can be created, whatever its name, and a file is not read as one. -/
def follow
    (tree : FileTree)
    (purpose : Purpose)
    (slashed : Bool) :
    Location → List String → Except FileError Location
  | _, [] => .error .isDirectory
  | place, "." :: rest => tree.follow purpose slashed place rest
  | place, ".." :: rest => tree.follow purpose slashed place.dropLast rest
  | place, name :: rest =>
      let next := place ++ [name]
      if rest = [] ∧ slashed = true ∧ purpose = .creating then
        .error .isDirectory
      else if nameLimit < name.utf8ByteSize then
        .error .nameTooLong
      else if tree.hasDirectory next then
        tree.follow purpose slashed next rest
      else if rest = [] ∧ slashed = false then
        .ok next
      else if (tree.files.lookup next).isSome then
        .error .notDirectory
      else
        .error .notFound

/-- Where a path leads.  One with a slash in front begins at the root, any other in the current
directory; the length of the whole path is looked at first. -/
def target
    (tree : FileTree)
    (purpose : Purpose)
    (path : String) : Except FileError Location :=
  let begins := path.toList.head? == some '/'
  let ends := path.toList.getLast? == some '/'
  if pathLimit ≤ path.utf8ByteSize then
    .error .nameTooLong
  else if path = "" then
    .error .notFound
  else
    tree.follow purpose ends (if begins then [] else tree.current) (parts path)

/-- The tree as files to read and write; the directories in it stay as they are. -/
def system
    (tree : FileTree) : FileSystem where
  files := tree.files
  target := tree.target

end FileTree
end LuaBytecode
