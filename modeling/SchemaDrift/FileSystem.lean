import SchemaDrift.Text.Pieces

/-!
Files as a value: a tree, the directory in it that relative paths start from, and the way from a
path to what stands there.
-/

namespace SchemaDrift

inductive FileNode
  | file (content : ByteArray) (mode : Nat)
  | directory (entries : List (String × FileNode))
deriving Inhabited

namespace FileNode

def entry? (name : String) : FileNode → Option FileNode
  | file .. => none
  | directory entries => entries.lookup name

def putEntry (name : String) (n : FileNode) : List (String × FileNode) → List (String × FileNode)
  | [] => [(name, n)]
  | e :: es => if e.1 == name then (name, n) :: es else e :: putEntry name n es

/-- Changes what stands at the end of the names. What is in the way becomes a directory. -/
def change (f : Option FileNode → FileNode) : List String → Option FileNode → FileNode
  | [], n => f n
  | p :: ps, some (directory es) => directory (putEntry p (change f ps (es.lookup p)) es)
  | p :: ps, _ => directory [(p, change f ps none)]

/-- Follows the parts of a path. `above` holds the directories passed, the nearest first. The
parent of the root is the root. -/
def follow : List String → List FileNode → FileNode → Option FileNode
  | [], _, n => some n
  | _ :: _, _, file .. => none
  | p :: ps, above, directory es =>
      if p == "" || p == "." then follow ps above (directory es)
      else if p == ".." then
        match above with
        | [] => follow ps [] (directory es)
        | parent :: above => follow ps above parent
      else (es.lookup p).bind (follow ps (directory es :: above))

end FileNode

structure FileSystem where
  root : FileNode
  workingDirectory : List String
deriving Inhabited

namespace FileSystem

def isAbsolute (path : String) : Bool := path.toList.head? == some '/'

def parts (path : String) : List String := (Text.pieces '/' path.toList).map String.ofList

/-- The parts of a path from the root on. -/
def rooted (fs : FileSystem) (path : String) : List String :=
  if isAbsolute path then parts path else fs.workingDirectory ++ parts path

/-- The empty path leads nowhere. -/
def find? (fs : FileSystem) (path : String) : Option FileNode :=
  if path.isEmpty then none else FileNode.follow (fs.rooted path) [] fs.root

/-- The names on the way to a path, with the steps back taken out. -/
def names (parts : List String) : List String :=
  (parts.foldl (fun passed p =>
    if p == "" || p == "." then passed
    else if p == ".." then passed.tail
    else p :: passed) []).reverse

def change (fs : FileSystem) (path : String) (f : Option FileNode → FileNode) : FileSystem :=
  { fs with root := FileNode.change f (names (fs.rooted path)) (some fs.root) }

def empty (workingDirectory : List String) : FileSystem :=
  ⟨FileNode.change (fun _ => .directory []) workingDirectory none, workingDirectory⟩

def addFile (fs : FileSystem) (path : String) (content : ByteArray) (mode : Nat) : FileSystem :=
  fs.change path (fun _ => .file content mode)

/-- A directory that is there already keeps what it holds. -/
def addDirectory (fs : FileSystem) (path : String) : FileSystem :=
  fs.change path (fun n => match n with
    | some (.directory es) => .directory es
    | _ => .directory [])

def setMode (fs : FileSystem) (path : String) (mode : Nat) : FileSystem :=
  fs.change path (fun n => match n with
    | some (.file content _) => .file content mode
    | some n => n
    | none => .directory [])

end FileSystem

end SchemaDrift
