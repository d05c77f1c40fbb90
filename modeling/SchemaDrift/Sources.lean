import SchemaDrift.Error
import SchemaDrift.FileSystem
import SchemaDrift.Script

/-!
The scripts of one side of a comparison, from files and from the SQL files in directories.
-/

namespace SchemaDrift

namespace FileNode

/-- Every file in a tree, with the names that lead to it. `above` is the way so far, backwards. -/
def files (above : List String) : FileNode → List (List String × ByteArray)
  | file content _ => [(above.reverse, content)]
  | directory [] => []
  | directory ((name, n) :: es) => n.files (name :: above) ++ (directory es).files above

end FileNode

/-- The order of paths: name by name from the root on. -/
def pathLe : List String → List String → Bool
  | [], _ => true
  | _ :: _, [] => false
  | a :: as, b :: bs => if a == b then pathLe as bs else a < b

/-- What follows the last point of a file name. A point at its beginning does not count. -/
def extension? (name : List Char) : Option (List Char) :=
  match name with
  | [] => none
  | _ :: rest =>
      match (Text.pieces '.' rest).reverse with
      | last :: _ :: _ => some last
      | _ => none

def isSqlName (name : String) : Bool :=
  (extension? name.toList).any (fun e => e.map Char.toLower == "sql".toList)

namespace FileSystem

def below (directory : String) (names : List String) : String :=
  let rest := String.intercalate "/" names
  if directory.toList.getLast? == some '/' then directory ++ rest else directory ++ "/" ++ rest

/-- The SQL files in a directory and the directories in it, in the order of their paths. A path
to a file leads to that file alone. -/
def sqlFiles (fs : FileSystem) (path : String) : List (String × ByteArray) :=
  match fs.find? path with
  | none => []
  | some (.file content _) =>
      if isSqlName ((parts path).getLastD "") then [(path, content)] else []
  | some (.directory es) =>
      let found := (FileNode.directory es).files [] |>.filter (fun f => isSqlName (f.1.getLastD ""))
      (found.mergeSort (fun a b => pathLe a.1 b.1)).map (fun f => (below path f.1, f.2))

end FileSystem

namespace Script

/-- A byte order mark at the beginning of a file is not part of its text. -/
def withoutMark (s : String) : String :=
  match s.toList with
  | '\ufeff' :: cs => String.ofList cs
  | _ => s

def ofFile (path : String) (content : ByteArray) : Except Error Script :=
  match String.fromUTF8? content with
  | some s => .ok ⟨path, withoutMark s⟩
  | none => .error .notUtf8

def ofPath (fs : FileSystem) (side : Side) (path : String) : Except Error (List Script) :=
  match fs.find? path with
  | none => .error (.missingPath side path)
  | some (.file content _) => do return [← ofFile path content]
  | some (.directory _) =>
      match fs.sqlFiles path with
      | [] => .error (.noSqlFiles side path)
      | found => found.mapM (fun f => ofFile f.1 f.2)

/-- The scripts of one side, in the order of the paths that name them. -/
def ofPaths (fs : FileSystem) (side : Side) (paths : List String) : Except Error (List Script) := do
  return (← paths.mapM (ofPath fs side)).flatten

end Script

end SchemaDrift
