import Keel.Unit.Linked

/-! Files in directories, and how a path leads to one of them. -/

namespace Keel

inductive FileError where
  | notFound
  | isDirectory
  | notDirectory
  deriving DecidableEq, Repr

namespace FileError

def openMessage (path : String) : FileError → String
  | notFound => "ENOENT: no such file or directory, open '" ++ path ++ "'"
  | isDirectory => "EISDIR: illegal operation on a directory, open '" ++ path ++ "'"
  | notDirectory => "ENOTDIR: not a directory, open '" ++ path ++ "'"

def readMessage (path : String) : FileError → String
  | isDirectory => "EISDIR: illegal operation on a directory, read"
  | e => e.openMessage path

end FileError

structure Disk where
  directory : List String
  files : List (List String × String)

namespace Disk

inductive Entry where
  | file (text : String)
  | directory
  | missing
  deriving DecidableEq, Repr

def nameList (path : String) : List String := (Path.names path.toList).map String.ofList

def absolute (names : List String) : String := "/" ++ "/".intercalate names

def entry (d : Disk) (names : List String) : Entry :=
  match d.files.lookup names with
  | some text => .file text
  | none =>
    if names.isPrefixOf d.directory || d.files.any fun (path, _) => names.isPrefixOf path then .directory
    else .missing

def enter (d : Disk) (place : List String) (name : String) : Except FileError (List String) :=
  match d.entry place with
  | .missing => .error .notFound
  | .file _ => .error .notDirectory
  | .directory =>
    .ok (if name = "" ∨ name = "." then place else if name = ".." then place.dropLast else place ++ [name])

def start (d : Disk) (path : String) : List String :=
  if Path.isAbsolute path then [] else d.directory

def walk (d : Disk) (path : String) : Except FileError (List String) :=
  (nameList path).foldlM d.enter (d.start path)

def read (d : Disk) (path : String) : Except FileError String := do
  match d.entry (← d.walk path) with
  | .file text => .ok text
  | .directory => .error .isDirectory
  | .missing => .error .notFound

def target (d : Disk) (path : String) : Except FileError (List String) := do
  let names ← d.walk (String.ofList (path.toList.reverse.dropWhile (· = '/')).reverse)
  if path.toList.getLast? = some '/' ∨ d.entry names = .directory then .error .isDirectory
  else .ok names

def host (d : Disk) : SourceFiles where
  resolve file path := Path.resolve (Path.directory file) path
  canonical path := Path.resolve (absolute d.directory) path
  files := d.files.map fun (names, text) => (absolute names, text)
  reason path :=
    match d.read path with
    | .error e => e.readMessage path
    | .ok _ => FileError.notFound.readMessage path

end Disk

end Keel
