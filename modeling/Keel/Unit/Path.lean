/-! Paths of files with names set apart by slashes. -/

namespace Keel.Path

def names : List Char → List (List Char)
  | [] => [[]]
  | c :: cs =>
    if c = '/' then [] :: names cs
    else match names cs with
      | [] => [[c]]
      | n :: ns => (c :: n) :: ns

def join : List (List Char) → List Char
  | [] => []
  | [n] => n
  | n :: ns => n ++ '/' :: join ns

def enter (absolute : Bool) (resolved : List (List Char)) (name : List Char) : List (List Char) :=
  if name = [] ∨ name = ['.'] then resolved
  else if name = ['.', '.'] then
    match resolved with
    | [] => if absolute then [] else [name]
    | n :: ns => if n = ['.', '.'] then name :: resolved else ns
  else name :: resolved

def resolvedNames (absolute : Bool) (path : List Char) : List (List Char) :=
  ((names path).foldl (enter absolute) []).reverse

def normalizeChars (path : List Char) : List Char :=
  let absolute := path.head? == some '/'
  let trailing := path.getLast? == some '/'
  let resolved := join (resolvedNames absolute path)
  let inner := if resolved = [] ∧ !absolute then ['.'] else resolved
  let ended := if trailing ∧ inner ≠ [] then inner ++ ['/'] else inner
  if absolute then '/' :: ended else ended

def normalize (path : String) : String := String.ofList (normalizeChars path.toList)

def directoryChars (path : List Char) : List Char :=
  let trimmed := path.reverse.dropWhile (· = '/')
  let parent := (trimmed.dropWhile (· ≠ '/')).dropWhile (· = '/')
  if parent = [] then if path.head? = some '/' then ['/'] else ['.'] else parent.reverse

def directory (path : String) : String := String.ofList (directoryChars path.toList)

def fromFile (file path : String) : String :=
  if path = "" then normalize (directory file) else normalize (directory file ++ "/" ++ path)

def isAbsolute (path : String) : Bool := path.toList.head? == some '/'

def resolve (directory path : String) : String :=
  let whole := if isAbsolute path then path else directory ++ "/" ++ path
  String.ofList ('/' :: join (resolvedNames true whole.toList))

end Keel.Path
