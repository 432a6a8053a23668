/-! The primitive types of the language and their order of width. -/

namespace Keel

inductive ValueType where
  | i64 | i32 | i16 | i8 | float | double | bool | void
  deriving DecidableEq, Repr, Inhabited

namespace ValueType

def all : List ValueType := [i64, i32, i16, i8, float, double, bool, void]

def keyword : ValueType → String
  | i64 => "i64"
  | i32 => "i32"
  | i16 => "i16"
  | i8 => "i8"
  | float => "float"
  | double => "double"
  | bool => "bool"
  | void => "void"

def ofKeyword? (name : String) : Option ValueType :=
  all.find? fun t => t.keyword == name

def rank : ValueType → Int
  | void => -1
  | bool => 0
  | i8 => 1
  | i16 => 2
  | i32 => 3
  | i64 => 4
  | float => 5
  | double => 6

end ValueType

end Keel
