import Keel.Syntax

/-! The imports that a source file makes. -/

namespace Keel

mutual

def Stmt.imports : Stmt → List Import
  | .function _ _ body => Stmt.importsOfAll body
  | .expression value => value.imports
  | .call _ _ _ | .declare _ _ _ _ | .prototype _ | .ret _ _ => []

def Expr.imports : Expr → List Import
  | .importFile position path => [⟨position, path⟩]
  | .conditional _ _ _ body => Stmt.importsOfAll body
  | .number _ _ _ | .reference _ _ | .binary _ _ _ _ | .call _ _ _ | .cast _ _ _ | .assign _ _ _
  | .string _ _ => []

def Stmt.importsOfAll : List Stmt → List Import
  | [] => []
  | s :: ss => s.imports ++ Stmt.importsOfAll ss

end

def Program.imports (p : Program) : List Import := Stmt.importsOfAll p

end Keel
