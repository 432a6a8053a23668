import Keel.Syntax

/-! Equality of programs up to the places of their parts. -/

namespace Keel

def Prototype.alike (p q : Prototype) : Bool :=
  p.name = q.name && p.parameterNames = q.parameterNames && p.parameterTypes = q.parameterTypes && p.result = q.result

mutual

def Expr.alike : Expr → Expr → Bool
  | .number _ v t, .number _ w u => v = w && t = u
  | .reference _ n, .reference _ m => n = m
  | .binary _ o a b, .binary _ p c d => o = p && a.alike c && b.alike d
  | .call _ f as, .call _ g bs => f = g && Expr.allAlike as bs
  | .cast _ t a, .cast _ u b => t = u && a.alike b
  | .assign _ n a, .assign _ m b => n = m && a.alike b
  | .string _ v, .string _ w => v = w
  | .conditional _ cs s as, .conditional _ ds t bs =>
    Condition.allAlike cs ds && s = t && Stmt.allAlike as bs
  | .importFile _ p, .importFile _ q => p = q
  | _, _ => false

def Expr.allAlike : List Expr → List Expr → Bool
  | [], [] => true
  | a :: as, b :: bs => a.alike b && Expr.allAlike as bs
  | _, _ => false

def Condition.alike : Condition → Condition → Bool
  | .compare a o b, .compare c p d => o = p && a.alike c && b.alike d

def Condition.allAlike : List Condition → List Condition → Bool
  | [], [] => true
  | a :: as, b :: bs => a.alike b && Condition.allAlike as bs
  | _, _ => false

def Stmt.alike : Stmt → Stmt → Bool
  | .expression a, .expression b => a.alike b
  | .call _ f as, .call _ g bs => f = g && Expr.allAlike as bs
  | .declare _ t n a, .declare _ u m b => t = u && n = m && a.alike b
  | .function p ts as, .function q us bs => p.alike q && ts = us && Stmt.allAlike as bs
  | .prototype p, .prototype q => p.alike q
  | .ret _ a, .ret _ b => a.alike b
  | _, _ => false

def Stmt.allAlike : List Stmt → List Stmt → Bool
  | [], [] => true
  | a :: as, b :: bs => a.alike b && Stmt.allAlike as bs
  | _, _ => false

end

def Program.alike (p q : Program) : Bool := Stmt.allAlike p q

end Keel
