import Keel.Floating.Format

/-! Arithmetic and comparison of floating-point numbers: the exact result, rounded once. -/

namespace Keel.Floating

-- Powers are the core library's, whatever other powers are in scope.
attribute [local instance (high)] instPowNat

variable {f g : Format}

def neg : Floating f → Floating f
  | .finite s m e => .finite (!s) m e
  | .infinite s => .infinite (!s)
  | .nan => .nan

def aligned (negative : Bool) (m : Nat) (e base : Int) : Int :=
  let n : Int := m * 2 ^ (e - base).toNat
  if negative then -n else n

def add : Floating f → Floating f → Floating f
  | .nan, _ | _, .nan => .nan
  | .infinite s, .infinite t => if s = t then .infinite s else .nan
  | .infinite s, .finite .. => .infinite s
  | .finite .., .infinite t => .infinite t
  | .finite s m e, .finite t n d =>
    let base := min e d
    let sum := aligned s m e base + aligned t n d base
    if sum = 0 then zero (s && t) else ofScaled (sum < 0) sum.natAbs base

def sub (x y : Floating f) : Floating f :=
  add x (neg y)

def mul : Floating f → Floating f → Floating f
  | .nan, _ | _, .nan => .nan
  | .infinite s, .infinite t => .infinite (s ^^ t)
  | .infinite s, .finite t n _ => if n = 0 then .nan else .infinite (s ^^ t)
  | .finite s m _, .infinite t => if m = 0 then .nan else .infinite (s ^^ t)
  | .finite s m e, .finite t n d => ofScaled (s ^^ t) (m * n) (e + d)

def div : Floating f → Floating f → Floating f
  | .nan, _ | _, .nan => .nan
  | .infinite _, .infinite _ => .nan
  | .infinite s, .finite t _ _ => .infinite (s ^^ t)
  | .finite s _ _, .infinite t => zero (s ^^ t)
  | .finite s m e, .finite t n d =>
    if n = 0 then if m = 0 then .nan else .infinite (s ^^ t)
    else
      let q := scaled m n (e - d)
      round (s ^^ t) q.1 q.2

def order? : Floating f → Floating f → Option Ordering
  | .nan, _ | _, .nan => none
  | .infinite s, .infinite t => some (compare t.toNat s.toNat)
  | .infinite s, .finite .. => some (if s then .lt else .gt)
  | .finite .., .infinite t => some (if t then .gt else .lt)
  | .finite s m e, .finite t n d =>
    let base := min e d
    some (compare (aligned s m e base) (aligned t n d base))

def lt (x y : Floating f) : Bool := order? x y == some .lt

def le (x y : Floating f) : Bool := order? x y == some .lt || order? x y == some .eq

def eq (x y : Floating f) : Bool := order? x y == some .eq

def convert : Floating f → Floating g
  | .finite s m e => ofScaled s m e
  | .infinite s => .infinite s
  | .nan => .nan

def isPositive (x : Floating f) : Bool := lt (zero false) x

end Keel.Floating
