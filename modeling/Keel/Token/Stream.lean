import Keel.Token

/-! A place in a list of tokens. -/

namespace Keel

structure TokenStream where
  passed : List Token
  rest : List Token
  deriving DecidableEq, Repr

namespace TokenStream

def ofTokens (tokens : List Token) : TokenStream := ⟨[], tokens⟩

def index (s : TokenStream) : Nat := s.passed.length

def endToken (s : TokenStream) : Token :=
  match s.rest.getLast?.or s.passed.head? with
  | some t => .endOfInput t.position
  | none => .endOfInput .start

def look (s : TokenStream) (offset : Int) : Token :=
  let found := match offset with
    | .ofNat n => s.rest[n]?
    | .negSucc n => s.passed[n]?
  match found with
  | some t => t
  | none => s.endToken

def head (s : TokenStream) : Token := s.look 0

def next (s : TokenStream) : TokenStream :=
  match s.rest with
  | [] => s
  | t :: ts => ⟨t :: s.passed, ts⟩

def finished (s : TokenStream) : Bool := s.head.is .endOfInput

end TokenStream

end Keel
