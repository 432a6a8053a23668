import Keel.Proofs.Syntax.Shape

/-! Every program that the parser returns is well formed, and its literals take the types of their contexts. -/

namespace Keel

def Literal.Fits (value : Double) (type context : ValueType) : Prop :=
  type = context ∨ type = .double ∨ type = .bool ∧ (value = .ofInt 0 ∨ value = .ofInt 1)

def Precedences.Joins (table : Precedences) (op : String) : Prop :=
  ∃ power, table.find? op = some power ∧ (power.isPositive = true ∨ power = .nan)

lemma Precedences.joins_of_binding? {table : Precedences} {op : String} {power : Double}
    (h : table.binding? op = some power) : table.Joins op := by
  obtain ⟨hfind, hpower⟩ := Option.filter_eq_some_iff.mp h
  exact ⟨power, hfind, Floating.isPositive_or_nan (by simpa using hpower)⟩

variable (table : Precedences)

mutual

/-- An expression in a function of type `result`, where literals take the type `context`. -/
def Expr.WellFormed (result context : ValueType) : Expr → Prop
  | .number _ value type => Literal.Fits value type context
  | .reference _ _ | .string _ _ | .importFile _ _ => True
  | .binary _ op lhs rhs => table.Joins op ∧ lhs.WellFormed result context ∧ rhs.WellFormed result context
  | .call _ _ args => Expr.AllWellFormed result args
  | .cast _ _ value => value.WellFormed result .i32
  | .assign _ _ value => value.WellFormed result context
  | .conditional _ conditions separators body =>
    conditions ≠ [] ∧ separators.length + 1 = conditions.length ∧ (∀ s ∈ separators, s = "&&" ∨ s = "||") ∧
      Condition.AllWellFormed result context conditions ∧ Stmt.AllWellFormed result body

def Expr.AllWellFormed (result : ValueType) : List Expr → Prop
  | [] => True
  | e :: es => e.WellFormed result .i32 ∧ Expr.AllWellFormed result es

def Condition.WellFormed (result context : ValueType) : Condition → Prop
  | .compare lhs op rhs => op ∈ comparisonSymbols ∧ lhs.WellFormed result context ∧ rhs.WellFormed result context

def Condition.AllWellFormed (result context : ValueType) : List Condition → Prop
  | [] => True
  | c :: cs => c.WellFormed result context ∧ Condition.AllWellFormed result context cs

def Stmt.WellFormed (result : ValueType) : Stmt → Prop
  | .expression value => ¬ value.IsCall ∧ value.WellFormed result .i32
  | .call _ _ args => Expr.AllWellFormed result args
  | .declare _ type _ value => value.WellFormed result type
  | .function signature types body =>
    signature.Paired ∧ types = signature.parameterTypes ∧ Stmt.AllWellFormed signature.result body
  | .prototype signature => signature.Paired
  | .ret _ value => value.WellFormed result (if result = .void then .i32 else result)

def Stmt.AllWellFormed (result : ValueType) : List Stmt → Prop
  | [] => True
  | s :: ss => s.WellFormed result ∧ Stmt.AllWellFormed result ss

end

def Program.WellFormed (p : Program) : Prop := Stmt.AllWellFormed table .i32 p

namespace Parser

variable {table} {s t : TokenStream}

/-- What was read is well formed. A climb adds nothing else to its first operand. -/
def Phrase.WellFormed (table : Precedences) : Phrase → Prop
  | parameters types names | parameterList types names => names.length = types.length
  | prototype p => p.Paired
  | statement result st => st.WellFormed table result
  | body result ss => Stmt.AllWellFormed table result ss
  | expression result context e | primary result context e | conditional result context e
  | operand result context e => e.WellFormed table result context
  | arguments result es | argumentList result es => Expr.AllWellFormed table result es
  | climb result context _ lhs e | right result context _ lhs e =>
    lhs.WellFormed table result context → e.WellFormed table result context
  | moreConditions result context separators cs =>
    separators.length = cs.length ∧ (∀ s ∈ separators, s = "&&" ∨ s = "||") ∧
      Condition.AllWellFormed table result context cs
  | condition result context c => c.WellFormed table result context
  | program p => p.WellFormed table

lemma separator?_cases {separator : String} (h : separator? s.head = some separator) :
    separator = "&&" ∨ separator = "||" := by
  unfold separator? at h
  split at h
  · split_ifs at h with hop
    obtain rfl := Option.some.inj h
    simpa using hop
  · cases h

lemma statementOf_wellFormed {result : ValueType} {e : Expr} (h : e.WellFormed table result .i32) :
    (statementOf e).WellFormed table result := by
  cases e with
  | call place callee args => exact h
  | _ => exact ⟨id, h⟩

lemma Derives.wellFormed {φ : Phrase} (h : Derives table φ s t) : φ.WellFormed table := by
  induction h with
  | lastParameter _ _ _ _ => rfl
  | nextParameter _ _ _ _ _ ih => exact congrArg Nat.succ ih
  | noParameters _ => rfl
  | someParameters _ _ ih => exact ih
  | prototype _ _ _ _ _ _ _ ih => exact ih
  | hostFunction _ _ _ ih => exact ih
  | function _ _ _ _ ihp ih => exact ⟨ihp, rfl, ih⟩
  | ret _ _ _ ih => exact ih
  | ifStatement _ hc ih =>
    cases hc
    exact ⟨id, ih⟩
  | declaration _ _ _ _ _ _ _ ih => exact ih
  | expressionStatement _ _ _ ih => exact statementOf_wellFormed ih
  | bodyEnd _ => trivial
  | bodyNext _ _ _ _ ihs ih => exact ⟨ihs, ih⟩
  | expression _ _ ihp ihc => exact ihc ihp
  | int _ => exact .inl rfl
  | float _ => exact .inr (.inl rfl)
  | @bool s t result context value _ =>
    refine .inr (.inr ⟨rfl, ?_⟩)
    cases value
    · exact .inl rfl
    · exact .inr rfl
  | string _ | reference _ _ _ | importFile _ _ => trivial
  | call _ _ _ _ ih => exact ih
  | assign _ _ _ ih => exact ih
  | parens _ _ _ ih => exact ih
  | cast _ _ _ _ _ _ ih => exact ih
  | ifPrimary _ _ ih => exact ih
  | noArguments _ => trivial
  | someArguments _ _ ih => exact ih
  | lastArgument _ _ ih => exact ⟨ih, trivial⟩
  | nextArgument _ _ _ ihe ih => exact ⟨ihe, ih⟩
  | climbEnd _ => exact id
  | climbStep hpower _ _ _ _ ihp ihr ih =>
    intro hlhs
    exact ih ⟨Precedences.joins_of_binding? hpower, hlhs, ihr ihp⟩
  | rightPlain _ => exact id
  | rightTighter _ _ _ ih => exact ih
  | conditional _ _ _ _ _ _ ihc ihm ih =>
    obtain ⟨hlength, hwords, hcs⟩ := ihm
    exact ⟨List.cons_ne_nil _ _, by simp [hlength], hwords, ⟨ihc, hcs⟩, ih⟩
  | lastCondition _ => exact ⟨rfl, by simp, trivial⟩
  | nextCondition hsep _ _ ihc ih =>
    obtain ⟨hlength, hwords, hcs⟩ := ih
    exact ⟨by simp [hlength], List.forall_mem_cons.mpr ⟨separator?_cases hsep, hwords⟩, ihc, hcs⟩
  | condition _ _ htruth _ ihl ihr => exact ⟨List.contains_iff_mem.mp htruth, ihl, ihr⟩
  | operand _ _ ihp ihc => exact ihc ihp
  | programEnd _ => trivial
  | programNext _ _ _ ihs ih => exact ⟨ihs, ih⟩

/-- Whatever the tokens and the powers are, a program that the parser returns is well formed. -/
theorem parse_wellFormed {tokens : List Token} {p : Program} (h : parse tokens table = .ok p) :
    p.WellFormed table := by
  obtain ⟨t, ht⟩ := parse_sound h
  exact ht.wellFormed

def strayTokens : List Token :=
  [(.keyword "fn", ""), (.identifier "f", "g"), (.punctuation "(", "["), (.punctuation ")", "]"),
    (.punctuation "->", "->"), (.typeKeyword "i8", "i16"), (.punctuation "\x7b", "+"), (.keyword "return", "return"),
    (.int (.ofInt 1), "2"), (.identifier "x", "plus"), (.keyword "if", "if"), (.punctuation "(", "("),
    (.int (.ofInt 2), "true"), (.operator "<", "&&"), (.float (.ofInt 3), "3"), (.punctuation ")", ")"),
    (.punctuation "\x7b", "\x7b"), (.typeKeyword "i16", "i16"), (.identifier "x", "x"), (.operator "=", ""),
    (.bool true, "0"), (.punctuation ";", ","), (.punctuation "\x7d", ""), (.punctuation ";", ";"),
    (.punctuation "\x7d", "plus")].map fun (kind, lexeme) => ⟨kind, lexeme, .start⟩

def strayTable : Precedences := ⟨[("plus", .ofScaled false 1 (-1)), ("", .ofInt (-3))]⟩

theorem parse_wellFormed_stray : ∃ p, parse strayTokens strayTable = .ok p ∧ p.WellFormed strayTable ∧
    p.signatures.map Prototype.name = ["f"] ∧ p.parts.length = 6 := by
  have hcheck : ((parse strayTokens strayTable).toOption.map fun p =>
      (p.signatures.map Prototype.name, p.parts.length)) = some (["f"], 6) := by decide +kernel
  cases hp : parse strayTokens strayTable with
  | error e =>
    rw [hp] at hcheck
    cases hcheck
  | ok p =>
    rw [hp] at hcheck
    obtain ⟨hnames, hparts⟩ := Prod.mk.inj (Option.some.inj hcheck)
    exact ⟨p, rfl, parse_wellFormed hp, hnames, hparts⟩

def nanTable : Precedences := ⟨[("+", .nan)]⟩

def sumOf : List Token :=
  [⟨.int (.ofInt 1), "1", ⟨1, 1, 0⟩⟩, ⟨.operator "+", "+", ⟨1, 3, 2⟩⟩, ⟨.int (.ofInt 2), "2", ⟨1, 5, 4⟩⟩,
    ⟨.punctuation ";", ";", ⟨1, 6, 5⟩⟩, ⟨.endOfInput, "", ⟨1, 7, 6⟩⟩]

def isSum : Expr → Bool
  | .binary _ op _ _ => op = "+"
  | _ => false

theorem parse_joins_nan : ∃ p, parse sumOf nanTable = .ok p ∧ (∃ place lhs rhs, .binary place "+" lhs rhs ∈ p.parts) ∧
    ¬ ∃ power, nanTable.find? "+" = some power ∧ power.isPositive = true := by
  have hcheck : (parse sumOf nanTable).toOption.any (fun p => p.parts.any isSum) = true := by decide +kernel
  cases hp : parse sumOf nanTable with
  | error e =>
    rw [hp] at hcheck
    cases hcheck
  | ok p =>
    rw [hp] at hcheck
    obtain ⟨e, he, hsum⟩ := List.any_eq_true.mp hcheck
    refine ⟨p, rfl, ?_, ?_⟩
    · cases e with
      | binary place op lhs rhs =>
        obtain rfl := of_decide_eq_true hsum
        exact ⟨place, lhs, rhs, he⟩
      | _ => cases hsum
    · rintro ⟨power, hfind, hpositive⟩
      obtain rfl := Option.some.inj hfind
      cases hpositive

end Parser

end Keel
