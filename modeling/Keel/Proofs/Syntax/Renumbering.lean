import Keel.Proofs.Syntax.Powers
import Keel.Proofs.Syntax.Reading
import Keel.Syntax.Printer

/-! The order of the powers is all that the parser goes by, if one more than a power reaches the next one only. -/

namespace Keel

namespace Precedences

open Floating

def Proper (table : Precedences) : Prop :=
  ∀ op x, table.find? op = some x → x.isPositive = true ∧ x.isFinite = true

/-- The same operators with other powers in the same order. -/
structure Renumbers (table table' : Precedences) : Prop where
  proper : table.Proper
  proper' : table'.Proper
  keys : ∀ op, (table.find? op).isSome = (table'.find? op).isSome
  order : ∀ op other, (table.find? op).isSome → (table.find? other).isSome →
    (table.level op).lt (table.level other) = (table'.level op).lt (table'.level other)

/-- What is at least one more than a power or than the ceiling is what is greater. -/
structure Stepped (table : Precedences) : Prop where
  above : ∀ op other x y, table.find? op = some x → table.find? other = some y → y.lt (above x) = !x.lt y
  ceiling : ∀ op x, table.find? op = some x → x.lt (Precedences.above table.ceiling) = !table.ceiling.lt x

inductive Counterparts (table table' : Precedences) : Double → Double → Prop
  | zero : Counterparts table table' (.zero false) (.zero false)
  | power {op x x'} : table.find? op = some x → table'.find? op = some x' → Counterparts table table' x x'

structure SameBound (table table' : Precedences) (least least' : Double) : Prop where
  same : ∀ lexeme, (table.power lexeme).lt least = (table'.power lexeme).lt least'
  stops : ∀ lexeme, table.binding? lexeme = none → (table.power lexeme).lt least = true

variable {table table' : Precedences} {op : String} {x y x' y' : Double}

lemma isSome_find? : (table.find? op).isSome ↔ op ∈ table.entries.map Prod.fst := by
  simp [find?, List.lookup_isSome_iff]

lemma renumbers_of_entries (hkeys : table.entries.map Prod.fst = table'.entries.map Prod.fst)
    (hproper : ∀ entry ∈ table.entries ++ table'.entries, entry.2.isPositive = true ∧ entry.2.isFinite = true)
    (horder : ∀ op ∈ table.entries.map Prod.fst, ∀ other ∈ table.entries.map Prod.fst,
      (table.level op).lt (table.level other) = (table'.level op).lt (table'.level other)) :
    Renumbers table table' where
  proper := fun _ _ hx => hproper _ (List.mem_append_left _ (find?_mem hx))
  proper' := fun _ _ hx => hproper _ (List.mem_append_right _ (find?_mem hx))
  keys := fun op => Bool.eq_iff_iff.mpr (by rw [isSome_find?, isSome_find?, hkeys])
  order := fun op other hop hother => horder op (isSome_find?.mp hop) other (isSome_find?.mp hother)

lemma stepped_of_entries
    (habove : ∀ entry ∈ table.entries, ∀ other ∈ table.entries, other.2.lt (above entry.2) = !entry.2.lt other.2)
    (hceiling : ∀ entry ∈ table.entries, entry.2.lt (above table.ceiling) = !table.ceiling.lt entry.2) :
    table.Stepped where
  above := fun _ _ _ _ hx hy => habove _ (find?_mem hx) _ (find?_mem hy)
  ceiling := fun _ _ hx => hceiling _ (find?_mem hx)

lemma lt_succ {n k : ℤ} (hn : 0 ≤ n) (hn' : n < 2 ^ 53) (hk : ExactInt k) :
    (Floating.ofInt k : Double).lt (above (.ofInt n)) = !(Floating.ofInt n : Double).lt (.ofInt k) := by
  rw [above_ofInt hn hn', ofInt_lt hk (exactInt_succ hn hn'), ofInt_lt (exactInt_of_bounds hn hn') hk, ← decide_not,
    decide_eq_decide]
  omega

lemma Whole.stepped (ht : table.Whole) (hp : table.Proper) : table.Stepped := by
  have hpower : ∀ op x, table.find? op = some x → ∃ n, x = .ofInt n ∧ table.HasPower op n := fun op x hx =>
    ht.hasPower (Option.filter_eq_some_iff.mpr ⟨hx, by rw [not_le_zero (hp op x hx).1, Bool.not_false]⟩)
  constructor
  · intro op other x y hx hy
    obtain ⟨n, rfl, hn⟩ := hpower op x hx
    obtain ⟨k, rfl, hk⟩ := hpower other y hy
    exact lt_succ hn.2.1.le hn.2.2 hk.exact
  · intro op x hx
    obtain ⟨c, hc, hc', hceiling, -⟩ := ht.ceiling
    obtain ⟨n, rfl, hn⟩ := hpower op x hx
    rw [hceiling]
    exact lt_succ hc hc' hn.exact

lemma Proper.zero_lt (h : table.Proper) (hx : table.find? op = some x) : (zero false).lt x = true := (h op x hx).1

lemma Proper.not_lt_zero (h : table.Proper) (hx : table.find? op = some x) : x.lt (zero false) = false := by
  obtain ⟨hpositive, hfinite⟩ := h op x hx
  rw [isPositive, lt_iff rfl hfinite] at hpositive
  rw [Bool.eq_false_iff, Ne, lt_iff hfinite rfl]
  exact hpositive.asymm

lemma Proper.finite (h : table.Proper) (hx : table.find? op = some x) : x.isFinite := (h op x hx).2

lemma above_ne_nan (hx : x.isFinite) : above x ≠ .nan := add_ne_nan hx (ofInt_finite (by simp [ExactInt]))

namespace Renumbers

variable (h : Renumbers table table')
include h

lemma counterpart (hx : table.find? op = some x) : ∃ x', table'.find? op = some x' :=
  Option.isSome_iff_exists.mp (h.keys op ▸ hx ▸ rfl)

lemma counterparts_level (op : String) : Counterparts table table' (table.level op) (table'.level op) := by
  cases hx : table.find? op with
  | none =>
    have hx' : table'.find? op = none := by simpa [hx] using (h.keys op).symm
    rw [level, level, hx, hx']
    exact .zero
  | some x =>
    obtain ⟨x', hx'⟩ := h.counterpart hx
    rw [level, level, hx, hx']
    exact .power hx hx'

lemma lt (hx : Counterparts table table' x x') (hy : Counterparts table table' y y') : x.lt y = x'.lt y' := by
  cases hx with
  | zero =>
    cases hy with
    | zero => rfl
    | power hy hy' => rw [h.proper.zero_lt hy, h.proper'.zero_lt hy']
  | @power op _ _ hx hx' =>
    cases hy with
    | zero => rw [h.proper.not_lt_zero hx, h.proper'.not_lt_zero hx']
    | @power other _ _ hy hy' => simpa [level, hx, hx', hy, hy'] using h.order op other (hx ▸ rfl) (hy ▸ rfl)

lemma finite (hx : Counterparts table table' x x') : x.isFinite ∧ x'.isFinite := by
  cases hx with
  | zero => exact ⟨rfl, rfl⟩
  | power hx hx' => exact ⟨h.proper.finite hx, h.proper'.finite hx'⟩

lemma notNegative (hx : Counterparts table table' x x') : x.NotNegative ∧ x'.NotNegative := by
  cases hx with
  | zero => exact ⟨notNegative_zero false, notNegative_zero false⟩
  | power hx hx' => exact ⟨h.proper.not_lt_zero hx, h.proper'.not_lt_zero hx'⟩

lemma greater (hx : Counterparts table table' x x') (hy : Counterparts table table' y y') :
    Counterparts table table' (greater x y) (greater x' y') := by
  obtain ⟨hfinite, hfinite'⟩ := h.finite hy
  simp only [Precedences.greater, h.lt hx hy, ne_nan_of_finite hfinite, ne_nan_of_finite hfinite', false_or]
  split
  · exact hy
  · exact hx

lemma foldl_greater (hx : Counterparts table table' x x') (ops : List String) :
    Counterparts table table' ((ops.map table.level).foldl Precedences.greater x)
      ((ops.map table'.level).foldl Precedences.greater x') := by
  induction ops generalizing x x' with
  | nil => exact hx
  | cons op ops ih => exact ih (h.greater hx (h.counterparts_level op))

lemma counterparts_ceiling : Counterparts table table' table.ceiling table'.ceiling :=
  h.foldl_greater .zero comparisonSymbols

lemma binding? (lexeme : String) : table.binding? lexeme = none ∧ table'.binding? lexeme = none ∨
    ∃ x x', table.binding? lexeme = some x ∧ table'.binding? lexeme = some x' ∧
      table.find? lexeme = some x ∧ table'.find? lexeme = some x' := by
  cases hx : table.find? lexeme with
  | none =>
    have hx' : table'.find? lexeme = none := by simpa [hx] using (h.keys lexeme).symm
    exact .inl ⟨by simp [Precedences.binding?, hx], by simp [Precedences.binding?, hx']⟩
  | some x =>
    obtain ⟨x', hx'⟩ := h.counterpart hx
    have hpositive := not_le_zero (h.proper lexeme x hx).1
    have hpositive' := not_le_zero (h.proper' lexeme x' hx').1
    exact .inr ⟨x, x', by simp [Precedences.binding?, hx, hpositive], by simp [Precedences.binding?, hx', hpositive'],
      rfl, hx'⟩

lemma sameBound {least least' : Double} (hleast : least.NotNegative ∧ least'.NotNegative)
    (hnan : least ≠ .nan ∧ least' ≠ .nan)
    (hpower : ∀ op x x', table.find? op = some x → table'.find? op = some x' → x.lt least = x'.lt least') :
    SameBound table table' least least' where
  same lexeme := by
  -- what has no power in either table passes neither bound
    obtain ⟨hnone, hnone'⟩ | ⟨x, x', hsome, hsome', hx, hx'⟩ := h.binding? lexeme
    · rw [power_lt_of_none hnone hleast.1 hnan.1, power_lt_of_none hnone' hleast.2 hnan.2]
    · rw [power_of_binding? hsome, power_of_binding? hsome']
      exact hpower lexeme x x' hx hx'
  stops lexeme hnone := power_lt_of_none hnone hleast.1 hnan.1

lemma sameBound_zero : SameBound table table' (.zero false) (.zero false) :=
  h.sameBound (h.notNegative .zero) ⟨nofun, nofun⟩ fun _ _ _ hx hx' => h.lt (.power hx hx') .zero

lemma lt_power (hx : Counterparts table table' x x') (lexeme : String) :
    x.lt (table.power lexeme) = x'.lt (table'.power lexeme) := by
  obtain ⟨hnone, hnone'⟩ | ⟨y, y', hsome, hsome', hy, hy'⟩ := h.binding? lexeme
  · obtain ⟨hnotneg, hnotneg'⟩ := h.notNegative hx
    rw [power_of_none hnone, power_of_none hnone', hnotneg.not_lt_minusOne, hnotneg'.not_lt_minusOne]
  · rw [power_of_binding? hsome, power_of_binding? hsome', h.lt hx (.power hy hy')]

lemma sameBound_above_of (hx : Counterparts table table' x x')
    (hpower : ∀ op y y', table.find? op = some y → table'.find? op = some y' → y.lt (above x) = y'.lt (above x')) :
    SameBound table table' (above x) (above x') := by
  obtain ⟨hfinite, hfinite'⟩ := h.finite hx
  obtain ⟨hnotneg, hnotneg'⟩ := h.notNegative hx
  exact h.sameBound ⟨notNegative_above hnotneg, notNegative_above hnotneg'⟩
    ⟨above_ne_nan hfinite, above_ne_nan hfinite'⟩ hpower

section Stepped

variable (hs : table.Stepped) (hs' : table'.Stepped)
include hs hs'

lemma sameBound_above (hx : table.find? op = some x) (hx' : table'.find? op = some x') :
    SameBound table table' (above x) (above x') := h.sameBound_above_of (.power hx hx') fun other y y' hy hy' => by
  rw [hs.above op other x y hx hy, hs'.above op other x' y' hx' hy', h.lt (.power hx hx') (.power hy hy')]

lemma sameBound_ceiling : SameBound table table' (above table.ceiling) (above table'.ceiling) :=
  h.sameBound_above_of h.counterparts_ceiling fun op x x' hx hx' => by
    rw [hs.ceiling op x hx, hs'.ceiling op x' hx', h.lt h.counterparts_ceiling (.power hx hx')]

end Stepped

end Renumbers

end Precedences

namespace Parser

open Reader Precedences

variable {table table' : Precedences} {depth : ℕ}

structure ReadsAlike (table table' : Precedences) (depth : ℕ) : Prop where
  statement : Parser.statement table depth = Parser.statement table' depth
  expressionStatement : Parser.expressionStatement table depth = Parser.expressionStatement table' depth
  declaration : Parser.declaration table depth = Parser.declaration table' depth
  function : Parser.function table depth = Parser.function table' depth
  body : Parser.body table depth = Parser.body table' depth
  expression : Parser.expression table depth = Parser.expression table' depth
  primary : Parser.primary table depth = Parser.primary table' depth
  arguments : Parser.arguments table depth = Parser.arguments table' depth
  climb : ∀ {least least'}, SameBound table table' least least' → ∀ result context lhs,
    Parser.climb table depth result context least lhs = Parser.climb table' depth result context least' lhs
  conditional : Parser.conditional table depth = Parser.conditional table' depth
  moreConditions : Parser.moreConditions table depth = Parser.moreConditions table' depth
  condition : Parser.condition table depth = Parser.condition table' depth
  operand : Parser.operand table depth = Parser.operand table' depth

lemma readsAlike_zero : ReadsAlike table table' 0 := by
  constructor <;> intros <;> rfl

section Step

variable (h : Renumbers table table') (hs : table.Stepped) (hs' : table'.Stepped)
include h hs hs'

lemma ReadsAlike.climb_succ (ih : ReadsAlike table table' depth) {least least' : Double}
    (hleast : SameBound table table' least least') (result context : ValueType) (lhs : Expr) :
    Parser.climb table (depth + 1) result context least lhs =
      Parser.climb table' (depth + 1) result context least' lhs := by
  funext s
  rw [Parser.climb, Parser.climb, power_bind, power_bind]
  obtain ⟨hnone, -⟩ | ⟨x, x', hsome, hsome', hx, hx'⟩ := h.binding? s.head.lexeme
  · rw [← hleast.same, hleast.stops _ hnone, if_pos rfl, if_pos rfl]
  · rw [hleast.same, power_of_binding? hsome, power_of_binding? hsome']
    simp only [ih.primary, ih.climb (h.sameBound_above hs hs' hx hx'), ih.climb hleast]
    refine congrArg (fun x : Reader Expr => x s) (ite_congr rfl (fun _ => rfl) fun _ => bind_congr fun op =>
      bind_congr fun first => ?_)
    funext t
    rw [power_bind, power_bind, h.lt_power (.power hx hx')]

lemma ReadsAlike.step (ih : ReadsAlike table table' depth) : ReadsAlike table table' (depth + 1) where
  statement := by
    funext result
    simp only [Parser.statement, ih.function, ih.expression, ih.conditional, ih.expressionStatement, ih.declaration]
  expressionStatement := by
    funext result
    simp only [Parser.expressionStatement, ih.expression]
  declaration := by
    funext result
    simp only [Parser.declaration, ih.expression]
  function := by simp only [Parser.function, ih.body]
  body := by
    funext result
    simp only [Parser.body, ih.statement, ih.body]
  expression := by
    funext result context
    simp only [Parser.expression, ih.primary, ih.climb h.sameBound_zero]
  primary := by
    funext result context
    simp only [Parser.primary, ih.arguments, ih.expression, ih.conditional]
  arguments := by
    funext result
    simp only [Parser.arguments, ih.expression, ih.arguments]
  climb := ih.climb_succ h hs hs'
  conditional := by
    funext result context
    simp only [Parser.conditional, ih.condition, ih.moreConditions, ih.body]
  moreConditions := by
    funext result context
    simp only [Parser.moreConditions, ih.condition, ih.moreConditions]
  condition := by
    funext result context
    simp only [Parser.condition, ih.operand]
  operand := by
    funext result context
    simp only [Parser.operand, ih.primary, ih.climb (h.sameBound_ceiling hs hs')]

lemma readsAlike (depth : ℕ) : ReadsAlike table table' depth := by
  induction depth with
  | zero => exact readsAlike_zero
  | succ depth ih => exact ih.step h hs hs'

lemma program_eq (depth : ℕ) : Parser.program table depth = Parser.program table' depth := by
  induction depth with
  | zero => rfl
  | succ depth ih => simp only [Parser.program, (readsAlike h hs hs' depth).statement, ih]

end Step

end Parser

open Precedences in
/-- The order of the powers decides what is parsed and how it is refused, where one more than a power is no more than
the next one. -/
theorem parse_renumbers {table table' : Precedences} (h : Renumbers table table') (hs : table.Stepped)
    (hs' : table'.Stepped) (tokens : List Token) : parse tokens table = parse tokens table' := by
  rw [parse, parse, Parser.program_eq h hs hs']

def Precedences.halves : Precedences :=
  ⟨[("<", Decimal.toFloating false ⟨5, -1⟩), ("+", Decimal.toFloating false ⟨15, -1⟩), ("*", .ofInt 7)]⟩

def Precedences.firstThree : Precedences := .ofInts [("<", 1), ("+", 2), ("*", 3)]

def sumTokens : List Token := (lex "1 + 2 * 3;").toOption.getD []

theorem parse_renumbers_halves : Precedences.halves.Renumbers .firstThree ∧ Precedences.halves.Stepped ∧
    Precedences.firstThree.Stepped ∧ (parse sumTokens .halves).isOk = true ∧
    parse sumTokens .halves = parse sumTokens .firstThree := by
  have h : Precedences.halves.Renumbers .firstThree :=
    Precedences.renumbers_of_entries (by decide) (by decide +kernel) (by decide +kernel)
  have hs : Precedences.halves.Stepped := Precedences.stepped_of_entries (by decide +kernel) (by decide +kernel)
  have hs' : Precedences.firstThree.Stepped := (Precedences.integral_ofInts (by decide)).whole.stepped h.proper'
  exact ⟨h, hs, hs', by decide +kernel, parse_renumbers h hs hs' sumTokens⟩

def Precedences.halfApart : Precedences := ⟨[("+", .ofInt 1), ("*", Decimal.toFloating false ⟨15, -1⟩)]⟩

def Precedences.oneApart : Precedences := .ofInts [("+", 1), ("*", 2)]

theorem parse_renumbered_otherwise :
    Precedences.halfApart.Renumbers .oneApart ∧ parse sumTokens .halfApart ≠ parse sumTokens .oneApart := by
  refine ⟨Precedences.renumbers_of_entries (by decide) (by decide +kernel) (by decide +kernel), fun heq => ?_⟩
  have hhalf : (parse sumTokens .halfApart).toOption.map (print · ⟨.standard, "  "⟩) = some "(1 + 2) * 3;\n" := by
    decide +kernel
  have hone : (parse sumTokens .oneApart).toOption.map (print · ⟨.standard, "  "⟩) = some "1 + 2 * 3;\n" := by
    decide +kernel
  rw [heq, hone] at hhalf
  exact absurd hhalf (by decide)

end Keel
