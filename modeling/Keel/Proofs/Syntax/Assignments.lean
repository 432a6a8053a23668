import Keel.Proofs.Syntax.Spelling

namespace Keel

def Expr.isReference : Expr → Bool
  | .reference _ _ => true
  | _ => false

def Expr.IsAssignment : Expr → Prop
  | .binary _ op lhs _ => op = "=" ∧ lhs.isReference = true
  | _ => False

def Expr.operation (place : Position) (op : String) (lhs rhs : Expr) : Expr :=
  match lhs with
  | .reference _ name => if op = "=" then .assign place name rhs else .binary place op lhs rhs
  | _ => .binary place op lhs rhs

mutual

def Expr.settled : Expr → Expr
  | .number place value type => .number place value type
  | .reference place name => .reference place name
  | .binary place op lhs rhs => .operation place op lhs.settled rhs.settled
  | .call place callee args => .call place callee (Expr.settledAll args)
  | .cast place target value => .cast place target value.settled
  | .assign place name value => .assign place name value.settled
  | .string place value => .string place value
  | .conditional place conditions separators body =>
    .conditional place (Condition.settledAll conditions) separators (Stmt.settledAll body)
  | .importFile place path => .importFile place path

def Expr.settledAll : List Expr → List Expr
  | [] => []
  | e :: es => e.settled :: Expr.settledAll es

def Condition.settled : Condition → Condition
  | .compare lhs op rhs => .compare lhs.settled op rhs.settled

def Condition.settledAll : List Condition → List Condition
  | [] => []
  | c :: cs => c.settled :: Condition.settledAll cs

def Stmt.settled : Stmt → Stmt
  | .expression value => .expression value.settled
  | .call place callee args => .call place callee (Expr.settledAll args)
  | .declare place type name value => .declare place type name value.settled
  | .function signature types body => .function signature types (Stmt.settledAll body)
  | .prototype signature => .prototype signature
  | .ret place value => .ret place value.settled

def Stmt.settledAll : List Stmt → List Stmt
  | [] => []
  | s :: ss => s.settled :: Stmt.settledAll ss

end

def Program.settled (p : Program) : Program := Stmt.settledAll p

namespace Expr

variable {place : Position} {op name : String} {lhs rhs e : Expr}

lemma operation_of_ne (h : op ≠ "=") : operation place op lhs rhs = .binary place op lhs rhs := by
  cases lhs with
  | reference => exact if_neg h
  | _ => rfl

lemma operation_of_not_reference (h : lhs.isReference = false) :
    operation place op lhs rhs = .binary place op lhs rhs := by
  cases lhs with
  | reference => cases h
  | _ => rfl

lemma isReference_operation : (operation place op lhs rhs).isReference = false := by
  unfold operation
  split
  · split_ifs <;> rfl
  · rfl

lemma isReference_settled : ∀ e : Expr, e.settled.isReference = e.isReference
  | .binary _ _ _ _ => isReference_operation
  | .number _ _ _ | .reference _ _ | .call _ _ _ | .cast _ _ _ | .assign _ _ _ | .string _ _ | .conditional _ _ _ _
  | .importFile _ _ => rfl

lemma settled_binary (h : ¬ (binary place op lhs rhs).IsAssignment) :
    (binary place op lhs rhs).settled = .binary place op lhs.settled rhs.settled := by
  by_cases hop : op = "="
  · exact operation_of_not_reference (by rw [isReference_settled]; simpa [hop, IsAssignment] using h)
  · exact operation_of_ne hop

lemma settled_target {target : Position} : (binary place "=" (reference target name) rhs).settled =
    .assign place name rhs.settled := by simp [settled, operation]

lemma isCall_settled : e.settled.IsCall ↔ e.IsCall := by
  cases e with
  | binary place op lhs rhs =>
    rw [settled]
    unfold operation
    split
    · split_ifs <;> exact Iff.rfl
    · exact Iff.rfl
  | _ => exact Iff.rfl

lemma Readable.settled_binary (h : (binary place op lhs rhs).Readable) :
    (binary place op lhs rhs).settled = .binary place op lhs.settled rhs.settled :=
  Expr.settled_binary fun hassign => h hassign.1

end Expr

mutual

lemma Expr.settled_of_readable : ∀ e : Expr, (∀ x ∈ e.parts, x.Readable) → e.settled = e
  | .binary place op lhs rhs, h => by
    have hnode : (Expr.binary place op lhs rhs).Readable := h _ (by simp [Expr.parts])
    rw [hnode.settled_binary, lhs.settled_of_readable fun x hx => h x (by simp [Expr.parts, hx]),
      rhs.settled_of_readable fun x hx => h x (by simp [Expr.parts, hx])]
  | .call place callee args, h => by
    rw [Expr.settled, Expr.settledAll_of_readable args fun x hx => h x (by simp [Expr.parts, hx])]
  | .cast place target value, h => by
    rw [Expr.settled, value.settled_of_readable fun x hx => h x (by simp [Expr.parts, hx])]
  | .assign place name value, h => by
    rw [Expr.settled, value.settled_of_readable fun x hx => h x (by simp [Expr.parts, hx])]
  | .conditional place conditions separators body, h => by
    rw [Expr.settled, Condition.settledAll_of_readable conditions fun x hx => h x (by simp [Expr.parts, hx]),
      Stmt.settledAll_of_readable body fun x hx => h x (by simp [Expr.parts, hx])]
  | .number _ _ _, _ | .reference _ _, _ | .string _ _, _ | .importFile _ _, _ => rfl

lemma Expr.settledAll_of_readable : ∀ es : List Expr, (∀ x ∈ Expr.partsOfAll es, x.Readable) →
    Expr.settledAll es = es
  | [], _ => rfl
  | e :: es, h => by
    rw [Expr.settledAll, e.settled_of_readable fun x hx => h x (by simp [Expr.partsOfAll, hx]),
      Expr.settledAll_of_readable es fun x hx => h x (by simp [Expr.partsOfAll, hx])]

lemma Condition.settled_of_readable : ∀ c : Condition, (∀ x ∈ c.parts, x.Readable) → c.settled = c
  | .compare lhs op rhs, h => by
    rw [Condition.settled, lhs.settled_of_readable fun x hx => h x (by simp [Condition.parts, hx]),
      rhs.settled_of_readable fun x hx => h x (by simp [Condition.parts, hx])]

lemma Condition.settledAll_of_readable : ∀ cs : List Condition, (∀ x ∈ Condition.partsOfAll cs, x.Readable) →
    Condition.settledAll cs = cs
  | [], _ => rfl
  | c :: cs, h => by
    rw [Condition.settledAll, c.settled_of_readable fun x hx => h x (by simp [Condition.partsOfAll, hx]),
      Condition.settledAll_of_readable cs fun x hx => h x (by simp [Condition.partsOfAll, hx])]

lemma Stmt.settled_of_readable : ∀ st : Stmt, (∀ x ∈ st.parts, x.Readable) → st.settled = st
  | .expression value, h => by
    rw [Stmt.settled, value.settled_of_readable fun x hx => h x (by simp [Stmt.parts, hx])]
  | .call place callee args, h => by
    rw [Stmt.settled, Expr.settledAll_of_readable args fun x hx => h x (by simp [Stmt.parts, hx])]
  | .declare place type name value, h => by
    rw [Stmt.settled, value.settled_of_readable fun x hx => h x (by simp [Stmt.parts, hx])]
  | .function _ _ body, h => by
    rw [Stmt.settled, Stmt.settledAll_of_readable body fun x hx => h x (by simp [Stmt.parts, hx])]
  | .prototype _, _ => rfl
  | .ret place value, h => by
    rw [Stmt.settled, value.settled_of_readable fun x hx => h x (by simp [Stmt.parts, hx])]

lemma Stmt.settledAll_of_readable : ∀ ss : List Stmt, (∀ x ∈ Stmt.partsOfAll ss, x.Readable) →
    Stmt.settledAll ss = ss
  | [], _ => rfl
  | s :: ss, h => by
    rw [Stmt.settledAll, s.settled_of_readable fun x hx => h x (by simp [Stmt.partsOfAll, hx]),
      Stmt.settledAll_of_readable ss fun x hx => h x (by simp [Stmt.partsOfAll, hx])]

end

section Style

variable (style : PrintStyle)

def Expr.absorbs : Expr → Bool
  | .reference _ _ | .assign _ _ _ => true
  | .binary _ op lhs rhs => op = "=" && lhs.isReference ||
    !Printer.needsParens style (·.le (style.table.level op)) rhs && rhs.absorbs
  | .number _ _ _ | .call _ _ _ | .cast _ _ _ | .string _ _ | .conditional _ _ _ _ | .importFile _ _ => false

/-- The left side of a `=` is a variable, or its text does not take the `=` for a part of its own. -/
def Expr.KeepsTarget : Expr → Prop
  | .binary _ op lhs _ => op = "=" → lhs.isReference = true ∨
    (!Printer.needsParens style (·.lt (style.table.level op)) lhs && lhs.absorbs style) = false
  | _ => True

instance : DecidablePred (Expr.KeepsTarget style)
  | .binary _ op lhs _ => inferInstanceAs (Decidable (op = "=" → lhs.isReference = true ∨
    (!Printer.needsParens style (·.lt (style.table.level op)) lhs && lhs.absorbs style) = false))
  | .number _ _ _ | .reference _ _ | .call _ _ _ | .cast _ _ _ | .assign _ _ _ | .string _ _
  | .conditional _ _ _ _ | .importFile _ _ => inferInstanceAs (Decidable True)

def Expr.UsesAssign : Expr → Prop
  | .binary _ op _ _ => op = "="
  | _ => False

structure Expr.Legible (e : Expr) : Prop where
  finite : e.Finite
  keeps : e.KeepsTarget style
  last : e.UsesAssign → style.table.AssignsLast

end Style

variable {style : PrintStyle}

lemma Expr.Readable.legible : ∀ {e : Expr}, e.Readable → e.Legible style
  | .binary _ _ _ _, h => ⟨trivial, fun hop => absurd hop h, fun hop => absurd hop h⟩
  | .number _ _ _, h => ⟨h, trivial, False.elim⟩
  | .reference _ _, _ | .call _ _ _, _ | .cast _ _ _, _ | .assign _ _ _, _ | .string _ _, _
  | .conditional _ _ _ _, _ | .importFile _ _, _ => ⟨trivial, trivial, False.elim⟩

lemma Expr.IsAssignment.absorbs : ∀ {e : Expr}, e.IsAssignment → e.absorbs style = true
  | .binary _ _ _ _, h => by simp [Expr.absorbs, h.1, h.2]

lemma Expr.Legible.encloses {e : Expr} {result context : ValueType} (h : e.Legible style)
    (hint : style.table.Integral) (hs : e.Shaped style.table result context) (ha : e.IsAssignment)
    {loose : Double → Bool} (hloose : ∀ a, style.table.HasPower "=" a → style.table.AssignsLast →
      loose (.ofInt a) = true) : Printer.needsParens style loose e = true := by
  cases e with
  | binary place op lhs rhs =>
    obtain ⟨rfl, -⟩ := ha
    obtain ⟨⟨power, hpower⟩, -⟩ := hs
    obtain ⟨-, a, -, hpower⟩ := hint.hasPower hpower
    rw [Printer.needsParens, hpower.level]
    exact hloose a hpower (h.last rfl)
  | _ => cases ha

end Keel
