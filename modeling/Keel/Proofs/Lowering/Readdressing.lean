import Keel.Proofs.Lowering.Effects

namespace Keel

mutual

def Expr.texts : Expr → List String
  | .string _ value => [value]
  | .number _ _ _ | .reference _ _ | .importFile _ _ => []
  | .binary _ _ lhs rhs => lhs.texts ++ rhs.texts
  | .call _ _ args => Expr.textsOfAll args
  | .cast _ _ value | .assign _ _ value => value.texts
  | .conditional _ conditions _ body => Condition.textsOfAll conditions ++ Stmt.textsOfAll body

def Expr.textsOfAll : List Expr → List String
  | [] => []
  | e :: es => e.texts ++ Expr.textsOfAll es

def Condition.texts : Condition → List String
  | .compare lhs _ rhs => lhs.texts ++ rhs.texts

def Condition.textsOfAll : List Condition → List String
  | [] => []
  | c :: cs => c.texts ++ Condition.textsOfAll cs

def Stmt.texts : Stmt → List String
  | .expression value | .declare _ _ _ value | .ret _ value => value.texts
  | .call _ _ args => Expr.textsOfAll args
  | .function _ _ _ | .prototype _ => []

def Stmt.textsOfAll : List Stmt → List String
  | [] => []
  | s :: ss => s.texts ++ Stmt.textsOfAll ss

end

namespace Lowering

open Wasm (Instr Segment)

mutual

inductive Readdressed (A B : List Segment) : List String → Instr → Instr → Prop
  | same {x} : Readdressed A B [] x x
  | address {value} {a b : Nat} : ⟨a, StringTable.bytes value⟩ ∈ A → ⟨b, StringTable.bytes value⟩ ∈ B →
      Readdressed A B [value] (i32Const a) (i32Const b)
  | localSet {vs i x y} : Readdressed A B vs x y → Readdressed A B vs (.localSet i x) (.localSet i y)
  | localTee {vs i x y} : Readdressed A B vs x y → Readdressed A B vs (.localTee i x) (.localTee i y)
  | globalSet {vs name x y} : Readdressed A B vs x y → Readdressed A B vs (.globalSet name x) (.globalSet name y)
  | convert {vs op x y} : Readdressed A B vs x y → Readdressed A B vs (.convert op x) (.convert op y)
  | binary {vs ws op x x' y y'} : Readdressed A B vs x x' → Readdressed A B ws y y' →
      Readdressed A B (vs ++ ws) (.binary op x y) (.binary op x' y')
  | call {vs callee xs ys} : AllReaddressed A B vs xs ys → Readdressed A B vs (.call callee xs) (.call callee ys)
  | drop {vs x y} : Readdressed A B vs x y → Readdressed A B vs (.drop x) (.drop y)
  | block {vs label result xs ys} : AllReaddressed A B vs xs ys →
      Readdressed A B vs (.block label result xs) (.block label result ys)
  | ifThen {vs ws c c' x x'} : Readdressed A B vs c c' → Readdressed A B ws x x' →
      Readdressed A B (vs ++ ws) (.ifThen c x) (.ifThen c' x')
  | ifElse {us vs ws c c' x x' y y'} : Readdressed A B us c c' → Readdressed A B vs x x' →
      Readdressed A B ws y y' → Readdressed A B (us ++ vs ++ ws) (.ifElse c x y) (.ifElse c' x' y')

inductive AllReaddressed (A B : List Segment) : List String → List Instr → List Instr → Prop
  | nil : AllReaddressed A B [] [] []
  | cons {vs ws x y xs ys} : Readdressed A B vs x y → AllReaddressed A B ws xs ys →
      AllReaddressed A B (vs ++ ws) (x :: xs) (y :: ys)

end

section Relation

variable {A B A' B' : List Segment}

mutual

lemma Readdressed.mono (hA : A ⊆ A') (hB : B ⊆ B') : ∀ {vs : List String} {x y : Instr},
    Readdressed A B vs x y → Readdressed A' B' vs x y
  | _, _, _, .same => .same
  | _, _, _, .address ha hb => .address (hA ha) (hB hb)
  | _, _, _, .localSet hx => .localSet (hx.mono hA hB)
  | _, _, _, .localTee hx => .localTee (hx.mono hA hB)
  | _, _, _, .globalSet hx => .globalSet (hx.mono hA hB)
  | _, _, _, .convert hx => .convert (hx.mono hA hB)
  | _, _, _, .binary hx hy => .binary (hx.mono hA hB) (hy.mono hA hB)
  | _, _, _, .call hxs => .call (hxs.mono hA hB)
  | _, _, _, .drop hx => .drop (hx.mono hA hB)
  | _, _, _, .block hxs => .block (hxs.mono hA hB)
  | _, _, _, .ifThen hc hx => .ifThen (hc.mono hA hB) (hx.mono hA hB)
  | _, _, _, .ifElse hc hx hy => .ifElse (hc.mono hA hB) (hx.mono hA hB) (hy.mono hA hB)

lemma AllReaddressed.mono (hA : A ⊆ A') (hB : B ⊆ B') : ∀ {vs : List String} {xs ys : List Instr},
    AllReaddressed A B vs xs ys → AllReaddressed A' B' vs xs ys
  | _, _, _, .nil => .nil
  | _, _, _, .cons hx hxs => .cons (hx.mono hA hB) (hxs.mono hA hB)

end

mutual

lemma Readdressed.callees : ∀ {vs : List String} {x y : Instr}, Readdressed A B vs x y → x.callees = y.callees
  | _, _, _, .same => rfl
  | _, _, _, .address _ _ => rfl
  | _, _, _, .localSet hx | _, _, _, .localTee hx | _, _, _, .globalSet hx | _, _, _, .convert hx
  | _, _, _, .drop hx => by
    simp only [Instr.callees]
    exact hx.callees
  | _, _, _, .binary hx hy | _, _, _, .ifThen hx hy => by
    simp only [Instr.callees]
    rw [hx.callees, hy.callees]
  | _, _, _, .call hxs | _, _, _, .block hxs => by
    simp only [Instr.callees]
    rw [hxs.callees]
  | _, _, _, .ifElse hc hx hy => by
    simp only [Instr.callees]
    rw [hc.callees, hx.callees, hy.callees]

lemma AllReaddressed.callees : ∀ {vs : List String} {xs ys : List Instr}, AllReaddressed A B vs xs ys →
    Wasm.calleesOf xs = Wasm.calleesOf ys
  | _, _, _, .nil => rfl
  | _, _, _, .cons hx hxs => by
    rw [Wasm.calleesOf, Wasm.calleesOf, hx.callees, hxs.callees]

end

def SameAddresses (A B : List Segment) (vs : List String) : Prop :=
  ∀ value ∈ vs, ∀ a b : Nat, ⟨a, StringTable.bytes value⟩ ∈ A → ⟨b, StringTable.bytes value⟩ ∈ B → a = b

lemma sameAddresses_append {vs ws : List String} :
    SameAddresses A B (vs ++ ws) ↔ SameAddresses A B vs ∧ SameAddresses A B ws :=
  List.forall_mem_append

mutual

lemma Readdressed.eq : ∀ {vs : List String} {x y : Instr}, Readdressed A B vs x y → SameAddresses A B vs → x = y
  | _, _, _, .same, _ => rfl
  | _, _, _, .address ha hb, h => by rw [h _ (List.mem_singleton_self _) _ _ ha hb]
  | _, _, _, .localSet hx, h | _, _, _, .localTee hx, h | _, _, _, .globalSet hx, h | _, _, _, .convert hx, h
  | _, _, _, .drop hx, h => by rw [hx.eq h]
  | _, _, _, .binary hx hy, h | _, _, _, .ifThen hx hy, h => by
    obtain ⟨h, h'⟩ := sameAddresses_append.mp h
    rw [hx.eq h, hy.eq h']
  | _, _, _, .call hxs, h | _, _, _, .block hxs, h => by rw [hxs.eq h]
  | _, _, _, .ifElse hc hx hy, h => by
    obtain ⟨h, hlast⟩ := sameAddresses_append.mp h
    obtain ⟨hfirst, hnext⟩ := sameAddresses_append.mp h
    rw [hc.eq hfirst, hx.eq hnext, hy.eq hlast]

lemma AllReaddressed.eq : ∀ {vs : List String} {xs ys : List Instr}, AllReaddressed A B vs xs ys →
    SameAddresses A B vs → xs = ys
  | _, _, _, .nil, _ => rfl
  | _, _, _, .cons hx hxs, h => by
    obtain ⟨h, h'⟩ := sameAddresses_append.mp h
    rw [hx.eq h, hxs.eq h']

end

end Relation

structure Lowered.Matches (A B : List Segment) (vs : List String) (x y : Lowered) : Prop where
  type : x.type = y.type
  code : Readdressed A B vs x.code y.code

section Pieces

variable {A B : List Segment} {vs ws : List String} {x y x' y' : Lowered} {code code' : Instr} {type : ValueType}
  {place : Position} {op : String}

lemma Readdressed.operand (h : Readdressed A B vs code code') (op : Wasm.BinaryOp) (second : Instr) :
    Readdressed A B vs (.binary op code second) (.binary op code' second) := by
  rw [← List.append_nil vs]
  exact .binary h .same

lemma Readdressed.wrapped (h : Readdressed A B vs code code') (type : ValueType) :
    Readdressed A B vs (wrapped type code) (wrapped type code') := by
  cases type with
  | i8 => exact (h.operand .shiftLeft _).operand .shiftRight _
  | i16 => exact (h.operand .shiftLeft _).operand .shiftRight _
  | _ => exact h

lemma Readdressed.changed {source target : Wasm.ResultType} {changed : Instr} (h : Readdressed A B vs code code')
    (hc : changed? source target code = some changed) :
    ∃ changed', changed? source target code' = some changed' ∧ Readdressed A B vs changed changed' := by
  unfold changed? at hc ⊢
  split_ifs at hc ⊢ with hsame
  · cases hc
    exact ⟨code', rfl, h⟩
  cases source with
  | none => cases hc
  | some m =>
    cases target with
    | none => cases hc
    | some n =>
      obtain ⟨op, hop, rfl⟩ := Option.map_eq_some_iff.mp hc
      exact ⟨.convert op code', by simp only [hop, Option.map_some], .convert h⟩

lemma Lowered.Matches.mono {A' B' : List Segment} (h : x.Matches A B vs y) (hA : A ⊆ A') (hB : B ⊆ B') :
    x.Matches A' B' vs y :=
  ⟨h.type, h.code.mono hA hB⟩

lemma Lowered.Matches.coerce (h : x.Matches A B vs x') (hc : coerce x type place = .ok y) :
    ∃ y', Lowering.coerce x' type place = .ok y' ∧ y.Matches A B vs y' := by
  unfold Lowering.coerce at hc ⊢
  rw [← h.type]
  by_cases htype : x.type = type
  · rw [if_pos htype] at hc ⊢
    cases hc
    exact ⟨x', rfl, h⟩
  by_cases hvoid : x.type = .void ∨ type = .void
  · rw [if_neg htype, if_pos hvoid] at hc
    cases hc
  rw [if_neg htype, if_neg hvoid] at hc ⊢
  by_cases hbool : type = .bool
  · rw [if_pos hbool] at hc ⊢
    cases hc
    exact ⟨_, rfl, rfl, h.code.operand _ _⟩
  rw [if_neg hbool] at hc ⊢
  cases hchanged : changed? x.type.numType? type.numType? x.code with
  | none =>
    rw [hchanged] at hc
    cases hc
  | some changed =>
    rw [hchanged] at hc
    obtain ⟨changed', hchanged', hcode⟩ := h.code.changed hchanged
    rw [hchanged']
    cases hc
    refine ⟨_, rfl, rfl, ?_⟩
    dsimp only
    split_ifs
    · exact hcode.wrapped type
    · exact hcode

lemma Lowered.Matches.operation (hx : x.Matches A B vs x') (hy : y.Matches A B ws y') {z : Lowered}
    (h : operation place op x y = .ok z) :
    ∃ z', Lowering.operation place op x' y' = .ok z' ∧ z.Matches A B (vs ++ ws) z' := by
  obtain ⟨wider, type, operator, l, r, hw, htype, ho, hl, hr, rfl⟩ := operation_ok h
  obtain ⟨l', hl', hleft⟩ := hx.coerce hl
  obtain ⟨r', hr', hright⟩ := hy.coerce hr
  have hcode : Readdressed A B (vs ++ ws) (.binary operator l.code r.code) (.binary operator l'.code r'.code) :=
    .binary hleft.code hright.code
  unfold Lowering.operation
  rw [← hx.type, ← hy.type, hw]
  simp only [except_bind_ok, Except.ok.injEq, exists_eq_left', ← htype, ho, hl', hr']
  refine ⟨_, rfl, ?_⟩
  split_ifs
  · exact ⟨rfl, hcode⟩
  · exact ⟨rfl, hcode.wrapped type⟩

lemma Lowered.Matches.comparison (hx : x.Matches A B vs x') (hy : y.Matches A B ws y')
    (h : comparison place op x y = .ok code) :
    ∃ code', Lowering.comparison place op x' y' = .ok code' ∧ Readdressed A B (vs ++ ws) code code' := by
  obtain ⟨type, operator, l, r, hw, ho, hl, hr, rfl⟩ := comparison_ok h
  obtain ⟨l', hl', hleft⟩ := hx.coerce hl
  obtain ⟨r', hr', hright⟩ := hy.coerce hr
  unfold Lowering.comparison
  rw [← hx.type, ← hy.type, hw]
  simp only [except_bind_ok, Except.ok.injEq, exists_eq_left', ho, hl', hr']
  exact ⟨_, rfl, .binary hleft.code hright.code⟩

lemma Readdressed.joined {first first' : Instr} {rest rest' : List Instr} {separators : List String}
    (hfirst : Readdressed A B vs first first') (hrest : AllReaddressed A B ws rest rest')
    (h : joined first rest separators = some code) :
    ∃ code', Lowering.joined first' rest' separators = some code' ∧ Readdressed A B (vs ++ ws) code code' := by
  induction rest generalizing first first' rest' separators vs ws with
  | nil =>
    cases hrest
    cases separators with
    | nil =>
      cases h
      exact ⟨first', rfl, by rwa [List.append_nil]⟩
    | cons separator separators => cases h
  | cons next rest ih =>
    obtain _ | ⟨hnext, hrest⟩ := hrest
    cases separators with
    | nil => cases h
    | cons separator separators =>
      rw [Lowering.joined] at h
      rw [Lowering.joined, ← List.append_assoc]
      refine ih ?_ hrest h
      split_ifs
      · rw [← List.append_nil (_ ++ _)]
        exact .ifElse hfirst hnext .same
      · rw [← List.append_nil vs]
        exact .ifElse hfirst .same hnext

lemma AllReaddressed.joinedConditions {codes codes' : List Instr} {separators : List String}
    (hcodes : AllReaddressed A B vs codes codes') (h : joinedConditions place codes separators = .ok code) :
    ∃ code', Lowering.joinedConditions place codes' separators = .ok code' ∧ Readdressed A B vs code code' := by
  unfold Lowering.joinedConditions at h ⊢
  cases hcodes with
  | nil => cases h
  | @cons _ _ first first' rest rest' hfirst hrest =>
    dsimp only at h ⊢
    cases hj : joined first rest separators with
    | none =>
      rw [hj] at h
      cases h
    | some joint =>
      rw [hj] at h
      cases h
      obtain ⟨code', hcode', hcode⟩ := hfirst.joined hrest hj
      exact ⟨code', by rw [hcode'], hcode⟩

lemma Lowered.Matches.dropped (h : x.Matches A B vs x') : Readdressed A B vs (dropped x) (dropped x') := by
  unfold Lowering.dropped
  rw [← h.type]
  split_ifs
  · exact h.code
  · exact .drop h.code

end Pieces

end Lowering

end Keel
