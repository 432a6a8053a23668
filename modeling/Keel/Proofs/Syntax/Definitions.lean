import Keel.Proofs.Syntax.Contents
import Keel.Proofs.Syntax.Shape

namespace Keel

variable {table : Precedences}

def Definition.Shaped (table : Precedences) (d : Definition) : Prop :=
  d.Paired ∧ Stmt.AllShaped table d.signature.result d.body

mutual

lemma Expr.Shaped.definitions : ∀ (e : Expr) ⦃result context : ValueType⦄, e.Shaped table result context →
    ∀ d ∈ definitionsAmong e.entities, d.Shaped table
  | .number _ _ _ | .reference _ _ | .string _ _ | .importFile _ _ => by
    intro result context _ d hd
    cases hd
  | .binary _ op lhs rhs => by
    intro result context h d hd
    rw [Expr.entities, definitionsAmong_append, List.mem_append] at hd
    exact hd.elim (Expr.Shaped.definitions lhs h.2.1 d) (Expr.Shaped.definitions rhs h.2.2 d)
  | .call _ _ args => by
    intro result context h
    exact Expr.AllShaped.definitions args h.2
  | .cast _ _ value => by
    intro result context h
    exact Expr.Shaped.definitions value h
  | .assign _ _ value => by
    intro result context h
    exact Expr.Shaped.definitions value h.2
  | .conditional _ conditions _ body => by
    intro result context h d hd
    rw [Expr.entities, definitionsAmong_append, List.mem_append] at hd
    exact hd.elim (Condition.AllShaped.definitions conditions h.2.2.1 d) (Stmt.AllShaped.definitions body h.2.2.2 d)

lemma Expr.AllShaped.definitions : ∀ (es : List Expr) ⦃result : ValueType⦄, Expr.AllShaped table result es →
    ∀ d ∈ definitionsAmong (Expr.entitiesOfAll es), d.Shaped table
  | [] => by
    intro result _ d hd
    cases hd
  | e :: es => by
    intro result h d hd
    rw [Expr.entitiesOfAll, definitionsAmong_append, List.mem_append] at hd
    exact hd.elim (Expr.Shaped.definitions e h.1 d) (Expr.AllShaped.definitions es h.2 d)

lemma Condition.Shaped.definitions : ∀ (c : Condition) ⦃result context : ValueType⦄,
    c.Shaped table result context → ∀ d ∈ definitionsAmong c.entities, d.Shaped table
  | .compare lhs _ rhs => by
    intro result context h d hd
    rw [Condition.entities, definitionsAmong_append, List.mem_append] at hd
    exact hd.elim (Expr.Shaped.definitions lhs h.2.1 d) (Expr.Shaped.definitions rhs h.2.2 d)

lemma Condition.AllShaped.definitions : ∀ (cs : List Condition) ⦃result context : ValueType⦄,
    Condition.AllShaped table result context cs →
    ∀ d ∈ definitionsAmong (Condition.entitiesOfAll cs), d.Shaped table
  | [] => by
    intro result context _ d hd
    cases hd
  | c :: cs => by
    intro result context h d hd
    rw [Condition.entitiesOfAll, definitionsAmong_append, List.mem_append] at hd
    exact hd.elim (Condition.Shaped.definitions c h.1 d) (Condition.AllShaped.definitions cs h.2 d)

lemma Stmt.Shaped.definitions : ∀ (st : Stmt) ⦃result : ValueType⦄, st.Shaped table result →
    ∀ d ∈ definitionsAmong st.entities, d.Shaped table
  | .expression value => by
    intro result h
    exact Expr.Shaped.definitions value h.2
  | .call _ _ args => by
    intro result h
    exact Expr.AllShaped.definitions args h.2
  | .declare _ type name value => by
    intro result h d hd
    rw [Stmt.entities, definitionsAmong_append, List.mem_append] at hd
    obtain hd | hd := hd
    · exact Expr.Shaped.definitions value h.2 d hd
    · cases hd
  | .function signature types body => by
    intro result h d hd
    rw [definitionsAmong_function, List.mem_append, List.mem_singleton] at hd
    obtain hd | rfl := hd
    · exact Stmt.AllShaped.definitions body h.2.2 d hd
    · exact ⟨⟨h.1.2.1, h.2.1⟩, h.2.2⟩
  | .prototype _ => by
    intro result _ d hd
    cases hd
  | .ret _ value => by
    intro result h
    exact Expr.Shaped.definitions value h

lemma Stmt.AllShaped.definitions : ∀ (ss : List Stmt) ⦃result : ValueType⦄, Stmt.AllShaped table result ss →
    ∀ d ∈ definitionsAmong (Stmt.entitiesOfAll ss), d.Shaped table
  | [] => by
    intro result _ d hd
    cases hd
  | st :: ss => by
    intro result h d hd
    rw [Stmt.entitiesOfAll, definitionsAmong_append, List.mem_append] at hd
    exact hd.elim (Stmt.Shaped.definitions st h.1 d) (Stmt.AllShaped.definitions ss h.2 d)

end

lemma Program.Shaped.definitions {p : Program} (h : p.Shaped table) : ∀ d ∈ p.definitions, d.Shaped table := by
  rw [definitions_eq]
  exact Stmt.AllShaped.definitions p h

lemma Program.Shaped.append {p q : Program} (hp : p.Shaped table) (hq : q.Shaped table) :
    Program.Shaped table (p ++ q) := by
  induction p with
  | nil => exact hq
  | cons st p ih => exact ⟨hp.1, ih hp.2⟩

end Keel
