import Keel.Proofs.Syntax.Contents

namespace Keel

open scoped List

mutual

def Stmt.listed : Stmt → List Prototype
  | .function signature _ body => signature :: Stmt.listedOfAll body
  | .prototype signature => [signature]
  | .expression value => value.listed
  | .call _ _ _ | .declare _ _ _ _ | .ret _ _ => []

def Expr.listed : Expr → List Prototype
  | .conditional _ _ _ body => Stmt.listedOfAll body
  | .number _ _ _ | .reference _ _ | .binary _ _ _ _ | .call _ _ _ | .cast _ _ _ | .assign _ _ _
  | .string _ _ | .importFile _ _ => []

def Stmt.listedOfAll : List Stmt → List Prototype
  | [] => []
  | s :: ss => s.listed ++ Stmt.listedOfAll ss

end

mutual

/-- The signatures within an `if` that is used as a value. -/
def Stmt.hidden : Stmt → List Prototype
  | .function _ _ body => Stmt.hiddenOfAll body
  | .prototype _ => []
  | .expression value => value.hidden
  | .call _ _ args => signaturesAmong (Expr.entitiesOfAll args)
  | .declare _ _ _ value | .ret _ value => signaturesAmong value.entities

def Expr.hidden : Expr → List Prototype
  | .conditional _ conditions _ body =>
    signaturesAmong (Condition.entitiesOfAll conditions) ++ Stmt.hiddenOfAll body
  | .number _ _ _ | .reference _ _ | .string _ _ | .importFile _ _ => []
  | .binary _ _ lhs rhs => signaturesAmong lhs.entities ++ signaturesAmong rhs.entities
  | .call _ _ args => signaturesAmong (Expr.entitiesOfAll args)
  | .cast _ _ value | .assign _ _ value => signaturesAmong value.entities

def Stmt.hiddenOfAll : List Stmt → List Prototype
  | [] => []
  | s :: ss => s.hidden ++ Stmt.hiddenOfAll ss

end

namespace Program

def listed (p : Program) : List Prototype := Stmt.listedOfAll p

def hidden (p : Program) : List Prototype := Stmt.hiddenOfAll p

end Program

mutual

lemma listed_hidden_perm : ∀ st : Stmt, signaturesAmong st.entities ~ st.listed ++ st.hidden
  | .function signature types body => by
    rw [signaturesAmong_function]
    exact (List.perm_append_singleton _ _).trans ((listedOfAll_hiddenOfAll_perm body).cons signature)
  | .prototype signature => .refl _
  | .expression value => listed_hidden_perm_value value
  | .call _ _ args => .refl _
  | .declare _ type name value => by
    rw [Stmt.entities, signaturesAmong_append]
    exact .of_eq (List.append_nil _)
  | .ret _ value => .refl _

lemma listed_hidden_perm_value : ∀ e : Expr, signaturesAmong e.entities ~ e.listed ++ e.hidden
  | .conditional _ conditions _ body => by
    rw [Expr.entities, signaturesAmong_append]
    refine ((listedOfAll_hiddenOfAll_perm body).append_left _).trans ?_
    rw [← List.append_assoc, Expr.listed, Expr.hidden, ← List.append_assoc]
    exact List.perm_append_comm.append_right _
  | .binary _ _ lhs rhs => .of_eq (signaturesAmong_append _ _)
  | .number _ _ _ | .reference _ _ | .string _ _ | .importFile _ _ => .nil
  | .call _ _ _ | .cast _ _ _ | .assign _ _ _ => .refl _

lemma listedOfAll_hiddenOfAll_perm : ∀ ss : List Stmt,
    signaturesAmong (Stmt.entitiesOfAll ss) ~ Stmt.listedOfAll ss ++ Stmt.hiddenOfAll ss
  | [] => .nil
  | st :: ss => by
    rw [Stmt.entitiesOfAll, signaturesAmong_append, Stmt.listedOfAll, Stmt.hiddenOfAll]
    refine ((listed_hidden_perm st).append (listedOfAll_hiddenOfAll_perm ss)).trans ?_
    simp only [List.append_assoc]
    refine List.Perm.append_left _ ?_
    rw [← List.append_assoc, ← List.append_assoc]
    exact List.perm_append_comm.append_right _

end

lemma signatures_perm (p : Program) : p.signatures ~ p.listed ++ p.hidden := by
  rw [signatures_eq]
  exact listedOfAll_hiddenOfAll_perm p

lemma listed_subset {p : Program} : p.listed ⊆ p.signatures :=
  fun _ hf => (signatures_perm p).mem_iff.mpr (List.mem_append_left _ hf)

lemma hosts_subset_listed {p : Program} : p.hosts ⊆ p.listed := by
  unfold Program.hosts Program.listed
  induction p with
  | nil => exact List.nil_subset _
  | cons st p ih =>
    rw [Stmt.listedOfAll]
    cases st with
    | prototype signature => exact List.cons_subset_cons signature ih
    | _ => exact List.Subset.trans ih (List.subset_append_right _ _)

end Keel
