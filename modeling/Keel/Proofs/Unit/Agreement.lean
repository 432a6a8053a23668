import Keel.Proofs.Lowering.Places
import Keel.Unit.Build

namespace Keel

namespace Failure

def className : Failure → String
  | lex _ => "LexError"
  | parse _ => "ParseError"
  | compile _ => "CompileError"
  | exhausted => "Error"

def Alike (e f : Failure) : Prop := e.className = f.className ∧ e.code? = f.code? ∧ e.detail = f.detail

lemma Alike.same (e : Failure) : e.Alike e := ⟨rfl, rfl, rfl⟩

lemma Alike.of_eq {e f e' f' : Failure} (he : e'.Alike e) (hf : f'.Alike f) (h : e' = f') : e.Alike f := by
  obtain ⟨hclass, hcode, hdetail⟩ := he
  obtain ⟨hclass', hcode', hdetail'⟩ := hf
  subst h
  exact ⟨hclass.symm.trans hclass', hcode.symm.trans hcode', hdetail.symm.trans hdetail'⟩

lemma alike_ofHalt {e f : Halt} (h : e.unplaced = f.unplaced) : (ofHalt e).Alike (ofHalt f) := by
  have hplace : ∀ e : Halt, (ofHalt e.unplaced).Alike (ofHalt e) := by
    intro e
    cases e <;> exact ⟨rfl, rfl, rfl⟩
  exact (hplace e).of_eq (hplace f) (congrArg ofHalt h)

lemma alike_compile {e f : CompileError} (h : e.unplaced = f.unplaced) : (compile e).Alike (compile f) := by
  have hplace : ∀ e : CompileError, (compile e.unplaced).Alike (compile e) := fun e => ⟨rfl, rfl, rfl⟩
  exact (hplace e).of_eq (hplace f) (congrArg compile h)

end Failure

section Agreement

variable {α β : Type} {r : α → α → Prop} {r' : β → β → Prop} {x y : Except Failure α}

/-- Both succeed, with results that are related, or both fail alike. -/
inductive Agrees (r : α → α → Prop) : Except Failure α → Except Failure α → Prop
  | ok {a b} : r a b → Agrees r (.ok a) (.ok b)
  | error {e f} : e.Alike f → Agrees r (.error e) (.error f)

lemma agrees_same (x : Except Failure α) : Agrees Eq x x := by
  cases x with
  | ok a => exact .ok rfl
  | error e => exact .error (.same e)

lemma Agrees.bind {f g : α → Except Failure β} (h : Agrees r x y) (hf : ∀ a b, r a b → Agrees r' (f a) (g b)) :
    Agrees r' (x >>= f) (y >>= g) := by
  cases h with
  | ok hr => exact hf _ _ hr
  | error halike => exact .error halike

lemma Agrees.mono {r' : α → α → Prop} (h : Agrees r x y) (hr : ∀ a b, r a b → r' a b) : Agrees r' x y := by
  cases h with
  | ok hab => exact .ok (hr _ _ hab)
  | error halike => exact .error halike

end Agreement

lemma compile_agrees {p q : Program} (h : p.unplaced = q.unplaced) (exported : Bool) :
    Agrees Eq ((compile p exported).mapError Failure.compile) ((compile q exported).mapError Failure.compile) := by
  have hcompile := compile_of_unplaced h exported
  cases hp : compile p exported <;> cases hq : compile q exported <;> rw [hp, hq] at hcompile
  case ok.ok => exact .ok (Except.ok.inj hcompile)
  case error.error => exact .error (Failure.alike_compile (Except.error.inj hcompile))
  all_goals cases hcompile

end Keel
