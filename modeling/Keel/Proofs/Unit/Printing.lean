import Keel.Proofs.Lowering.Assignments
import Keel.Proofs.Syntax.RoundTrip
import Keel.Proofs.Unit.Agreement

/-! Programs and their printed texts are compiled alike. -/

namespace Keel

variable {table : Precedences} {source indent : String} {p : Program} {exported : Bool}

lemma parseText_print_settled (ht : table.Integral) (hi : indent.toList.all Lexer.isBlank = true)
    (h : parseText source table = .ok p) (hp : ∀ e ∈ p.parts, e.Legible ⟨table, indent⟩) :
    ∃ q, parseText (print p ⟨table, indent⟩) table = .ok q ∧ p.settled.alike q = true := by
  have hshape := parseText_shaped h
  have ht' : (⟨table, indent⟩ : PrintStyle).table.Integral := ht
  have hi' : Lexer.BlankIndent ⟨table, indent⟩ := hi
  obtain ⟨tokens, hlex, hspells⟩ := Lexer.reads_program ht' hi' hshape (fun e he => (hp e he).finite) .start
  obtain ⟨q, t, hq, halike⟩ := Parser.derives_settled ht' hshape hp (s := .ofTokens tokens) hspells
  exact ⟨q, parseText_ok.mpr ⟨tokens, hlex, Parser.parse_complete hq⟩, halike⟩

/-- A program that is compiled, or in which no `=` is printed behind a text that would take it for its own, is compiled
like its printed text: to the same module, or not for the same reason. -/
theorem compile_print (hi : indent.toList.all Lexer.isBlank = true) (h : parseText source .standard = .ok p)
    (hf : ∀ e ∈ p.parts, e.Finite)
    (hp : (∃ m, compile p exported = .ok m) ∨ ∀ e ∈ p.parts, e.KeepsTarget ⟨.standard, indent⟩) :
    ∃ q, parseText (print p ⟨.standard, indent⟩) .standard = .ok q ∧
      Agrees Eq ((compile q exported).mapError .compile) ((compile p exported).mapError .compile) := by
  have hkeeps : ∀ e ∈ p.parts, e.KeepsTarget ⟨.standard, indent⟩ := by
    obtain ⟨m, hm⟩ | hkeeps := hp
    · exact fun e he => (compile_targeted hm e he).keepsTarget
    · exact hkeeps
  obtain ⟨q, hq, halike⟩ := parseText_print_settled Precedences.integral_standard hi h fun e he =>
    ⟨hf e he, hkeeps e he, fun _ => Precedences.assignsLast_standard⟩
  have hcompile := compile_agrees (Program.alike_iff.mp halike).symm exported
  rw [compile_settled] at hcompile
  exact ⟨q, hq, hcompile⟩

def printedSource : String := "i32 x = 1; (x) = 2 + (x = 3); 1 + f((x) = 4) = x;"

theorem compile_print_noTarget : ∃ p q, parseText printedSource .standard = .ok p ∧
    parseText (print p ⟨.standard, "  "⟩) .standard = .ok q ∧
      Agrees Eq ((compile q true).mapError .compile) ((compile p true).mapError .compile) := by
  have hcheck : (match parseText printedSource .standard with
      | .ok p => decide (∀ e ∈ p.parts, e.Finite) && decide (∀ e ∈ p.parts, e.KeepsTarget ⟨.standard, "  "⟩)
      | .error _ => false) = true := by decide +kernel
  split at hcheck
  · rename_i p hp
    rw [Bool.and_eq_true, decide_eq_true_eq, decide_eq_true_eq] at hcheck
    obtain ⟨q, hq, hcompile⟩ := compile_print (by decide) hp hcheck.1 (.inr hcheck.2)
    exact ⟨p, q, hp, hq, hcompile⟩
  · cases hcheck

def regroupedSource : String := "i32 x = 1;\n(1 + x) = 3;\n"

theorem compile_print_regrouped : ∃ p q e m, parseText regroupedSource .standard = .ok p ∧
    (∀ e ∈ p.parts, e.Finite) ∧ parseText (print p ⟨.standard, "  "⟩) .standard = .ok q ∧
      compile p true = .error e ∧ e.cause.code = .invalidOperator ∧ compile q true = .ok m := by
  have hcheck : (match parseText regroupedSource .standard with
      | .ok p => decide (∀ e ∈ p.parts, e.Finite) &&
        match compile p true, parseText (print p ⟨.standard, "  "⟩) .standard with
        | .error e, .ok q => decide (e.cause.code = .invalidOperator) && (compile q true).isOk
        | _, _ => false
      | .error _ => false) = true := by decide +kernel
  split at hcheck
  · rename_i p hp
    rw [Bool.and_eq_true, decide_eq_true_eq] at hcheck
    obtain ⟨hfinite, hcheck⟩ := hcheck
    split at hcheck
    · rename_i e q he hq
      rw [Bool.and_eq_true, decide_eq_true_eq] at hcheck
      cases hm : compile q true with
      | ok m => exact ⟨p, q, e, m, hp, hfinite, hq, he, hcheck.1, hm⟩
      | error e' =>
        rw [hm] at hcheck
        cases hcheck.2
    · cases hcheck
  · cases hcheck

end Keel
