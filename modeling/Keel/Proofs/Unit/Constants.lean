import Keel.Proofs.Correctness.Programs
import Keel.Proofs.Floating.Nearest
import Keel.Proofs.Lowering.Embedding
import Keel.Proofs.Syntax.Literals
import Keel.Proofs.Unit.Occurrences

/-! The constants of 64 bits that whole numbers in a source text are compiled to. -/

namespace Keel

namespace Floating

variable {n k : ℕ}

lemma IsNearest.ofNat_eq_iff {x : Double} (h : x.IsNearest n) (hk : x.toRat = k) (hn : n < 2 ^ 63) :
    BitVec.ofNat 64 k = BitVec.ofNat 64 n ↔ ∃ y : Double, y.isFinite = true ∧ Canonical y ∧ y.toRat = n := by
  constructor
  · intro hbits
    have hle := h.le_of_lt hk hn
    have hmod := congrArg BitVec.toNat hbits
    rw [BitVec.toNat_ofNat, BitVec.toNat_ofNat, Nat.mod_eq_of_lt (by omega), Nat.mod_eq_of_lt (by omega)] at hmod
    exact ⟨x, h.finite, h.canonical, by rw [hk, hmod]⟩
  · rintro ⟨y, hy, hc, hvalue⟩
    have hsame := IsNearest.toRat_eq (hvalue.symm ▸ h) hy hc
    have hkn : (k : ℚ) = n := by rw [← hk, hsame, hvalue]
    rw [Nat.cast_inj.mp hkn]

end Floating

namespace Wasm

mutual

def Instr.constants : Instr → List Value
  | .const v => [v]
  | .nop | .localGet _ | .globalGet _ | .br _ => []
  | .localSet _ x | .localTee _ x | .globalSet _ x | .convert _ x | .drop x => x.constants
  | .binary _ x y | .ifThen x y => x.constants ++ y.constants
  | .ifElse c x y => c.constants ++ x.constants ++ y.constants
  | .call _ args => constantsOf args
  | .block _ _ body => constantsOf body

def constantsOf : List Instr → List Value
  | [] => []
  | x :: xs => x.constants ++ constantsOf xs

end

def Module.constants (m : Module) : List Value := m.functions.flatMap fun f => f.body.constants

lemma constants_subset {x : Instr} {xs : List Instr} (h : x ∈ xs) : x.constants ⊆ constantsOf xs := by
  induction xs with
  | nil => cases h
  | cons y xs ih =>
    obtain rfl | h := List.mem_cons.mp h
    · exact List.subset_append_left _ _
    · exact List.Subset.trans (ih h) (List.subset_append_right _ _)

lemma Instr.Within.constants {x y : Instr} (h : x.Within y) : x.constants ⊆ y.constants := by
  induction h with
  | self => exact List.Subset.refl _
  | localSet _ ih | localTee _ ih | globalSet _ ih | convert _ ih | drop _ ih => exact ih
  | left _ ih | test _ ih => exact List.Subset.trans ih (List.subset_append_left _ _)
  | right _ ih | «then» _ ih | no _ ih => exact List.Subset.trans ih (List.subset_append_right _ _)
  | choice _ ih =>
    exact List.Subset.trans ih (List.Subset.trans (List.subset_append_left _ _) (List.subset_append_left _ _))
  | yes _ ih =>
    exact List.Subset.trans ih (List.Subset.trans (List.subset_append_right _ _) (List.subset_append_left _ _))
  | argument hx _ ih | block hx _ ih => exact List.Subset.trans ih (constants_subset hx)

lemma Module.Holds.mem_constants {m : Module} {v : Value} (h : m.Holds (.const v)) : v ∈ m.constants := by
  obtain ⟨f, hf, hw⟩ := h
  exact List.mem_flatMap.mpr ⟨f, hf, hw.constants (List.mem_singleton_self v)⟩

end Wasm

open Floating Lowering

namespace Lowering

variable {value : Double} {type : ValueType} {place : Position} {x : Lowered}

lemma literal_finite (h : literal value type place = .ok x) : value.isFinite = true := by
  unfold literal at h
  split_ifs at h with hvoid hfinite
  simpa using hfinite

end Lowering

/-- What the digits of `n` are compiled to where literals are of 64 bits: the bits of the number `k`, which is the
double nearest to `n`. They are those of `n` for the doubles among these numbers, small ones among them, only. -/
structure LongConstant (m : Wasm.Module) (l : PlacedLiteral) (n k : ℕ) : Prop where
  code : literal l.value l.type l.position = .ok ⟨.const (.i64 (BitVec.ofNat 64 k)), .i64⟩
  holds : m.Holds (.const (.i64 (BitVec.ofNat 64 k)))
  nearest : ∃ x : Double, x.IsNearest n ∧ x.toRat = k
  exact_iff : n < 2 ^ 63 →
    (BitVec.ofNat 64 k = BitVec.ofNat 64 n ↔ ∃ y : Double, y.isFinite = true ∧ Canonical y ∧ y.toRat = n)
  small : n ≤ 2 ^ 53 → k = n

lemma longConstant {m : Wasm.Module} {l : PlacedLiteral} {n : ℕ} {x : Lowered} (hvalue : l.value = ofInt n)
    (htype : l.type = .i64) (h : literal l.value l.type l.position = .ok x) (hholds : m.Holds x.code) :
    ∃ k, LongConstant m l n k := by
  have hfinite : (ofInt n : Double).isFinite = true := hvalue ▸ literal_finite h
  obtain ⟨hnearest, k, hk⟩ := ofInt_nearest hfinite
  have htruncate : (ofInt n : Double).truncate? = some (k : ℤ) :=
    truncate?_of_toRat hfinite (by rw [hk, Int.cast_natCast])
  have hcode : x = ⟨.const (.i64 (BitVec.ofNat 64 k)), .i64⟩ := by
    obtain ⟨word, rfl, hword⟩ := literal_ok h
    rw [htype, hvalue] at hword
    simp only [Semantics.Value.literal, Semantics.Value.held, toBits, htruncate, Option.getD_some,
      Option.some.injEq, BitVec.ofInt_natCast] at hword
    rw [← hword, htype]
  rw [hcode] at h hholds
  exact ⟨k, h, hholds, ⟨_, hnearest, hk⟩, hnearest.ofNat_eq_iff hk, toRat_ofInt_of_le hk⟩

lemma Token.Denotes.long {t : Token} {l : PlacedLiteral} (h : t.Denotes l) (hcontext : l.context = .i64)
    (hspelt : Lexer.Spelt t.kind t.lexeme.toList) (hne : t.lexeme.toList ≠ [])
    (hdigits : ∀ c ∈ t.lexeme.toList, Lexer.isDigit c = true) :
    l.value = ofInt (Lexer.digitsValue t.lexeme.toList) ∧ l.type = .i64 := by
  have hkind := hspelt.unique (.int hne hdigits)
  obtain ⟨-, h⟩ := h
  rw [hkind] at h
  exact ⟨h.1.trans (toFloating_natural _), h.2.trans hcontext⟩

lemma partsOfAll_append (p q : Program) : Stmt.partsOfAll (p ++ q) = Stmt.partsOfAll p ++ Stmt.partsOfAll q := by
  induction p with
  | nil => rfl
  | cons st p ih =>
    rw [List.cons_append, Stmt.partsOfAll, Stmt.partsOfAll, ih, List.append_assoc]

lemma parts_flatMap {units : List SourceUnit} {u : SourceUnit} (hu : u ∈ units) :
    u.program.parts ⊆ Program.parts (units.flatMap SourceUnit.program) := by
  unfold Program.parts
  obtain ⟨before, after, rfl⟩ := List.append_of_mem hu
  rw [List.flatMap_append, List.flatMap_cons, partsOfAll_append, partsOfAll_append]
  intro e he
  simp [he]

/-- Digits where literals are of 64 bits are compiled to the double nearest to them. -/
theorem buildSource_longs {o : BuildOptions} {path source : String} {m : Wasm.Module}
    (h : buildSource o path source = .ok m) :
    ∃ units, linkUnits o.host o.table path source = .ok units ∧ ∀ u ∈ units, ∃ text tokens,
      (Linkage.mk o.host o.table (o.host.canonical path) source).text? u.path = some text ∧ lex text = .ok tokens ∧
        ∀ l ∈ u.program.placedLiterals, l.context = .i64 → ∃ t ∈ tokens, t.Denotes l ∧
          ((∀ c ∈ t.lexeme.toList, Lexer.isDigit c = true) →
            ∃ k, LongConstant m l (Lexer.digitsValue t.lexeme.toList) k) := by
  obtain ⟨units, hunits, hcompile⟩ := buildSource_ok h
  obtain ⟨tables, code, s, hm⟩ := lower_ok (compile_ok hcompile).1
  refine ⟨units, hunits, fun u hu => ?_⟩
  obtain ⟨text, htext, hparse⟩ := (linkUnits_complete hunits).loads u hu
  obtain ⟨tokens, hlex, hdenoted⟩ := parseText_denoted hparse
  refine ⟨text, tokens, htext, hlex, fun l hl hcontext => ?_⟩
  obtain ⟨t, ht, hdenotes⟩ := hdenoted l hl
  refine ⟨t, ht, hdenotes, fun hdigits => ?_⟩
  obtain ⟨before, last, rfl, hbefore⟩ := lex_lexemes hlex
  obtain ht | ht := List.mem_append.mp ht
  · have hspelt := hbefore t ht
    obtain ⟨hvalue, htype⟩ := hdenotes.long hcontext hspelt hspelt.ne_nil hdigits
    obtain ⟨r, x, v, hx, -, hholds⟩ :=
      hm.holds (parts_flatMap hu (Stmt.node_mem_partsOfAll _ _ l hl)) rfl
    exact longConstant hvalue htype (expression_number hx).1 hholds
  · obtain rfl := List.mem_singleton.mp ht
    exact hdenotes.2.elim

def longSource : String := "i64 limit = 5000000000;\nfn f() -> i64 \x7b return 9007199254740993; \x7d\n"

def longBuild : BuildOptions := ⟨.ofFiles [], .standard, true⟩

theorem buildSource_longs_returned : ∃ m units u tokens l t k, buildSource longBuild "main.keel" longSource = .ok m ∧
    linkUnits longBuild.host longBuild.table "main.keel" longSource = .ok units ∧ u ∈ units ∧
      lex longSource = .ok tokens ∧ l ∈ u.program.placedLiterals ∧ l.context = .i64 ∧ t ∈ tokens ∧ t.Denotes l ∧
        t.lexeme = "9007199254740993" ∧ LongConstant m l 9007199254740993 k := by
  have hcheck : (match buildSource longBuild "main.keel" longSource,
        linkUnits longBuild.host longBuild.table "main.keel" longSource, lex longSource with
      | .ok _, .ok units, .ok tokens => decide (∃ u ∈ units, u.path = "main.keel" ∧ ∃ l ∈ u.program.placedLiterals,
          l.context = .i64 ∧ ∀ t ∈ tokens, t.position = l.position → t.lexeme = "9007199254740993")
      | _, _, _ => false) = true := by decide +kernel
  split at hcheck
  · rename_i m units tokens hm hunits hlex
    obtain ⟨u, hu, hpath, l, hl, hcontext, htokens⟩ := of_decide_eq_true hcheck
    obtain ⟨units', hunits', hlongs⟩ := buildSource_longs hm
    obtain rfl : units = units' := Except.ok.inj (hunits.symm.trans hunits')
    obtain ⟨text, tokens', htext, hlex', hliterals⟩ := hlongs u hu
    obtain rfl : longSource = text := by
      rw [hpath] at htext
      exact Option.some.inj htext
    obtain rfl : tokens = tokens' := Except.ok.inj (hlex.symm.trans hlex')
    obtain ⟨t, ht, hdenotes, hconstant⟩ := hliterals l hl hcontext
    have hlexeme := htokens t ht hdenotes.1
    rw [hlexeme] at hconstant
    obtain ⟨k, hk⟩ := hconstant (List.all_eq_true.mp rfl)
    exact ⟨m, units, u, tokens, l, t, k, hm, hunits, hu, hlex, hl, hcontext, ht, hdenotes, hlexeme, hk⟩
  · cases hcheck

def roundedSource : String := "fn f() -> i64 \x7b return 9007199254740993; \x7d\n"

theorem buildSource_rounds_long : ∃ m, buildSource longBuild "main.keel" roundedSource = .ok m ∧
    m.constants = [.i64 9007199254740992] ∧ ¬ m.Holds (.const (.i64 9007199254740993)) := by
  have hcheck : (match buildSource longBuild "main.keel" roundedSource with
      | .ok m => decide (m.constants = [.i64 9007199254740992])
      | .error _ => false) = true := by decide +kernel
  split at hcheck
  · rename_i m hm
    have hconstants := of_decide_eq_true hcheck
    refine ⟨m, hm, hconstants, fun hholds => ?_⟩
    have hmem := hholds.mem_constants
    rw [hconstants] at hmem
    exact absurd hmem (by decide)
  · cases hcheck

end Keel
