import Keel.Proofs.Token.Layout
import Keel.Proofs.Unit.Agreement

/-! What a text is built into does not depend on its layout. -/

namespace Keel

def SameTokens (source text : String) : Prop := ∃ tokens tokens', lex source = .ok tokens ∧ lex text = .ok tokens' ∧
  tokens.map Token.unplaced = tokens'.map Token.unplaced

section Texts

variable {source text : String} (h : SameTokens source text)

include h

lemma parseText_agrees (table : Precedences) :
    Agrees (fun p q => p.unplaced = q.unplaced) (parseText source table) (parseText text table) := by
  obtain ⟨tokens, tokens', hlex, hlex', hsame⟩ := h
  have hparse := parse_unplaced tokens table
  rw [hsame, parse_unplaced tokens' table] at hparse
  simp only [parseText, hlex, hlex']
  cases hp : parse tokens table <;> cases hq : parse tokens' table <;> rw [hp, hq] at hparse
  case ok.ok => exact .ok (Except.ok.inj hparse).symm
  case error.error => exact .error (Failure.alike_ofHalt (Except.error.inj hparse).symm)
  all_goals cases hparse

end Texts

namespace Linking

variable {host : SourceFiles} {table : Precedences} {path : String}

lemma follow_agrees (visit : String → String → State → Except Failure State) {i j : Import} (h : i.path = j.path)
    (s : State) : Agrees Eq (follow host visit path s i) (follow host visit path s j) := by
  unfold follow sourceOf
  rw [h]
  dsimp only
  split_ifs
  · exact .ok rfl
  · cases host.read (host.resolve path j.path) with
    | ok source => exact agrees_same _
    | error reason => exact .error (Failure.alike_compile rfl)

lemma followAll_agrees (visit : String → String → State → Except Failure State) {is js : List Import}
    (h : is.map Import.path = js.map Import.path) (s : State) :
    Agrees Eq (is.foldlM (follow host visit path) s) (js.foldlM (follow host visit path) s) := by
  induction is generalizing js s with
  | nil =>
    obtain rfl : js = [] := by simpa using h.symm
    exact .ok rfl
  | cons i is ih =>
    cases js with
    | nil => cases h
    | cons j js =>
      obtain ⟨hpath, hrest⟩ := List.cons.inj h
      rw [List.foldlM_cons, List.foldlM_cons]
      refine (follow_agrees visit hpath s).bind ?_
      rintro t _ rfl
      exact ih hrest t

end Linking

mutual

lemma Stmt.imports_mapped (f : Mapping) : ∀ st : Stmt,
    (st.mapped f).imports.map Import.path = st.imports.map Import.path
  | .function _ _ body => Stmt.importsOfAll_mapped f body
  | .expression value => value.imports_mapped f
  | .call _ _ _ | .declare _ _ _ _ | .prototype _ | .ret _ _ => rfl

lemma Expr.imports_mapped (f : Mapping) : ∀ e : Expr, (e.mapped f).imports.map Import.path = e.imports.map Import.path
  | .conditional _ _ _ body => Stmt.importsOfAll_mapped f body
  | .importFile _ _ | .number _ _ _ | .reference _ _ | .binary _ _ _ _ | .call _ _ _ | .cast _ _ _ | .assign _ _ _
  | .string _ _ => rfl

lemma Stmt.importsOfAll_mapped (f : Mapping) : ∀ ss : List Stmt,
    (Stmt.importsOfAll (Stmt.mappedAll f ss)).map Import.path = (Stmt.importsOfAll ss).map Import.path
  | [] => rfl
  | st :: ss => by
    rw [Stmt.mappedAll, Stmt.importsOfAll, Stmt.importsOfAll, List.map_append, st.imports_mapped f,
      Stmt.importsOfAll_mapped f ss, List.map_append]

end

lemma imports_of_unplaced {p q : Program} (h : p.unplaced = q.unplaced) :
    p.imports.map Import.path = q.imports.map Import.path := by
  have hmapped : ∀ p : Program, p.unplaced.imports.map Import.path = p.imports.map Import.path :=
    fun p => Stmt.importsOfAll_mapped unplacing p
  rw [← hmapped p, h, hmapped q]

lemma unplaced_append (p q : Program) : Program.unplaced (p ++ q) = p.unplaced ++ q.unplaced := by
  unfold Program.unplaced Program.mapped
  rw [mappedAll_eq_map, mappedAll_eq_map, mappedAll_eq_map, List.map_append]

section Texts

variable {source text : String} (h : SameTokens source text)

include h

lemma linkUnits_agrees (host : SourceFiles) (table : Precedences) (path : String) :
    Agrees (fun us vs => Program.unplaced (us.flatMap SourceUnit.program) = Program.unplaced
    (vs.flatMap SourceUnit.program))
      (linkUnits host table path source) (linkUnits host table path text) := by
  unfold linkUnits
  rw [Linking.visit, Linking.visit]
  refine Agrees.bind ((parseText_agrees h table).bind fun p q hprograms => ?_) fun s t hunits => .ok hunits
  refine (Linking.followAll_agrees _ (imports_of_unplaced hprograms) _).bind ?_
  rintro s _ rfl
  refine .ok ?_
  dsimp only
  rw [List.flatMap_append, List.flatMap_append, unplaced_append, unplaced_append]
  congr 1
  simpa using hprograms

lemma link_agrees (host : SourceFiles) (table : Precedences) (path : String) :
    Agrees (fun p q => p.unplaced = q.unplaced) (link host table path source) (link host table path text) := by
  unfold link
  exact (linkUnits_agrees h host table path).bind fun _ _ hunits => .ok hunits

lemma buildSource_agrees (o : BuildOptions) (path : String) :
    Agrees Eq (buildSource o path source) (buildSource o path text) := by
  unfold buildSource
  exact (link_agrees h o.host o.table path).bind fun _ _ hprograms => compile_agrees hprograms _

end Texts

lemma sameTokens_of_spelled {source text : String} {tokens tokens' : List Token} (h : lex source = .ok tokens)
    (h' : lex text = .ok tokens') (hspelled : tokens'.map Token.spelled = tokens.map Token.spelled) :
    SameTokens text source := by
  have hunplaced : ∀ ts : List Token,
      ts.map Token.unplaced = (ts.map Token.spelled).map fun t => ⟨t.1, t.2, .start⟩ := by
    intro ts
    rw [List.map_map]
    rfl
  exact ⟨tokens', tokens, h', h, by rw [hunplaced, hspelled, hunplaced]⟩

open Lexer

/-- A text with the lexemes of another one, and with whitespace and comments of any kind between them, has the same
tokens, is the same program but for places, and is built into the same module; or both fail alike. -/
theorem build_spaced {source : String} {tokens : List Token} (h : lex source = .ok tokens)
    {lexemes : List (Separator × String)} (hlexemes : lexemes.map Prod.snd = tokens.dropLast.map Token.lexeme)
    (last : Option Separator) :
    (∃ tokens', lex (String.ofList (spaced lexemes last)) = .ok tokens' ∧
      tokens'.map Token.spelled = tokens.map Token.spelled) ∧
    (∀ table, Agrees (fun p q => p.alike q = true) (parseText (String.ofList (spaced lexemes last)) table)
      (parseText source table)) ∧
    (∀ host table path, Agrees (fun p q => p.alike q = true)
      (link host table path (String.ofList (spaced lexemes last))) (link host table path source)) ∧
    ∀ o path, Agrees Eq (buildSource o path (String.ofList (spaced lexemes last))) (buildSource o path source) := by
  obtain ⟨tokens', h', hspelled⟩ := lex_spaced h hlexemes last
  have hsame := sameTokens_of_spelled h h' hspelled
  have halike : ∀ p q : Program, p.unplaced = q.unplaced → p.alike q = true := fun p q => Program.alike_iff.mpr
  exact ⟨⟨tokens', h', hspelled⟩, fun table => (parseText_agrees hsame table).mono halike,
    fun host table path => (link_agrees hsame host table path).mono halike,
    fun o path => buildSource_agrees hsame o path⟩

def tightSource : String := "i32 x=1;fn f()->i32\x7breturn x/2;\x7d"

def looseLexemes : List (Separator × String) :=
  [(⟨'\n', rfl, [.comment [' ', 'y', '='] (by decide), .blank '\t' rfl]⟩, "i32"), (⟨' ', rfl, []⟩, "x"),
    (⟨'\r', rfl, [.blank '\n' rfl]⟩, "="), (⟨' ', rfl, []⟩, "1"), (⟨' ', rfl, []⟩, ";"), (⟨'\n', rfl, []⟩, "fn"),
    (⟨' ', rfl, []⟩, "f"), (⟨' ', rfl, []⟩, "("), (⟨' ', rfl, []⟩, ")"), (⟨' ', rfl, []⟩, "->"),
    (⟨' ', rfl, []⟩, "i32"), (⟨' ', rfl, []⟩, "\x7b"), (⟨'\n', rfl, []⟩, "return"), (⟨' ', rfl, []⟩, "x"),
    (⟨' ', rfl, []⟩, "/"), (⟨' ', rfl, [.comment [] (by decide)]⟩, "2"), (⟨' ', rfl, []⟩, ";"),
    (⟨'\n', rfl, []⟩, "\x7d")]

theorem build_spaced_comment : ∃ tokens, lex tightSource = .ok tokens ∧
    String.ofList (spaced looseLexemes none) =
      "\n// y=\n\ti32 x\r\n= 1 ;\nfn f ( ) -> i32 \x7b\nreturn x / //\n2 ;\n\x7d" ∧
    Agrees Eq (buildSource ⟨.ofFiles [], .standard, true⟩ "main.keel" (String.ofList (spaced looseLexemes none)))
      (buildSource ⟨.ofFiles [], .standard, true⟩ "main.keel" tightSource) ∧
    (buildSource ⟨.ofFiles [], .standard, true⟩ "main.keel" tightSource).isOk = true := by
  have hcheck : (match lex tightSource with
      | .ok tokens => decide (looseLexemes.map Prod.snd = tokens.dropLast.map Token.lexeme)
      | .error _ => false) = true := by decide +kernel
  cases hlex : lex tightSource with
  | error e =>
    rw [hlex] at hcheck
    cases hcheck
  | ok tokens =>
    rw [hlex] at hcheck
    have hbuild := (build_spaced hlex (of_decide_eq_true hcheck) none).2.2.2
    exact ⟨tokens, rfl, by decide +kernel, hbuild _ _, by decide +kernel⟩

end Keel
