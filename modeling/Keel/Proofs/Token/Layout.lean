import Keel.Proofs.Token.Genuine

namespace Keel

namespace Lexer

variable {c : Char} {rest : List Char} {ks : List Spelled}

inductive Filler where
  | blank (c : Char) (h : isBlank c = true)
  | comment (body : List Char) (h : '\n' ∉ body)

def Filler.text : Filler → List Char
  | blank c _ => [c]
  | comment body _ => '/' :: '/' :: body ++ ['\n']

/-- Whitespace and comments, whitespace first. -/
structure Separator where
  first : Char
  isBlank : isBlank first = true
  more : List Filler

def Separator.text (g : Separator) : List Char := g.first :: g.more.flatMap Filler.text

def spaced (lexemes : List (Separator × String)) (last : Option Separator) : List Char :=
  lexemes.flatMap (fun l => l.1.text ++ l.2.toList) ++ (last.map Separator.text).getD []

lemma mem_delimiters_of_isBlank (h : isBlank c = true) : c ∈ delimiters := by
  simp only [isBlank, Bool.or_eq_true, decide_eq_true_eq] at h
  rcases h with ((rfl | rfl) | rfl) | rfl <;> decide

lemma Separator.delimited (g : Separator) (rest : List Char) : Delimited (g.text ++ rest) :=
  delimited_cons (mem_delimiters_of_isBlank g.isBlank)

lemma delimited_spaced (lexemes : List (Separator × String)) (last : Option Separator) :
    Delimited (spaced lexemes last) := by
  cases lexemes with
  | nil =>
    cases last with
    | none => exact delimited_nil
    | some g =>
      have hg := g.delimited []
      rwa [List.append_nil] at hg
  | cons l lexemes =>
    rw [spaced, List.flatMap_cons, List.append_assoc, List.append_assoc]
    exact l.1.delimited _

lemma Reads.filler (h : Reads rest ks) (f : Filler) : Reads (f.text ++ rest) ks := by
  cases f with
  | blank c hc => exact h.blank hc
  | comment body hbody =>
    have hline : Reads ('\n' :: rest) ks := h.blank rfl
    have htake : ('/' :: body ++ '\n' :: rest).takeWhile (· ≠ '\n') = '/' :: body := by
      rw [List.takeWhile_append_of_pos]
      · simp
      · rw [List.forall_mem_cons]
        exact ⟨rfl, fun d hd => decide_eq_true fun h => hbody (h ▸ hd)⟩
    have hcomment := hline.passOver '/' ('/' :: body) fun place => by
      rw [piece, if_neg (by decide), if_pos (by simp), htake]
    simpa [Filler.text] using hcomment

lemma Reads.separator (h : Reads rest ks) (g : Separator) : Reads (g.text ++ rest) ks := by
  have hmore : Reads (g.more.flatMap Filler.text ++ rest) ks := by
    induction g.more with
    | nil => exact h
    | cons f fs ih =>
      rw [List.flatMap_cons, List.append_assoc]
      exact ih.filler f
  exact hmore.blank g.isBlank

lemma reads_spaced {before : List Token} (h : ∀ t ∈ before, Spelt t.kind t.lexeme.toList)
    {lexemes : List (Separator × String)} (hlexemes : lexemes.map Prod.snd = before.map Token.lexeme)
    (last : Option Separator) : Reads (spaced lexemes last) (before.map Token.spelled ++ [endSpelled]) := by
  induction lexemes generalizing before with
  | nil =>
    obtain rfl : before = [] := by simpa using hlexemes.symm
    cases last with
    | none => exact reads_nil
    | some g =>
      have hg := reads_nil.separator g
      rwa [List.append_nil] at hg
  | cons l lexemes ih =>
    obtain ⟨g, text⟩ := l
    cases before with
    | nil => cases hlexemes
    | cons t before =>
      obtain ⟨htext, hrest⟩ := List.cons.inj hlexemes
      obtain rfl : text = t.lexeme := htext
      obtain ⟨ht, hbefore⟩ := List.forall_mem_cons.mp h
      have hlast := ht.reads (ih hbefore hrest) (delimited_spaced lexemes last)
      have heq : spaced ((g, t.lexeme) :: lexemes) last = g.text ++ (t.lexeme.toList ++ spaced lexemes last) := by
        simp [spaced]
      rw [heq, List.map_cons, List.cons_append]
      rw [String.ofList_toList] at hlast
      exact hlast.separator g

end Lexer

open Lexer

lemma lex_spaced {source : String} {tokens : List Token} (h : lex source = .ok tokens)
    {lexemes : List (Separator × String)} (hlexemes : lexemes.map Prod.snd = tokens.dropLast.map Token.lexeme)
    (last : Option Separator) : ∃ tokens', lex (String.ofList (spaced lexemes last)) = .ok tokens' ∧
      tokens'.map Token.spelled = tokens.map Token.spelled := by
  obtain ⟨before, place, rfl, hbefore⟩ := lex_lexemes h
  rw [List.dropLast_concat] at hlexemes
  obtain ⟨tokens', hscan, hspelled⟩ := reads_spaced hbefore hlexemes last .start
  refine ⟨tokens', ?_, ?_⟩
  · rw [lex, String.toList_ofList]
    exact hscan
  · rw [hspelled, List.map_append]
    rfl

end Keel
