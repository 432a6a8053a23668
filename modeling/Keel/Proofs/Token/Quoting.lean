import Keel.Proofs.Token.Scanning

/-! Quoting a string is undone by reading it, whatever text stands behind it. -/

namespace Keel

namespace Literal

def substituted (c : Char) (text cs : List Char) : List Char :=
  cs.flatMap fun d => if d = c then text else [d]

/-- Escapes characters in passes over the whole text. The pass for backslashes comes first, since all
others add some. -/
def escape (cs : List Char) : List Char :=
  substituted '\t' ['\\', 't'] (substituted '\n' ['\\', 'n'] (substituted '"' ['\\', '"']
    (substituted '\\' ['\\', '\\'] cs)))

lemma substituted_flatMap (c : Char) (text cs : List Char) (f : Char → List Char) :
    substituted c text (cs.flatMap f) = cs.flatMap fun d => substituted c text (f d) :=
  List.flatMap_assoc

lemma escape_eq (cs : List Char) : escape cs = cs.flatMap escaped := by
  -- the passes do to each character what its escape says: none meets what an earlier one has written
  have hfirst : substituted '\\' ['\\', '\\'] cs = cs.flatMap fun d => substituted '\\' ['\\', '\\'] [d] := by
    simp [substituted]
  unfold escape
  rw [hfirst, substituted_flatMap, substituted_flatMap, substituted_flatMap]
  congr 1
  funext d
  rw [escaped.eq_def]
  split
  · decide
  · decide
  · decide
  · decide
  · rename_i hslash hquote hline htab
    have hkept : ∀ {c : Char} (text : List Char), d ≠ c → substituted c text [d] = [d] := fun text h => by
      simp [substituted, h]
    rw [hkept _ hslash, hkept _ hquote, hkept _ hline, hkept _ htab]

lemma quoted_toList (value : String) : (quoted value).toList = '"' :: escape value.toList ++ ['"'] := by
  rw [quoted, String.toList_ofList, escape_eq]

end Literal

namespace Lexer

lemma quoted_escape (cs : List Char) : Quoted (Literal.escape cs) cs := by
  rw [Literal.escape_eq]
  exact .escaped cs

lemma Quoted.unique {text value value' : List Char} (h : Quoted text value) (h' : Quoted text value') :
    value = value' := by
  have hread := h.read .start .start [] [] 0
  rw [h'.read] at hread
  exact (Prod.mk.inj (Except.ok.inj hread)).1.symm

lemma escape_injective : Function.Injective Literal.escape := by
  intro cs ds h
  have hquoted := quoted_escape cs
  rw [h] at hquoted
  exact hquoted.unique (quoted_escape ds)

lemma scan_quoted (value : String) (place : Position) (rest : List Char) :
    scan 0 place ((Literal.quoted value).toList ++ rest) =
      (scan 0 (place.advanceAll (Literal.quoted value).toList) rest).map
        (⟨.string value, Literal.quoted value, place⟩ :: ·) := by
  set text := Literal.escape value.toList
  have hlist : (Literal.quoted value).toList = '"' :: (text ++ ['"']) := Literal.quoted_toList value
  have hlexeme : Literal.quoted value = String.ofList ('"' :: (text ++ ['"'])) := by
    rw [← hlist, String.ofList_toList]
  have hpiece : piece place '"' ((text ++ ['"']) ++ rest) = .ok (.lexeme (.string value) (text ++ ['"']).length) := by
    rw [List.append_assoc, List.singleton_append, piece_quoted (quoted_escape value.toList), String.ofList_toList,
      List.length_append, List.length_singleton]
  rw [hlist, List.cons_append, scan, hpiece]
  dsimp only
  rw [scan_skip, List.take_left, ← hlexeme]
  rfl

end Lexer

/-- Escaping is done in passes, loses nothing, and is undone by the lexer: a quoted string in front of any
text is the first token, with the string as its value, and the text behind it is read as it stands there. -/
theorem lex_quoted :
    (∀ value : String, (Literal.quoted value).toList = '"' :: Literal.escape value.toList ++ ['"']) ∧
      Function.Injective Literal.escape ∧
      ∀ value rest : String, lex (Literal.quoted value ++ rest) =
        (Lexer.scan 0 (Position.start.advanceAll (Literal.quoted value).toList) rest.toList).map
          (⟨.string value, Literal.quoted value, .start⟩ :: ·) := by
  refine ⟨Literal.quoted_toList, Lexer.escape_injective, fun value rest => ?_⟩
  rw [lex, String.toList_append]
  exact Lexer.scan_quoted value .start rest.toList

theorem lex_quoted_marks : lex "\"\\\\\\\"\"" =
    .ok [⟨.string "\\\"", "\"\\\\\\\"\"", .start⟩, .endOfInput ⟨1, 7, 6⟩] := by
  have hread := lex_quoted.2.2 "\\\"" ""
  rw [show Literal.quoted "\\\"" = "\"\\\\\\\"\"" by decide +kernel] at hread
  exact hread.trans (by rfl)

example : Literal.escape "\\\"".toList = "\\\\\\\"".toList := by decide

end Keel
