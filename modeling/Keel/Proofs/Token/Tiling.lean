import Keel.Proofs.Token.Spelt
import Keel.Proofs.Token.Units

namespace Keel

open Text Position

namespace Lexer

variable {c : Char} {cs before rest : List Char} {place : Position} {e : LexError} {ts : List Token}

inductive Tiled : List Char → List Token → List Char → Prop
  | finish (before : List Char) : Tiled before [Token.endOfInput (behind before)] []
  | blank {before rest : List Char} {ts : List Token} {c : Char} : isBlank c = true →
      Tiled (before ++ [c]) ts rest → Tiled before ts (c :: rest)
  | comment {before rest body : List Char} {ts : List Token} : '\n' ∉ body → (∀ c ∈ rest.head?, c = '\n') →
      Tiled (before ++ '/' :: '/' :: body) ts rest → Tiled before ts ('/' :: '/' :: body ++ rest)
  | lexeme {before rest text : List Char} {ts : List Token} {kind : TokenKind} : Spelt kind text →
      Tiled (before ++ text) ts rest →
      Tiled before (⟨kind, String.ofList text, behind before⟩ :: ts) (text ++ rest)

/-! The scanner goes through a text tile by tile. -/

lemma scan_behind (before text rest : List Char) (c : Char) :
    scan text.length ((behind before).advance c) (text ++ rest) = scan 0 (behind (before ++ c :: text)) rest := by
  rw [scan_skip, behind_append]
  rfl

inductive Begins (place : Position) (c : Char) (cs : List Char) : Except LexError Piece → Prop
  | blank : isBlank c = true → Begins place c cs (.ok (.blank 0))
  | comment (body rest : List Char) : c = '/' → cs = '/' :: body ++ rest → '\n' ∉ body → (∀ d ∈ rest.head?, d = '\n') →
      Begins place c cs (.ok (.blank (body.length + 1)))
  | lexeme {kind : TokenKind} {more : ℕ} (text rest : List Char) : cs = text ++ rest → more = text.length →
      Spelt kind (c :: text) → Begins place c cs (.ok (.lexeme kind more))
  | error {e : LexError} (passed rest : List Char) : c :: cs = passed ++ rest → e.position = place.advanceAll passed →
      Begins place c cs (.error e)

lemma begins_comment (place : Position) {cs : List Char} (h : cs.head? = some '/') :
    Begins place '/' cs (.ok (.blank (cs.takeWhile (· ≠ '\n')).length)) := by
  obtain ⟨cs, rfl⟩ := List.head?_eq_some_iff.mp h
  rw [List.takeWhile_cons_of_pos (by decide), List.length_cons]
  refine .comment _ (cs.dropWhile (· ≠ '\n')) rfl ?_ (fun hline => ?_) fun d hd => ?_
  · rw [List.cons_append, List.takeWhile_append_dropWhile]
  · simpa using List.mem_takeWhile_imp hline
  · have hnot := List.head?_dropWhile_not (fun c => decide (c ≠ '\n')) cs
    rw [Option.mem_def.mp hd] at hnot
    simpa using hnot

lemma quoted_error {start : Position} {read : List Char} {length : ℕ}
    (h : quoted start place read length cs = .error e) :
    e.position = start ∨ ∃ passed rest, cs = passed ++ rest ∧ e.position = place.advanceAll passed := by
  fun_induction quoted start place read length cs with
  | case1 | case3 =>
    cases h
    exact .inl rfl
  | case2 => cases h
  | case4 | case5 =>
    cases h
    exact .inr ⟨[], _, rfl, rfl⟩
  | case6 place read length c cs v hescape ih =>
    refine (ih h).imp_right ?_
    rintro ⟨passed, rest, rfl, hplace⟩
    exact ⟨'\\' :: c :: passed, rest, rfl, hplace⟩
  | case7 place read length c cs hquote hline hlast hescape ih =>
    refine (ih h).imp_right ?_
    rintro ⟨passed, rest, rfl, hplace⟩
    exact ⟨c :: passed, rest, rfl, hplace⟩

lemma begins_quoted (place : Position) (cs : List Char) :
    Begins place '"' cs ((quoted place (place.advance '"') [] 0 cs).map fun (value, length) =>
      .lexeme (.string (String.ofList value)) length) := by
  cases hquoted : quoted place (place.advance '"') [] 0 cs with
  | error e =>
    rcases quoted_error hquoted with hplace | ⟨passed, rest, rfl, hplace⟩
    · exact .error [] _ rfl hplace
    · exact .error ('"' :: passed) rest rfl hplace
  | ok result =>
    obtain ⟨w, length⟩ := result
    obtain ⟨text, value, rest, hread, rfl, rfl, rfl⟩ := exists_quoted hquoted
    exact .lexeme (text ++ ['"']) rest (by simp) (by simp) (.string hread)

lemma begins_word (place : Position) (h : isWordStart c = true) (cs : List Char) : Begins place c cs
    (.ok (.lexeme (wordKind (String.ofList (c :: cs.takeWhile isWordPart))) (cs.takeWhile isWordPart).length)) := by
  have hword : IsWord (String.ofList (c :: cs.takeWhile isWordPart)).toList := by
    rw [String.toList_ofList]
    exact ⟨h, List.all_eq_true.mpr fun x hx => List.mem_takeWhile_imp hx⟩
  have hspelt := spelt_word hword
  rw [String.toList_ofList] at hspelt
  exact .lexeme _ _ List.takeWhile_append_dropWhile.symm rfl hspelt

lemma begins_symbol (place : Position) (c : Char) (cs : List Char) : Begins place c cs (symbol place c cs) := by
  have hlexeme : ∀ {kind : TokenKind} (text rest : List Char), symbolKind? (String.ofList (c :: text)) = some kind →
      cs = text ++ rest → Begins place c cs (.ok (.lexeme kind text.length)) := by
    intro kind text rest hkind htext
    have hspelt := spelt_symbol hkind
    rw [String.toList_ofList] at hspelt
    exact .lexeme text rest htext rfl hspelt
  unfold symbol
  cases cs with
  | nil =>
    dsimp only
    split
    · exact hlexeme [] [] ‹_› rfl
    · exact .error [] _ rfl rfl
  | cons d cs =>
    dsimp only
    split
    · exact hlexeme [d] cs ‹_› rfl
    · split
      · exact hlexeme [] (d :: cs) ‹_› rfl
      · exact .error [] _ rfl rfl

lemma piece_begins (place : Position) (c : Char) (cs : List Char) : Begins place c cs (piece place c cs) := by
  unfold piece
  split_ifs with hblank hcomment hquote hdigit hword
  · exact .blank hblank
  · simp only [Bool.and_eq_true, decide_eq_true_eq, beq_iff_eq] at hcomment
    obtain ⟨rfl, hhead⟩ := hcomment
    exact begins_comment place hhead
  · subst hquote
    exact begins_quoted place cs
  · dsimp only
    split
    · refine .lexeme _ _ List.takeWhile_append_dropWhile.symm rfl (spelt_number ‹_› ⟨c, rfl, hdigit⟩ ?_)
      exact List.forall_mem_cons.mpr ⟨isNumberPart_of_isDigit hdigit, fun x hx => List.mem_takeWhile_imp hx⟩
    · exact .error [] _ rfl rfl
  · exact begins_word place hword cs
  · exact begins_symbol place c cs

structure Scanned (before rest : List Char) (result : Except LexError (List Token)) : Prop where
  tiled : ∀ ts, result = .ok ts → Tiled before ts rest
  placed : ∀ e, result = .error e → ∃ passed left, rest = passed ++ left ∧ e.position = behind (before ++ passed)

lemma Scanned.ok (h : Tiled before ts rest) : Scanned before rest (.ok ts) := by
  constructor
  · intro ts' heq
    cases heq
    exact h
  · intro e heq
    cases heq

lemma Scanned.error {passed left : List Char} (h : rest = passed ++ left)
    (hplace : e.position = behind (before ++ passed)) :
    Scanned before rest (.error e) := by
  constructor
  · intro ts heq
    cases heq
  · intro e' heq
    cases heq
    exact ⟨passed, left, h, hplace⟩

lemma Scanned.tile {tile : List Char} {f : List Token → List Token} {result : Except LexError (List Token)}
    (h : Scanned (before ++ tile) rest result)
    (hf : ∀ {ts}, Tiled (before ++ tile) ts rest → Tiled before (f ts) (tile ++ rest)) :
    Scanned before (tile ++ rest) (result.map f) := by
  cases result with
  | ok ts => exact .ok (hf (h.tiled ts rfl))
  | error e =>
    obtain ⟨passed, left, rfl, hplace⟩ := h.placed e rfl
    exact .error (List.append_assoc ..).symm (by rw [hplace, List.append_assoc])

-- By induction on the length of the text, of which every piece takes a character or more.
lemma scanned (before rest : List Char) : Scanned before rest (scan 0 (behind before) rest) := by
  induction hn : rest.length using Nat.strong_induction_on generalizing before rest with
  | h n ih =>
    cases rest with
    | nil => exact .ok (.finish before)
    | cons c cs =>
      have htile : ∀ text rest, cs = text ++ rest → Scanned (before ++ c :: text) rest
          (scan text.length ((behind before).advance c) cs) := by
        rintro text rest rfl
        rw [scan_behind]
        refine ih _ ?_ _ _ rfl
        rw [← hn, List.length_cons, List.length_append]
        omega
      rw [scan]
      have hbegins := piece_begins (behind before) c cs
      generalize piece (behind before) c cs = p at hbegins
      cases hbegins with
      | blank hc =>
        have hscan := (htile [] cs rfl).tile (f := id) (.blank hc)
        rwa [Except.map_id] at hscan
      | comment body rest hc hcs hbody hrest =>
        subst hc hcs
        have hscan := (htile _ _ rfl).tile (f := id) (.comment hbody hrest)
        rwa [Except.map_id] at hscan
      | lexeme text rest hcs hmore hspelt =>
        subst hcs hmore
        simp only [List.take_left]
        exact (htile _ _ rfl).tile (.lexeme hspelt)
      | error passed rest hcs hplace => exact .error hcs (by rw [hplace, behind_append])

lemma Tiled.closed (h : Tiled before ts rest) : ∃ tokens,
    ts = tokens ++ [Token.endOfInput (behind (before ++ rest))] ∧ ∀ t ∈ tokens, Spelt t.kind t.lexeme.toList := by
  induction h with
  | finish before => exact ⟨[], by simp, by simp⟩
  | blank _ _ ih =>
    obtain ⟨tokens, rfl, htokens⟩ := ih
    exact ⟨tokens, by simp, htokens⟩
  | comment _ _ _ ih =>
    obtain ⟨tokens, rfl, htokens⟩ := ih
    exact ⟨tokens, by simp, htokens⟩
  | lexeme hspelt _ ih =>
    obtain ⟨tokens, rfl, htokens⟩ := ih
    refine ⟨_ :: tokens, by rw [List.append_assoc]; rfl, List.forall_mem_cons.mpr ⟨?_, htokens⟩⟩
    rwa [String.toList_ofList]

end Lexer

end Keel
