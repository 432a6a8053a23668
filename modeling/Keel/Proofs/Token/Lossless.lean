import Keel.Proofs.Token.Tiling

/-! No unit of a text is lost but for whitespace and comments, and every place is exact. -/

namespace Keel

open Text Position

namespace Token

def units (t : Token) : List ℕ := Text.units t.lexeme.toList

def finish (t : Token) : ℕ := t.position.offset + t.units.length

end Token

namespace Text

def blanks : List ℕ := [' ', '\n', '\t', '\r'].map Char.toNat

structure Comment (us : List ℕ) (start stop : ℕ) : Prop where
  opened : ['/'.toNat, '/'.toNat] <+: us.drop start
  long : start + 2 ≤ stop
  stop_le : stop ≤ us.length
  line : newline ∉ (us.take stop).drop start
  closed : ∀ u ∈ us[stop]?, u = newline

end Text

/-- Of a text, given by its units, the tokens leave out nothing but whitespace and comments. -/
structure Lossless (us : List ℕ) (tokens : List Token) : Prop where
  closed : ∃ before last, tokens = before ++ [Token.endOfInput last] ∧ last.offset = us.length ∧
    ∀ t ∈ before, t.kind ≠ .endOfInput ∧ t.lexeme ≠ "" ∧
      ∀ kind, Lexer.Spelt kind t.lexeme.toList ↔ kind = t.kind
  placed : ∀ t ∈ tokens, t.position.In us
  slice : ∀ t ∈ tokens, (us.drop t.position.offset).take t.units.length = t.units
  ordered : tokens.Pairwise fun t t' => t.finish ≤ t'.position.offset
  between : ∀ i, (h : i < us.length) → (∃ t ∈ tokens, t.position.offset ≤ i ∧ i < t.finish) ∨ us[i] ∈ Text.blanks ∨
    ∃ start stop, Text.Comment us start stop ∧ start ≤ i ∧ i < stop ∧
      ∀ t ∈ tokens, t.finish ≤ start ∨ stop ≤ t.position.offset

namespace Lexer

variable {c : Char} {cs before rest : List Char} {ts : List Token}

lemma Tiled.stands (h : Tiled before ts rest) {t : Token} (ht : t ∈ ts) :
    ∃ passed after, rest = passed ++ t.lexeme.toList ++ after ∧ t.position = behind (before ++ passed) := by
  induction h with
  | finish before =>
    obtain rfl := List.mem_singleton.mp ht
    exact ⟨[], [], rfl, by simp [Token.endOfInput]⟩
  | blank _ _ ih =>
    obtain ⟨passed, after, rfl, hplace⟩ := ih ht
    exact ⟨_ :: passed, after, rfl, by simpa using hplace⟩
  | @comment before rest body ts _ _ _ ih =>
    obtain ⟨passed, after, rfl, hplace⟩ := ih ht
    exact ⟨'/' :: '/' :: body ++ passed, after, by simp, by simpa using hplace⟩
  | @lexeme before rest text ts kind _ _ ih =>
    rcases List.mem_cons.mp ht with rfl | ht
    · exact ⟨[], rest, by simp, by simp⟩
    · obtain ⟨passed, after, rfl, hplace⟩ := ih ht
      exact ⟨text ++ passed, after, by simp, by simpa using hplace⟩

lemma Tiled.le_offset (h : Tiled before ts rest) {t : Token} (ht : t ∈ ts) :
    (Text.units before).length ≤ t.position.offset := by
  obtain ⟨passed, after, -, hplace⟩ := h.stands ht
  rw [hplace, offset_behind]
  exact length_units_le before passed

lemma Tiled.ordered (h : Tiled before ts rest) : ts.Pairwise fun t t' => t.finish ≤ t'.position.offset := by
  induction h with
  | finish before => exact List.pairwise_singleton _ _
  | blank _ _ ih => exact ih
  | comment _ _ _ ih => exact ih
  | lexeme _ hrest ih =>
    refine List.Pairwise.cons (fun t ht => le_trans (le_of_eq ?_) (hrest.le_offset ht)) ih
    simp [Token.finish, Token.units]

lemma comment_units {body : List Char} (hbody : '\n' ∉ body) (hrest : ∀ c ∈ rest.head?, c = '\n') :
    Text.Comment (Text.units (before ++ ('/' :: '/' :: body ++ rest))) (Text.units before).length
      (Text.units (before ++ '/' :: '/' :: body)).length := by
  have hunits : Text.units (before ++ ('/' :: '/' :: body ++ rest)) =
      Text.units (before ++ '/' :: '/' :: body) ++ Text.units rest := by
    rw [← List.append_assoc, units_append]
  constructor
  · rw [units_append, List.drop_left]
    exact ⟨Text.units (body ++ rest), rfl⟩
  · rw [units_append, List.length_append]
    exact Nat.add_le_add_left (Nat.le_add_left 2 _) _
  · rw [hunits, List.length_append]
    exact Nat.le_add_right _ _
  · rw [hunits, List.take_left, units_append, List.drop_left, newline_mem_units]
    simpa using hbody
  · rw [hunits, List.getElem?_append_right le_rfl, Nat.sub_self]
    cases rest with
    | nil => exact fun _ h => nomatch h
    | cons c rest =>
      obtain rfl := hrest c rfl
      exact fun u hu => (Option.some.inj hu).symm

lemma blank_unit (h : isBlank c = true) : unitsOf c = [c.toNat] ∧ c.toNat ∈ Text.blanks := by
  simp only [isBlank, Bool.or_eq_true, decide_eq_true_eq] at h
  rcases h with ((rfl | rfl) | rfl) | rfl <;> decide

lemma Tiled.between (h : Tiled before ts rest) {us : List ℕ} (hus : us = Text.units (before ++ rest)) {i u : ℕ}
    (hlow : (Text.units before).length ≤ i) (hu : us[i]? = some u) :
    (∃ t ∈ ts, t.position.offset ≤ i ∧ i < t.finish) ∨ u ∈ Text.blanks ∨
      ∃ start stop, Text.Comment us start stop ∧ start ≤ i ∧ i < stop ∧
        (Text.units before).length ≤ start ∧ ∀ t ∈ ts, t.finish ≤ start ∨ stop ≤ t.position.offset := by
  -- A unit lies in the first tile, or behind it.
  induction h with
  | finish before =>
    obtain ⟨hi, -⟩ := List.getElem?_eq_some_iff.mp hu
    rw [hus, List.append_nil] at hi
    exact absurd hi (not_lt.mpr hlow)
  | @blank before rest ts c hc hrest ih =>
    have htile : us = Text.units (before ++ [c] ++ rest) := by rw [hus, List.append_assoc]; rfl
    obtain hi | hi := lt_or_ge i (Text.units (before ++ [c])).length
    · obtain ⟨hunits, hblank⟩ := blank_unit hc
      rw [units_append, units_singleton, hunits, List.length_append, List.length_singleton] at hi
      obtain rfl : i = (Text.units before).length := by omega
      rw [htile, units_append, units_append, units_singleton, hunits, List.append_assoc,
        List.getElem?_append_right le_rfl, Nat.sub_self] at hu
      exact .inr (.inl (Option.some.inj hu ▸ hblank))
    · refine (ih htile hi).imp_right (Or.imp_right ?_)
      rintro ⟨start, stop, hcomment, hstart, hstop, hle, hapart⟩
      exact ⟨start, stop, hcomment, hstart, hstop, (length_units_le before _).trans hle, hapart⟩
  | @comment before rest body ts hbody hline hrest ih =>
    have htile : us = Text.units (before ++ '/' :: '/' :: body ++ rest) := by rw [hus, List.append_assoc]
    obtain hi | hi := lt_or_ge i (Text.units (before ++ '/' :: '/' :: body)).length
    · exact .inr (.inr ⟨_, _, hus ▸ comment_units hbody hline, hlow, hi, le_rfl, fun t ht =>
        .inr (hrest.le_offset ht)⟩)
    · refine (ih htile hi).imp_right (Or.imp_right ?_)
      rintro ⟨start, stop, hcomment, hstart, hstop, hle, hapart⟩
      exact ⟨start, stop, hcomment, hstart, hstop, (length_units_le before _).trans hle, hapart⟩
  | @lexeme before rest text ts kind hspelt hrest ih =>
    have htile : us = Text.units (before ++ text ++ rest) := by rw [hus, List.append_assoc]
    set t : Token := ⟨kind, String.ofList text, behind before⟩
    have hfinish : t.finish = (Text.units (before ++ text)).length := by simp [t, Token.finish, Token.units]
    obtain hi | hi := lt_or_ge i (Text.units (before ++ text)).length
    · exact .inl ⟨t, List.mem_cons_self, by simpa [t] using hlow, by rwa [hfinish]⟩
    · rcases ih htile hi with ⟨t', ht', hcovers⟩ | hblank | ⟨start, stop, hcomment, hstart, hstop, hle, hapart⟩
      · exact .inl ⟨t', List.mem_cons_of_mem _ ht', hcovers⟩
      · exact .inr (.inl hblank)
      · exact .inr (.inr ⟨start, stop, hcomment, hstart, hstop, (length_units_le before text).trans hle,
          List.forall_mem_cons.mpr ⟨.inl (hfinish.trans_le hle), hapart⟩⟩)

lemma Tiled.lossless (h : Tiled [] ts cs) : Lossless (Text.units cs) ts where
  closed := by
    obtain ⟨tokens, rfl, htokens⟩ := h.closed
    refine ⟨tokens, _, rfl, offset_behind _, fun t ht => ?_⟩
    have hspelt := htokens t ht
    refine ⟨hspelt.ne_endOfInput, fun hempty => hspelt.ne_nil (by rw [hempty]; rfl), fun kind => ?_⟩
    exact ⟨fun hkind => hkind.unique hspelt, fun hkind => hkind ▸ hspelt⟩
  placed t ht := by
    obtain ⟨passed, after, rfl, hplace⟩ := h.stands ht
    rw [hplace, List.append_assoc]
    exact behind_in _ _
  slice t ht := by
    obtain ⟨passed, after, rfl, hplace⟩ := h.stands ht
    rw [hplace, List.nil_append, offset_behind, units_append, units_append, List.append_assoc, List.drop_left]
    exact List.take_left
  ordered := h.ordered
  between i hi := by
    refine (h.between rfl (Nat.zero_le i) (List.getElem?_eq_getElem hi)).imp_right (Or.imp_right ?_)
    rintro ⟨start, stop, hcomment, hstart, hstop, -, hapart⟩
    exact ⟨start, stop, hcomment, hstart, hstop, hapart⟩

end Lexer

/-- The tokens of a text make it up but for whitespace and comments, and are placed at their own units. A
failure is placed at a unit, too. -/
theorem lex_lossless (source : String) :
    (∀ tokens, lex source = .ok tokens → Lossless (Text.units source.toList) tokens) ∧
      ∀ e, lex source = .error e → e.position.In (Text.units source.toList) := by
  have hscanned := Lexer.scanned [] source.toList
  constructor
  · intro tokens h
    exact (hscanned.tiled tokens h).lossless
  · intro e h
    obtain ⟨passed, left, htext, hplace⟩ := hscanned.placed e h
    rw [hplace, htext]
    exact behind_in passed left

theorem lex_lossless_quoted : ∃ tokens e, lex "// \u00e9\n\"\u00e9\"" = .ok tokens ∧
    tokens.map Token.kind = [.string "\u00e9", .endOfInput] ∧
    Lossless (Text.units "// \u00e9\n\"\u00e9\"".toList) tokens ∧
    lex "x \"" = .error e ∧ e.position.In (Text.units "x \"".toList) := by
  have htokens : lex "// \u00e9\n\"\u00e9\"" =
      .ok [⟨.string "\u00e9", "\"\u00e9\"", ⟨2, 1, 5⟩⟩, .endOfInput ⟨2, 4, 8⟩] := by rfl
  have herror : lex "x \"" = .error ⟨.unterminatedString, ⟨1, 3, 2⟩⟩ := by rfl
  exact ⟨_, _, htokens, rfl, (lex_lossless _).1 _ htokens, herror, (lex_lossless _).2 _ herror⟩

end Keel
