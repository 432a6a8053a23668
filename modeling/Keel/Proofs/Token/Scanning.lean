import Keel.Proofs.Token.Numerals

namespace Keel

abbrev Spelled := TokenKind × String

def Token.spelled (t : Token) : Spelled := (t.kind, t.lexeme)

namespace Lexer

def endSpelled : Spelled := (.endOfInput, "")

def Reads (cs : List Char) (ks : List Spelled) : Prop :=
  ∀ place, ∃ ts, scan 0 place cs = .ok ts ∧ ts.map Token.spelled = ks

lemma scan_skip (cs rest : List Char) (place : Position) :
    scan cs.length place (cs ++ rest) = scan 0 (place.advanceAll cs) rest := by
  induction cs generalizing place with
  | nil => rfl
  | cons c cs ih => exact ih _

lemma reads_nil : Reads [] [endSpelled] := fun place => ⟨[Token.endOfInput place], rfl, rfl⟩

lemma Reads.passOver {rest : List Char} {ks : List Spelled} (h : Reads rest ks) (c : Char) (cs : List Char)
    (hp : ∀ place, piece place c (cs ++ rest) = .ok (.blank cs.length)) : Reads (c :: cs ++ rest) ks := by
  intro place
  obtain ⟨ts, hs, hk⟩ := h ((place.advance c).advanceAll cs)
  refine ⟨ts, ?_, hk⟩
  rw [List.cons_append, scan, hp place, ← hs, ← scan_skip]

lemma Reads.lexeme {rest : List Char} {ks : List Spelled} {kind : TokenKind} (h : Reads rest ks) (c : Char)
    (cs : List Char) (hp : ∀ place, piece place c (cs ++ rest) = .ok (.lexeme kind cs.length)) :
    Reads (c :: cs ++ rest) ((kind, String.ofList (c :: cs)) :: ks) := by
  intro place
  obtain ⟨ts, hs, hk⟩ := h ((place.advance c).advanceAll cs)
  refine ⟨⟨kind, String.ofList (c :: cs), place⟩ :: ts, ?_, by rw [List.map_cons, hk]; rfl⟩
  rw [List.cons_append, scan, hp place]
  simp only [scan_skip, hs, List.take_left]
  rfl

lemma Reads.blank {c : Char} {rest : List Char} {ks : List Spelled} (h : Reads rest ks) (hc : isBlank c = true) :
    Reads (c :: rest) ks :=
  h.passOver c [] fun place => by simp [piece, hc]

lemma Reads.blanks {cs rest : List Char} {ks : List Spelled} (h : Reads rest ks) (hc : cs.all isBlank = true) :
    Reads (cs ++ rest) ks := by
  induction cs with
  | nil => exact h
  | cons c cs ih =>
    simp only [List.all_cons, Bool.and_eq_true] at hc
    exact (ih hc.2).blank hc.1

/-! Characters that end a word, a number or an operator. -/

def delimiters : List Char := [' ', '\n', '\t', '\r', '(', ')', ',', ';']

def Delimited (rest : List Char) : Prop := ∀ c ∈ rest.head?, c ∈ delimiters

lemma delimited_nil : Delimited [] := fun _ h => nomatch h

lemma delimited_cons {c : Char} {rest : List Char} (h : c ∈ delimiters) : Delimited (c :: rest) := by
  intro d hd
  obtain rfl : c = d := by simpa using hd
  exact h

lemma takeWhile_delimited {p : Char → Bool} {cs rest : List Char} (h : ∀ c ∈ cs, p c = true)
    (hp : delimiters.any p = false) (hr : Delimited rest) : (cs ++ rest).takeWhile p = cs := by
  rw [List.takeWhile_append_of_pos h]
  cases rest with
  | nil => simp
  | cons c rest =>
    have hc : p c = false := Bool.eq_false_iff.mpr (List.any_eq_false.mp hp c (hr c rfl))
    simp [hc]

lemma isDigit_bounds {c : Char} (h : isDigit c = true) : 48 ≤ c.toNat ∧ c.toNat ≤ 57 := by
  simpa [isDigit_eq] using Char.isDigit_iff_toNat.mp h

lemma not_digit_of_toNat {c : Char} (h : c.toNat < 48 ∨ 57 < c.toNat) : isDigit c = false := by
  rw [Bool.eq_false_iff]
  intro hd
  have := isDigit_bounds hd
  omega

lemma piece_numeral {c : Char} {cs rest : List Char} {kind : TokenKind} (h : Numeral (c :: cs) kind)
    (hr : Delimited rest) (place : Position) : piece place c (cs ++ rest) = .ok (.lexeme kind cs.length) := by
  obtain ⟨d, ds, hcd, hd⟩ := h.head
  obtain ⟨rfl, rfl⟩ : c = d ∧ cs = ds := by simpa using hcd
  have htake : (cs ++ rest).takeWhile isNumberPart = cs :=
    takeWhile_delimited (fun x hx => h.parts x (List.mem_cons_of_mem _ hx)) (by decide) hr
  have hblank : isBlank c = false := by
    rw [Bool.eq_false_iff]
    intro hb
    simp only [isBlank, Bool.or_eq_true, decide_eq_true_eq] at hb
    rcases hb with ((rfl | rfl) | rfl) | rfl <;> exact absurd hd (by decide)
  have hslash : c ≠ '/' := by rintro rfl; exact absurd hd (by decide)
  have hquote : c ≠ '"' := by rintro rfl; exact absurd hd (by decide)
  simp [piece, hblank, hslash, hquote, hd, htake, h.kind_eq]

lemma Reads.numeral {text rest : List Char} {ks : List Spelled} {kind : TokenKind} (h : Reads rest ks)
    (hn : Numeral text kind) (hr : Delimited rest) :
    Reads (text ++ rest) ((kind, String.ofList text) :: ks) := by
  obtain ⟨c, cs, rfl, -⟩ := hn.head
  exact h.lexeme c cs (piece_numeral hn hr)

def IsWord : List Char → Prop
  | [] => False
  | c :: cs => isWordStart c = true ∧ cs.all isWordPart = true

instance : DecidablePred IsWord
  | [] => isFalse id
  | _ :: _ => inferInstanceAs (Decidable (_ ∧ _))

lemma wordStart_cases {c : Char} (h : isWordStart c = true) : 65 ≤ c.toNat := by
  simp only [isWordStart, Bool.or_eq_true, Bool.and_eq_true, decide_eq_true_eq] at h
  rcases h with (⟨h, -⟩ | ⟨h, -⟩) | rfl
  · exact le_trans (by decide) (show 'a'.toNat ≤ c.toNat from h)
  · exact le_trans (by decide) (show 'A'.toNat ≤ c.toNat from h)
  · decide

lemma Reads.word {text rest : List Char} {ks : List Spelled} (h : Reads rest ks) (hw : IsWord text)
    (hr : Delimited rest) :
    Reads (text ++ rest) ((wordKind (String.ofList text), String.ofList text) :: ks) := by
  cases text with
  | nil => exact hw.elim
  | cons c cs =>
    obtain ⟨hs, hparts⟩ := hw
    have hc := wordStart_cases hs
    refine h.lexeme _ _ fun place => ?_
    have htake : (cs ++ rest).takeWhile isWordPart = cs :=
      takeWhile_delimited (List.all_eq_true.mp hparts) (by decide) hr
    have hblank : isBlank c = false := by
      rw [Bool.eq_false_iff]
      intro hb
      simp only [isBlank, Bool.or_eq_true, decide_eq_true_eq] at hb
      rcases hb with ((rfl | rfl) | rfl) | rfl <;> exact absurd hc (by decide)
    have hslash : c ≠ '/' := by rintro rfl; exact absurd hc (by decide)
    have hquote : c ≠ '"' := by rintro rfl; exact absurd hc (by decide)
    have hdigit : isDigit c = false := not_digit_of_toNat (Or.inr (by omega))
    simp [piece, hblank, hslash, hquote, hdigit, hs, htake]

/-! Symbols. -/

def brackets : List Char := ['(', ')', '\x7b', '\x7d', ',', ';']

def symbolTexts : List (List Char) := (punctuationSymbols ++ operatorSymbols).map String.toList

lemma symbolKind?_eq_none {cs : List Char} (h : cs ∉ symbolTexts) : symbolKind? (String.ofList cs) = none := by
  have hmem : String.ofList cs ∉ punctuationSymbols ++ operatorSymbols := fun hh =>
    h (by simpa [symbolTexts] using List.mem_map_of_mem (f := String.toList) hh)
  rw [List.mem_append, not_or] at hmem
  simp only [symbolKind?, List.contains_eq_mem, hmem.1, hmem.2, decide_false, Bool.false_eq_true, if_false]

lemma mem_symbolTexts {s : String} {kind : TokenKind} (h : symbolKind? s = some kind) : s.toList ∈ symbolTexts := by
  by_contra hn
  have hh := symbolKind?_eq_none hn
  rw [String.ofList_toList, h] at hh
  exact Option.some_ne_none _ hh

lemma symbolTexts_length : ∀ cs ∈ symbolTexts, cs.length = 1 ∨ cs.length = 2 := by decide

lemma symbolTexts_head : ∀ cs ∈ symbolTexts, cs.head?.all fun c =>
    isBlank c = false ∧ c ≠ '"' ∧ isDigit c = false ∧ isWordStart c = false := by decide

lemma symbolTexts_pair : ∀ cs ∈ symbolTexts, cs.length = 2 →
    (cs.head?.all fun c => c ∉ brackets ∧ c ≠ '/') ∧ cs.getLast?.all fun d => d ∉ delimiters := by decide

lemma pair_symbolKind? {c : Char} {rest : List Char} (hr : Delimited rest ∨ c ∈ brackets) (d : Char)
    (hd : d ∈ rest.head?) : symbolKind? (String.ofList [c, d]) = none := by
  apply symbolKind?_eq_none
  intro hm
  obtain ⟨hhead, hlast⟩ := symbolTexts_pair _ hm rfl
  rcases hr with hr | hc
  · exact of_decide_eq_true hlast (hr d hd)
  · exact (of_decide_eq_true hhead).1 hc

lemma piece_symbol {c : Char} (h : isBlank c = false ∧ c ≠ '"' ∧ isDigit c = false ∧ isWordStart c = false)
    {cs : List Char} (hs : c = '/' → cs.head? ≠ some '/') (place : Position) :
    piece place c cs = symbol place c cs := by
  obtain ⟨hb, hq, hd, hw⟩ := h
  have hcomment : (decide (c = '/') && cs.head? == some '/') = false := by
    rw [Bool.and_eq_false_imp]
    intro hc
    simpa using hs (by simpa using hc)
  simp only [piece, hb, hq, hd, hw, hcomment, Bool.false_eq_true, if_false]

lemma Reads.symbol {s : String} {rest : List Char} {ks : List Spelled} {kind : TokenKind} (h : Reads rest ks)
    (hs : symbolKind? s = some kind) (hr : Delimited rest ∨ s.toList.head?.all fun c => c ∈ brackets) :
    Reads (s.toList ++ rest) ((kind, s) :: ks) := by
  have hm := mem_symbolTexts hs
  obtain ⟨cs, rfl⟩ : ∃ cs, s = String.ofList cs := ⟨s.toList, by simp⟩
  rw [String.toList_ofList] at hm hr ⊢
  match cs, symbolTexts_length cs hm with
  | [c], _ =>
    have hrest : Delimited rest ∨ c ∈ brackets := hr.imp id fun hh => of_decide_eq_true hh
    refine h.lexeme c [] fun place => ?_
    rw [List.nil_append, piece_symbol (of_decide_eq_true (symbolTexts_head _ hm))]
    · cases rest with
      | nil => simp only [Lexer.symbol, Char.toString, String.singleton_eq_ofList, hs, List.length_nil]
      | cons d rest =>
        simp only [Lexer.symbol, pair_symbolKind? hrest d rfl, Char.toString, String.singleton_eq_ofList, hs,
          List.length_nil]
    · rintro rfl hslash
      rcases hrest with hrest | hc
      · exact absurd (hrest '/' hslash) (by decide)
      · exact absurd hc (by decide)
  | [c, d], _ =>
    refine h.lexeme c [d] fun place => ?_
    rw [piece_symbol (of_decide_eq_true (symbolTexts_head _ hm))]
    · simp only [Lexer.symbol, List.cons_append, List.nil_append, hs, List.length_singleton]
    · exact fun hc => absurd hc (of_decide_eq_true (symbolTexts_pair _ hm rfl).1).2

/-! Quoted strings. -/

inductive Quoted : List Char → List Char → Prop
  | nil : Quoted [] []
  | plain {c : Char} {text value : List Char} : c ≠ '"' → c ≠ '\n' → c ≠ '\\' → Quoted text value →
      Quoted (c :: text) (c :: value)
  | escape {c v : Char} {text value : List Char} : escape? c = some v → Quoted text value →
      Quoted ('\\' :: c :: text) (v :: value)

lemma quoted_plain {c : Char} (hquote : c ≠ '"') (hline : c ≠ '\n') (hslash : c ≠ '\\') (start place : Position)
    (read cs : List Char) (length : ℕ) :
    quoted start place read length (c :: cs) = quoted start (place.advance c) (c :: read) (length + 1) cs := by
  rw [quoted]
  all_goals first | assumption | exact fun h => absurd h hslash | exact fun _ _ h => absurd h hslash

lemma Quoted.read {text value : List Char} (h : Quoted text value) (start place : Position) (read rest : List Char)
    (length : ℕ) : quoted start place read length (text ++ '"' :: rest) =
      .ok (read.reverse ++ value, length + text.length + 1) := by
  induction h generalizing place read length with
  | nil => simp [quoted]
  | plain hquote hline hslash _ ih =>
    rw [List.cons_append, quoted_plain hquote hline hslash, ih, List.reverse_cons, List.append_assoc,
      List.singleton_append, List.length_cons, Nat.add_assoc length, Nat.add_comm 1]
  | escape hescape _ ih =>
    rw [List.cons_append, List.cons_append, quoted, hescape]
    dsimp only
    rw [ih, List.reverse_cons, List.append_assoc, List.singleton_append, List.length_cons, List.length_cons,
      Nat.add_assoc length, Nat.add_comm 2]

lemma exists_quoted {start place : Position} {read cs w : List Char} {length total : ℕ}
    (h : quoted start place read length cs = .ok (w, total)) : ∃ text value rest, Quoted text value ∧
      cs = text ++ '"' :: rest ∧ w = read.reverse ++ value ∧ total = length + text.length + 1 := by
  fun_induction quoted start place read length cs with
  | case1 | case3 | case4 | case5 => cases h
  | case2 place read length cs =>
    cases h
    exact ⟨[], [], cs, .nil, rfl, (List.append_nil _).symm, rfl⟩
  | case6 place read length c cs v hescape ih =>
    obtain ⟨text, value, rest, hquoted, rfl, rfl, rfl⟩ := ih h
    refine ⟨'\\' :: c :: text, v :: value, rest, .escape hescape hquoted, rfl, ?_, ?_⟩
    · rw [List.reverse_cons, List.append_assoc, List.singleton_append]
    · rw [List.length_cons, List.length_cons]
      omega
  | case7 place read length c cs hquote hline hlast hescape ih =>
    obtain ⟨text, value, rest, hquoted, rfl, rfl, rfl⟩ := ih h
    have hslash : c ≠ '\\' := by
      rintro rfl
      cases text with
      | nil => exact hescape _ _ rfl rfl
      | cons d ds => exact hescape _ _ rfl rfl
    refine ⟨c :: text, c :: value, rest, .plain hquote hline hslash hquoted, rfl, ?_, ?_⟩
    · rw [List.reverse_cons, List.append_assoc, List.singleton_append]
    · rw [List.length_cons]
      omega

lemma Quoted.escaped (value : List Char) : Quoted (value.flatMap Literal.escaped) value := by
  induction value with
  | nil => exact .nil
  | cons c value ih =>
    rw [List.flatMap_cons, Literal.escaped.eq_def]
    split
    · exact .escape rfl ih
    · exact .escape rfl ih
    · exact .escape rfl ih
    · exact .escape rfl ih
    · exact .plain ‹_› ‹_› ‹_› ih

lemma piece_quoted {text value : List Char} (h : Quoted text value) (place : Position) (rest : List Char) :
    piece place '"' (text ++ '"' :: rest) = .ok (.lexeme (.string (String.ofList value)) (text.length + 1)) := by
  simp [piece, isBlank, h.read, Except.map]

lemma Reads.quoted {rest : List Char} {ks : List Spelled} (h : Reads rest ks) {text value : List Char}
    (hquoted : Quoted text value) : Reads ('"' :: (text ++ ['"']) ++ rest)
      ((.string (String.ofList value), String.ofList ('"' :: (text ++ ['"']))) :: ks) := by
  refine h.lexeme _ _ fun place => ?_
  rw [List.append_assoc, List.singleton_append, piece_quoted hquoted, List.length_append, List.length_singleton]

lemma Reads.string {rest : List Char} {ks : List Spelled} (h : Reads rest ks) (value : String) :
    Reads ((Literal.quoted value).toList ++ rest) ((.string value, Literal.quoted value) :: ks) := by
  have hread := h.quoted (Quoted.escaped value.toList)
  rw [String.ofList_toList] at hread
  rwa [Literal.quoted, String.toList_ofList]

end Lexer

end Keel
