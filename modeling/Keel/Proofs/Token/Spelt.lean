import Keel.Proofs.Token.Scanning
import Mathlib.Data.List.TakeWhile

namespace Keel

namespace Lexer

inductive Spelt : TokenKind → List Char → Prop
  | int {digits : List Char} : digits ≠ [] → (∀ c ∈ digits, isDigit c = true) →
      Spelt (.int (Decimal.toFloating false ⟨digitsValue digits, 0⟩)) digits
  | float {whole fraction : List Char} : whole ≠ [] → fraction ≠ [] → (∀ c ∈ whole, isDigit c = true) →
      (∀ c ∈ fraction, isDigit c = true) →
      Spelt (.float (Decimal.toFloating false ⟨digitsValue (whole ++ fraction), -fraction.length⟩))
        (whole ++ '.' :: fraction)
  | string {text value : List Char} : Quoted text value →
      Spelt (.string (String.ofList value)) ('"' :: (text ++ ['"']))
  | typeKeyword (type : ValueType) : Spelt (.typeKeyword type.keyword) type.keyword.toList
  | keyword {name : String} : name ∈ reservedWords → Spelt (.keyword name) name.toList
  | bool (value : Bool) : Spelt (.bool value) (toString value).toList
  | identifier {name : String} : IsWord name.toList → (∀ type : ValueType, name ≠ type.keyword) →
      name ∉ reservedWords → (∀ value : Bool, name ≠ toString value) → Spelt (.identifier name) name.toList
  | punctuation {symbol : String} : symbol ∈ punctuationSymbols → Spelt (.punctuation symbol) symbol.toList
  | operator {symbol : String} : symbol ∈ operatorSymbols → Spelt (.operator symbol) symbol.toList

variable {text : List Char} {kind kind' : TokenKind}

/-! Every lexeme that is read spells its kind. -/

lemma spelt_number {word : List Char} (h : numberKind? word = some kind) (hhead : ∃ c ∈ word.head?, isDigit c = true)
    (hparts : ∀ c ∈ word, isNumberPart c = true) : Spelt kind word := by
  unfold numberKind? at h
  rw [List.span_eq_takeWhile_dropWhile] at h
  have hword := List.takeWhile_append_dropWhile (p := isDigit) (l := word)
  have hdigits : ∀ c ∈ word.takeWhile isDigit, isDigit c = true := fun _ hc => List.mem_takeWhile_imp hc
  have hwhole : word.takeWhile isDigit ≠ [] := by
    obtain ⟨c, hc, hdigit⟩ := hhead
    obtain ⟨cs, rfl⟩ := List.head?_eq_some_iff.mp hc
    rw [List.takeWhile_cons_of_pos hdigit]
    exact List.cons_ne_nil _ _
  split at h
  · rename_i whole hspan
    obtain ⟨rfl, hrest⟩ := Prod.mk.inj hspan
    rw [hrest, List.append_nil] at hword
    obtain rfl := Option.some.inj h
    rw [hword]
    exact .int (hword ▸ hwhole) (hword ▸ hdigits)
  · rename_i whole d fraction hspan
    obtain ⟨rfl, hrest⟩ := Prod.mk.inj hspan
    have hd : d = '.' := by
      have hpart : isNumberPart d = true := hparts d (by rw [← hword, hrest]; simp)
      have hnot : isDigit d = false := by
        have := List.head?_dropWhile_not isDigit word
        rwa [hrest] at this
      simpa [isNumberPart, hnot] using hpart
    subst hd
    split_ifs at h with hfraction
    obtain rfl := Option.some.inj h
    simp only [Bool.or_eq_true, List.isEmpty_iff, Bool.not_eq_true', not_or, Bool.not_eq_false, List.all_eq_true]
      at hfraction
    rw [hrest] at hword
    conv_rhs => rw [← hword]
    exact .float hwhole hfraction.1 hdigits hfraction.2

lemma ofKeyword?_eq_none {name : String} : ValueType.ofKeyword? name = none ↔
    ∀ type : ValueType, name ≠ type.keyword := by
  rw [ValueType.ofKeyword?, List.find?_eq_none]
  have hall (type : ValueType) : type ∈ ValueType.all := by cases type <;> decide
  exact ⟨fun h type hname => h type (hall type) (by simp [hname]), fun h type _ => by simpa using (h type).symm⟩

lemma eq_keyword_of_ofKeyword? {name : String} {type : ValueType} (h : ValueType.ofKeyword? name = some type) :
    name = type.keyword := by
  have hfound := List.find?_some h
  exact (eq_of_beq hfound).symm

lemma spelt_word {word : String} (h : IsWord word.toList) : Spelt (wordKind word) word.toList := by
  unfold wordKind
  split_ifs with htype hkeyword htrue hfalse
  · obtain ⟨type, hfound⟩ := Option.isSome_iff_exists.mp htype
    obtain rfl := eq_keyword_of_ofKeyword? hfound
    exact .typeKeyword type
  · exact .keyword (by simpa using hkeyword)
  · exact htrue ▸ .bool true
  · exact hfalse ▸ .bool false
  · refine .identifier h (ofKeyword?_eq_none.mp (by simpa using htype)) (by simpa using hkeyword) fun value => ?_
    cases value with
    | false => exact hfalse
    | true => exact htrue

lemma spelt_symbol {symbol : String} (h : symbolKind? symbol = some kind) : Spelt kind symbol.toList := by
  unfold symbolKind? at h
  split_ifs at h with hpunctuation hoperator
  · exact Option.some.inj h ▸ .punctuation (by simpa using hpunctuation)
  · exact Option.some.inj h ▸ .operator (by simpa using hoperator)

/-! A text that spells a kind is read as a token of this kind, so that it spells no other one. -/

lemma symbolKind?_punctuation {symbol : String} (h : symbol ∈ punctuationSymbols) :
    symbolKind? symbol = some (.punctuation symbol) := by
  rw [symbolKind?, if_pos (by simpa using h)]

lemma symbolKind?_operator {symbol : String} (h : symbol ∈ operatorSymbols) :
    symbolKind? symbol = some (.operator symbol) := by
  have hdisjoint : ∀ symbol ∈ operatorSymbols, symbol ∉ punctuationSymbols := by decide
  rw [symbolKind?, if_neg (by simpa using hdisjoint symbol h), if_pos (by simpa using h)]

lemma wordKind_keyword (type : ValueType) : IsWord type.keyword.toList ∧
    wordKind type.keyword = .typeKeyword type.keyword := by
  cases type <;> decide

lemma wordKind_identifier {name : String} (htype : ∀ type : ValueType, name ≠ type.keyword)
    (hkeyword : name ∉ reservedWords) (hbool : ∀ value : Bool, name ≠ toString value) :
    wordKind name = .identifier name := by
  rw [wordKind, if_neg (by simpa using ofKeyword?_eq_none.mpr htype), if_neg (by simpa using hkeyword),
    if_neg (show name ≠ "true" from hbool true), if_neg (show name ≠ "false" from hbool false)]

lemma Spelt.reads (h : Spelt kind text) {rest : List Char} {ks : List Spelled} (hrest : Reads rest ks)
    (hr : Delimited rest) : Reads (text ++ rest) ((kind, String.ofList text) :: ks) := by
  have hword : ∀ {name : String}, IsWord name.toList → wordKind name = kind →
      Reads (name.toList ++ rest) ((kind, String.ofList name.toList) :: ks) := by
    intro name hname hkind
    have hread := hrest.word hname hr
    rw [String.ofList_toList] at hread ⊢
    rwa [hkind] at hread
  have hsymbol : ∀ {symbol : String}, symbolKind? symbol = some kind →
      Reads (symbol.toList ++ rest) ((kind, String.ofList symbol.toList) :: ks) := by
    intro symbol hkind
    rw [String.ofList_toList]
    exact hrest.symbol hkind (.inl hr)
  cases h with
  | int hne hdigits => exact hrest.numeral (numeral_whole hdigits hne) hr
  | float hwhole hfraction hdigits hmore =>
    exact hrest.numeral (numeral_fraction _ _ hdigits hmore hwhole hfraction) hr
  | string hquoted => exact hrest.quoted hquoted
  | typeKeyword type => exact hword (wordKind_keyword type).1 (wordKind_keyword type).2
  | keyword hname =>
    have hall : ∀ name ∈ reservedWords, IsWord name.toList ∧ wordKind name = .keyword name := by decide
    exact hword (hall _ hname).1 (hall _ hname).2
  | bool value =>
    cases value with
    | false => exact hword (by decide) (by decide)
    | true => exact hword (by decide) (by decide)
  | identifier hname htype hkeyword hbool => exact hword hname (wordKind_identifier htype hkeyword hbool)
  | punctuation hmem => exact hsymbol (symbolKind?_punctuation hmem)
  | operator hmem => exact hsymbol (symbolKind?_operator hmem)

lemma Spelt.scan (h : Spelt kind text) (place : Position) : ∃ ts, scan 0 place text = .ok ts ∧
    ts.map Token.spelled = [(kind, String.ofList text), endSpelled] := by
  have hreads := h.reads reads_nil delimited_nil place
  rwa [List.append_nil] at hreads

lemma Spelt.unique (h : Spelt kind text) (h' : Spelt kind' text) : kind = kind' := by
  obtain ⟨ts, hscan, hspelled⟩ := h.scan .start
  obtain ⟨ts', hscan', hspelled'⟩ := h'.scan .start
  obtain rfl : ts = ts' := Except.ok.inj (hscan.symm.trans hscan')
  simpa using (hspelled.symm.trans hspelled')

lemma Spelt.ne_nil (h : Spelt kind text) : text ≠ [] := by
  rintro rfl
  obtain ⟨ts, hscan, hspelled⟩ := h.scan .start
  obtain rfl : [Token.endOfInput .start] = ts := Except.ok.inj hscan
  simp at hspelled

lemma Spelt.ne_endOfInput (h : Spelt kind text) : kind ≠ .endOfInput := by
  rintro rfl
  cases h

end Lexer

end Keel
