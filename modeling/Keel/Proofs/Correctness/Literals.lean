import Keel.Proofs.Correctness.ByDeclaration
import Keel.Proofs.Lowering.Linkage
import Keel.Proofs.Lowering.Places
import Keel.Proofs.Semantics.Frames
import Keel.Proofs.Semantics.Literals
import Keel.Proofs.Syntax.RoundTrip

/-! A literal that a variable begins with, that is assigned to it, and that is passed to a parameter. -/

namespace Keel

open Floating Lexer Lowering Semantics

namespace Storing

def assignment (value : String) : String := "x = " ++ value ++ ";"

def declaration (t : ValueType) (value : String) : String := t.keyword ++ " " ++ assignment value

def result (value : String) : String := "return " ++ value ++ ";"

def header (name : String) (ps : List Parameter) (t : ValueType) : Prototype :=
  ⟨.start, name, ps.map Parameter.name, ps.map Parameter.type, t⟩

def function (name : String) (ps : List Parameter) (t : ValueType) (body : List String) : String :=
  Printer.prototype (header name ps t) ++ " \x7b " ++ " ".intercalate body ++ " \x7d"

end Storing

open Storing in
/-- The literal is the first value of the variable in `f`, is stored in it in `g` and is passed to `h` in `k`. -/
def storingText (t : ValueType) (digits : String) : String :=
  Printer.lines
    [function "f" [] t [declaration t digits, result "x"],
      function "g" [] t [declaration t "0", assignment digits, result "x"],
      function "h" [⟨t, "x"⟩] t [result "x"], function "k" [] t [result (Printer.call "h" [digits])]]

example : storingText .i16 "70000" =
    "fn f() -> i16 \x7b i16 x = 70000; return x; \x7d\n" ++
    "fn g() -> i16 \x7b i16 x = 0; x = 70000; return x; \x7d\n" ++
    "fn h(i16 x) -> i16 \x7b return x; \x7d\nfn k() -> i16 \x7b return h(70000); \x7d" := rfl

namespace Storing

variable {t : ValueType} {digits : String} {n : ℕ}

section Tokens

def functionTokens (name : String) (ps : List Parameter) (t : ValueType) (body : List (List Spelled)) : List Spelled :=
  Spelled.prototype (header name ps t) ++ Spelled.punctuation "\x7b" :: body.flatten ++ [Spelled.punctuation "\x7d"]

def number (n : ℕ) (digits : String) : Spelled := (.int (ofInt n), digits)

def assignmentTokens (value : Spelled) : List Spelled :=
  [Spelled.word "x", Spelled.operator "=", value, Spelled.punctuation ";"]

def declarationTokens (t : ValueType) (value : Spelled) : List Spelled :=
  Spelled.word t.keyword :: assignmentTokens value

def resultTokens (value : List Spelled) : List Spelled :=
  Spelled.word "return" :: value ++ [Spelled.punctuation ";"]

def callTokens (value : Spelled) : List Spelled :=
  Spelled.word "h" :: Spelled.punctuation "(" :: Spelled.commas [[value]] ++ [Spelled.punctuation ")"]

def tokens (t : ValueType) (value : Spelled) : List Spelled :=
  List.flatten
    [functionTokens "f" [] t [declarationTokens t value, resultTokens [Spelled.word "x"]],
      functionTokens "g" [] t
        [declarationTokens t (number 0 "0"), assignmentTokens value, resultTokens [Spelled.word "x"]],
      functionTokens "h" [⟨t, "x"⟩] t [resultTokens [Spelled.word "x"]],
      functionTokens "k" [] t [resultTokens (callTokens value)]]

lemma spells_function (t : ValueType) {name : String} (hname : IsName name) {ps : List Parameter}
    (hps : ∀ p ∈ ps, IsName p.name) {body : List String} {ks : List (List Spelled)}
    (hbody : List.Forall₂ Spells body ks) : Spells (function name ps t body) (functionTokens name ps t ks) := by
  intro rest kr hr hk
  have hclose := hk.bracket "\x7d" (by simp)
  have hopen := (spells_spaced hbody (delimited_append rfl) hclose.space).space.bracket "\x7b" (by simp)
  have hshape : (header name ps t).Shaped :=
    ⟨hname, (List.length_map _).trans (List.length_map _).symm, List.forall_mem_map.mpr hps⟩
  have hhead := spells_prototype hshape (delimited_append rfl) hopen.space
  simp only [function, functionTokens, String.toList_append, List.append_assoc, List.cons_append, List.nil_append]
  exact hhead

lemma spells_digits (hdigits : ∀ c ∈ digits.toList, isDigit c = true) (hne : digits.toList ≠ []) :
    Spells digits [number (digitsValue digits.toList) digits] := by
  have hnumeral := spells_numeral (numeral_whole hdigits hne)
  rwa [toFloating_natural] at hnumeral

lemma spells_assignment {value : Spelled} (h : Spells digits [value]) :
    Spells (assignment digits) (assignmentTokens value) := by
  intro rest kr hr hk
  have hvalue := h (delimited_append rfl) (hk.bracket ";" (by simp))
  have hassign := hvalue.space.operator (delimited_append rfl) "=" (by decide)
  have hname := hassign.space.text (delimited_append rfl) "x" (by decide)
  simp only [assignment, String.toList_append, List.append_assoc]
  exact hname

lemma spells_declaration (t : ValueType) {value : Spelled} (h : Spells digits [value]) :
    Spells (declaration t digits) (declarationTokens t value) := by
  intro rest kr hr hk
  have htype := (spells_assignment h hr hk).space.text (delimited_append rfl) _ (isWord_keyword t)
  simp only [declaration, String.toList_append, List.append_assoc]
  exact htype

lemma spells_result {text : String} {ks : List Spelled} (h : Spells text ks) :
    Spells (result text) (resultTokens ks) := by
  intro rest kr hr hk
  have hvalue := h (delimited_append rfl) (hk.bracket ";" (by simp))
  have hreturn := hvalue.space.text (delimited_append rfl) "return" (by decide)
  simp only [result, resultTokens, String.toList_append, List.append_assoc, List.cons_append, List.nil_append]
  exact hreturn

lemma spells_storing (t : ValueType) {value : Spelled} (h : Spells digits [value]) :
    Spells (storingText t digits) (tokens t value) := by
  have hzero : Spells "0" [number 0 "0"] := spells_digits (List.all_eq_true.mp rfl) (by decide)
  have hresult : Spells (result "x") (resultTokens [Spelled.word "x"]) :=
    spells_result fun _ _ hr hk => hk.text hr "x" (by decide)
  have hcall := spells_result (spells_call (show IsWord "h".toList by decide) (.cons h .nil))
  have hx : ∀ p ∈ [Parameter.mk t "x"], IsName p.name := by
    rw [List.forall_mem_singleton]
    exact ⟨show IsWord "x".toList by decide, rfl⟩
  have hf := spells_function t (show IsName "f" from ⟨by decide, rfl⟩) (List.forall_mem_nil _)
    (.cons (spells_declaration t h) (.cons hresult .nil))
  have hg := spells_function t (show IsName "g" from ⟨by decide, rfl⟩) (List.forall_mem_nil _)
    (.cons (spells_declaration t hzero) (.cons (spells_assignment h) (.cons hresult .nil)))
  have hh := spells_function t (show IsName "h" from ⟨by decide, rfl⟩) hx (.cons hresult .nil)
  have hk := spells_function t (show IsName "k" from ⟨by decide, rfl⟩) (List.forall_mem_nil _) (.cons hcall .nil)
  exact spells_lines (.cons hf (.cons hg (.cons hh (.cons hk .nil))))

end Tokens

section Programs

def program (t : ValueType) (v : Double) : Program :=
  [.function (header "f" [] t) []
    [.declare .start t "x" (.number .start v t), .ret .start (.reference .start "x")],
   .function (header "g" [] t) []
    [.declare .start t "x" (.number .start (ofInt (0 : ℕ)) t),
     .expression (.assign .start "x" (.number .start v .i32)), .ret .start (.reference .start "x")],
   .function (header "h" [⟨t, "x"⟩] t) [t] [.ret .start (.reference .start "x")],
   .function (header "k" [] t) [] [.ret .start (.call .start "h" [.number .start v .i32])]]

def unplacedToken (k : Spelled) : Token := ⟨k.1, k.2, .start⟩

end Programs

section Parsing

open Keel.Parser (Derives Phrase defaultType returnContext)

variable {result context : ValueType} {ks : List Spelled} {e : Expr} {ts : List Token} {rest : List Spelled}

def stream (ts : List Token) (ks : List Spelled) : TokenStream := ⟨ts, ks.map unplacedToken⟩

def Parses (ks : List Spelled) (φ : Phrase) : Prop :=
  ∀ ts rest, ∃ us, Derives .standard φ (stream ts (ks ++ rest)) (stream us rest)

def ParsesValue (ks : List Spelled) (result context : ValueType) (e : Expr) : Prop :=
  ∀ mark ∈ [";", ")"], ∀ ts rest, ∃ us, Derives .standard (.expression result context e)
    (stream ts (ks ++ Spelled.punctuation mark :: rest)) (stream us (Spelled.punctuation mark :: rest))

lemma passes_mark (symbol : String) (ts : List Token) (rest : List Spelled) :
    (stream ts (Spelled.punctuation symbol :: rest)).Passes (.punctuation symbol)
      (stream (unplacedToken (Spelled.punctuation symbol) :: ts) rest) := ⟨rfl, rfl⟩

lemma passes_sign (symbol : String) (ts : List Token) (rest : List Spelled) :
    (stream ts (Spelled.operator symbol :: rest)).Passes (.operator symbol)
      (stream (unplacedToken (Spelled.operator symbol) :: ts) rest) := ⟨rfl, rfl⟩

lemma passes_named {name : String} (hname : IsName name) (ts : List Token) (rest : List Spelled) :
    (stream ts (Spelled.word name :: rest)).Passes (.identifier name)
      (stream (unplacedToken (Spelled.word name) :: ts) rest) := ⟨hname.2, rfl⟩

lemma passes_type (t : ValueType) (ts : List Token) (rest : List Spelled) :
    (stream ts (Spelled.word t.keyword :: rest)).Passes (.typeKeyword t.keyword)
      (stream (unplacedToken (Spelled.word t.keyword) :: ts) rest) := ⟨Parser.wordKind_keyword t, rfl⟩

lemma isName_x : IsName "x" := ⟨by decide, rfl⟩

lemma isName_h : IsName "h" := ⟨by decide, rfl⟩

lemma expression_of_primary {s : TokenStream} {mark : String} (hmark : mark ∈ [";", ")"])
    (h : Derives .standard (.primary result context e) s (stream ts (Spelled.punctuation mark :: rest))) :
    Derives .standard (.expression result context e) s (stream ts (Spelled.punctuation mark :: rest)) := by
  have hstops : ∀ mark ∈ [";", ")"], (Precedences.standard.power mark).lt (.zero false) = true := by decide +kernel
  exact h.expression_of_stops (hstops mark hmark)

lemma parsesValue_number (v : Double) (digits : String) :
    ParsesValue [(.int v, digits)] result context (.number .start v context) := by
  intro mark hmark ts rest
  have hvalue : (stream ts ((.int v, digits) :: Spelled.punctuation mark :: rest)).Passes (.int v)
      (stream _ (Spelled.punctuation mark :: rest)) := ⟨rfl, rfl⟩
  exact ⟨_, expression_of_primary hmark (.int hvalue)⟩

lemma parsesValue_name : ParsesValue [Spelled.word "x"] result context (.reference .start "x") := by
  intro mark hmark ts rest
  have hopen : TokenKind.punctuation mark ≠ .punctuation "(" := by
    rintro h
    obtain rfl := TokenKind.punctuation.inj h
    revert hmark
    decide
  have hassign : TokenKind.punctuation mark ≠ .operator "=" := nofun
  exact ⟨_, expression_of_primary hmark (.reference (passes_named isName_x _ _) hopen hassign)⟩

lemma ParsesValue.call (h : ParsesValue ks result defaultType e) :
    ParsesValue (Spelled.word "h" :: Spelled.punctuation "(" :: ks ++ [Spelled.punctuation ")"]) result context
      (.call .start "h" [e]) := by
  intro mark hmark ts rest
  obtain ⟨us, he⟩ := h ")" (by decide) _ (Spelled.punctuation mark :: rest)
  have hlast : TokenKind.punctuation ")" ≠ .punctuation "," := by decide
  have hargs : Derives .standard (.arguments result [e]) _ _ := .lastArgument he hlast
  rw [List.append_assoc]
  exact ⟨_, expression_of_primary hmark (.call (passes_named isName_h _ _) (passes_mark "(" _ _)
    (.someArguments hargs.arguments_head hargs) (passes_mark ")" _ _))⟩

lemma ParsesValue.ret (h : ParsesValue ks result (returnContext result) e) :
    Parses (resultTokens ks) (.statement result (.ret .start e)) := by
  intro ts rest
  obtain ⟨us, he⟩ := h ";" (by decide) _ rest
  have hreturn : (stream ts (Spelled.word "return" :: (ks ++ Spelled.punctuation ";" :: rest))).Passes
      (.keyword "return") (stream _ (ks ++ Spelled.punctuation ";" :: rest)) := ⟨rfl, rfl⟩
  rw [resultTokens, List.append_assoc]
  exact ⟨_, .ret hreturn he (passes_mark ";" _ _)⟩

lemma ParsesValue.assign {value : Spelled} (h : ParsesValue [value] result defaultType e) :
    Parses (assignmentTokens value) (.statement result (.expression (.assign .start "x" e))) := by
  intro ts rest
  obtain ⟨us, he⟩ := h ";" (by decide) _ rest
  have hassign : Derives .standard (.primary result defaultType (.assign .start "x" e)) (stream ts _) _ :=
    .assign (passes_named isName_x _ _) (passes_sign "=" _ _) he
  have hopens := hassign.opens (by rw [(passes_named isName_x _ _).1]; nofun)
  exact ⟨_, .expressionStatement hopens (expression_of_primary (by decide) hassign) (passes_mark ";" _ _)⟩

lemma ParsesValue.declare {value : Spelled} (h : ParsesValue [value] result t e) :
    Parses (declarationTokens t value) (.statement result (.declare .start t "x" e)) := by
  intro ts rest
  obtain ⟨us, he⟩ := h ";" (by decide) _ rest
  have hlook : ((stream ts (declarationTokens t value ++ rest)).look 1).kind ≠ .punctuation "(" := by
    rw [show ((stream ts (declarationTokens t value ++ rest)).look 1).kind = .identifier "x" from isName_x.2]
    nofun
  exact ⟨_, .declaration (passes_type t _ _) hlook (Parser.ofKeyword?_keyword t) (passes_named isName_x _ _)
    (passes_sign "=" _ _) he (passes_mark ";" _ _)⟩

lemma parses_body {kss : List (List Spelled)} {ss : List Stmt}
    (h : List.Forall₂ (fun ks st => Parses ks (.statement result st)) kss ss) :
    Parses (kss.flatten ++ [Spelled.punctuation "\x7d"]) (.body result ss) := by
  induction h with
  | nil => exact fun ts rest => ⟨_, .bodyEnd (passes_mark "\x7d" _ _)⟩
  | @cons ks st kss ss hst _ ih =>
    intro ts rest
    obtain ⟨us, hst⟩ := hst ts (kss.flatten ++ ([Spelled.punctuation "\x7d"] ++ rest))
    obtain ⟨vs, hss⟩ := ih us rest
    have hhead := hst.statement_head
    rw [List.append_assoc] at hss
    rw [List.flatten_cons, List.append_assoc, List.append_assoc]
    exact ⟨vs, .bodyNext (hhead.1 _ (by decide)) hhead.2 hst hss⟩

lemma parses_header {name : String} (hname : IsName name) {ps : List Parameter}
    (hps : ∀ ts rest, ∃ us, Derives .standard
      (.parameterList (ps.map Parameter.type) (ps.map Parameter.name))
      (stream ts (Spelled.commas ((header name ps t).parameters.map Spelled.parameter) ++
        Spelled.punctuation ")" :: rest)) (stream us (Spelled.punctuation ")" :: rest))) :
    Parses (Spelled.prototype (header name ps t)) (.prototype (header name ps t)) := by
  intro ts rest
  obtain ⟨us, hps⟩ := hps _ (Spelled.punctuation "->" :: Spelled.word t.keyword :: rest)
  rw [Spelled.prototype, List.append_assoc]
  exact ⟨_, .prototype (s := stream ts (Spelled.word "fn" :: _)) (passes_named hname _ _) (passes_mark "(" _ _) hps
    (passes_mark ")" _ _) (passes_mark "->" _ _) (passes_type t _ _) (Parser.ofKeyword?_keyword t)⟩

lemma parses_header_none {name : String} (hname : IsName name) :
    Parses (Spelled.prototype (header name [] t)) (.prototype (header name [] t)) :=
  parses_header hname fun ts _ => ⟨ts, .noParameters rfl⟩

lemma parses_header_one {name : String} (hname : IsName name) :
    Parses (Spelled.prototype (header name [⟨t, "x"⟩] t)) (.prototype (header name [⟨t, "x"⟩] t)) := by
  refine parses_header hname fun ts rest => ?_
  have hlast : TokenKind.punctuation ")" ≠ .punctuation "," := by decide
  have hps : Derives .standard (.parameters [t] ["x"]) _ _ := .lastParameter (passes_type t ts _)
    (Parser.ofKeyword?_keyword t) (passes_named isName_x _ (Spelled.punctuation ")" :: rest)) hlast
  have hsome : TokenKind.typeKeyword t.keyword ≠ .punctuation ")" := nofun
  exact ⟨_, .someParameters (fun hclose => hsome ((passes_type t ts _).1.symm.trans hclose)) hps⟩

lemma parses_function {name : String} {ps : List Parameter} {kss : List (List Spelled)} {ss : List Stmt}
    (hheader : Parses (Spelled.prototype (header name ps t)) (.prototype (header name ps t)))
    (hbody : List.Forall₂ (fun ks st => Parses ks (.statement t st)) kss ss) :
    Parses (functionTokens name ps t kss)
      (.statement defaultType (.function (header name ps t) (ps.map Parameter.type) ss)) := by
  intro ts rest
  obtain ⟨us, hp⟩ :=
    hheader ts (Spelled.punctuation "\x7b" :: (kss.flatten ++ ([Spelled.punctuation "\x7d"] ++ rest)))
  obtain ⟨vs, hss⟩ := parses_body hbody _ rest
  rw [List.append_assoc] at hss
  rw [functionTokens, List.append_assoc, List.append_assoc]
  exact ⟨vs, .function rfl hp (passes_mark "\x7b" _ _) hss⟩

lemma derives_functions {kss : List (List Spelled)} {p : Program}
    (h : List.Forall₂ (fun ks st => Parses ks (.statement defaultType st)) kss p) (ts : List Token) :
    ∃ us, Derives .standard (.program p) (stream ts (kss.flatten ++ [endSpelled])) us := by
  induction h generalizing ts with
  | nil => exact ⟨_, .programEnd rfl⟩
  | @cons ks st kss p hst _ ih =>
    obtain ⟨us, hst⟩ := hst ts (kss.flatten ++ [endSpelled])
    obtain ⟨vs, hp⟩ := ih us
    rw [List.flatten_cons, List.append_assoc]
    exact ⟨vs, .programNext hst.statement_head.2 hst hp⟩

lemma parse_program (v : Double) (digits : String) :
    parse ((tokens t (.int v, digits) ++ [endSpelled]).map unplacedToken) .standard = .ok (program t v) := by
  have hdeclare (v : Double) (digits : String) : Parses (declarationTokens t (.int v, digits))
      (.statement t (.declare .start t "x" (.number .start v t))) := (parsesValue_number v digits).declare
  have hassign : Parses (assignmentTokens (.int v, digits))
      (.statement t (.expression (.assign .start "x" (.number .start v .i32)))) :=
    (parsesValue_number v digits).assign
  have hname : Parses (resultTokens [Spelled.word "x"]) (.statement t (.ret .start (.reference .start "x"))) :=
    parsesValue_name.ret
  have hcall : Parses (resultTokens (callTokens (.int v, digits)))
      (.statement t (.ret .start (.call .start "h" [.number .start v .i32]))) :=
    (parsesValue_number v digits).call.ret
  have hf := parses_function (parses_header_none (show IsName "f" from ⟨by decide, rfl⟩))
    (.cons (hdeclare v digits) (.cons hname .nil))
  have hg := parses_function (parses_header_none (show IsName "g" from ⟨by decide, rfl⟩))
    (.cons (hdeclare (ofInt (0 : ℕ)) "0") (.cons hassign (.cons hname .nil)))
  have hh := parses_function (parses_header_one isName_h) (.cons hname .nil)
  have hk := parses_function (parses_header_none (show IsName "k" from ⟨by decide, rfl⟩)) (.cons hcall .nil)
  obtain ⟨us, hp⟩ := derives_functions (.cons hf (.cons hg (.cons hh (.cons hk .nil)))) []
  exact Parser.parse_complete hp

end Parsing

section Programs

def functions (t : ValueType) : FunctionTable := [("f", ⟨[], t⟩), ("g", ⟨[], t⟩), ("h", ⟨[t], t⟩), ("k", ⟨[], t⟩)]

lemma topStatement_program (ht : t ≠ .void) {v : Double} (hv : v.isFinite = true) (s : State) :
    ∀ st ∈ program t v, ∃ code u, topStatement ⟨functions t, []⟩ st s = .ok (code, u) := by
  cases v with
  | infinite s => cases hv
  | nan => cases hv
  | finite s m e =>
    simp only [program, List.forall_mem_cons]
    cases t with
    | void => exact absurd rfl ht
    | _ => exact ⟨⟨_, _, rfl⟩, ⟨_, _, rfl⟩, ⟨_, _, rfl⟩, ⟨_, _, rfl⟩, List.forall_mem_nil _⟩

lemma exists_module (ht : t ≠ .void) {v : Double} (hv : v.isFinite = true)
    (hshape : (program t v).Shaped .standard) : ∃ m code s, compile (program t v) true = .ok m ∧
      Comprises (program t v) true ⟨functions t, []⟩ code s m := by
  obtain ⟨code, s, hs⟩ := exists_topStatements (fun st hst s => topStatement_program ht hv s st hst) initialState
  obtain ⟨m, hlower, hm, -⟩ := lower_of_statements true hs rfl rfl
  have hnames : m.functionNames = (functions t).map Prod.fst := by
    rw [m.functionNames_eq, hm.heads fun d hd => (hshape.definitions d hd).1]
    rfl
  have hresolve : m.callsResolve = true :=
    callsResolve_iff.mpr fun f hf callee hcallee => hnames ▸ hm.callees hf callee hcallee
  refine ⟨m, code, s, ?_, hm⟩
  unfold compile
  rw [hlower]
  exact if_pos hresolve

def calls : List (String × List Value) := [("f", []), ("g", []), ("k", [])]

lemma session_program (ht : t ≠ .void) (v : Double) (depth : ℕ) (answers : List (String × List Wasm.Value)) :
    ∃ y, (Value.literal v .i32).convert t = .ok y ∧
      ((program t v).session byDeclaration (depth + 2) answers calls).steps.map (fun step => step.outcome) =
        [.ok (Value.literal v t).held, .ok y.held, .ok y.held] := by
  cases t with
  | void => exact absurd rfl ht
  | _ => exact ⟨_, rfl, rfl⟩

lemma module_session {v : Double} {m : Wasm.Module} {code : List Wasm.Instr} {s : State}
    (hm : Comprises (program t v) true ⟨functions t, []⟩ code s m) (hshape : (program t v).Shaped .standard)
    (depth : ℕ) (answers : List (String × List Wasm.Value)) :
    m.session depth answers (numbersOf calls) = (program t v).session byDeclaration depth answers calls := by
  have hnames : (program t v).signatures.map Prototype.name = ["f", "g", "h", "k"] := rfl
  have hreserved : ∀ name ∈ ["f", "g", "h", "k"], name ≠ startName := by decide
  refine hm.session_eq hshape (hnames ▸ by decide) (fun q hq => hreserved _ (hnames ▸ List.mem_map_of_mem hq))
    (fun _ _ => represents_byDeclaration) represents_byDeclaration depth (List.forall_mem_nil _) ?_
  simp only [calls, List.forall_mem_cons]
  have hf : (program t v).Admits ("f", []) := ⟨⟨_, .head _, rfl, rfl⟩, List.forall_mem_nil _⟩
  have hg : (program t v).Admits ("g", []) := ⟨⟨_, .tail _ (.head _), rfl, rfl⟩, List.forall_mem_nil _⟩
  have hk : (program t v).Admits ("k", []) :=
    ⟨⟨_, .tail _ (.tail _ (.tail _ (.head _))), rfl, rfl⟩, List.forall_mem_nil _⟩
  exact ⟨hf, hg, hk, List.forall_mem_nil _⟩

end Programs

end Storing

open Storing

/-- What comes of a whole number that is the first value of a variable, `u`, and of one that is assigned or passed,
`w`. The first is a literal of the type of the variable, the second a literal of 32 bits that is converted. -/
structure Stored (t : ValueType) (n : ℕ) (u w : Wasm.Value) : Prop where
  first : t ≠ .bool → (Value.literal (ofInt n) t).held = some u
  later : ∃ y, (Value.literal (ofInt n) .i32).convert t = .ok y ∧ y.held = some w
  word : t = .i8 ∨ t = .i16 ∨ t = .i32 → u = w
  truth : t = .bool → n ≤ 1 → u = w
  long : t = .i64 → n < 2 ^ 63 → (u = w ↔ n < 2 ^ 31)
  bits : t = .i64 → ∀ k : ℕ, (ofInt n : Double).toRat = k →
    (u = w ↔ (k : ℤ).bmod (2 ^ 64) = (k : ℤ).bmod (2 ^ 32))
  real : t = .float ∨ t = .double → (u = w ↔ n < 2 ^ 31)

variable {t : ValueType} {n : ℕ}

lemma stored (hf : (ofInt n : Double).isFinite = true) {y : Value} {u w : Wasm.Value}
    (hy : (Value.literal (ofInt n) .i32).convert t = .ok y) (hu : (Value.literal (ofInt n) t).held = some u)
    (hw : y.held = some w) : Stored t n u w := by
  have ht : t ≠ .void := by
    rintro rfl
    cases hu
  have heq : u = w ↔ (Value.literal (ofInt n) .i32).convert t = .ok (Value.literal (ofInt n) t) := by
    rw [hy, Except.ok.injEq]
    constructor
    · rintro rfl
      exact Value.eq_of_held ((Value.type_convert hy).trans (Value.type_literal _).symm) (hw.trans hu.symm)
    · rintro rfl
      exact Option.some.inj (hu.symm.trans hw)
  have hlarge (hwide : t = .i64 ∧ n < 2 ^ 63 ∨ t = .float ∨ t = .double) : u = w ↔ n < 2 ^ 31 := by
    refine ⟨fun hsame => ?_, fun hn => heq.mpr (Value.convert_word_of_lt hn ?_ ht)⟩
    · by_contra hn
      exact Value.convert_word_ne hf (not_lt.mp hn) hwide (heq.mp hsame)
    · rcases hwide with ⟨rfl, -⟩ | rfl | rfl <;> nofun
  exact {
    first := fun _ => hu
    later := ⟨y, hy, hw⟩
    word := fun h => heq.mpr (Value.convert_word_small hf h)
    truth := fun h hn => heq.mpr (Value.convert_word_of_lt (by omega) (fun _ => hn) ht)
    long := fun h hn => hlarge (.inl ⟨h, hn⟩)
    bits := by
      rintro rfl k hk
      exact heq.trans (Value.convert_word_long_iff hf hk)
    real := fun h => hlarge (.inr h) }

lemma parseText_storing (t : ValueType) {digits : String} (hne : digits.toList ≠ [])
    (hdigits : ∀ c ∈ digits.toList, isDigit c = true) : ∃ p, parseText (storingText t digits) .standard = .ok p ∧
      p.unplaced = program t (ofInt (digitsValue digits.toList)) ∧
        (program t (ofInt (digitsValue digits.toList))).Shaped .standard := by
  obtain ⟨tokens, hscan, hspelled⟩ := spells_storing t (spells_digits hdigits hne) delimited_nil reads_nil .start
  rw [List.append_nil] at hscan
  have hlex : lex (storingText t digits) = .ok tokens := hscan
  have hunplaced : tokens.map Token.unplaced = (tokens.map Token.spelled).map unplacedToken := by
    rw [List.map_map]
    rfl
  have hgenuine : ∀ s ∈ tokens.map Token.unplaced, s.Genuine := List.forall_mem_map.mpr (lex_genuine hlex)
  have hparse := parse_program (t := t) (ofInt (digitsValue digits.toList)) digits
  rw [number] at hspelled
  rw [← hspelled, ← hunplaced] at hparse
  have hshape := Parser.parse_shaped hgenuine hparse
  rw [parse_unplaced] at hparse
  cases hp : parse tokens .standard with
  | error e =>
    rw [hp] at hparse
    cases hparse
  | ok p =>
    rw [hp] at hparse
    exact ⟨p, parseText_ok.mpr ⟨tokens, hlex, hp⟩, Except.ok.inj hparse, hshape⟩

/-- The functions of the text are compiled, and the two that do not begin with the literal return one value. -/
theorem compile_storing (ht : t ≠ .void) {digits : String} (hne : digits.toList ≠ [])
    (hdigits : ∀ c ∈ digits.toList, isDigit c = true)
    (hfinite : (ofInt (digitsValue digits.toList) : Double).isFinite = true) :
    ∃ p m u w, parseText (storingText t digits) .standard = .ok p ∧ compile p true = .ok m ∧
      (∀ depth answers, (m.session (depth + 2) answers [("f", []), ("g", []), ("k", [])]).steps.map
        (fun step => step.outcome) = [.ok (some u), .ok (some w), .ok (some w)]) ∧
      Stored t (digitsValue digits.toList) u w := by
  obtain ⟨p, hparse, hp, hshape⟩ := parseText_storing t hne hdigits
  generalize digitsValue digits.toList = n at hp hshape hfinite ⊢
  obtain ⟨m, code, s, hcompile, hm⟩ := exists_module ht hfinite hshape
  obtain ⟨y, hy, -⟩ := session_program ht (ofInt n) 0 []
  obtain ⟨u, hu⟩ := exists_held (v := Value.literal (ofInt n) t) (by rwa [Value.type_literal])
  obtain ⟨w, hw⟩ := exists_held (v := y) (by rwa [Value.type_convert hy])
  have hplaces := compile_unplaced p true
  rw [hp, hcompile] at hplaces
  have hcompiled : compile p true = .ok m := by
    cases hc : compile p true with
    | error e =>
      rw [hc] at hplaces
      cases hplaces
    | ok m' =>
      rw [hc] at hplaces
      exact hplaces.symm
  refine ⟨p, m, u, w, hparse, hcompiled, fun depth answers => ?_, stored hfinite hy hu hw⟩
  obtain ⟨y', hy', hsteps⟩ := session_program ht (ofInt n) depth answers
  obtain rfl := Except.ok.inj (hy.symm.trans hy')
  rw [← module_session hm hshape, hu, hw] at hsteps
  exact hsteps

theorem compile_storing_wrapped : ∃ p m, parseText (storingText .i16 "70000") .standard = .ok p ∧
    compile p true = .ok m ∧ ∀ depth answers,
      (m.session (depth + 2) answers [("f", []), ("g", []), ("k", [])]).steps.map (fun step => step.outcome) =
        [.ok (some (.i32 4464)), .ok (some (.i32 4464)), .ok (some (.i32 4464))] := by
  obtain ⟨p, m, u, w, hp, hm, hsteps, hstored⟩ := compile_storing (t := .i16) nofun
    (show "70000".toList ≠ [] by decide) (List.all_eq_true.mp rfl) (by decide +kernel)
  obtain rfl : u = w := hstored.word (.inr (.inl rfl))
  have hvalue : (Value.literal (ofInt 70000) .i16).held = some (.i32 4464) := by decide +kernel
  obtain rfl : u = .i32 4464 := Option.some.inj ((hstored.first nofun).symm.trans hvalue)
  exact ⟨p, m, hp, hm, hsteps⟩

theorem compile_storing_differs : ∃ p m, parseText (storingText .i64 "3000000000") .standard = .ok p ∧
    compile p true = .ok m ∧
      (m.session 2 [] [("f", []), ("g", []), ("k", [])]).steps.map (fun step => step.outcome) =
        [.ok (some (.i64 3000000000)), .ok (some (.i64 (-1294967296))), .ok (some (.i64 (-1294967296)))] :=
  exists_compiled (by decide +kernel)

end Keel
