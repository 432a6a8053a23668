import Keel.Proofs.Correctness.Programs
import Keel.Proofs.Floating.Integers
import Keel.Proofs.Lowering.Embedding
import Keel.Proofs.Lowering.Repetition
import Keel.Proofs.Lowering.Strings

/-! A string in a program is the number of its address in memory. -/

namespace Keel

section Trees

variable (address : String → ℕ)

mutual

def Expr.addressed : Expr → Expr
  | .number place value type => .number place value type
  | .reference place name => .reference place name
  | .binary place op lhs rhs => .binary place op lhs.addressed rhs.addressed
  | .call place callee args => .call place callee (Expr.addressedAll args)
  | .cast place target value => .cast place target value.addressed
  | .assign place name value => .assign place name value.addressed
  | .string place value => .number place (.ofInt (address value)) .i32
  | .conditional place conditions separators body =>
    .conditional place (Condition.addressedAll conditions) separators (Stmt.addressedAll body)
  | .importFile place path => .importFile place path

def Expr.addressedAll : List Expr → List Expr
  | [] => []
  | e :: es => e.addressed :: Expr.addressedAll es

def Condition.addressed : Condition → Condition
  | .compare lhs op rhs => .compare lhs.addressed op rhs.addressed

def Condition.addressedAll : List Condition → List Condition
  | [] => []
  | c :: cs => c.addressed :: Condition.addressedAll cs

def Stmt.addressed : Stmt → Stmt
  | .expression value => .expression value.addressed
  | .call place callee args => .call place callee (Expr.addressedAll args)
  | .declare place type name value => .declare place type name value.addressed
  | .function signature types body => .function signature types (Stmt.addressedAll body)
  | .prototype signature => .prototype signature
  | .ret place value => .ret place value.addressed

def Stmt.addressedAll : List Stmt → List Stmt
  | [] => []
  | s :: ss => s.addressed :: Stmt.addressedAll ss

end

def Program.addressed (p : Program) : Program := Stmt.addressedAll address p

lemma Expr.length_addressedAll (es : List Expr) : (Expr.addressedAll address es).length = es.length := by
  induction es with
  | nil => rfl
  | cons e es ih => rw [Expr.addressedAll, List.length_cons, ih, List.length_cons]

lemma Stmt.addressedAll_eq_map (ss : List Stmt) : Stmt.addressedAll address ss = ss.map (Stmt.addressed address) := by
  induction ss with
  | nil => rfl
  | cons st ss ih => rw [Stmt.addressedAll, ih, List.map_cons]

mutual

lemma Stmt.listed_addressed : ∀ st : Stmt, (st.addressed address).listed = st.listed
  | .function signature _ body => congrArg (signature :: ·) (Stmt.listedOfAll_addressed body)
  | .expression value => value.listed_addressed
  | .prototype _ | .call _ _ _ | .declare _ _ _ _ | .ret _ _ => rfl

lemma Expr.listed_addressed : ∀ e : Expr, (e.addressed address).listed = e.listed
  | .conditional _ _ _ body => Stmt.listedOfAll_addressed body
  | .number _ _ _ | .reference _ _ | .binary _ _ _ _ | .call _ _ _ | .cast _ _ _ | .assign _ _ _
  | .string _ _ | .importFile _ _ => rfl

lemma Stmt.listedOfAll_addressed : ∀ ss : List Stmt,
    Stmt.listedOfAll (Stmt.addressedAll address ss) = Stmt.listedOfAll ss
  | [] => rfl
  | st :: ss => by
    rw [Stmt.addressedAll, Stmt.listedOfAll, st.listed_addressed, Stmt.listedOfAll_addressed ss, Stmt.listedOfAll]

end

end Trees

namespace Lowering

open Lower
open Wasm (Instr)

section Runs

variable {α β : Type} {final : StringTable}

def State.bare (s : State) : State := { s with strings := .empty }

def Follows (final : StringTable) (x y : Lower α) : Prop :=
  ∀ ⦃s t a⦄, x s = .ok (a, t) → s.strings.Within t.strings ∧ (t.strings.Within final → y s.bare = .ok (a, t.bare))

lemma follows_pure (a : α) : Follows final (pure a) (pure a) := by
  intro s t b h
  obtain ⟨rfl, rfl⟩ := pure_ok.mp h
  exact ⟨.refl _, fun _ => rfl⟩

lemma follows_fail {cause : CompileCause} {place : Position} {y : Lower α} : Follows final (fail cause place) y :=
  fun _ _ _ h => absurd h fail_ok

lemma follows_lift (x : Except CompileError α) : Follows final (liftM x : Lower α) (liftM x) := by
  intro s t a h
  obtain ⟨hx, rfl⟩ := lift_ok.mp h
  exact ⟨.refl _, fun _ => lift_ok.mpr ⟨hx, rfl⟩⟩

lemma Follows.bind {x y : Lower α} {f g : α → Lower β} (h : Follows final x y)
    (hf : ∀ a, Follows final (f a) (g a)) : Follows final (x >>= f) (y >>= g) := by
  intro s t b hb
  obtain ⟨a, u, ha, hb⟩ := bind_ok.mp hb
  obtain ⟨hsu, hx⟩ := h ha
  obtain ⟨hut, hy⟩ := hf a hb
  exact ⟨hsu.trans hut, fun ht => bind_ok.mpr ⟨a, u.bare, hx (hut.trans ht), hy ht⟩⟩

lemma Follows.get {f g : State → Lower β} (h : ∀ s, Follows final (f s) (g s.bare)) :
    Follows final (get >>= f) (get >>= g) :=
  fun s _ _ hb => h s hb

lemma follows_declareLocal (name : String) (type : ValueType) :
    Follows final (declareLocal name type) (declareLocal name type) := by
  intro s t a h
  obtain ⟨rfl, rfl⟩ := declareLocal_ok h
  exact ⟨.refl _, fun _ => rfl⟩

lemma follows_addFunction (f : Wasm.Function) : Follows final (addFunction f) (addFunction f) := by
  intro s t a h
  obtain rfl := addFunction_ok h
  exact ⟨.refl _, fun _ => rfl⟩

lemma Follows.inScope {x y : Lower α} (h : Follows final x y) (scope : Scope) :
    Follows final (inScope scope x) (inScope scope y) := by
  rintro s t ⟨a, inner⟩ hb
  obtain ⟨u, hu, hinner, rfl⟩ := inScope_ok hb
  obtain rfl : inner = u.scope := hinner
  obtain ⟨hin, hy⟩ := h hu
  exact ⟨hin, fun ht => inScope_of (u := u.bare) (hy ht)⟩

end Runs

section Trees

variable {final : StringTable} {address : String → ℕ} {tables : Tables}

lemma follows_reference (place : Position) (name : String) :
    Follows final (reference tables place name) (reference tables place name) := by
  refine .get fun s => ?_
  dsimp only [State.bare]
  cases s.scope.locals.lookup name with
  | some v => exact follows_pure _
  | none =>
    cases tables.globals.lookup name with
    | some type => exact follows_pure _
    | none => exact follows_fail

lemma follows_assignment {place : Position} {name : String} {x y : Lower Lowered} (h : Follows final x y) :
    Follows final (assignment tables place name x) (assignment tables place name y) := by
  refine .get fun s => ?_
  dsimp only [State.bare]
  cases s.scope.locals.lookup name with
  | some v => exact h.bind fun a => (follows_lift _).bind fun b => follows_pure _
  | none =>
    cases tables.globals.lookup name with
    | some type => exact h.bind fun a => (follows_lift _).bind fun b => follows_pure _
    | none => exact follows_fail

lemma follows_returning (place : Position) (value : Lowered) :
    Follows final (returning place value) (returning place value) := by
  refine .get fun s => ?_
  dsimp only [State.bare]
  cases s.scope.returnSlot with
  | none => exact follows_pure _
  | some slot => exact (follows_lift _).bind fun b => follows_pure _

lemma follows_call {place : Position} {callee : String} {given : Nat} {x y : List ValueType → Lower (List Instr)}
    (h : ∀ types, Follows final (x types) (y types)) :
    Follows final (call tables place callee given x) (call tables place callee given y) := by
  unfold call
  cases tables.functions.lookup callee with
  | none => exact follows_fail
  | some s =>
    dsimp only
    split_ifs
    · exact follows_fail
    · exact (h _).bind fun codes => follows_pure _

def Addresses (final : StringTable) (address : String → ℕ) : Prop :=
  ∀ value a, final.entries.lookup value = some a → address value = a ∧ a < 2 ^ 31

lemma literal_address {n : ℕ} (h : n < 2 ^ 31) (place : Position) :
    literal (.ofInt n) .i32 place = .ok ⟨i32Const n, .i32⟩ := by
  have hexact : Floating.ExactInt n := by
    unfold Floating.ExactInt
    omega
  have hfinite : (Floating.ofInt n : Double).isFinite = true := Floating.ofInt_finite hexact
  unfold literal
  rw [if_neg nofun, hfinite]
  simp only [Floating.toBits, Floating.truncate?_ofInt hexact]
  rfl

lemma follows_string (haddress : Addresses final address) (place : Position) (value : String) :
    Follows final (expression tables (.string place value))
      (expression tables (.number place (.ofInt (address value)) .i32)) := by
  intro s t x h
  obtain ⟨rfl, rfl⟩ := expression_string h
  refine ⟨StringTable.within_intern _ _, fun ht => ?_⟩
  obtain ⟨heq, hlt⟩ := haddress value _ (ht.lookup (StringTable.lookup_intern _ _))
  rw [expression, heq]
  exact lift_ok.mpr ⟨literal_address hlt place, rfl⟩

mutual

lemma expression_follows (haddress : Addresses final address) :
    ∀ e : Expr, Follows final (expression tables e) (expression tables (e.addressed address))
  | .binary place op lhs rhs => by
    by_cases hop : op = "="
    · cases lhs with
      | reference site name =>
        simp only [Expr.addressed, expression, if_pos hop]
        exact follows_assignment (expression_follows haddress rhs)
      | _ =>
        simp only [expression, if_pos hop]
        exact follows_fail
    · simp only [Expr.addressed, expression, if_neg hop]
      exact (expression_follows haddress lhs).bind fun x => (expression_follows haddress rhs).bind fun y =>
        follows_lift _
  | .call place callee args => by
    simp only [Expr.addressed, expression, Expr.length_addressedAll]
    exact follows_call (arguments_follows haddress args place)
  | .cast place target value => by
    simp only [Expr.addressed, expression]
    exact (expression_follows haddress value).bind fun x => follows_lift _
  | .assign place name value => by
    simp only [Expr.addressed, expression]
    exact follows_assignment (expression_follows haddress value)
  | .conditional place conditions separators body => by
    simp only [Expr.addressed, expression]
    exact (conditionList_follows haddress conditions place).bind fun codes => (follows_lift _).bind fun condition =>
      (block_follows haddress body).bind fun statements => follows_pure _
  | .string place value => follows_string haddress place value
  | .number place value type => by
    simp only [Expr.addressed, expression]
    exact follows_lift _
  | .reference place name => by
    simp only [Expr.addressed, expression]
    exact follows_reference place name
  | .importFile place path => by
    simp only [Expr.addressed, expression]
    exact follows_pure _

lemma arguments_follows (haddress : Addresses final address) (es : List Expr) :
    ∀ (place : Position) (types : List ValueType),
    Follows final (arguments tables place es types) (arguments tables place (Expr.addressedAll address es) types) := by
  match es with
  | [] =>
    intro place types
    simp only [Expr.addressedAll, arguments]
    exact follows_pure _
  | e :: es =>
    intro place types
    cases types with
    | nil =>
      simp only [Expr.addressedAll, arguments]
      exact follows_pure _
    | cons type types =>
      simp only [Expr.addressedAll, arguments]
      exact (expression_follows haddress e).bind fun x => (follows_lift _).bind fun y =>
        (arguments_follows haddress es place types).bind fun codes => follows_pure _

lemma condition_follows (haddress : Addresses final address) : ∀ (c : Condition) (place : Position),
    Follows final (condition tables place c) (condition tables place (c.addressed address))
  | .compare lhs op rhs, place => by
    simp only [Condition.addressed, condition]
    exact (expression_follows haddress lhs).bind fun x => (expression_follows haddress rhs).bind fun y => follows_lift _

lemma conditionList_follows (haddress : Addresses final address) : ∀ (cs : List Condition) (place : Position),
    Follows final (conditionList tables place cs) (conditionList tables place (Condition.addressedAll address cs))
  | [], place => by
    simp only [Condition.addressedAll, conditionList]
    exact follows_pure _
  | c :: cs, place => by
    simp only [Condition.addressedAll, conditionList]
    exact (condition_follows haddress c place).bind fun code =>
      (conditionList_follows haddress cs place).bind fun codes => follows_pure _

lemma statement_follows (haddress : Addresses final address) :
    ∀ st : Stmt, Follows final (statement tables st) (statement tables (st.addressed address))
  | .expression value => by
    simp only [Stmt.addressed, statement]
    exact (expression_follows haddress value).bind fun x => follows_pure _
  | .call place callee args => by
    simp only [Stmt.addressed, statement, Expr.length_addressedAll]
    exact (follows_call (arguments_follows haddress args place)).bind fun x => follows_pure _
  | .declare place type name value => by
    simp only [Stmt.addressed, statement]
    exact (expression_follows haddress value).bind fun x => (follows_lift _).bind fun y =>
      (follows_declareLocal name type).bind fun index => follows_pure _
  | .function signature types body => by
    simp only [Stmt.addressed, statement]
    exact ((block_follows haddress body).inScope _).bind fun r => (follows_addFunction _).bind fun _ => follows_pure _
  | .prototype _ => by
    simp only [Stmt.addressed, statement]
    exact follows_pure _
  | .ret place value => by
    simp only [Stmt.addressed, statement]
    exact (expression_follows haddress value).bind fun x => follows_returning place x

lemma block_follows (haddress : Addresses final address) :
    ∀ ss : List Stmt, Follows final (block tables ss) (block tables (Stmt.addressedAll address ss))
  | [] => by
    simp only [Stmt.addressedAll, block]
    exact follows_pure _
  | st :: ss => by
    simp only [Stmt.addressedAll, block]
    exact (statement_follows haddress st).bind fun code => (block_follows haddress ss).bind fun codes => follows_pure _

end

lemma topStatement_follows (haddress : Addresses final address) (st : Stmt) :
    Follows final (topStatement tables st) (topStatement tables (st.addressed address)) := by
  cases st with
  | declare place type name value =>
    simp only [Stmt.addressed, topStatement]
    exact (expression_follows haddress value).bind fun x => (follows_lift _).bind fun y => follows_pure _
  | _ => exact statement_follows haddress _

lemma topStatements_follows (haddress : Addresses final address) (p : Program) :
    Follows final (topStatements tables p) (topStatements tables (p.addressed address)) := by
  unfold Program.addressed
  induction p with
  | nil =>
    simp only [Stmt.addressedAll, topStatements]
    exact follows_pure _
  | cons st p ih =>
    simp only [Stmt.addressedAll, topStatements]
    exact (topStatement_follows haddress st).bind fun code => ih.bind fun codes => follows_pure _

end Trees

end Lowering

open Lowering
open Wasm (Segment Contiguous)

section Modules

variable {address : String → ℕ} {p : Program} {exported : Bool} {m : Wasm.Module}

lemma globalTable_addressed (p : Program) : globalTable (p.addressed address) = globalTable p := by
  unfold globalTable Program.addressed
  rw [Stmt.addressedAll_eq_map, List.foldlM_map]
  congr 1
  funext table st
  cases st <;> rfl

lemma hosts_addressed (p : Program) : (p.addressed address).hosts = p.hosts := by
  unfold Program.addressed Program.hosts
  rw [Stmt.addressedAll_eq_map, List.filterMap_map]
  congr 1
  funext st
  cases st <;> rfl

lemma globals_addressed (p : Program) : (p.addressed address).globals = p.globals := by
  unfold Program.addressed Program.globals
  rw [Stmt.addressedAll_eq_map, List.filterMap_map]
  congr 1
  funext st
  cases st <;> rfl

lemma isDefinition_addressed (p : Program) : (p.addressed address).all isDefinition = p.all isDefinition := by
  unfold Program.addressed
  rw [Stmt.addressedAll_eq_map, List.all_map]
  congr 1
  funext st
  cases st <;> rfl

lemma functionTable_addressed {functions : FunctionTable} (h : functionTable p = .ok functions) :
    functionTable (p.addressed address) = .ok functions := by
  rw [functionTable_iff] at h ⊢
  unfold Program.listed Program.addressed at *
  rwa [Stmt.listedOfAll_addressed]

lemma lower_addressed {tables : Tables} {code : List Wasm.Instr} {s : State}
    (hm : Comprises p exported tables code s m) (haddress : Addresses s.strings address) :
    lower (p.addressed address) exported = .ok { m with pages := 1, segments := [] } := by
  have hfollows := ((topStatements_follows haddress p) hm.statements).2 (.refl _)
  have hstart : startFunction (p.addressed address) code s.bare.scope = startFunction p code s.scope := by
    unfold startFunction
    rw [isDefinition_addressed]
    rfl
  obtain ⟨n, hlower, hn, hsegments, hpages⟩ := lower_of_statements exported hfollows
    (functionTable_addressed hm.functionTable) ((globalTable_addressed p).trans hm.globalTable)
  have hmodule : n = { m with pages := 1, segments := [] } := by
    have himports := hn.imports
    have hfunctions := hn.functions
    have hglobals := hn.globals
    have hexports := hn.exports
    have hentry := hn.start
    have hempty : StringTable.empty.segments = [] ∧ StringTable.empty.pages = 1 := ⟨rfl, by decide⟩
    replace hsegments := hsegments.trans hempty.1
    replace hpages := hpages.trans hempty.2
    rw [hosts_addressed, ← hm.imports] at himports
    rw [hstart] at hfunctions hentry
    rw [globals_addressed, ← hm.globals] at hglobals
    cases n
    cases m
    simp only [Wasm.Module.mk.injEq]
    exact ⟨himports, hfunctions.trans hm.functions.symm, hglobals, hexports.trans hm.exports.symm,
      hentry.trans hm.start.symm, hpages, hsegments⟩
  rw [hlower, hmodule]

/-- How a module holds the strings of its program: each once, at its address. -/
structure LaidOut (p : Program) (exported : Bool) (m : Wasm.Module) (address : String → ℕ) : Prop where
  segments : ∃ values : List String, values.Nodup ∧ (∀ v, v ∈ values ↔ v ∈ p.texts) ∧
    m.segments = values.map fun v => ⟨address v, v.toUTF8.data.toList ++ [0]⟩
  contiguous : ∃ finish, Contiguous 8 m.segments finish
  disjoint : m.segments.Pairwise Segment.Before
  distinct : ∀ v ∈ p.texts, ∀ w ∈ p.texts, address v = address w → v = w
  constants : ∀ place v, Expr.string place v ∈ p.parts →
    ∃ tables s t, expression tables (.string place v) s = .ok (⟨i32Const (address v), .i32⟩, t) ∧
      m.Holds (i32Const (address v)) ∧ (BitVec.ofInt 32 (address v)).toNat = address v
  replaced : lower (p.addressed address) exported = .ok { m with pages := 1, segments := [] }
  pages : IsLeast {n | 1 ≤ n ∧ ∀ s ∈ m.segments, s.offset + s.data.length ≤ n * Wasm.pageSize} m.pages
  inside : ∀ s ∈ m.segments, ∀ i, ∀ h : i < s.data.length, m.byteAt (s.offset + i) = s.data[i]
  outside : ∀ a, (∀ s ∈ m.segments, a < s.offset ∨ s.offset + s.data.length ≤ a) → m.byteAt a = 0
  texts : ∀ v ∈ p.texts, '\x00' ∉ v.toList → String.fromUTF8? (m.textAt (address v)).toByteArray = some v

lemma mem_entries {tables : Tables} {code : List Wasm.Instr} {s : State} (hm : Comprises p exported tables code s m)
    (v : String) : v ∈ s.strings.entries.map Prod.fst ↔ v ∈ p.texts := by
  rw [hm.strings, StringTable.mem_internAll, p.texts_eq]
  simp [StringTable.empty]

lemma addresses_addressOf {table : StringTable} (h : ∀ v ∈ table.entries.map Prod.fst, table.addressOf v < 2 ^ 31) :
    Addresses table table.addressOf := by
  intro v a hlookup
  have hentry : v ∈ table.entries.map Prod.fst := List.mem_map.mpr ⟨_, mem_of_lookup hlookup, rfl⟩
  have heq := StringTable.addressOf_eq hlookup
  exact ⟨heq, heq ▸ h v hentry⟩

lemma string_constant {tables : Tables} {code : List Wasm.Instr} {s : State}
    (hm : Comprises p exported tables code s m) {place : Position} {v : String} (he : Expr.string place v ∈ p.parts) :
    ∃ r t, expression tables (.string place v) r = .ok (⟨i32Const (s.strings.addressOf v), .i32⟩, t) ∧
      m.Holds (i32Const (s.strings.addressOf v)) := by
  obtain ⟨r, x, u, hx, hwithin, hholds⟩ := hm.holds he rfl
  obtain ⟨rfl, rfl⟩ := expression_string hx
  have hlookup := hwithin.lookup (StringTable.lookup_intern r.strings v)
  rw [← StringTable.addressOf_eq hlookup] at hx hholds
  exact ⟨r, _, hx, hholds⟩

/-- The strings of a program lie in its module's memory, one directly behind another, where the code expects them. -/
theorem lower_laidOut (h : lower p exported = .ok m)
    (hsize : (m.segments.map fun s => s.data.length).sum < 2 ^ 31 - 8) : ∃ address, LaidOut p exported m address ∧
      (compile p exported = .ok m →
        compile (p.addressed address) exported = .ok { m with pages := 1, segments := [] }) := by
  obtain ⟨tables, code, s, hm, hsegments, hpages⟩ := lower_memory h
  have hdense : s.strings.Dense := hm.strings ▸ StringTable.dense_empty.internAll _
  have hcontiguous : Contiguous 8 m.segments s.strings.finish := hsegments ▸ hdense.contiguous
  have hfinish := hcontiguous.finish_eq
  have hmem : ∀ v ∈ p.texts, ⟨s.strings.addressOf v, v.toUTF8.data.toList ++ [0]⟩ ∈ m.segments := by
    intro v hv
    rw [hsegments]
    exact hdense.mem_segments ((mem_entries hm v).mpr hv)
  have hsmall : ∀ v ∈ p.texts, s.strings.addressOf v < 2 ^ 31 := by
    intro v hv
    have hbound := (hcontiguous.bounds _ (hmem v hv)).2
    dsimp only at hbound
    omega
  have haddress := addresses_addressOf fun v hv => hsmall v ((mem_entries hm v).mp hv)
  have hleast : IsLeast {n | 1 ≤ n ∧ ∀ s ∈ m.segments, s.offset + s.data.length ≤ n * Wasm.pageSize} m.pages := by
    rw [hsegments, hpages]
    exact hdense.pages_isLeast
  have hlower := lower_addressed hm haddress
  refine ⟨s.strings.addressOf, ⟨?_, ⟨_, hcontiguous⟩, hcontiguous.pairwise, ?_, ?_, hlower, hleast,
    fun _ hs _ hi => Wasm.Module.byteAt_of_mem hcontiguous.pairwise hs hi,
    fun _ hout => Wasm.Module.byteAt_of_outside hout, ?_⟩, fun hcompile => ?_⟩
  · exact ⟨_, hdense.distinct, mem_entries hm, hsegments.trans hdense.segments_eq⟩
  · exact fun v hv w hw => hdense.injective ((mem_entries hm v).mpr hv) ((mem_entries hm w).mpr hw)
  · intro place v he
    obtain ⟨r, t, hx, hholds⟩ := string_constant hm he
    refine ⟨tables, r, t, hx, hholds, ?_⟩
    have hlt := hsmall v (Program.mem_texts.mpr ⟨place, he⟩)
    rw [BitVec.ofInt_natCast, BitVec.toNat_ofNat]
    exact Nat.mod_eq_of_lt (by omega)
  · intro v hv hnul
    rw [Wasm.Module.textAt_of_mem hcontiguous.pairwise (hmem v hv) (hleast.1.2 _ (hmem v hv))
      (StringTable.zero_notMem_utf8 hnul)]
    exact StringTable.fromUTF8?_encoded v
  · -- the calls of the module are the same ones
    unfold compile
    rw [hlower]
    exact if_pos (compile_ok hcompile).2

def textSource : String :=
  "fn log(i32 text) -> void;\nlog(\"\u00e9\");\nfn f() -> i32 \x7b return \"a\"; \x7d\nlog(\"\");\nlog(\"a\");\n"

theorem lower_laidOut_letters : ∃ p m address, parseText textSource .standard = .ok p ∧ lower p true = .ok m ∧
    LaidOut p true m address ∧ m.segments = [⟨8, [195, 169, 0]⟩, ⟨11, [97, 0]⟩, ⟨13, [0]⟩] ∧ m.pages = 1 := by
  obtain ⟨p, m, hp, hm, hsegments, hpages⟩ := exists_compiled
    (P := fun _ m => m.segments = [⟨8, [195, 169, 0]⟩, ⟨11, [97, 0]⟩, ⟨13, [0]⟩] ∧ m.pages = 1)
    (show checkCompiled textSource _ = true by decide +kernel)
  have hsize : (m.segments.map fun s => s.data.length).sum < 2 ^ 31 - 8 := by
    rw [hsegments]
    decide
  obtain ⟨hlower, -⟩ := compile_ok hm
  obtain ⟨address, hlaid, -⟩ := lower_laidOut hlower hsize
  exact ⟨p, m, address, hp, hlower, hlaid, hsegments, hpages⟩

end Modules

end Keel
