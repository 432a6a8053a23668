import Keel.Proofs.Correctness.Constructs
import Keel.Proofs.Lowering.Refusals
import Keel.Proofs.Semantics.Integers

/-! Expressions over integers compute what they stand for exactly, up to the ranges of their types. -/

namespace Keel

namespace Expr

open Semantics

inductive OverIntegers (types : String → Option ValueType) : Expr → Prop
  | literal {place x t} : t.isInteger = true → t ≠ .bool → x.isFinite = true → OverIntegers types (.number place x t)
  | truth {place x} (b : Bool) : x.truncate? = some b.toInt → OverIntegers types (.number place x .bool)
  | reference {place name t} : types name = some t → t.isInteger = true → OverIntegers types (.reference place name)
  | cast {place t e} : t.isInteger = true → OverIntegers types e → OverIntegers types (.cast place t e)
  | binary {place op lhs rhs} : op ∈ comparisonSymbols ++ tightSymbols → OverIntegers types lhs →
      OverIntegers types rhs → OverIntegers types (.binary place op lhs rhs)

def integerType (types : String → Option ValueType) : Expr → ValueType
  | .number _ _ t | .cast _ t _ => t
  | .reference _ name => (types name).getD .void
  | .binary _ op lhs rhs => operationType op (lhs.integerType types) (rhs.integerType types)
  | .call _ _ _ | .assign _ _ _ | .string _ _ | .conditional _ _ _ _ | .importFile _ _ => .void

/-- The integer that an expression stands for where the variables have the given values, or why there is none. -/
def exact (types : String → Option ValueType) (values : String → ℤ) : Expr → Except Wasm.Trap ℤ
  | .number _ x t => .ok (t.wrap (x.truncate?.getD 0))
  | .reference _ name => .ok (values name)
  | .cast _ t e => (e.exact types values).map t.wrap
  | .binary _ op lhs rhs => do
    let x ← lhs.exact types values
    let y ← rhs.exact types values
    exactOperation op (lhs.integerType types) (rhs.integerType types) x y
  | .call _ _ _ | .assign _ _ _ | .string _ _ | .conditional _ _ _ _ | .importFile _ _ => .ok 0

variable {types : String → Option ValueType} {values : String → ℤ} {e : Expr} {n : ℤ}

lemma OverIntegers.isInteger (h : e.OverIntegers types) : (e.integerType types).isInteger = true := by
  induction h with
  | literal ht => exact ht
  | truth => rfl
  | reference hname ht => simpa [integerType, hname] using ht
  | cast ht => exact ht
  | binary _ _ _ ihl ihr => exact operationType_isInteger ihl ihr

lemma OverIntegers.contains (h : e.OverIntegers types)
    (hvalues : ∀ name t, types name = some t → t.Contains (values name)) (hn : e.exact types values = .ok n) :
    (e.integerType types).Contains n := by
  induction h generalizing n with
  | literal ht =>
    cases hn
    exact ValueType.contains_wrap ht _
  | truth =>
    cases hn
    exact ValueType.contains_wrap rfl _
  | reference hname ht =>
    cases hn
    simpa [integerType, hname] using hvalues _ _ hname
  | cast ht =>
    obtain ⟨k, -, rfl⟩ := except_map_ok hn
    exact ValueType.contains_wrap ht _
  | binary _ hl hr =>
    obtain ⟨x, -, hn⟩ := Lowering.except_bind_ok.mp hn
    obtain ⟨y, -, hn⟩ := Lowering.except_bind_ok.mp hn
    exact exactOperation_contains hl.isInteger hr.isInteger hn

end Expr

namespace Lowering

open Semantics
open Wasm (Instr Caller Stop Trap)

def typeOf? (tables : Tables) (scope : Scope) (name : String) : Option ValueType :=
  match scope.locals.lookup name with
  | some v => some v.type
  | none => tables.globals.lookup name

def held? (scope : Scope) (name : String) (r : Wasm.State) : Option Wasm.Value :=
  match scope.locals.lookup name with
  | some v => (r.locals[v.index]?).join
  | none => r.store.globals.lookup name

def computed (t : ValueType) (r : Wasm.State) :
    Except Trap ℤ → EStateM.Result Stop Wasm.State (Option Wasm.Value)
  | .ok n => .ok (Value.ofInteger t n).held r
  | .error trap => .error (.trap trap) r

variable {tables : Tables} {types : String → Option ValueType} {values : String → ℤ} {e : Expr} {s : State}
  {x y z : Lowered} {place : Position} {t : ValueType} {call : Caller} {r : Wasm.State} {m k : Except Trap ℤ}
  {op : String}

lemma ne_void_of_isInteger (h : t.isInteger = true) : t ≠ .void := by
  rintro rfl
  cases h

lemma conveyed_ofInteger : conveyed ((m.mapError Stop.trap).map (Value.ofInteger t)) r = computed t r m := by
  cases m <;> rfl

lemma coerce_computes (hx : x.type.isInteger = true) (ht : t.isInteger = true) (hz : coerce x t place = .ok z)
    (hrun : x.code.run call r = computed x.type r m) (hm : ∀ n, m = .ok n → x.type.Contains n) :
    z.code.run call r = computed t r (m.map t.wrap) := by
  obtain ⟨-, f, hf, hv⟩ := extends_coerce hz
  rw [hf call]
  cases m with
  | error trap => exact bind_of_error hrun
  | ok n =>
    rw [bind_of_ok hrun, hv _ (Value.type_ofInteger hx), Value.convert_ofInteger hx ht (hm n rfl)]
    rfl

lemma symbol_kinds : ∀ op ∈ comparisonSymbols ++ tightSymbols, (arithOp? op).isSome = !yieldsTruth op ∧
    ((arithOp? op).isSome = true ∨ (compareOp? op).isSome = true) ∧ op ≠ "=" := by
  decide

lemma operation_type (hop : op ∈ comparisonSymbols ++ tightSymbols) (hz : operation place op x y = .ok z) :
    z.type = operationType op x.type y.type := by
  obtain ⟨wide, type, operator, l, r, hwide, rfl, -, -, -, rfl⟩ := operation_ok hz
  obtain ⟨-, -, rfl⟩ := commonType_ok hwide
  rw [operationType, (symbol_kinds op hop).1, numeric]
  cases yieldsTruth op <;> simp

lemma operation_isOk (place : Position) (hop : op ∈ comparisonSymbols ++ tightSymbols) (hx : x.type ≠ .void)
    (hy : y.type ≠ .void) : ∃ z, operation place op x y = .ok z := by
  have hwider : commonType x.type y.type place = .ok (wider x.type y.type) := by
    rw [commonType, if_neg (not_or.mpr ⟨hx, hy⟩), wider]
  have htype : (if wider x.type y.type = .bool ∧ !yieldsTruth op then .i32 else wider x.type y.type) ≠ .void := by
    split_ifs
    · decide
    · exact commonType_type_ne_void hwider
  obtain ⟨operator, hoperator⟩ := operator?_isSome htype (List.mem_cons_of_mem _ hop) (symbol_kinds op hop).2.2
  obtain ⟨l, hl⟩ := coerce_isOk place hx htype
  obtain ⟨r, hr⟩ := coerce_isOk place hy htype
  simp only [operation, hwider, bind, Except.bind, hoperator, hl, hr]
  exact ⟨_, rfl⟩

lemma operation_computes (hop : op ∈ comparisonSymbols ++ tightSymbols) (hx : x.type.isInteger = true)
    (hy : y.type.isInteger = true) (hz : operation place op x y = .ok z)
    (hxrun : x.code.run call r = computed x.type r m) (hyrun : y.code.run call r = computed y.type r k)
    (hm : ∀ n, m = .ok n → x.type.Contains n) (hk : ∀ n, k = .ok n → y.type.Contains n) :
    z.code.run call r = computed (operationType op x.type y.type) r
      (m.bind fun a => k.bind fun b => exactOperation op x.type y.type a b) := by
  obtain ⟨⟨f, g, hrun, hv⟩, -⟩ := operation_combines hz
  rw [hrun call]
  cases m with
  | error trap => exact bind_of_error hxrun
  | ok a =>
    obtain ⟨c, hc, hw⟩ := hv (Value.ofInteger x.type a) (Value.type_ofInteger hx)
    rw [bind_of_ok hxrun, hc, pure_bind]
    cases k with
    | error trap => exact bind_of_error hyrun
    | ok b =>
      rw [bind_of_ok hyrun, hw _ (Value.type_ofInteger hy),
        operate_ofInteger hx hy (hm a rfl) (hk b rfl) (symbol_kinds op hop).2.1, conveyed_ofInteger]
      rfl

lemma literal_computes {value : Double} (ht : t.isInteger = true) (hfinite : value.isFinite = true)
    (hbool : t = .bool → t.Contains (value.truncate?.getD 0)) : ∃ x, literal value t place = .ok x ∧ x.type = t ∧
      ∀ call r, x.code.run call r = computed t r (.ok (t.wrap (value.truncate?.getD 0))) := by
  have hok : ∃ x, literal value t place = .ok x := by
    unfold literal
    rw [if_neg (ne_void_of_isInteger ht), if_neg (by simp [hfinite])]
    exact ⟨_, rfl⟩
  obtain ⟨x, hx⟩ := hok
  obtain ⟨n, rfl, hheld⟩ := literal_ok hx
  refine ⟨_, hx, rfl, fun call r => ?_⟩
  rw [computed, ← Value.literal_ofInteger ht hbool, hheld]
  rfl

lemma reference_computes {name : String} (h : typeOf? tables s.scope name = some t) :
    ∃ x, reference tables place name s = .ok (x, s) ∧ x.type = t ∧
      ∀ call r n, held? s.scope name r = some n → x.code.run call r = .ok (some n) r := by
  unfold typeOf? at h
  unfold held? reference
  cases hlocal : s.scope.locals.lookup name with
  | some v =>
    rw [hlocal] at h
    cases h
    refine ⟨⟨.localGet v.index, v.type⟩, ?_, rfl, fun call r n hn => ?_⟩
    · rw [Lower.get_bind, hlocal]
      rfl
    · rw [Instr.run, getLocal_run (Option.join_eq_some_iff.mp hn)]
  | none =>
    rw [hlocal] at h
    have hglobal : tables.globals.lookup name = some t := h
    refine ⟨⟨.globalGet name, t⟩, ?_, rfl, fun call r n hn => ?_⟩
    · rw [Lower.get_bind, hlocal, hglobal]
      rfl
    · rw [Instr.run, map_of_ok (getGlobal_run hn)]

def Stored (types : String → Option ValueType) (values : String → ℤ) (scope : Scope) (r : Wasm.State) : Prop :=
  ∀ name t, types name = some t →
    t.Contains (values name) ∧ held? scope name r = (Value.ofInteger t (values name)).held

lemma expression_computes (hknown : ∀ name t, types name = some t → typeOf? tables s.scope name = some t)
    (he : e.OverIntegers types) : ∃ x, expression tables e s = .ok (x, s) ∧ x.type = e.integerType types ∧
      ∀ call values r, Stored types values s.scope r →
      x.code.run call r = computed x.type r (e.exact types values) := by
  induction he with
  | @literal place value t ht hbool hfinite =>
    obtain ⟨x, hx, htype, hrun⟩ := literal_computes ht hfinite fun h => absurd h hbool
    have hlower : expression tables (.number place value t) s = .ok (x, s) := by
      rw [expression]
      exact Lower.lift_ok.mpr ⟨hx, rfl⟩
    exact ⟨x, hlower, htype, fun call values r _ => htype ▸ hrun call r⟩
  | @truth place value b hb =>
    have hfinite : value.isFinite = true := by
      cases value with
      | finite _ _ _ => rfl
      | _ => cases hb
    have hcontains : ValueType.bool.Contains (value.truncate?.getD 0) := by
      rw [hb]
      cases b <;> simp [ValueType.Contains]
    obtain ⟨x, hx, htype, hrun⟩ := literal_computes rfl hfinite fun _ => hcontains
    have hlower : expression tables (.number place value .bool) s = .ok (x, s) := by
      rw [expression]
      exact Lower.lift_ok.mpr ⟨hx, rfl⟩
    exact ⟨x, hlower, htype, fun call values r _ => htype ▸ hrun call r⟩
  | reference hname ht =>
    obtain ⟨x, hx, htype, hrun⟩ := reference_computes (hknown _ _ hname)
    refine ⟨x, by rw [expression]; exact hx, by simp [Expr.integerType, hname, htype], fun call values r hr => ?_⟩
    have hvoid := ne_void_of_isInteger ht
    obtain ⟨n, hn⟩ := exists_held (v := Value.ofInteger _ (values _)) (Value.type_ofInteger ht ▸ hvoid)
    rw [hrun call r n ((hr _ _ hname).2.trans hn), htype, ← hn]
    rfl
  | @cast place t e ht he ih =>
    obtain ⟨x, hx, htype, hrun⟩ := ih
    have hinteger := htype ▸ he.isInteger
    obtain ⟨z, hz⟩ := coerce_isOk place (ne_void_of_isInteger hinteger) (ne_void_of_isInteger ht)
    obtain ⟨hztype, -⟩ := extends_coerce hz
    refine ⟨z, by rw [expression]; exact Lower.bind_ok.mpr ⟨x, s, hx, Lower.lift_ok.mpr ⟨hz, rfl⟩⟩, hztype, ?_⟩
    intro call values r hr
    rw [hztype]
    exact coerce_computes hinteger ht hz (hrun call values r hr) fun n hn =>
      htype ▸ he.contains (fun name t h => (hr name t h).1) hn
  | @binary place op lhs rhs hop hl hr ihl ihr =>
    obtain ⟨x, hx, hxtype, hxrun⟩ := ihl
    obtain ⟨y, hy, hytype, hyrun⟩ := ihr
    have hxinteger := hxtype ▸ hl.isInteger
    have hyinteger := hytype ▸ hr.isInteger
    obtain ⟨z, hz⟩ := operation_isOk place hop (ne_void_of_isInteger hxinteger)
      (ne_void_of_isInteger hyinteger)
    have hztype := operation_type hop hz
    refine ⟨z, ?_, by rw [hztype, hxtype, hytype, Expr.integerType], ?_⟩
    · simp only [expression, if_neg (symbol_kinds op hop).2.2]
      exact Lower.bind_ok.mpr ⟨x, s, hx, Lower.bind_ok.mpr ⟨y, s, hy, Lower.lift_ok.mpr ⟨hz, rfl⟩⟩⟩
    · intro call values r hstored
      have hvalues : ∀ name t, types name = some t → t.Contains (values name) := fun name t h => (hstored name t h).1
      rw [hztype, Expr.exact, ← hxtype, ← hytype]
      exact operation_computes hop hxinteger hyinteger hz (hxrun call values r hstored) (hyrun call values r hstored)
        (fun n hn => hxtype ▸ hl.contains hvalues hn) fun n hn => hytype ▸ hr.contains hvalues hn

/-- An expression over integers has code, which computes it exactly whatever the variables hold. -/
theorem expression_exact (hknown : ∀ name t, types name = some t → typeOf? tables s.scope name = some t)
    (he : e.OverIntegers types) : ∃ x, expression tables e s = .ok (x, s) ∧ x.type = e.integerType types ∧
      ∀ (call : Caller) (values : String → ℤ) (r : Wasm.State), Stored types values s.scope r →
        x.code.run call r = computed x.type r (e.exact types values) ∧
          ∀ n, e.exact types values = .ok n → x.type.Contains n := by
  obtain ⟨x, hx, htype, hrun⟩ := expression_computes hknown he
  refine ⟨x, hx, htype, fun call values r hr => ⟨hrun call values r hr, fun n hn => ?_⟩⟩
  exact htype ▸ he.contains (fun name t h => (hr name t h).1) hn

def sampleTypes (name : String) : Option ValueType := [("a", ValueType.i16), ("b", ValueType.i64)].lookup name

def sampleTables : Tables := ⟨[], [("b", .i64)]⟩

def sampleState : State := ⟨⟨[("a", ⟨0, .i16⟩)], [], 1, .void, none⟩, .empty, []⟩

def sampleQuotient : Expr :=
  .binary .start "/"
    (.binary .start "+"
      (.cast .start .i8 (.binary .start "*" (.reference .start "a") (.number .start (.ofInt 100) .i32)))
      (.reference .start "b"))
    (.binary .start "-" (.reference .start "a") (.number .start (.ofInt 300) .i16))

def sampleRun (a : BitVec 32) : Wasm.State := ⟨⟨[("b", .i64 (-9))], [], []⟩, [some (.i32 a)]⟩

def noCaller : Caller := fun _ _ => throw .stuck

lemma sampleTypes_some {name : String} (h : sampleTypes name = some t) :
    name = "a" ∧ t = .i16 ∧ typeOf? sampleTables sampleState.scope name = some t ∨
      name = "b" ∧ t = .i64 ∧ typeOf? sampleTables sampleState.scope name = some t := by
  have hmem := mem_of_lookup h
  simp only [List.mem_cons, Prod.mk.injEq, List.not_mem_nil, or_false] at hmem
  obtain ⟨rfl, rfl⟩ | ⟨rfl, rfl⟩ := hmem
  · exact .inl ⟨rfl, rfl, rfl⟩
  · exact .inr ⟨rfl, rfl, rfl⟩

theorem expression_exact_quotient : ∃ x, expression sampleTables sampleQuotient sampleState = .ok (x, sampleState) ∧
    x.type = .i64 ∧ x.code.run noCaller (sampleRun 302) = .ok (some (.i64 (-8))) (sampleRun 302) ∧
      x.code.run noCaller (sampleRun 300) = .error (.trap .divideByZero) (sampleRun 300) := by
  have he : sampleQuotient.OverIntegers sampleTypes :=
    .binary (by decide)
      (.binary (by decide)
        (.cast rfl (.binary (by decide) (.reference rfl rfl) (.literal rfl nofun (by decide +kernel))))
        (.reference rfl rfl))
      (.binary (by decide) (.reference rfl rfl) (.literal rfl nofun (by decide +kernel)))
  have hknown : ∀ name t, sampleTypes name = some t → typeOf? sampleTables sampleState.scope name = some t := by
    intro name t h
    obtain ⟨-, -, htype⟩ | ⟨-, -, htype⟩ := sampleTypes_some h <;> exact htype
  have hstored : ∀ a : ℤ, ValueType.i16.Contains a → Stored sampleTypes (fun name => if name = "a" then a else -9)
      sampleState.scope (sampleRun (BitVec.ofInt 32 a)) := by
    intro a ha name t h
    obtain ⟨rfl, rfl, -⟩ | ⟨rfl, rfl, -⟩ := sampleTypes_some h
    · exact ⟨ha, rfl⟩
    · exact ⟨by simp [ValueType.Contains, ValueType.bits], rfl⟩
  have hquotient : sampleQuotient.exact sampleTypes (fun name => if name = "a" then 302 else -9) = .ok (-8) := by
    decide +kernel
  have htrap : sampleQuotient.exact sampleTypes (fun name => if name = "a" then 300 else -9) =
      .error .divideByZero := by
    decide +kernel
  obtain ⟨x, hx, htype, hrun⟩ := expression_exact hknown he
  have htype : x.type = .i64 := htype
  have h302 := (hrun noCaller _ _ (hstored 302 (by simp [ValueType.Contains, ValueType.bits]))).1
  have h300 := (hrun noCaller _ _ (hstored 300 (by simp [ValueType.Contains, ValueType.bits]))).1
  rw [htype, hquotient] at h302
  rw [htype, htrap] at h300
  exact ⟨x, hx, htype, h302, h300⟩

end Lowering

end Keel
