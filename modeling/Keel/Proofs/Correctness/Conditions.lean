import Keel.Proofs.Correctness.Programs
import Keel.Proofs.Lowering.Embedding
import Keel.Proofs.Ranges.Code

/-! The conditions of an `if` run from left to right, each only while the outcome is still open. -/

namespace Keel.Lowering

open Ranges (Keeps)
open Wasm (Instr Run Stop Caller)

def connect (separator : String) (outcome next : Bool) : Bool :=
  if separator = "&&" then outcome && next else outcome || next

def Decides (separator : String) (outcome decided : Bool) : Prop := ∀ next, connect separator outcome next = decided

inductive Judges (call : Caller) : Bool → List (String × Instr) → Wasm.State → List (Option Bool) →
    EStateM.Result Stop Wasm.State Bool → Prop
  | done {outcome r} : Judges call outcome [] r [] (.ok outcome r)
  | skipped {outcome decided separator code rest r verdicts result} : Decides separator outcome decided →
      Judges call decided rest r verdicts result →
      Judges call outcome ((separator, code) :: rest) r (none :: verdicts) result
  | ran {outcome separator code rest r n q verdicts result} : (¬ ∃ decided, Decides separator outcome decided) →
      code.run call r = .ok (some n) q → Judges call (connect separator outcome n.isTrue) rest q verdicts result →
      Judges call outcome ((separator, code) :: rest) r (some n.isTrue :: verdicts) result
  | stopped {outcome separator code rest r e q} : (¬ ∃ decided, Decides separator outcome decided) →
      code.run call r = .error e q → Judges call outcome ((separator, code) :: rest) r [] (.error e q)

inductive JudgesAll (call : Caller) (first : Instr) (rest : List (String × Instr)) (r : Wasm.State) :
    List (Option Bool) → EStateM.Result Stop Wasm.State Bool → Prop
  | ran {n q verdicts result} : first.run call r = .ok (some n) q → Judges call n.isTrue rest q verdicts result →
      JudgesAll call first rest r (some n.isTrue :: verdicts) result
  | stopped {e q} : first.run call r = .error e q → JudgesAll call first rest r [] (.error e q)

def concluded (body : Run (Option Wasm.Value)) :
    EStateM.Result Stop Wasm.State Bool → EStateM.Result Stop Wasm.State (Option Wasm.Value)
  | .ok true r => (body >>= fun _ => pure none) r
  | .ok false r => .ok none r
  | .error e r => .error e r

def Reports : EStateM.Result Stop Wasm.State (Option Wasm.Value) → EStateM.Result Stop Wasm.State Bool → Prop
  | .ok (some n) r, .ok outcome q => n.isTrue = outcome ∧ r = q
  | .error e r, .error d q => e = d ∧ r = q
  | _, _ => False

def Answering (call : Caller) (code : Instr) : Prop := Keeps (fun _ => True) (code.run call) fun v => v.isSome = true

section Run

variable {call : Caller} {separator : String} {first next code : Instr} {r q : Wasm.State} {n : Wasm.Value}

lemma keeps_true {α : Type} (x : Run α) : Keeps (fun _ => True) x fun _ => True := by
  intro r _
  cases x r with
  | ok a q => exact ⟨trivial, trivial⟩
  | error e q => trivial

lemma answering_binary (op : Wasm.BinaryOp) (x y : Instr) : Answering call (.binary op x y) := by
  unfold Answering
  rw [Instr.run]
  refine (keeps_true _).bind fun v _ => (keeps_true _).bind fun a _ => ?_
  refine (keeps_true _).bind fun w _ => (keeps_true _).bind fun b _ => ?_
  exact (keeps_true _).map fun _ _ => rfl

lemma Answering.cases (h : Answering call code) (r : Wasm.State) :
    (∃ n q, code.run call r = .ok (some n) q) ∨ ∃ e q, code.run call r = .error e q := by
  have hr := h r trivial
  cases hrun : code.run call r with
  | ok v q =>
    rw [hrun] at hr
    obtain ⟨n, rfl⟩ := Option.isSome_iff_exists.mp hr.1
    exact .inl ⟨n, q, rfl⟩
  | error e q => exact .inr ⟨e, q, rfl⟩

lemma decides_iff {outcome decided : Bool} :
    Decides separator outcome decided ↔ outcome = decided ∧ outcome = !(separator == "&&") := by
  unfold Decides connect
  by_cases hand : separator = "&&" <;> cases outcome <;> cases decided <;> simp [hand]

lemma connect_open {outcome : Bool} (h : outcome = (separator == "&&")) (next : Bool) :
    connect separator outcome next = next := by
  subst h
  unfold connect
  by_cases hand : separator = "&&" <;> simp [hand]

lemma ifElse_run {c yes no : Instr} (h : c.run call r = .ok (some n) q) :
    (Instr.ifElse c yes no).run call r = if n.isTrue then yes.run call q else no.run call q := by
  rw [Instr.run, bind_of_ok h, Run.operand, pure_bind]
  cases n.isTrue <;> rfl

lemma ifElse_run_error {c yes no : Instr} {e : Stop} (h : c.run call r = .error e q) :
    (Instr.ifElse c yes no).run call r = .error e q := by
  rw [Instr.run, bind_of_error h]

lemma joint_run_decided (next : Instr) (h : first.run call r = .ok (some n) q) (hn : n.isTrue = !(separator == "&&")) :
    ∃ m, (Joint separator first next).run call r = .ok (some m) q ∧ m.isTrue = n.isTrue := by
  -- if the outcome so far is the one of both conditions, the code of the second does not run
  unfold Joint
  by_cases hand : separator = "&&"
  · have hfalse : n.isTrue = false := by simpa [hand] using hn
    rw [if_pos hand, ifElse_run h, hfalse]
    exact ⟨_, rfl, rfl⟩
  · have htrue : n.isTrue = true := by simpa [beq_false_of_ne hand] using hn
    rw [if_neg hand, ifElse_run h, htrue]
    exact ⟨_, rfl, rfl⟩

lemma joint_run_open (next : Instr) (h : first.run call r = .ok (some n) q) (hn : n.isTrue = (separator == "&&")) :
    (Joint separator first next).run call r = next.run call q := by
  unfold Joint
  by_cases hand : separator = "&&"
  · rw [if_pos hand, ifElse_run h, hn, if_pos (by simpa using hand)]
  · rw [if_neg hand, ifElse_run h, hn, if_neg (by simpa using hand)]

lemma joint_run_error {e : Stop} (h : first.run call r = .error e q) :
    (Joint separator first next).run call r = .error e q := by
  unfold Joint
  split_ifs <;> exact ifElse_run_error h

lemma joined_cons (first next : Instr) (rest : List Instr) (separator : String) (separators : List String) :
    joined first (next :: rest) (separator :: separators) = joined (Joint separator first next) rest separators := rfl

lemma joined_run_error {e : Stop} {rest : List Instr} {separators : List String}
    (hjoined : joined first rest separators = some code) (h : first.run call r = .error e q) :
    code.run call r = .error e q := by
  induction rest generalizing first separators with
  | nil =>
    cases separators with
    | nil =>
      cases hjoined
      exact h
    | cons separator separators => cases hjoined
  | cons next rest ih =>
    cases separators with
    | nil => cases hjoined
    | cons separator separators =>
      rw [joined_cons] at hjoined
      exact ih hjoined (joint_run_error h)

-- The code joined so far stands for the outcome so far, whichever conditions are nested in it.
lemma joined_run {rest : List Instr} {separators : List String} (hjoined : joined first rest separators = some code)
    (hrest : ∀ c ∈ rest, Answering call c) (h : first.run call r = .ok (some n) q) :
    ∃ verdicts result, Judges call n.isTrue (separators.zip rest) q verdicts result ∧
      Reports (code.run call r) result := by
  induction rest generalizing first separators n q with
  | nil =>
    cases separators with
    | nil =>
      cases hjoined
      refine ⟨[], _, .done, ?_⟩
      rw [h]
      exact ⟨rfl, rfl⟩
    | cons separator separators => cases hjoined
  | cons next rest ih =>
    cases separators with
    | nil => cases hjoined
    | cons separator separators =>
      rw [joined_cons] at hjoined
      obtain ⟨hnext, hrest⟩ := List.forall_mem_cons.mp hrest
      by_cases hn : n.isTrue = !(separator == "&&")
      · obtain ⟨m, hrun, hm⟩ := joint_run_decided next h hn
        obtain ⟨verdicts, result, hjudges, hreports⟩ := ih hjoined hrest hrun
        rw [hm] at hjudges
        exact ⟨_, result, .skipped (decides_iff.mpr ⟨rfl, hn⟩) hjudges, hreports⟩
      · have hopen : ¬ ∃ decided, Decides separator n.isTrue decided := fun ⟨_, hd⟩ => hn (decides_iff.mp hd).2
        replace hn : n.isTrue = (separator == "&&") := by simpa using hn
        have hrun := joint_run_open next h hn
        obtain ⟨m, u, hm⟩ | ⟨e, u, he⟩ := hnext.cases q
        · obtain ⟨verdicts, result, hjudges, hreports⟩ := ih hjoined hrest (hrun.trans hm)
          rw [← connect_open hn m.isTrue] at hjudges
          exact ⟨_, result, .ran hopen hm hjudges, hreports⟩
        · refine ⟨[], _, .stopped hopen he, ?_⟩
          rw [joined_run_error hjoined (hrun.trans he)]
          exact ⟨rfl, rfl⟩

lemma joinedConditions_ok_iff {place : Position} {codes : List Instr} {separators : List String} :
    joinedConditions place codes separators = .ok code ↔
      ∃ first rest, codes = first :: rest ∧ joined first rest separators = some code := by
  unfold joinedConditions
  cases codes with
  | nil => simp
  | cons first rest => cases hj : joined first rest separators <;> simp [hj]

lemma length_of_joined {rest : List Instr} {separators : List String}
    (h : joined first rest separators = some code) : separators.length = rest.length := by
  induction rest generalizing first separators with
  | nil =>
    cases separators with
    | nil => rfl
    | cons separator separators => cases h
  | cons next rest ih =>
    cases separators with
    | nil => cases h
    | cons separator separators =>
      rw [joined_cons] at h
      exact congrArg Nat.succ (ih h)

lemma joinedConditions_run {rest : List Instr} {separators : List String}
    (hjoined : joined first rest separators = some code) (hall : ∀ c ∈ first :: rest, Answering call c)
    (r : Wasm.State) :
    ∃ verdicts result, JudgesAll call first (separators.zip rest) r verdicts result ∧
      Reports (code.run call r) result := by
  obtain ⟨hfirst, hrest⟩ := List.forall_mem_cons.mp hall
  obtain ⟨n, q, hn⟩ | ⟨e, q, he⟩ := hfirst.cases r
  · obtain ⟨verdicts, result, hjudges, hreports⟩ := joined_run hjoined hrest hn
    exact ⟨_, result, .ran hn hjudges, hreports⟩
  · refine ⟨[], _, .stopped he, ?_⟩
    rw [joined_run_error hjoined he]
    exact ⟨rfl, rfl⟩

lemma ifThen_run {body : List Instr} {result : EStateM.Result Stop Wasm.State Bool}
    (h : Reports (code.run call r) result) :
    (Instr.ifThen code (.block none none body)).run call r = concluded (Wasm.runSequence call body) result := by
  rw [Instr.run]
  cases hrun : code.run call r with
  | ok v q =>
    rw [bind_of_ok hrun]
    cases v with
    | none => exact (hrun ▸ h).elim
    | some n =>
      rw [Run.operand, pure_bind]
      cases result with
      | error e u => exact (hrun ▸ h).elim
      | ok outcome u =>
        rw [hrun] at h
        obtain ⟨rfl, rfl⟩ := h
        cases hn : n.isTrue with
        | false => rfl
        | true => simp [concluded, Instr.run, catchBranch_none]
  | error e q =>
    rw [bind_of_error hrun]
    cases result with
    | ok outcome u => exact (hrun ▸ h).elim
    | error d u =>
      rw [hrun] at h
      obtain ⟨rfl, rfl⟩ := h
      rfl

end Run

variable {tables : Tables} {place : Position}

lemma conditionList_answering (call : Caller) {cs : List Condition} {s t : State} {codes : List Instr}
    (h : conditionList tables place cs s = .ok (codes, t)) : ∀ c ∈ codes, Answering call c := by
  induction cs generalizing s codes with
  | nil =>
    obtain ⟨rfl, -⟩ := conditionList_nil h
    intro c hc
    cases hc
  | cons c cs ih =>
    obtain ⟨code, u, rest, hc, hr, rfl⟩ := conditionList_cons h
    refine List.forall_mem_cons.mpr ⟨?_, ih hr⟩
    cases c with
    | compare lhs op rhs =>
      obtain ⟨a, v, b, -, -, ho⟩ := condition_compare hc
      obtain ⟨type, operator, x, y, -, -, -, -, rfl⟩ := comparison_ok ho
      exact answering_binary operator x.code y.code

/-- An `if` runs its conditions in their order while the outcome is open, and then its body if they hold. -/
theorem conditional_judges {p : Program} {exported : Bool} {m : Wasm.Module} (h : compile p exported = .ok m)
    {conditions : List Condition} {separators : List String} {body : List Stmt}
    (he : Expr.conditional place conditions separators body ∈ p.parts) :
    ∃ tables s first rest u statements t code,
      functionTable p = .ok tables.functions ∧ globalTable p = .ok tables.globals ∧
      conditionList tables place conditions s = .ok (first :: rest, u) ∧
      block tables body u = .ok (statements, t) ∧ separators.length = rest.length ∧
      expression tables (.conditional place conditions separators body) s = .ok (⟨code, .void⟩, t) ∧
      m.Holds code ∧
      ∀ call r, ∃ verdicts result, JudgesAll call first (separators.zip rest) r verdicts result ∧
        code.run call r = concluded (Wasm.runSequence call statements) result := by
  obtain ⟨tables, starting, final, hm⟩ := lower_ok (compile_ok h).1
  obtain ⟨s, x, t, hx, -, hholds⟩ := hm.holds he rfl
  obtain ⟨codes, u, condition, statements, hc, hj, hb, rfl⟩ := expression_conditional hx
  obtain ⟨first, rest, rfl, hjoined⟩ := joinedConditions_ok_iff.mp hj
  refine ⟨tables, s, first, rest, u, statements, t, _, hm.functionTable, hm.globalTable, hc, hb,
    length_of_joined hjoined, hx, hholds, fun call r => ?_⟩
  obtain ⟨verdicts, result, hjudges, hreports⟩ := joinedConditions_run hjoined (conditionList_answering call hc) r
  exact ⟨verdicts, result, hjudges, ifThen_run hreports⟩

def conditionSource : String :=
  "fn ask(i32 n) -> i32;\nfn main() -> i32 \x7b\n  i32 x = 0;\n" ++
  "  if (ask(1) > 0 && ask(2) > 0 || ask(3) > 0) \x7b x = ask(4); \x7d\n  return x;\n\x7d\n"

def separators? : Expr → Option (List String)
  | .conditional _ _ separators _ => some separators
  | _ => none

theorem conditional_judges_skipped : ∃ p m place conditions body,
    parseText conditionSource .standard = .ok p ∧ compile p true = .ok m ∧
    Expr.conditional place conditions ["&&", "||"] body ∈ p.parts ∧
    (∃ first second third statements code, m.Holds code ∧
      ∀ call r, ∃ verdicts result, JudgesAll call first [("&&", second), ("||", third)] r verdicts result ∧
        code.run call r = concluded (Wasm.runSequence call statements) result) ∧
    (m.step 9 (m.initialStore [("ask", [.i32 0, .i32 5, .i32 7])]) "main" []).1.host =
      [⟨"ask", [.i32 1]⟩, ⟨"ask", [.i32 3]⟩, ⟨"ask", [.i32 4]⟩] := by
  obtain ⟨p, m, hp, hm, hparts, hhost⟩ := exists_compiled
    (P := fun p m => p.parts.findSome? separators? = some ["&&", "||"] ∧
      (m.step 9 (m.initialStore [("ask", [.i32 0, .i32 5, .i32 7])]) "main" []).1.host =
        [⟨"ask", [.i32 1]⟩, ⟨"ask", [.i32 3]⟩, ⟨"ask", [.i32 4]⟩])
    (show checkCompiled conditionSource _ = true by decide +kernel)
  obtain ⟨e, he, hseparators⟩ := List.exists_of_findSome?_eq_some hparts
  cases e with
  | conditional place conditions separators body =>
    obtain rfl := Option.some.inj hseparators
    obtain ⟨tables, s, first, rest, u, statements, t, code, -, -, -, -, hlength, -, hholds, hrun⟩ :=
      conditional_judges hm he
    obtain ⟨second, third, rfl⟩ := List.length_eq_two.mp hlength.symm
    exact ⟨p, m, place, conditions, body, hp, hm, he, ⟨first, second, third, statements, code, hholds, hrun⟩, hhost⟩
  | _ => cases hseparators

end Keel.Lowering
