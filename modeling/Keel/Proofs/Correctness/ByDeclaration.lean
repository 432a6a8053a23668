import Keel.Proofs.Correctness.Stores
import Keel.Proofs.Syntax.Shape

/-! Programs in which each declaration has a variable of its own, whatever its name. -/

namespace Keel.Lowering

open Semantics

section ByDeclaration

variable {globals : GlobalTable} {ps : List Parameter} {result : ValueType} {ds : List (String × ValueType)}
  {sc : Scope} {b : String × Local} {older : List (String × Local)} {k : Nat}

def OwnsNumber (ps : List Parameter) (result : ValueType) (k : Nat) (b : String × Local) : Prop :=
  b.2.index = if ps.length ≤ k ∧ result ≠ .void then k + 1 else k

lemma getElem?_of_suffix {α : Type} {l older : List α} {a : α} (h : a :: older <:+ l) :
    l.reverse[older.length]? = some a := by
  obtain ⟨newer, rfl⟩ := h
  rw [List.reverse_append, List.reverse_cons, List.append_assoc, List.getElem?_append_right (by simp)]
  simp

lemma numbered_getElem? {start : Nat} (h : (numbered start ds).reverse[k]? = some b) : b.2.index = start + k := by
  rw [numbered, List.reverse_reverse, List.getElem?_map, List.getElem?_zipIdx] at h
  obtain ⟨d, -, rfl⟩ := Option.map_eq_some_iff.mp (Option.map_map .. ▸ h)
  rfl

lemma owns_of_suffix (h : b :: older <:+ (bodyScope ps result ds).locals) : OwnsNumber ps result older.length b := by
  -- a variable's number is how many were declared before it
  have hget := getElem?_of_suffix h
  have hlength : (numbered 0 (ps.map fun q => (q.name, q.type))).reverse.length = ps.length := by simp [numbered]
  rw [bodyScope_locals, List.reverse_append] at hget
  unfold OwnsNumber
  by_cases hparameter : older.length < ps.length
  · rw [List.getElem?_append_left (by omega)] at hget
    rw [numbered_getElem? hget, if_neg (by omega), Nat.zero_add]
  · rw [List.getElem?_append_right (by omega), hlength] at hget
    rw [numbered_getElem? hget]
    split_ifs with hvoid <;> grind

lemma keyed_byDeclaration : Keyed (bodyScope ps result ds) (OwnsNumber ps result) where
  left := by
    intro k b hb b' hb' hk hk'
    by_contra hne
    exact (bodyScope_complete ps result ds).index_ne hb hb' hne (hk.trans hk'.symm)
  right := by
    intro k k' b _ hk hk'
    unfold OwnsNumber at hk hk'
    split_ifs at hk hk' <;> grind

lemma newest?_some {locals : List (String × Local)} {name : String} {v : Local} (h : locals.lookup name = some v) :
    ∃ older, (name, v) :: older <:+ locals ∧
      newest? (locals.map fun b => (b.1, b.2.type)) name = some ((older.length, v.type), v.type) := by
  induction locals with
  | nil => cases h
  | cons b locals ih =>
    rw [List.lookup_cons] at h
    rw [List.map_cons, newest?]
    by_cases hname : b.1 = name
    · subst hname
      rw [beq_self_eq_true] at h
      cases h
      refine ⟨locals, List.suffix_refl _, ?_⟩
      rw [if_pos rfl, List.length_map]
    · rw [beq_false_of_ne (Ne.symm hname)] at h
      obtain ⟨older, hsuffix, hnewest⟩ := ih h
      refine ⟨older, hsuffix.trans (List.suffix_cons _ _), ?_⟩
      rw [if_neg hname, hnewest]

lemma newest?_none {locals : List (String × Local)} {name : String} (h : locals.lookup name = none) :
    newest? (locals.map fun b => (b.1, b.2.type)) name = none := by
  induction locals with
  | nil => rfl
  | cons b locals ih =>
    rw [List.lookup_cons] at h
    rw [List.map_cons, newest?]
    by_cases hname : b.1 = name
    · subst hname
      rw [beq_self_eq_true] at h
      cases h
    · rw [beq_false_of_ne (Ne.symm hname)] at h
      rw [if_neg hname, ih h]

variable (globals ps result ds) in
def numberedRepresentation : Representation byDeclaration globals (bodyScope ps result ds) where
  Agrees sc frame locals := frame.declared = sc.locals.map (fun b => (b.1, b.2.type)) ∧
    Kept (bodyScope ps result ds) (OwnsNumber ps result) frame.stores locals
  Owns slot b := slot.2 = b.2.type ∧ OwnsNumber ps result slot.1 b
  find_local := by
    intro sc frame locals name v h hsc hv
    obtain ⟨older, hsuffix, hnewest⟩ := newest?_some hv
    refine ⟨(older.length, v.type), ?_, rfl, owns_of_suffix (hsuffix.trans hsc.locals)⟩
    rw [← h.1] at hnewest
    exact hnewest
  find_global := by
    intro sc frame locals name type h _ hnone _
    have hnewest := newest?_none hnone
    rw [← h.1] at hnewest
    exact hnewest
  -- A slot is how many declarations came before; that its variable has that number is what `Owns` says.
  read := by
    rintro sc frame locals ⟨k, type⟩ b h hsc hb ⟨rfl, hk⟩
    exact h.2 k b (hsc.locals.subset hb) hk
  write := by
    rintro sc frame locals slot b v h hsc hb ⟨-, hk⟩ hv
    exact ⟨h.1, h.2.store (bodyScope_complete ..) keyed_byDeclaration (hsc.locals.subset hb) hk hv⟩
  declare := by
    intro sc frame locals name v h hsc _
    refine ⟨congrArg (List.cons (name, v.type)) h.1, ?_⟩
    have hnumber : OwnsNumber ps result frame.declared.length (name, ⟨(sc.declare name v.type).1, v.type⟩) := by
      rw [h.1, List.length_map]
      exact owns_of_suffix hsc.locals
    exact h.2.store (bodyScope_complete ..) keyed_byDeclaration hsc.declared hnumber rfl
  skip := by
    intro sc frame locals es h _
    refine ⟨?_, h.2⟩
    rw [Scope.declareAll_locals, List.map_append, numbered_bindings, ← h.1]
    rfl
  publish := by
    intro sc frame locals name h _
    exact h

lemma represents_byDeclaration : Represents byDeclaration globals ps result ds := by
  refine ⟨numberedRepresentation globals ps result ds, ?_⟩
  intro vs htypes
  have hlength := congrArg List.length htypes
  rw [List.length_map, List.length_map] at hlength
  refine ⟨?_, Kept.enter htypes ?_⟩
  · rw [Scope.ofSignature_locals, numbered_bindings]
    rfl
  · intro k b hb hk
    simp only [byDeclaration]
    unfold OwnsNumber at hk
    by_cases hlt : k < vs.length
    · rw [if_neg (by omega)] at hk
      rw [hk]
      exact lookup_zip List.nodup_range (by simp) (by simp [hlt])
    · rw [lookup_zip_none (by simpa using hlt), List.getElem?_eq_none (by split_ifs at hk <;> omega)]

end ByDeclaration

end Keel.Lowering

namespace Keel

open Lowering Semantics

variable {table : Precedences} {source : String} {p : Program} {exported : Bool} {m : Wasm.Module}

/-- A module does for every host and all calls what its program means where each declaration has a variable of its
own: a name stands for the last variable of that name that the text has declared before it in the function, run or
not, and else for the global, and reading gives what was last stored there. -/
theorem session_byDeclaration (hparse : parseText source table = .ok p)
    (hnames : (p.signatures.map Prototype.name).Nodup) (hreserved : ∀ f ∈ p.signatures, f.name ≠ startName)
    (h : compile p exported = .ok m) (depth : Nat) {answers : List (String × List Wasm.Value)}
    (hanswers : Answered p.hosts answers) {calls : List (String × List Value)} (hcalls : ∀ c ∈ calls, p.Admits c) :
    m.session depth answers (numbersOf calls) = p.session byDeclaration depth answers calls := by
  obtain ⟨hlower, -⟩ := compile_ok h
  obtain ⟨tables, code, s, hm⟩ := lower_ok hlower
  refine hm.session_eq (parseText_shaped hparse) hnames hreserved ?_ ?_ depth hanswers hcalls
  · intro d _
    exact represents_byDeclaration
  · exact represents_byDeclaration

def shadowSource : String :=
  "i32 x=7;fn f(i8 n)->i32\x7bi32 s=x;if(n>1)\x7bi32 x=n;if(n>2)\x7bi16 x=s;x=x+n;s=x;\x7dx=x*2;\x7d" ++
  "return x*100+s;\x7dfn g()->i32\x7breturn x;\x7dif(x<7)\x7bi32 x=3;\x7dx=x+4;"

def shadowCalls : List (String × List Value) := [("g", []), ("f", [.i8 1]), ("f", [.i8 3])]

theorem session_byDeclaration_shadowed : ∃ p m, parseText shadowSource .standard = .ok p ∧ compile p true = .ok m ∧
    m.session 3 [] (numbersOf shadowCalls) = p.session byDeclaration 3 [] shadowCalls ∧
    (p.session byDeclaration 3 [] shadowCalls).steps.map (fun step => step.outcome) =
      [.ok (some (.i32 7)), .ok (some (.i32 7)), .ok (some (.i32 2010))] := by
  obtain ⟨p, m, hp, hm, hnames, hreserved, hanswers, hcalls, hsteps⟩ := exists_compiled
    (P := fun p _ => (p.signatures.map Prototype.name).Nodup ∧ (∀ f ∈ p.signatures, f.name ≠ startName) ∧
      Answered p.hosts [] ∧ (∀ c ∈ shadowCalls, p.Admits c) ∧
      (p.session byDeclaration 3 [] shadowCalls).steps.map (fun step => step.outcome) =
        [.ok (some (.i32 7)), .ok (some (.i32 7)), .ok (some (.i32 2010))])
    (show checkCompiled shadowSource _ = true by decide +kernel)
  exact ⟨p, m, hp, hm, session_byDeclaration hp hnames hreserved hm 3 hanswers hcalls, hsteps⟩

def skippedSource : String := "i32 x=7;fn f()->i32\x7bif(1>2)\x7bi32 x=5;\x7dreturn x;\x7d"

theorem session_ne_byExecution : ∃ p m, parseText skippedSource .standard = .ok p ∧ compile p true = .ok m ∧
    (m.session 2 [] [("f", [])]).steps.map (fun step => step.outcome) = [.ok (some (.i32 0))] ∧
    (p.session (byExecution (p.globals.map Prod.fst)) 2 [] [("f", [])]).steps.map (fun step => step.outcome) =
      [.ok (some (.i32 7))] :=
  exists_compiled (by decide +kernel)

end Keel
