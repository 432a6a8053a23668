import Keel.Proofs.Correctness.Stores
import Keel.Proofs.Syntax.Shape

/-! Programs in which a name stands for one variable of a function. -/

namespace Keel.Lowering

open Semantics

section ByName

variable {globals : GlobalTable} {ps : List Parameter} {result : ValueType} {ds : List (String × ValueType)}

lemma mem_localNames {b : String × Local} (h : b ∈ (bodyScope ps result ds).locals) :
    (b.1, b.2.type) ∈ localNames ps ds := by
  have hmem : (b.1, b.2.type) ∈ (bodyScope ps result ds).locals.map fun b => (b.1, b.2.type) :=
    List.mem_map.mpr ⟨b, h, rfl⟩
  rw [bodyScope_names, List.mem_reverse] at hmem
  exact hmem

lemma bodyScope_nodup (hnodup : ((localNames ps ds).map Prod.fst).Nodup) :
    ((bodyScope ps result ds).locals.map Prod.fst).Nodup := by
  have hnames := congrArg (List.map Prod.fst) (bodyScope_names ps result ds)
  rw [List.map_map, List.map_reverse] at hnames
  rw [← List.nodup_reverse, ← hnames] at hnodup
  exact hnodup

lemma keyed_byName (hnodup : ((localNames ps ds).map Prod.fst).Nodup) :
    Keyed (bodyScope ps result ds) fun k b => k = b.1 where
  left := by
    rintro k b hb b' hb' rfl hk
    exact List.inj_on_of_nodup_map (bodyScope_nodup hnodup) hb hb' hk
  right := by
    rintro k k' b _ rfl rfl
    rfl

def namedRepresentation (hnodup : ((localNames ps ds).map Prod.fst).Nodup)
    (hglobals : ∀ v ∈ localNames ps ds, v.1 ∉ globals.map Prod.fst) :
    Representation byName globals (bodyScope ps result ds) where
  Agrees _ frame locals := frame.types = localNames ps ds ∧
    Kept (bodyScope ps result ds) (fun k b => k = b.1) frame.stores locals
  Owns slot b := slot = (b.1, b.2.type)
  find_local := by
    intro sc frame locals name v h hsc hv
    refine ⟨(name, v.type), ?_, rfl⟩
    have hmem := mem_localNames (hsc.lookup hv)
    have hlookup : frame.types.lookup name = some v.type := by
      rw [h.1, lookup_eq_some_iff_mem hnodup]
      exact hmem
    simp only [byName, hlookup]
    rfl
  find_global := by
    intro sc frame locals name type h hsc hnone hglobal
    have hlookup : frame.types.lookup name = none := by
      rw [h.1, List.lookup_eq_none_iff]
      intro v hv
      have hne : v.1 ≠ name := by
        rintro rfl
        exact hglobals v hv (List.mem_map.mpr ⟨_, mem_of_lookup hglobal, rfl⟩)
      simpa using hne.symm
    simp only [byName, hlookup]
    rfl
  read := by
    rintro sc frame locals slot b h hsc hb rfl
    exact h.2 b.1 b (hsc.locals.subset hb) rfl
  write := by
    rintro sc frame locals slot b v h hsc hb rfl hv
    exact ⟨h.1, h.2.store (bodyScope_complete ..) (keyed_byName hnodup) (hsc.locals.subset hb) rfl hv⟩
  declare := by
    intro sc frame locals name v h hsc _
    exact ⟨h.1, h.2.store (bodyScope_complete ..) (keyed_byName hnodup) hsc.declared rfl rfl⟩
  skip := by
    intro sc frame locals ds h _
    exact h
  publish := by
    intro sc frame locals name h _
    exact h

lemma represents_byName (hnodup : ((localNames ps ds).map Prod.fst).Nodup)
    (hglobals : ∀ v ∈ localNames ps ds, v.1 ∉ globals.map Prod.fst) : Represents byName globals ps result ds := by
  refine ⟨namedRepresentation hnodup hglobals, ?_⟩
  intro vs htypes
  refine ⟨rfl, Kept.enter htypes ?_⟩
  rintro _ b hb rfl
  have hlength := congrArg List.length htypes
  rw [List.length_map, List.length_map] at hlength
  rw [localNames, List.map_append, List.map_map, List.nodup_append] at hnodup
  obtain ⟨hparameters, -, hdisjoint⟩ := hnodup
  simp only [byName, List.map_map]
  rw [bodyScope_locals, List.mem_append] at hb
  obtain hb | hb := hb
  · obtain ⟨hle, hd⟩ := mem_numbered hb
    have hge : vs.length ≤ b.2.index := by omega
    have hnot : b.1 ∉ ps.map (Prod.fst ∘ fun q => (q.name, q.type)) := by
      intro hmem
      exact hdisjoint _ hmem _ (List.mem_map.mpr ⟨_, List.mem_of_getElem? hd, rfl⟩) rfl
    rw [List.getElem?_eq_none hge, lookup_zip_none hnot]
  · obtain ⟨-, hd⟩ := mem_numbered hb
    refine lookup_zip hparameters (by simp [hlength]) ?_
    rw [Nat.sub_zero] at hd
    rw [← List.map_map, List.getElem?_map, hd]
    rfl

end ByName

end Keel.Lowering

namespace Keel

open Lowering Semantics

variable {table : Precedences} {source : String} {p : Program} {exported : Bool} {m : Wasm.Module}

/-- A module does for every host and all calls what its program means where each name stands for one variable of a
function: every call gives back the same value or stops for the same reason, with the same calls to the host, and the
globals hold the same in the end. -/
theorem compile_correct (hparse : parseText source table = .ok p)
    (hnames : (p.signatures.map Prototype.name).Nodup) (hreserved : ∀ f ∈ p.signatures, f.name ≠ startName)
    (hlocals : ∀ d ∈ p.definitions, ((localNames d.parameters d.variables).map Prod.fst).Nodup ∧
      ∀ v ∈ localNames d.parameters d.variables, v.1 ∉ p.globals.map Prod.fst)
    (houter : (p.startVariables.map Prod.fst).Nodup ∧ ∀ v ∈ p.startVariables, v.1 ∉ p.globals.map Prod.fst)
    (h : compile p exported = .ok m) (depth : Nat) {answers : List (String × List Wasm.Value)}
    (hanswers : Answered p.hosts answers) {calls : List (String × List Value)} (hcalls : ∀ c ∈ calls, p.Admits c) :
    m.session depth answers (numbersOf calls) = p.session byName depth answers calls := by
  obtain ⟨hlower, -⟩ := compile_ok h
  obtain ⟨tables, code, s, hm⟩ := lower_ok hlower
  refine hm.session_eq (parseText_shaped hparse) hnames hreserved ?_ ?_ depth hanswers hcalls
  · intro d hd
    exact represents_byName (hlocals d hd).1 (hlocals d hd).2
  · exact represents_byName houter.1 houter.2

def runSource : String :=
  "fn out(i32 n)->i8;i32 s=1;fn f(i8 n)->i32\x7bif(n>0&&s<50)\x7bi8 k=n-1;s=s*out(n);return f(k)+n;\x7d" ++
  "return 10/s;\x7dif(s==1)\x7bs=2;\x7d"

def runAnswers : List (String × List Wasm.Value) := [("out", [.i32 2, .i32 3, .i32 0])]

def runCalls : List (String × List Value) := [("f", [.i8 2]), ("f", [.i8 1])]

theorem compile_correct_run : ∃ p m, parseText runSource .standard = .ok p ∧ compile p true = .ok m ∧
    m.session 5 runAnswers (numbersOf runCalls) = p.session byName 5 runAnswers runCalls ∧
    (p.session byName 5 runAnswers runCalls).steps.map (fun step => step.outcome) =
      [.ok (some (.i32 3)), .error (.trap .divideByZero)] := by
  obtain ⟨p, m, hp, hm, hnames, hreserved, hlocals, houter, hanswers, hcalls, hsteps⟩ := exists_compiled
    (P := fun p _ => (p.signatures.map Prototype.name).Nodup ∧ (∀ f ∈ p.signatures, f.name ≠ startName) ∧
      (∀ d ∈ p.definitions, ((localNames d.parameters d.variables).map Prod.fst).Nodup ∧
        ∀ v ∈ localNames d.parameters d.variables, v.1 ∉ p.globals.map Prod.fst) ∧
      ((p.startVariables.map Prod.fst).Nodup ∧ ∀ v ∈ p.startVariables, v.1 ∉ p.globals.map Prod.fst) ∧
      Answered p.hosts runAnswers ∧ (∀ c ∈ runCalls, p.Admits c) ∧
      (p.session byName 5 runAnswers runCalls).steps.map (fun step => step.outcome) =
        [.ok (some (.i32 3)), .error (.trap .divideByZero)])
    (show checkCompiled runSource _ = true by decide +kernel)
  exact ⟨p, m, hp, hm, compile_correct hp hnames hreserved hlocals houter hm 5 hanswers hcalls, hsteps⟩

end Keel
