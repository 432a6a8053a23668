import Keel.Proofs.Correctness.Programs
import Keel.Proofs.Lowering.Repetition

/-! Functions may be defined in any order: it is the same module but for addresses of strings and empty steps. -/

namespace Keel

open scoped List

open Wasm (Instr Segment)

def Stmt.isFunction : Stmt → Bool
  | .function _ _ _ => true
  | _ => false

def Program.others (p : Program) : Program := p.filter fun st => !st.isFunction

namespace Lowering

variable {p q : Program} {tables tables' : Tables}

section Tables

lemma filterMap_others {α : Type} {f : Stmt → Option α}
    (hf : ∀ signature types body, f (.function signature types body) = none) (p : Program) :
    p.others.filterMap f = p.filterMap f := by
  unfold Program.others
  rw [List.filterMap_filter]
  congr 1
  funext st
  cases st <;> simp [Stmt.isFunction, hf]

lemma hosts_eq_of_others (h : p.others = q.others) : p.hosts = q.hosts := by
  unfold Program.hosts
  rw [← filterMap_others (fun _ _ _ => rfl) p, h, filterMap_others fun _ _ _ => rfl]

lemma globals_eq_of_others (h : p.others = q.others) : p.globals = q.globals := by
  unfold Program.globals
  rw [← filterMap_others (fun _ _ _ => rfl) p, h, filterMap_others fun _ _ _ => rfl]

lemma globalTable_others (p : Program) : globalTable p.others = globalTable p := by
  unfold globalTable Program.others
  rw [List.foldlM_filter]
  congr 1
  funext table st
  cases st <;> rfl

lemma listedOfAll_eq (ss : List Stmt) : Stmt.listedOfAll ss = ss.flatMap Stmt.listed := by
  induction ss with
  | nil => rfl
  | cons st ss ih => rw [Stmt.listedOfAll, List.flatMap_cons, ih]

lemma lookup_of_perm {α β : Type} [DecidableEq α] {l l' : List (α × β)} (h : l ~ l') (hn : (l.map Prod.fst).Nodup)
    (a : α) : l.lookup a = l'.lookup a := by
  have hn' : (l'.map Prod.fst).Nodup := (h.map Prod.fst).nodup_iff.mp hn
  refine Option.ext fun b => ?_
  rw [lookup_eq_some_iff_mem hn, lookup_eq_some_iff_mem hn', h.mem_iff]

lemma alike_of_perm (hperm : p ~ q) (hothers : p.others = q.others)
    (hf : functionTable p = .ok tables.functions) (hg : globalTable p = .ok tables.globals) :
    ∃ tables' : Tables, functionTable q = .ok tables'.functions ∧ globalTable q = .ok tables'.globals ∧
      tables.Alike tables' := by
  obtain ⟨hfunctions, hnodup⟩ := functionTable_iff.mp hf
  have hlisted : p.listed ~ q.listed := by
    unfold Program.listed
    rw [listedOfAll_eq, listedOfAll_eq]
    exact hperm.flatMap_right _
  refine ⟨⟨q.listed.map entry, tables.globals⟩, ?_, ?_, ?_, rfl⟩
  · exact functionTable_iff.mpr ⟨rfl, (hlisted.map _).nodup_iff.mp hnodup⟩
  · rw [← globalTable_others q, ← hothers, globalTable_others, hg]
  · intro callee
    have hnames : (tables.functions.map Prod.fst).Nodup := by rwa [functionTable_names hf]
    rw [hfunctions] at hnames ⊢
    exact lookup_of_perm (hlisted.map entry) hnames callee

end Tables

section Statements

inductive SameSteps : Program → Program → Prop
  | nil : SameSteps [] []
  | left {st p q} : Stmt.isFunction st → SameSteps p q → SameSteps (st :: p) q
  | right {st p q} : Stmt.isFunction st → SameSteps p q → SameSteps p (st :: q)
  | step {st p q} : SameSteps p q → SameSteps (st :: p) (st :: q)

lemma others_function {st : Stmt} (h : st.isFunction) : Program.others (st :: p) = Program.others p := by
  unfold Program.others
  exact List.filter_cons_of_neg (by simp [h])

lemma others_step {st : Stmt} (h : ¬ st.isFunction) : Program.others (st :: p) = st :: Program.others p := by
  unfold Program.others
  exact List.filter_cons_of_pos (by simp [h])

lemma sameSteps_of_others (h : p.others = q.others) : SameSteps p q := by
  induction p generalizing q with
  | nil =>
    induction q with
    | nil => exact .nil
    | cons st q ih =>
      by_cases hst : st.isFunction
      · rw [others_function hst] at h
        exact .right hst (ih h)
      · rw [others_step hst] at h
        cases h
  | cons st p ih =>
    by_cases hst : st.isFunction
    · rw [others_function hst] at h
      exact .left hst (ih h)
    rw [others_step hst] at h
    -- The next step of the second program stands behind the functions it begins with.
    induction q with
    | nil => cases h
    | cons st' q ihq =>
      by_cases hst' : st'.isFunction
      · rw [others_function hst'] at h
        exact .right hst' (ihq h)
      · rw [others_step hst'] at h
        obtain ⟨rfl, htail⟩ := List.cons.inj h
        exact .step (ih htail)

end Statements

section Nops

def isNop : Instr → Bool
  | .nop => true
  | _ => false

def withoutNops (codes : List Instr) : List Instr := codes.filter fun x => !isNop x

variable {A B : List Segment} {vs ws : List String} {x y : Instr} {xs ys : List Instr}

lemma Readdressed.isNop_eq (h : Readdressed A B vs x y) : isNop x = isNop y := by
  cases h <;> rfl

lemma Readdressed.texts_of_isNop (h : Readdressed A B vs x y) (hx : isNop x) : vs = [] := by
  cases h with
  | same => rfl
  | _ => cases hx

lemma withoutNops_nop (xs : List Instr) : withoutNops (.nop :: xs) = withoutNops xs := rfl

lemma AllReaddressed.cons_withoutNops (hx : Readdressed A B vs x y)
    (hxs : AllReaddressed A B ws (withoutNops xs) (withoutNops ys)) :
    AllReaddressed A B (vs ++ ws) (withoutNops (x :: xs)) (withoutNops (y :: ys)) := by
  have hy := hx.isNop_eq
  unfold withoutNops at hxs ⊢
  cases hnop : isNop x with
  | true =>
    rw [hnop] at hy
    rw [List.filter_cons_of_neg (by simp [hnop]), List.filter_cons_of_neg (by simp [← hy]), hx.texts_of_isNop hnop]
    exact hxs
  | false =>
    rw [hnop] at hy
    rw [List.filter_cons_of_pos (by simp [hnop]), List.filter_cons_of_pos (by simp [← hy])]
    exact .cons hx hxs

lemma calleesOf_withoutNops (xs : List Instr) : Wasm.calleesOf (withoutNops xs) = Wasm.calleesOf xs := by
  induction xs with
  | nil => rfl
  | cons x xs ih =>
    cases x with
    | nop => exact ih
    | _ => exact congrArg (_ ++ ·) ih

end Nops

section Runs

variable {s s' t : State} {st : Stmt} {code : Instr} {codes : List Instr}

lemma topStatements_length (h : topStatements tables p s = .ok (codes, t)) : codes.length = p.length := by
  induction p generalizing s codes with
  | nil =>
    obtain ⟨rfl, -⟩ := topStatements_nil h
    rfl
  | cons st p ih =>
    obtain ⟨code, u, rest, -, hr, rfl⟩ := topStatements_cons h
    rw [List.length_cons, List.length_cons, ih hr]

lemma topStatements_mem (h : topStatements tables p s = .ok (codes, t)) (hst : st ∈ p) :
    ∃ u code v, topStatement tables st u = .ok (code, v) := by
  induction p generalizing s codes with
  | nil => cases hst
  | cons st' p ih =>
    obtain ⟨code, u, rest, hc, hr, -⟩ := topStatements_cons h
    obtain rfl | hst := List.mem_cons.mp hst
    · exact ⟨s, code, u, hc⟩
    · exact ih hr hst

lemma topStatement_function (hst : st.isFunction) (h : topStatement tables st s = .ok (code, t)) :
    code = .nop ∧ t.scope = s.scope := by
  cases st with
  | function signature body =>
    obtain ⟨statements, u, -, rfl, rfl⟩ := statement_function h
    exact ⟨rfl, rfl⟩
  | _ => cases hst

lemma texts_function (hst : st.isFunction) : st.texts = [] := by
  cases st with
  | function => rfl
  | _ => cases hst

variable (hsame : tables.Alike tables')

include hsame

lemma function_repeats (hst : st.isFunction) (h : topStatement tables st s = .ok (code, t)) (s' : State) :
    ∃ t', topStatement tables' st s' = .ok (.nop, t') ∧ t'.scope = s'.scope := by
  -- a function is made in a scope of its own, and so it is made in every scope
  cases st with
  | function signature types body =>
    obtain ⟨statements, u, hb, rfl, rfl⟩ := statement_function h
    have hbody : Repeats (block tables' body)
        { s' with scope := .ofSignature (signature.taking types).parameters signature.result } u _ :=
      block_repeats hsame body hb rfl
    obtain ⟨statements', u', hb', -⟩ := hbody
    exact ⟨_, function_of_block hb', rfl⟩
  | _ => cases hst

lemma topStatement_repeats (h : topStatement tables st s = .ok (code, t)) (hs : s.scope = s'.scope) :
    Repeats (topStatement tables' st) s' t fun A B code' => Readdressed A B st.texts code code' := by
  cases st with
  | declare place type name value =>
    obtain ⟨y, z, hy, hz, rfl⟩ := topStatement_declare h
    obtain ⟨y', t', hy', ht, hmatch⟩ := expression_repeats hsame value hy hs
    obtain ⟨z', hz', hconverted⟩ := hmatch.coerce hz
    refine ⟨.globalSet name z'.code, t', ?_, ht, .globalSet hconverted.code⟩
    exact Lower.bind_ok.mpr ⟨y', t', hy', Lower.bind_ok.mpr ⟨z', t', Lower.lift_ok.mpr ⟨hz', rfl⟩, rfl⟩⟩
  | _ => exact statement_repeats hsame _ h hs

lemma topStatements_repeats (hsteps : SameSteps p q)
    (hmade : ∀ st ∈ q, st.isFunction → ∃ s code t, topStatement tables st s = .ok (code, t))
    (h : topStatements tables p s = .ok (codes, t)) (hs : s.scope = s'.scope) :
    Repeats (topStatements tables' q) s' t fun A B codes' =>
      AllReaddressed A B (Stmt.textsOfAll p) (withoutNops codes) (withoutNops codes') := by
  induction hsteps generalizing s s' codes with
  | nil =>
    obtain ⟨rfl, rfl⟩ := topStatements_nil h
    exact ⟨[], s', rfl, hs, .nil⟩
  | left hst _ ih =>
    obtain ⟨code, u, rest, hc, hr, rfl⟩ := topStatements_cons h
    obtain ⟨rfl, hu⟩ := topStatement_function hst hc
    rw [Stmt.textsOfAll, texts_function hst, withoutNops_nop]
    exact ih hmade hr (hu.trans hs)
  | right hst _ ih =>
    obtain ⟨s₁, code, t₁, hc⟩ := hmade _ (List.mem_cons_self ..) hst
    obtain ⟨u', hu', hscope⟩ := function_repeats hsame hst hc s'
    obtain ⟨rest', t', hr', ht, hrest⟩ :=
      ih (fun st hst => hmade st (List.mem_cons_of_mem _ hst)) h (hs.trans hscope.symm)
    exact ⟨.nop :: rest', t', Lower.bind_ok.mpr ⟨_, u', hu', Lower.bind_ok.mpr ⟨rest', t', hr', rfl⟩⟩, ht, hrest⟩
  | step _ ih =>
    obtain ⟨code, u, rest, hc, hr, rfl⟩ := topStatements_cons h
    obtain ⟨code', u', hc', hu, hcode⟩ := topStatement_repeats hsame hc hs
    obtain ⟨rest', t', hr', ht, hrest⟩ := ih (fun st hst => hmade st (List.mem_cons_of_mem _ hst)) hr hu
    refine ⟨code' :: rest', t', Lower.bind_ok.mpr ⟨code', u', hc', Lower.bind_ok.mpr ⟨rest', t', hr', rfl⟩⟩, ht, ?_⟩
    exact .cons_withoutNops (hcode.mono (adds_topStatements hr).segments (adds_topStatements hr').segments) hrest

end Runs

section Modules

structure StartsAlike (A B : List Segment) (vs : List String) (f g : Wasm.Function) : Prop extends SameFrame f g where
  started : f.name = startName
  body : ∃ codes codes', f.body = .block (some endLabel) none codes ∧ g.body = .block (some endLabel) none codes' ∧
    codes.length = codes'.length ∧ AllReaddressed A B vs (withoutNops codes) (withoutNops codes')

variable {A B : List Segment} {vs : List String} {f g : Wasm.Function}

lemma StartsAlike.callees (h : StartsAlike A B vs f g) : f.body.callees = g.body.callees := by
  obtain ⟨-, -, codes, codes', hf, hg, -, hcodes⟩ := h
  have hcallees := hcodes.callees
  rw [calleesOf_withoutNops, calleesOf_withoutNops] at hcallees
  rw [hf, hg, Instr.callees, Instr.callees, hcallees]

lemma startFunction_alike {codes codes' : List Instr} (hall : p.all isDefinition = q.all isDefinition)
    (hlength : codes.length = codes'.length)
    (hcodes : AllReaddressed A B vs (withoutNops codes) (withoutNops codes')) (scope : Scope) :
    ∃ starts : Option (Wasm.Function × Wasm.Function), startFunction p codes scope = starts.map Prod.fst ∧
      startFunction q codes' scope = starts.map Prod.snd ∧ ∀ pair ∈ starts, StartsAlike A B vs pair.1 pair.2 := by
  unfold startFunction
  rw [hall]
  split_ifs
  · exact ⟨none, rfl, rfl, nofun⟩
  · refine ⟨some (_, _), rfl, rfl, ?_⟩
    rintro pair ⟨⟩
    exact ⟨⟨rfl, rfl, rfl, rfl⟩, rfl, codes, codes', rfl, rfl, hlength, hcodes⟩

lemma exists_pairs {α β γ : Type} {R : α → β → Prop} {S : α → γ → Prop} {Q : α → β → γ → Prop} {ds : List α}
    {fs : List β} {gs : List γ} (hQ : ∀ d f g, R d f → S d g → Q d f g) (hf : List.Forall₂ R ds fs)
    (hg : List.Forall₂ S ds gs) : ∃ pairs : List (β × γ), fs = pairs.map Prod.fst ∧ gs = pairs.map Prod.snd ∧
      List.Forall₂ (fun d pair => Q d pair.1 pair.2) ds pairs := by
  induction hf generalizing gs with
  | nil =>
    cases hg
    exact ⟨[], rfl, rfl, .nil⟩
  | cons hd _ ih =>
    obtain _ | ⟨hd', hrest⟩ := hg
    obtain ⟨pairs, rfl, rfl, hpairs⟩ := ih hrest
    exact ⟨(_, _) :: pairs, rfl, rfl, .cons (hQ _ _ _ hd hd') hpairs⟩

/-- The module of a program with its functions in another order. -/
structure Reordered (p : Program) (m n : Wasm.Module) : Prop where
  imports : n.imports = m.imports
  globals : n.globals = m.globals
  exports : n.exports ~ m.exports
  start : n.start = m.start
  functions : ∃ (pairs : List (Wasm.Function × Wasm.Function)) (starts : Option (Wasm.Function × Wasm.Function)),
    m.functions = pairs.map Prod.fst ++ (starts.map Prod.fst).toList ∧
    n.functions ~ pairs.map Prod.snd ++ (starts.map Prod.snd).toList ∧
    List.Forall₂ (fun d pair => Corresponds m.segments n.segments d pair.1 pair.2) p.definitions pairs ∧
    (∀ pair ∈ starts, StartsAlike m.segments n.segments (Stmt.textsOfAll p) pair.1 pair.2) ∧
    (stringsAmong p.entities = [] → ∀ pair ∈ pairs, pair.2 = pair.1)

end Modules

end Lowering

open Lowering

variable {p q : Program} {exported : Bool} {m : Wasm.Module}

lemma definitions_of_perm (h : p ~ q) : p.definitions ~ q.definitions := by
  unfold Program.definitions definitionsAmong Program.entities
  exact (h.flatMap_right _).filterMap _

lemma exports_of_perm {strings strings' : StringTable} {tables tables' : Tables} {fs gs : List Wasm.Function}
    (hperm : p ~ q) (hf : List.Forall₂ (Lowers tables strings) p.definitions fs)
    (hg : List.Forall₂ (Lowers tables' strings') q.definitions gs) :
    gs.map (fun g => Wasm.ExportItem.function g.name) ~ fs.map fun f => .function f.name := by
  have hnames : gs.map Wasm.Function.name ~ fs.map Wasm.Function.name := by
    rw [map_name_of_forall₂ hf, map_name_of_forall₂ hg]
    exact (definitions_of_perm hperm).symm.map _
  have hitems := hnames.map Wasm.ExportItem.function
  rwa [List.map_map, List.map_map] at hitems

lemma reordered_of_lower (hperm : p ~ q) (hothers : p.others = q.others) (h : lower p exported = .ok m) :
    ∃ n, lower q exported = .ok n ∧ Reordered p m n := by
  obtain ⟨tables, codes, s, hm, hsegments, -⟩ := lower_memory h
  obtain ⟨tables', hf, hg, hsame⟩ := alike_of_perm hperm hothers hm.functionTable hm.globalTable
  have hmade : ∀ st ∈ q, st.isFunction → ∃ u code v, topStatement tables st u = .ok (code, v) :=
    fun st hst _ => topStatements_mem hm.statements (hperm.mem_iff.mpr hst)
  obtain ⟨codes', s', hs', hscope, hcodes⟩ :=
    topStatements_repeats hsame (sameSteps_of_others hothers) hmade hm.statements rfl
  obtain ⟨n, hlower, hn, hsegments', -⟩ := lower_of_statements exported hs' hf hg
  rw [← hsegments, ← hsegments'] at hcodes
  have hlength : codes.length = codes'.length := by
    rw [topStatements_length hm.statements, topStatements_length hs', hperm.length_eq]
  obtain ⟨starts, hstart, hstart', hstarts⟩ :=
    startFunction_alike (hperm.all_eq) hlength hcodes s.scope
  obtain ⟨gs, hgs, hgsperm⟩ := List.perm_comp_forall₂ (definitions_of_perm hperm) hn.definitions
  obtain ⟨pairs, hfst, hsnd, hpairs⟩ := exists_pairs
    (Q := fun d f g => Corresponds m.segments n.segments d f g)
    (fun d f g hd hd' => by rw [hsegments, hsegments']; exact hd.corresponds hsame hd') hm.definitions hgs
  refine ⟨n, hlower, ?_, ?_, ?_, ?_, pairs, starts, ?_, ?_, hpairs, hstarts, ?_⟩
  · rw [hn.imports, hm.imports, hosts_eq_of_others hothers]
  · rw [hn.globals, hm.globals, globals_eq_of_others hothers]
  · rw [hn.exports, hm.exports]
    split_ifs
    · exact (exports_of_perm hperm hm.definitions hn.definitions).append_right _
    · exact .refl _
  · rw [hn.start, hm.start, ← hscope, hstart, hstart']
    cases starts with
    | none => rfl
    | some pair => exact congrArg some (hstarts pair rfl).name
  · rw [hm.functions, hstart, hfst]
  · rw [hn.functions, ← hscope, hstart', ← hsnd]
    exact hgsperm.symm.append_right _
  · intro hplain
    have hnone : m.segments = [] := by
      rw [hsegments, hm.strings, hplain]
      rfl
    refine forall_of_forall₂ (fun d pair hpair => hpair.eq ?_) hpairs
    rw [hnone]
    exact fun value _ a b ha => nomatch ha

lemma Lowering.Reordered.callsResolve {n : Wasm.Module} (h : Reordered p m n) (hm : m.callsResolve = true) :
    n.callsResolve = true := by
  obtain ⟨pairs, starts, hfirst, hsecond, hpairs, hstarts, -⟩ := h.functions
  have hsame : ∀ pair ∈ pairs ++ starts.toList,
      SameFrame pair.1 pair.2 ∧ pair.1.body.callees = pair.2.body.callees := by
    refine List.forall_mem_append.mpr ⟨?_, ?_⟩
    · exact forall_of_forall₂ (fun d pair hpair => ⟨hpair.toSameFrame, hpair.body.callees⟩) hpairs
    · exact fun pair hpair => ⟨(hstarts pair (by simpa using hpair)).toSameFrame,
        (hstarts pair (by simpa using hpair)).callees⟩
  have hf : m.functions = (pairs ++ starts.toList).map Prod.fst := by
    rw [hfirst, List.map_append, Option.toList_map]
  have hg : n.functions ~ (pairs ++ starts.toList).map Prod.snd := by
    rwa [List.map_append, ← Option.toList_map]
  generalize pairs ++ starts.toList = all at hsame hf hg
  have hnames : m.functionNames ⊆ n.functionNames := by
    intro name hname
    unfold Wasm.Module.functionNames at hname ⊢
    rw [h.imports, List.mem_append]
    refine (List.mem_append.mp hname).imp_right fun hname => ?_
    rw [hf, List.map_map] at hname
    obtain ⟨pair, hpair, rfl⟩ := List.mem_map.mp hname
    exact List.mem_map.mpr ⟨pair.2, hg.mem_iff.mpr (List.mem_map_of_mem hpair), (hsame pair hpair).1.name⟩
  rw [callsResolve_iff] at hm ⊢
  intro g hgn callee hcallee
  obtain ⟨pair, hpair, rfl⟩ := List.mem_map.mp (hg.mem_iff.mp hgn)
  rw [← (hsame pair hpair).2] at hcallee
  refine hnames (hm pair.1 ?_ callee hcallee)
  rw [hf]
  exact List.mem_map_of_mem hpair

/-- The order in which functions are defined does not matter. Defined in another order, each function becomes the same
function up to the addresses of strings, and the start function takes the same steps. -/
theorem lower_reordered (hperm : p ~ q) (hothers : p.others = q.others) (h : lower p exported = .ok m) :
    ∃ n, lower q exported = .ok n ∧ Reordered p m n ∧ (compile p exported = .ok m → compile q exported = .ok n) := by
  obtain ⟨n, hn, hreordered⟩ := reordered_of_lower hperm hothers h
  refine ⟨n, hn, hreordered, fun hcompile => ?_⟩
  obtain ⟨-, hcalls⟩ := compile_ok hcompile
  unfold compile
  rw [hn]
  exact if_pos (hreordered.callsResolve hcalls)

def Program.hoisted (p : Program) : Program := (p.filter Stmt.isFunction).reverse ++ p.others

lemma hoisted_perm (p : Program) : p ~ p.hoisted :=
  (List.filter_append_perm _ p).symm.trans ((List.reverse_perm _).symm.append_right _)

lemma hoisted_others (p : Program) : p.hoisted.others = p.others := by
  unfold Program.hoisted Program.others
  rw [List.filter_append, List.filter_reverse, List.filter_filter, List.filter_filter]
  simp

def scatteredSource : String :=
  "fn log(i32 s)->void;log(\"a\");fn f(i32 n)->i32\x7bfn h(i32 n)->i32\x7blog(\"b\");return g(n-1);" ++
  "\x7dreturn h(n);\x7di32 x=f(2);fn g(i32 n)->i32\x7bif(n>0)\x7blog(\"c\");n=f(n);\x7dreturn n;\x7d" ++
  "if(x<g(x))\x7bi32 y=x;log(\"b\");\x7d"

theorem lower_reordered_scattered : ∃ p m n, parseText scatteredSource .standard = .ok p ∧ lower p true = .ok m ∧
    lower p.hoisted true = .ok n ∧ compile p.hoisted true = .ok n ∧ Reordered p m n ∧
    m.functionNames = ["log", "h", "f", "g", "__start"] ∧ n.functionNames = ["log", "g", "h", "f", "__start"] ∧
    m.segments ≠ n.segments := by
  obtain ⟨p, m, hp, hm, hnames, hmoved⟩ := exists_compiled
    (P := fun p m => m.functionNames = ["log", "h", "f", "g", "__start"] ∧
      ((compile p.hoisted true).toOption.map fun n => (n.functionNames, decide (m.segments = n.segments))) =
        some (["log", "g", "h", "f", "__start"], false))
    (show checkCompiled scatteredSource _ = true by decide +kernel)
  obtain ⟨hlower, -⟩ := compile_ok hm
  obtain ⟨n, hn, hreordered, hcompile⟩ := lower_reordered (hoisted_perm p) (hoisted_others p).symm hlower
  rw [hcompile hm] at hmoved
  obtain ⟨hnames', hsegments⟩ := Prod.mk.inj (Option.some.inj hmoved)
  exact ⟨p, m, n, hp, hlower, hn, hcompile hm, hreordered, hnames, hnames', of_decide_eq_false hsegments⟩

end Keel
