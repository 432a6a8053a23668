import Keel.Lowering.Program
import Keel.Proofs.Lowering.Inversion
import Keel.Proofs.Syntax.Listing
import Mathlib.Data.List.Nodup

namespace Keel

lemma lookup_eq_some_iff_mem {α β : Type} [DecidableEq α] {l : List (α × β)} (h : (l.map Prod.fst).Nodup) {a : α}
    {b : β} : l.lookup a = some b ↔ (a, b) ∈ l := by
  induction l with
  | nil => simp
  | cons x l ih =>
    obtain ⟨c, d⟩ := x
    rw [List.map_cons, List.nodup_cons] at h
    rw [List.lookup_cons]
    by_cases hc : a = c
    · subst hc
      have hnot : (a, b) ∉ l := fun hm => h.1 (List.mem_map.mpr ⟨_, hm, rfl⟩)
      simp [hnot, eq_comm]
    · have hc' : (a == c) = false := beq_false_of_ne hc
      simp [hc, hc', ih h.2]

lemma mem_of_lookup {α β : Type} [DecidableEq α] {l : List (α × β)} {a : α} {b : β} (h : l.lookup a = some b) :
    (a, b) ∈ l := by
  obtain ⟨l₁, l₂, hl, -⟩ := List.lookup_eq_some_iff.mp h
  simp [hl]

lemma lookup_map_key {α β : Type} (l : List (String × α)) (f : String → α → β) (name : String) :
    (l.map fun e => (e.1, f e.1 e.2)).lookup name = (l.lookup name).map (f name) := by
  induction l with
  | nil => rfl
  | cons e l ih =>
    rw [List.map_cons, List.lookup_cons, List.lookup_cons, ih]
    cases h : name == e.1 with
    | true =>
      obtain rfl := eq_of_beq h
      rfl
    | false => rfl

lemma nodup_concat_iff {α β : Type} [DecidableEq α] {l : List (α × β)} (h : (l.map Prod.fst).Nodup) {a : α} {b : β} :
    ((l ++ [(a, b)]).map Prod.fst).Nodup ↔ ¬ (l.lookup a).isSome := by
  rw [List.map_append, List.map_singleton, ← List.concat_eq_append, List.nodup_concat]
  simp [h, List.lookup_isSome_iff]

namespace Lowering

def entry (f : Prototype) : String × Signature := (f.name, ⟨f.parameterTypes, f.result⟩)

def Joins (table added : FunctionTable) (r : Except CompileError FunctionTable) : Prop :=
  ∀ t, r = .ok t ↔ t = table ++ added ∧ ((table ++ added).map Prod.fst).Nodup

section Joins

variable {table added more : FunctionTable} {r : Except CompileError FunctionTable}

lemma nodup_of_joined (h : ((table ++ added).map Prod.fst).Nodup) : (table.map Prod.fst).Nodup := by
  rw [List.map_append] at h
  exact h.of_append_left

lemma joins_nil (h : (table.map Prod.fst).Nodup) : Joins table [] (.ok table) := by
  intro t
  rw [List.append_nil, Except.ok.injEq, eq_comm]
  exact ⟨fun ht => ⟨ht, h⟩, And.left⟩

lemma joins_add (h : (table.map Prod.fst).Nodup) (name : String) (s : Signature) (place : Option Position) :
    Joins table [(name, s)] (table.add name s place) := by
  intro t
  rw [nodup_concat_iff h]
  unfold FunctionTable.add
  split_ifs with hname
  · simp [hname]
  · simp [hname, eq_comm]

lemma Joins.bind {f : FunctionTable → Except CompileError FunctionTable} (h : Joins table added r)
    (hf : ((table ++ added).map Prod.fst).Nodup → Joins (table ++ added) more (f (table ++ added))) :
    Joins table (added ++ more) (r >>= f) := by
  intro t
  rw [except_bind_ok, ← List.append_assoc]
  constructor
  · rintro ⟨u, hu, ht⟩
    obtain ⟨rfl, hnodup⟩ := (h u).mp hu
    exact (hf hnodup t).mp ht
  · rintro ⟨rfl, hnodup⟩
    have hfirst := nodup_of_joined hnodup
    exact ⟨_, (h _).mpr ⟨rfl, hfirst⟩, (hf hfirst _).mpr ⟨rfl, hnodup⟩⟩

lemma joins_addAll (h : (table.map Prod.fst).Nodup) (inner : FunctionTable) :
    Joins table inner (table.addAll inner) := by
  unfold FunctionTable.addAll
  induction inner generalizing table with
  | nil => exact joins_nil h
  | cons e inner ih =>
    rw [List.foldlM_cons]
    exact (joins_add h e.1 e.2 none).bind ih

lemma joins_nested {inner : Except CompileError FunctionTable} (h : (table.map Prod.fst).Nodup)
    (hinner : Joins [] added inner) : Joins table added (inner >>= fun t => table.addAll t) := by
  -- the functions of a nested body are gathered before they are added
  intro t
  rw [except_bind_ok]
  constructor
  · rintro ⟨u, hu, ht⟩
    obtain ⟨rfl, -⟩ := (hinner u).mp hu
    exact (joins_addAll h _ t).mp ht
  · rintro ⟨rfl, hnodup⟩
    have hadded : (added.map Prod.fst).Nodup := by
      rw [List.map_append] at hnodup
      exact hnodup.of_append_right
    exact ⟨added, (hinner _).mpr ⟨rfl, hadded⟩, (joins_addAll h added _).mpr ⟨rfl, hnodup⟩⟩

end Joins

mutual

lemma joins_addFunctions : ∀ (st : Stmt) ⦃table : FunctionTable⦄, (table.map Prod.fst).Nodup →
    Joins table (st.listed.map entry) (addFunctions table st)
  | .function signature types body, _, h => by
    rw [addFunctions, Stmt.listed, List.map_cons]
    exact (joins_add h _ _ _).bind fun hnodup => joins_nested hnodup (joins_functionsOfAll body List.nodup_nil)
  | .prototype signature, _, h => joins_add h _ _ _
  | .expression value, _, h => joins_addNested value h
  | .call _ _ _, _, h | .declare _ _ _ _, _, h | .ret _ _, _, h => joins_nil h

lemma joins_addNested : ∀ (e : Expr) ⦃table : FunctionTable⦄, (table.map Prod.fst).Nodup →
    Joins table (e.listed.map entry) (addNested table e)
  | .conditional _ _ _ body, _, h => joins_nested h (joins_functionsOfAll body List.nodup_nil)
  | .number _ _ _, _, h | .reference _ _, _, h | .binary _ _ _ _, _, h | .call _ _ _, _, h
  | .cast _ _ _, _, h | .assign _ _ _, _, h | .string _ _, _, h | .importFile _ _, _, h =>
    joins_nil h

lemma joins_functionsOfAll : ∀ (ss : List Stmt) ⦃table : FunctionTable⦄, (table.map Prod.fst).Nodup →
    Joins table ((Stmt.listedOfAll ss).map entry) (functionsOfAll table ss)
  | [], _, h => joins_nil h
  | st :: ss, _, h => by
    rw [functionsOfAll, Stmt.listedOfAll, List.map_append]
    exact (joins_addFunctions st h).bind fun hnodup => joins_functionsOfAll ss hnodup

end

variable {p : Program} {functions : FunctionTable}

lemma functionTable_iff : functionTable p = .ok functions ↔
    functions = p.listed.map entry ∧ (p.listed.map Prototype.name).Nodup := by
  have h : Joins [] (p.listed.map entry) (functionTable p) := joins_functionsOfAll p List.nodup_nil
  rw [h functions, List.nil_append, List.map_map]
  rfl

lemma functionTable_names (h : functionTable p = .ok functions) :
    functions.map Prod.fst = p.listed.map Prototype.name := by
  obtain ⟨rfl, -⟩ := functionTable_iff.mp h
  rw [List.map_map]
  rfl

lemma lookup_listed (h : functionTable p = .ok functions) {f : Prototype} (hf : f ∈ p.listed) :
    functions.lookup f.name = some ⟨f.parameterTypes, f.result⟩ := by
  obtain ⟨rfl, hnodup⟩ := functionTable_iff.mp h
  refine (lookup_eq_some_iff_mem ?_).mpr (List.mem_map.mpr ⟨f, hf, rfl⟩)
  rw [List.map_map]
  exact hnodup

lemma functionTable_sound (h : functionTable p = .ok functions) {callee : String} {s : Signature}
    (hs : functions.lookup callee = some s) :
    ∃ f ∈ p.signatures, f.name = callee ∧ s = ⟨f.parameterTypes, f.result⟩ := by
  obtain ⟨rfl, -⟩ := functionTable_iff.mp h
  obtain ⟨f, hf, he⟩ := List.mem_map.mp (mem_of_lookup hs)
  cases he
  exact ⟨f, listed_subset hf, rfl, rfl⟩

lemma lookup_host (h : functionTable p = .ok functions) {f : Prototype} (hf : f ∈ p.hosts) :
    functions.lookup f.name = some ⟨f.parameterTypes, f.result⟩ :=
  lookup_listed h (hosts_subset_listed hf)

lemma globalTable_ok {globals : GlobalTable} (h : globalTable p = .ok globals) :
    globals = p.globals ∧ (globals.map Prod.fst).Nodup ∧ ∀ v ∈ globals, v.2 ≠ .void := by
  suffices hall : ∀ (p : Program) (table : GlobalTable), (table.map Prod.fst).Nodup → (∀ v ∈ table, v.2 ≠ .void) →
      p.foldlM addGlobal table = .ok globals →
      globals = table ++ p.globals ∧ (globals.map Prod.fst).Nodup ∧ ∀ v ∈ globals, v.2 ≠ .void by
    exact hall p [] List.nodup_nil (by simp) h
  intro p
  induction p with
  | nil =>
    intro table hn hv h
    cases h
    exact ⟨by simp [Program.globals], hn, hv⟩
  | cons st p ih =>
    intro table hn hv h
    rw [List.foldlM_cons] at h
    obtain ⟨u, hu, h⟩ := except_bind_ok.mp h
    cases st with
    | declare place type name value =>
      unfold addGlobal at hu
      simp only at hu
      split_ifs at hu with htype hname
      cases hu
      have hv' : ∀ v ∈ table ++ [(name, type)], v.2 ≠ .void :=
        List.forall_mem_append.mpr ⟨hv, List.forall_mem_singleton.mpr htype⟩
      obtain ⟨hg, hrest⟩ := ih _ ((nodup_concat_iff hn).mpr hname) hv' h
      refine ⟨?_, hrest⟩
      rw [hg, List.append_assoc]
      rfl
    | _ =>
      cases hu
      exact ih table hn hv h

end Lowering

end Keel
