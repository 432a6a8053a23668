import Keel.Proofs.Lowering.Signatures
import Keel.Unit.Linked

/-! A table of functions is refused for nothing but two functions of one name. -/

namespace Keel.Lowering

def Blames (table : FunctionTable) (added : List Prototype) (r : Except CompileError FunctionTable) : Prop :=
  ∀ e, r = .error e → ∃ f ∈ added, e.cause = .functionDefined f.name ∧ (∀ place ∈ e.position, place = f.position) ∧
    2 ≤ (table.map Prod.fst ++ added.map Prototype.name).count f.name

section Blames

variable {table : FunctionTable} {added more : List Prototype} {r : Except CompileError FunctionTable}

lemma names_append (table : FunctionTable) (added : List Prototype) :
    (table ++ added.map entry).map Prod.fst = table.map Prod.fst ++ added.map Prototype.name := by
  rw [List.map_append, List.map_map]
  rfl

lemma blames_ok (t : FunctionTable) : Blames table added (.ok t) := fun _ h => nomatch h

lemma blames_add (f : Prototype) (s : Signature) (place : Option Position) (hplace : ∀ p ∈ place, p = f.position) :
    Blames table [f] (table.add f.name s place) := by
  intro e h
  unfold FunctionTable.add at h
  split_ifs at h with hname
  cases h
  refine ⟨f, List.mem_singleton_self f, rfl, hplace, ?_⟩
  have hmem : f.name ∈ table.map Prod.fst := by
    obtain ⟨b, hb, hkey⟩ := List.lookup_isSome_iff.mp hname
    exact List.mem_map.mpr ⟨b, hb, (eq_of_beq hkey).symm⟩
  have hone := List.count_pos_iff.mpr hmem
  rw [List.count_append, List.map_singleton, List.count_singleton_self]
  omega

lemma Blames.bind {f : FunctionTable → Except CompileError FunctionTable} (h : Blames table added r)
    (hr : Joins table (added.map entry) r)
    (hf : ((table ++ added.map entry).map Prod.fst).Nodup →
      Blames (table ++ added.map entry) more (f (table ++ added.map entry))) :
    Blames table (added ++ more) (r >>= f) := by
  intro e he
  obtain he | ⟨t, ht, he⟩ := except_bind_error.mp he
  · obtain ⟨g, hg, hcause, hplace, hcount⟩ := h e he
    refine ⟨g, List.mem_append_left more hg, hcause, hplace, Nat.le_trans hcount ?_⟩
    rw [List.map_append, ← List.append_assoc]
    exact (List.sublist_append_left _ _).count_le _
  · obtain ⟨rfl, hnodup⟩ := (hr t).mp ht
    obtain ⟨g, hg, hcause, hplace, hcount⟩ := hf hnodup e he
    refine ⟨g, List.mem_append_right added hg, hcause, hplace, ?_⟩
    rwa [names_append, List.append_assoc, ← List.map_append] at hcount

lemma blames_addAll (h : (table.map Prod.fst).Nodup) (added : List Prototype) :
    Blames table added (table.addAll (added.map entry)) := by
  unfold FunctionTable.addAll
  induction added generalizing table with
  | nil => exact blames_ok table
  | cons f added ih =>
    rw [List.map_cons, List.foldlM_cons]
    exact (blames_add f (entry f).2 none nofun).bind (joins_add h f.name _ none) ih

lemma blames_nested {inner : Except CompileError FunctionTable} (h : (table.map Prod.fst).Nodup)
    (hinner : Blames [] added inner) (hjoins : Joins [] (added.map entry) inner) :
    Blames table added (inner >>= fun t => table.addAll t) := by
  intro e he
  obtain he | ⟨t, ht, he⟩ := except_bind_error.mp he
  · obtain ⟨g, hg, hcause, hplace, hcount⟩ := hinner e he
    refine ⟨g, hg, hcause, hplace, Nat.le_trans hcount ?_⟩
    exact (List.sublist_append_right _ _).count_le _
  · obtain ⟨rfl, -⟩ := (hjoins t).mp ht
    exact blames_addAll h added e he

end Blames

-- By induction on the tree: what a nested body adds is known from the gathering of its own table.
mutual

lemma blames_addFunctions : ∀ (st : Stmt) ⦃table : FunctionTable⦄, (table.map Prod.fst).Nodup →
    Blames table st.listed (addFunctions table st)
  | .function signature types body, table, h => by
    rw [addFunctions, Stmt.listed]
    have hsignature : Blames table [signature] (table.addPrototype signature) :=
      blames_add signature _ _ fun _ hplace => (Option.mem_some.mp hplace).symm
    exact hsignature.bind (joins_add h _ _ _) fun hnodup =>
      blames_nested hnodup (blames_functionsOfAll body List.nodup_nil) (joins_functionsOfAll body List.nodup_nil)
  | .prototype signature, _, _ => blames_add signature _ _ fun _ hplace => (Option.mem_some.mp hplace).symm
  | .expression value, _, h => blames_addNested value h
  | .call _ _ _, table, _ | .declare _ _ _ _, table, _ | .ret _ _, table, _ => blames_ok table

lemma blames_addNested : ∀ (e : Expr) ⦃table : FunctionTable⦄, (table.map Prod.fst).Nodup →
    Blames table e.listed (addNested table e)
  | .conditional _ _ _ body, _, h =>
    blames_nested h (blames_functionsOfAll body List.nodup_nil) (joins_functionsOfAll body List.nodup_nil)
  | .number _ _ _, table, _ | .reference _ _, table, _ | .binary _ _ _ _, table, _ | .call _ _ _, table, _
  | .cast _ _ _, table, _ | .assign _ _ _, table, _ | .string _ _, table, _ | .importFile _ _, table, _ =>
    blames_ok table

lemma blames_functionsOfAll : ∀ (ss : List Stmt) ⦃table : FunctionTable⦄, (table.map Prod.fst).Nodup →
    Blames table (Stmt.listedOfAll ss) (functionsOfAll table ss)
  | [], table, _ => blames_ok table
  | st :: ss, _, h => by
    rw [functionsOfAll, Stmt.listedOfAll]
    exact (blames_addFunctions st h).bind (joins_addFunctions st h) fun hnodup => blames_functionsOfAll ss hnodup

end

variable {p : Program}

lemma functionTable_error {e : CompileError} (h : functionTable p = .error e) :
    ∃ f ∈ p.listed, e.cause = .functionDefined f.name ∧ (∀ place ∈ e.position, place = f.position) ∧
      2 ≤ (p.listed.map Prototype.name).count f.name := by
  have hblames : Blames [] p.listed (functionTable p) := blames_functionsOfAll p List.nodup_nil
  exact hblames e h

/-- Two functions of one name are a refusal, wherever they stand in nested bodies, and there is no other one.
Else the table holds each function under its name with its own signature, in the order of the text. -/
theorem functionTable_decides (p : Program) :
    ((∃ e, functionTable p = .error e ∧ e.cause.code = .duplicateDefinition) ↔
        ¬ (p.listed.map Prototype.name).Nodup) ∧
      (∀ e, functionTable p = .error e → ∃ f ∈ p.listed, e.cause = .functionDefined f.name ∧
        (∀ place ∈ e.position, place = f.position) ∧ 2 ≤ (p.listed.map Prototype.name).count f.name) ∧
      ((p.listed.map Prototype.name).Nodup → ∃ functions, functionTable p = .ok functions ∧
        functions = p.listed.map (fun f => (f.name, ⟨f.parameterTypes, f.result⟩)) ∧
        ∀ name signature, functions.lookup name = some signature ↔
          ∃ f ∈ p.listed, f.name = name ∧ signature = ⟨f.parameterTypes, f.result⟩) := by
  refine ⟨⟨?_, fun hnodup => ?_⟩, fun e => functionTable_error, fun hnodup => ?_⟩
  · rintro ⟨e, he, -⟩ hnodup
    have hok := functionTable_iff.mpr ⟨rfl, hnodup⟩
    rw [he] at hok
    cases hok
  · cases htable : functionTable p with
    | ok functions => exact absurd (functionTable_iff.mp htable).2 hnodup
    | error e =>
      obtain ⟨f, -, hcause, -⟩ := functionTable_error htable
      exact ⟨e, rfl, by rw [hcause]; rfl⟩
  · have htable := functionTable_iff.mpr ⟨rfl, hnodup⟩
    refine ⟨_, htable, rfl, fun name signature => ⟨fun h => ?_, ?_⟩⟩
    · obtain ⟨f, hf, he⟩ := List.mem_map.mp (mem_of_lookup h)
      cases he
      exact ⟨f, hf, rfl, rfl⟩
    · rintro ⟨f, hf, rfl, rfl⟩
      exact lookup_listed htable hf

def cousinSource : String :=
  "fn f() -> void \x7b if (1 < 2) \x7b fn h() -> void \x7b \x7d \x7d \x7d\nfn g() -> void \x7b fn h() -> i32; \x7d\n"

theorem functionTable_decides_cousins : ∃ p e, parseText cousinSource .standard = .ok p ∧
    functionTable p = .error e ∧ e.cause.code = .duplicateDefinition := by
  have hcheck : (match parseText cousinSource .standard with
      | .ok p => decide ¬ (p.listed.map Prototype.name).Nodup
      | .error _ => false) = true := by decide +kernel
  split at hcheck
  · rename_i p hp
    obtain ⟨e, he, hcode⟩ := (functionTable_decides p).1.mpr (of_decide_eq_true hcheck)
    exact ⟨p, e, hp, he, hcode⟩
  · cases hcheck

end Keel.Lowering
