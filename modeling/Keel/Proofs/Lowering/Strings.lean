import Keel.Proofs.Lowering.Programs
import Keel.Proofs.Syntax.Shape
import Keel.Proofs.Wasm.Memory

namespace Keel

def Expr.string? : Expr → Option String
  | .string _ value => some value
  | _ => none

def Program.texts (p : Program) : List String := p.parts.filterMap Expr.string?

lemma Program.mem_texts {p : Program} {value : String} :
    value ∈ p.texts ↔ ∃ place, Expr.string place value ∈ p.parts := by
  unfold texts
  rw [List.mem_filterMap]
  constructor
  · rintro ⟨e, he, hvalue⟩
    cases e with
    | string place text =>
      obtain rfl := Option.some.inj hvalue
      exact ⟨place, he⟩
    | _ => cases hvalue
  · rintro ⟨place, he⟩
    exact ⟨_, he, rfl⟩

section Entities

mutual

lemma Expr.strings_entities : ∀ e : Expr, stringsAmong e.entities = e.parts.filterMap Expr.string?
  | .number _ _ _ | .reference _ _ | .importFile _ _ | .string _ _ => rfl
  | .binary _ _ lhs rhs => by
    rw [Expr.entities, stringsAmong_append, lhs.strings_entities, rhs.strings_entities, Expr.parts,
      List.filterMap_cons_none rfl, List.filterMap_append]
  | .call _ _ args => by
    rw [Expr.entities, Expr.strings_entitiesOfAll args, Expr.parts, List.filterMap_cons_none rfl]
  | .cast _ _ value | .assign _ _ value => by
    rw [Expr.entities, value.strings_entities, Expr.parts, List.filterMap_cons_none rfl]
  | .conditional _ conditions _ body => by
    rw [Expr.entities, stringsAmong_append, Condition.strings_entitiesOfAll conditions,
      Stmt.strings_entitiesOfAll body, Expr.parts, List.filterMap_cons_none rfl, List.filterMap_append]

lemma Expr.strings_entitiesOfAll : ∀ es : List Expr,
    stringsAmong (Expr.entitiesOfAll es) = (Expr.partsOfAll es).filterMap Expr.string?
  | [] => rfl
  | e :: es => by
    rw [Expr.entitiesOfAll, stringsAmong_append, e.strings_entities, Expr.strings_entitiesOfAll es, Expr.partsOfAll,
      List.filterMap_append]

lemma Condition.strings_entities : ∀ c : Condition, stringsAmong c.entities = c.parts.filterMap Expr.string?
  | .compare lhs _ rhs => by
    rw [Condition.entities, stringsAmong_append, lhs.strings_entities, rhs.strings_entities, Condition.parts,
      List.filterMap_append]

lemma Condition.strings_entitiesOfAll : ∀ cs : List Condition,
    stringsAmong (Condition.entitiesOfAll cs) = (Condition.partsOfAll cs).filterMap Expr.string?
  | [] => rfl
  | c :: cs => by
    rw [Condition.entitiesOfAll, stringsAmong_append, c.strings_entities, Condition.strings_entitiesOfAll cs,
      Condition.partsOfAll, List.filterMap_append]

lemma Stmt.strings_entities : ∀ st : Stmt, stringsAmong st.entities = st.parts.filterMap Expr.string?
  | .expression value | .ret _ value => value.strings_entities
  | .call _ _ args => Expr.strings_entitiesOfAll args
  | .declare _ _ _ value => by
    rw [Stmt.entities, stringsAmong_append, value.strings_entities, Stmt.parts]
    exact List.append_nil _
  | .function signature types body => by
    rw [stringsAmong_function, Stmt.strings_entitiesOfAll body, Stmt.parts]
  | .prototype _ => rfl

lemma Stmt.strings_entitiesOfAll : ∀ ss : List Stmt,
    stringsAmong (Stmt.entitiesOfAll ss) = (Stmt.partsOfAll ss).filterMap Expr.string?
  | [] => rfl
  | st :: ss => by
    rw [Stmt.entitiesOfAll, stringsAmong_append, st.strings_entities, Stmt.strings_entitiesOfAll ss, Stmt.partsOfAll,
      List.filterMap_append]

end

lemma Stmt.strings_outerEntities (st : Stmt) : stringsAmong st.outerEntities = st.parts.filterMap Expr.string? := by
  cases st with
  | declare place type name value => exact value.strings_entities
  | _ => exact Stmt.strings_entities _

lemma Program.texts_eq (p : Program) : stringsAmong p.entities = p.texts := by
  induction p with
  | nil => rfl
  | cons st p ih =>
    have hcons : Program.texts (st :: p) = st.parts.filterMap Expr.string? ++ Program.texts p :=
      List.filterMap_append
    rw [hcons, ← ih, ← st.strings_outerEntities, ← stringsAmong_append]
    rfl

end Entities

namespace Lowering.StringTable

open Wasm (Segment Contiguous)

lemma length_bytes_pos (value : String) : 0 < (bytes value).length := by
  simp [bytes]

lemma bytes_injective {v w : String} (h : bytes v = bytes w) : v = w := by
  have hbytes : v.toByteArray = w.toByteArray := ByteArray.ext (Array.toList_inj.mp (List.append_cancel_right h))
  exact String.toByteArray_inj.mp hbytes

lemma zero_notMem_encoded {c : Char} (h : c ≠ '\x00') : 0 ∉ String.utf8EncodeChar c := by
  have hval : c.val.toNat ≠ 0 := fun hz => h (Char.ext (UInt32.toNat_inj.mp hz))
  have hbyte : ∀ n, (0 : UInt8) = UInt8.ofNat n → n % 256 = 0 := by
    intro n hn
    have hnat := congrArg UInt8.toNat hn
    rw [UInt8.toNat_ofNat'] at hnat
    exact hnat.symm
  intro hmem
  unfold String.utf8EncodeChar at hmem
  dsimp only at hmem
  split_ifs at hmem with h1 h2 h3
  all_goals
    simp only [List.mem_cons, List.not_mem_nil, or_false] at hmem
  · have hmod := hbyte _ hmem
    omega
  · obtain hz | hz := hmem <;> have hmod := hbyte _ hz <;> omega
  · obtain hz | hz | hz := hmem <;> have hmod := hbyte _ hz <;> omega
  · obtain hz | hz | hz | hz := hmem <;> have hmod := hbyte _ hz <;> omega

lemma zero_notMem_utf8 {value : String} (h : '\x00' ∉ value.toList) : 0 ∉ value.toUTF8.data.toList := by
  have hencoded : value.toUTF8.data.toList = value.toList.flatMap String.utf8EncodeChar := by
    rw [String.toUTF8_eq_toByteArray, ← String.utf8Encode_toList, List.utf8Encode, List.toList_data_toByteArray]
  rw [hencoded, List.mem_flatMap]
  rintro ⟨c, hc, hzero⟩
  exact zero_notMem_encoded (fun hnul => h (hnul ▸ hc)) hzero

lemma toByteArray_toList (b : ByteArray) : b.data.toList.toByteArray = b :=
  ByteArray.ext (by rw [List.data_toByteArray, Array.toArray_toList])

lemma fromUTF8?_encoded (value : String) : String.fromUTF8? value.toUTF8.data.toList.toByteArray = some value := by
  rw [toByteArray_toList]
  simp only [String.fromUTF8?, String.toUTF8_eq_toByteArray, dif_pos value.isValidUTF8]
  rfl

structure Dense (table : StringTable) : Prop where
  contiguous : Contiguous 8 table.segments table.finish
  distinct : (table.entries.map Prod.fst).Nodup

lemma dense_empty : Dense empty := ⟨rfl, List.nodup_nil⟩

variable {table : StringTable} {value : String} {address : ℕ}

lemma Dense.intern (h : table.Dense) (value : String) : (table.intern value).2.Dense := by
  unfold StringTable.intern
  cases hlookup : table.entries.lookup value with
  | some address => exact h
  | none =>
    constructor
    · have hsegments : segments ⟨table.entries ++ [(value, table.finish)], table.finish + (bytes value).length⟩ =
          table.segments ++ [⟨table.finish, bytes value⟩] := by
        simp [segments]
      rw [hsegments]
      exact h.contiguous.append ⟨rfl, rfl⟩
    · exact (nodup_concat_iff h.distinct).mpr (by simp [hlookup])

lemma Dense.internAll (h : table.Dense) (values : List String) : (table.internAll values).Dense := by
  induction values generalizing table with
  | nil => exact h
  | cons value values ih => exact ih (h.intern value)

lemma mem_intern {v : String} :
    v ∈ (table.intern value).2.entries.map Prod.fst ↔ v ∈ table.entries.map Prod.fst ∨ v = value := by
  unfold StringTable.intern
  cases hlookup : table.entries.lookup value with
  | some address =>
    have hmem : value ∈ table.entries.map Prod.fst := List.mem_map.mpr ⟨_, mem_of_lookup hlookup, rfl⟩
    constructor
    · exact .inl
    · rintro (hv | rfl)
      · exact hv
      · exact hmem
  | none => simp [or_comm]

lemma mem_internAll {v : String} {values : List String} :
    v ∈ (table.internAll values).entries.map Prod.fst ↔ v ∈ table.entries.map Prod.fst ∨ v ∈ values := by
  induction values generalizing table with
  | nil => simp [StringTable.internAll]
  | cons value values ih =>
    rw [List.mem_cons, ← or_assoc, ← mem_intern]
    exact ih

def addressOf (table : StringTable) (value : String) : ℕ := (table.entries.lookup value).getD 0

lemma addressOf_eq (h : table.entries.lookup value = some address) : table.addressOf value = address := by
  unfold addressOf
  rw [h]
  rfl

lemma Dense.segments_eq (h : table.Dense) :
    table.segments = (table.entries.map Prod.fst).map fun v => ⟨table.addressOf v, bytes v⟩ := by
  unfold segments
  rw [List.map_map]
  apply List.map_congr_left
  rintro ⟨v, a⟩ hmem
  rw [Function.comp_apply, addressOf_eq ((lookup_eq_some_iff_mem h.distinct).mpr hmem)]

lemma Dense.mem_segments (h : table.Dense) (hmem : value ∈ table.entries.map Prod.fst) :
    ⟨table.addressOf value, bytes value⟩ ∈ table.segments := by
  rw [h.segments_eq]
  exact List.mem_map.mpr ⟨value, hmem, rfl⟩

lemma Dense.injective (h : table.Dense) {v w : String} (hv : v ∈ table.entries.map Prod.fst)
    (hw : w ∈ table.entries.map Prod.fst) (heq : table.addressOf v = table.addressOf w) : v = w := by
  have hv' := length_bytes_pos v
  have hw' := length_bytes_pos w
  have hsame := Wasm.eq_of_overlap h.contiguous.pairwise (h.mem_segments hv) (h.mem_segments hw)
    (a := table.addressOf v) ⟨le_rfl, by dsimp only; omega⟩ ⟨heq.ge, by dsimp only; omega⟩
  exact bytes_injective (Segment.mk.inj hsame).2

lemma Dense.pages_isLeast (h : table.Dense) :
    IsLeast {n | 1 ≤ n ∧ ∀ s ∈ table.segments, s.offset + s.data.length ≤ n * Wasm.pageSize} table.pages := by
  have hpages : table.finish ≤ table.pages * Wasm.pageSize := by
    unfold pages Wasm.pageSize
    omega
  constructor
  · exact ⟨le_max_left _ _, fun s hs => (h.contiguous.bounds s hs).2.trans hpages⟩
  · rintro n ⟨hn, hfit⟩
    have hfinish : table.finish ≤ n * Wasm.pageSize := by
      refine h.contiguous.finish_le ?_ hfit
      unfold Wasm.pageSize
      omega
    unfold pages
    unfold Wasm.pageSize at hfinish ⊢
    omega

end Lowering.StringTable

end Keel
