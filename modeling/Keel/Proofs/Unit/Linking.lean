import Keel.Proofs.Lowering.Inversion
import Keel.Proofs.Syntax.Termination
import Keel.Unit.Linked
import Mathlib.Data.List.Nodup
import Mathlib.Logic.Relation

/-! Linking gives every file that is reached through imports once, behind the files it imports. -/

namespace Keel

open Relation

structure Linkage where
  host : SourceFiles
  table : Precedences
  entry : String
  source : String

namespace Linkage

variable (l : Linkage)

def text? (path : String) : Option String :=
  if path = l.entry then some l.source else (l.host.read path).toOption

def Loads (u : SourceUnit) : Prop := ∃ text, l.text? u.path = some text ∧ parseText text l.table = .ok u.program

def Imports (a b : String) : Prop :=
  ∃ u, l.Loads u ∧ u.path = a ∧ ∃ i ∈ u.program.imports, l.host.resolve a i.path = b

/-- The first path is the second one or a file on the way imports it. -/
abbrev Reaches : String → String → Prop := ReflTransGen l.Imports

variable {l}

lemma Loads.unique {path : String} {p q : Program} (h : l.Loads ⟨path, p⟩) (h' : l.Loads ⟨path, q⟩) : p = q := by
  obtain ⟨text, htext, hparse⟩ := h
  obtain ⟨text', htext', hparse'⟩ := h'
  obtain rfl : text = text' := Option.some.inj (htext.symm.trans htext')
  exact Except.ok.inj (hparse.symm.trans hparse')

lemma Loads.imports {path : String} {program : Program} (h : l.Loads ⟨path, program⟩) {q : String}
    (hq : l.Imports path q) : ∃ i ∈ program.imports, l.host.resolve path i.path = q := by
  obtain ⟨⟨path', program'⟩, hloads, rfl, himport⟩ := hq
  obtain rfl : program = program' := h.unique hloads
  exact himport

end Linkage

namespace Linking

variable {l : Linkage} {s t u : State} {root path source : String} {us vs : List SourceUnit} {depth : ℕ}

structure Grows (l : Linkage) (root : String) (s t : State) (news : List SourceUnit) : Prop where
  units : t.units = s.units ++ news
  included : ∀ q, q ∈ t.included ↔ q ∈ s.included ∨ q ∈ news.map SourceUnit.path
  fresh : ∀ u ∈ news, u.path ∉ s.included
  nodup : (news.map SourceUnit.path).Nodup
  loads : ∀ u ∈ news, l.Loads u
  reached : ∀ u ∈ news, l.Reaches root u.path
  closed : ∀ u ∈ news, ∀ q, l.Imports u.path q → q ∈ t.included
  ordered : ∀ u ∈ news, ∀ q, l.Imports u.path q →
    q ∈ s.included ∨ [q, u.path].Sublist (news.map SourceUnit.path) ∨ l.Reaches q u.path

lemma Grows.refl (l : Linkage) (root : String) (s : State) : Grows l root s s [] := by
  constructor <;> simp

lemma pair_sublist {α : Type} {xs ys : List α} {x y : α} (hx : x ∈ xs) (hy : y ∈ ys) :
    [x, y].Sublist (xs ++ ys) :=
  (List.singleton_sublist.mpr hx).append (List.singleton_sublist.mpr hy)

lemma Grows.trans (h : Grows l root s t us) (h' : Grows l root t u vs) : Grows l root s u (us ++ vs) where
  units := by rw [h'.units, h.units, List.append_assoc]
  included q := by rw [h'.included, h.included, List.map_append, List.mem_append, or_assoc]
  fresh := by
    intro x hx
    rcases List.mem_append.mp hx with hx | hx
    · exact h.fresh x hx
    · exact fun hs => h'.fresh x hx ((h.included _).mpr (.inl hs))
  nodup := by
    rw [List.map_append, List.nodup_append]
    refine ⟨h.nodup, h'.nodup, ?_⟩
    rintro q hq q' hq' rfl
    obtain ⟨x, hx, rfl⟩ := List.mem_map.mp hq'
    exact h'.fresh x hx ((h.included _).mpr (.inr hq))
  loads := List.forall_mem_append.mpr ⟨h.loads, h'.loads⟩
  reached := List.forall_mem_append.mpr ⟨h.reached, h'.reached⟩
  closed := by
    intro x hx q hq
    rcases List.mem_append.mp hx with hx | hx
    · exact (h'.included q).mpr (.inl (h.closed x hx q hq))
    · exact h'.closed x hx q hq
  ordered := by
    intro x hx q hq
    rw [List.map_append]
    rcases List.mem_append.mp hx with hx | hx
    · rcases h.ordered x hx q hq with hs | hs | hs
      · exact .inl hs
      · exact .inr (.inl (hs.trans (List.sublist_append_left _ _)))
      · exact .inr (.inr hs)
    · rcases h'.ordered x hx q hq with ht | ht | ht
      · rcases (h.included q).mp ht with hs | hs
        · exact .inl hs
        · exact .inr (.inl (pair_sublist hs (List.mem_map_of_mem hx)))
      · exact .inr (.inl (ht.trans (List.sublist_append_right _ _)))
      · exact .inr (.inr ht)

lemma Grows.from (h : Grows l path s t us) (himports : l.Imports root path) : Grows l root s t us :=
  { h with reached := fun x hx => (h.reached x hx).head himports }

lemma Grows.complete {program : Program} (h : Grows l path ⟨path :: s.included, s.units⟩ t us)
    (hpath : path ∉ s.included) (hloads : l.Loads ⟨path, program⟩)
    (hfollowed : ∀ i ∈ program.imports, l.host.resolve path i.path ∈ t.included) :
    Grows l path s ⟨t.included, t.units ++ [⟨path, program⟩]⟩ (us ++ [⟨path, program⟩]) where
  units := by simp [h.units]
  included q := by
  -- a unit stands behind all that its imports have led to
    rw [h.included, List.map_append, List.mem_append, List.mem_cons, List.map_singleton, List.mem_singleton]
    tauto
  fresh := by
    intro x hx hs
    rcases List.mem_append.mp hx with hx | hx
    · exact h.fresh x hx (List.mem_cons_of_mem _ hs)
    · obtain rfl := List.mem_singleton.mp hx
      exact hpath hs
  nodup := by
    rw [List.map_append, List.map_singleton, List.nodup_append]
    refine ⟨h.nodup, List.nodup_singleton _, ?_⟩
    intro q hq q' hq'
    obtain ⟨x, hx, rfl⟩ := List.mem_map.mp hq
    obtain rfl := List.mem_singleton.mp hq'
    exact fun heq => h.fresh x hx (List.mem_cons.mpr (.inl heq))
  loads := List.forall_mem_append.mpr ⟨h.loads, List.forall_mem_singleton.mpr hloads⟩
  reached := List.forall_mem_append.mpr ⟨h.reached, List.forall_mem_singleton.mpr .refl⟩
  closed := by
    refine List.forall_mem_append.mpr ⟨h.closed, List.forall_mem_singleton.mpr ?_⟩
    intro q hq
    obtain ⟨i, hi, rfl⟩ := hloads.imports hq
    exact hfollowed i hi
  ordered := by
    intro x hx q hq
    rw [List.map_append, List.map_singleton]
    rcases List.mem_append.mp hx with hnew | hlast
    · rcases h.ordered x hnew q hq with hs | hs | hs
      -- What had been met is now the unit itself, too: it leads to all that is new.
      · rcases List.mem_cons.mp hs with rfl | hs
        · exact .inr (.inr (h.reached x hnew))
        · exact .inl hs
      · exact .inr (.inl (hs.trans (List.sublist_append_left _ _)))
      · exact .inr (.inr hs)
    · obtain rfl := List.mem_singleton.mp hlast
      obtain ⟨i, hi, rfl⟩ := hloads.imports hq
      rcases (h.included _).mp (hfollowed i hi) with hs | hs
      · rcases List.mem_cons.mp hs with heq | hs
        · rw [heq]
          exact .inr (.inr .refl)
        · exact .inl hs
      · exact .inr (.inl (pair_sublist hs (List.mem_singleton.mpr rfl)))

lemma sourceOf_ok {i : Import} {target text : String} (h : sourceOf l.host target i = .ok text) :
    l.host.read target = .ok text := by
  unfold sourceOf at h
  cases hread : l.host.read target with
  | error reason => simp [hread, Except.mapError] at h
  | ok text' => simpa [hread, Except.mapError] using h

lemma text?_of_fresh {i : Import} {text : String} (hentry : l.entry ∈ s.included)
    (hfresh : l.host.resolve path i.path ∉ s.included)
    (htext : sourceOf l.host (l.host.resolve path i.path) i = .ok text) :
    l.text? (l.host.resolve path i.path) = some text := by
  have hother : l.host.resolve path i.path ≠ l.entry := fun heq => hfresh (heq ▸ hentry)
  rw [Linkage.text?, if_neg hother, sourceOf_ok htext, Except.toOption]

lemma entry_met (h : l.entry = path ∨ l.entry ∈ s.included) : l.entry ∈ path :: s.included := by
  rcases h with rfl | h
  · exact List.mem_cons_self
  · exact List.mem_cons_of_mem _ h

def VisitGrows (l : Linkage) (depth : ℕ) : Prop :=
  ∀ ⦃path text s t⦄, visit l.host l.table depth path text s = .ok t → path ∉ s.included →
    l.text? path = some text → l.entry = path ∨ l.entry ∈ s.included →
      ∃ us program, Grows l path s t (us ++ [⟨path, program⟩])

lemma follow_grows (hvisit : VisitGrows l depth) {i : Import}
    (h : follow l.host (visit l.host l.table depth) path s i = .ok t)
    (himports : l.Imports path (l.host.resolve path i.path)) (hentry : l.entry ∈ s.included) :
    (∃ us, Grows l path s t us) ∧ l.host.resolve path i.path ∈ t.included := by
  rw [follow] at h
  split_ifs at h with hmet
  · obtain rfl := Except.ok.inj h
    exact ⟨⟨[], .refl l path s⟩, by simpa using hmet⟩
  · obtain ⟨text, htext, h⟩ := Lowering.except_bind_ok.mp h
    have hfresh : l.host.resolve path i.path ∉ s.included := by simpa using hmet
    obtain ⟨us, program, hgrows⟩ := hvisit h hfresh (text?_of_fresh hentry hfresh htext) (.inr hentry)
    exact ⟨⟨_, hgrows.from himports⟩, (hgrows.included _).mpr (.inr (by simp))⟩

lemma followAll_grows (hvisit : VisitGrows l depth) {is : List Import}
    (h : is.foldlM (follow l.host (visit l.host l.table depth) path) s = .ok t)
    (himports : ∀ i ∈ is, l.Imports path (l.host.resolve path i.path)) (hentry : l.entry ∈ s.included) :
    (∃ us, Grows l path s t us) ∧ ∀ i ∈ is, l.host.resolve path i.path ∈ t.included := by
  induction is generalizing s with
  | nil =>
    obtain rfl : s = t := by simpa [pure, Except.pure] using h
    exact ⟨⟨[], .refl l path s⟩, by simp⟩
  | cons i is ih =>
    rw [List.foldlM_cons] at h
    obtain ⟨u, hfirst, h⟩ := Lowering.except_bind_ok.mp h
    obtain ⟨hi, his⟩ := List.forall_mem_cons.mp himports
    obtain ⟨⟨us, hus⟩, hmet⟩ := follow_grows hvisit hfirst hi hentry
    obtain ⟨⟨vs, hvs⟩, hrest⟩ := ih h his ((hus.included _).mpr (.inl hentry))
    exact ⟨⟨_, hus.trans hvs⟩, List.forall_mem_cons.mpr ⟨(hvs.included _).mpr (.inl hmet), hrest⟩⟩

lemma visit_grows (l : Linkage) (depth : ℕ) : VisitGrows l depth := by
  induction depth with
  | zero => exact fun path text s t h => nomatch h
  | succ depth ih =>
    intro path text s t h hpath htext hentry
    rw [visit] at h
    obtain ⟨program, hparse, h⟩ := Lowering.except_bind_ok.mp h
    obtain ⟨u, hfollow, h⟩ := Lowering.except_bind_ok.mp h
    have hloads : l.Loads ⟨path, program⟩ := ⟨text, htext, hparse⟩
    obtain ⟨⟨us, hus⟩, hfollowed⟩ :=
      followAll_grows ih hfollow (fun i hi => ⟨⟨path, program⟩, hloads, rfl, i, hi, rfl⟩) (entry_met hentry)
    obtain rfl := Except.ok.inj h
    exact ⟨us, program, hus.complete hpath hloads hfollowed⟩

def unmet (l : Linkage) (included : List String) : List (String × String) :=
  l.host.files.filter fun f => f.1 ∉ included

lemma unmet_length_le {included included' : List String} (h : ∀ q ∈ included, q ∈ included') :
    (unmet l included').length ≤ (unmet l included).length := by
  apply List.Sublist.length_le
  apply List.monotone_filter_right
  intro f hf
  simp only [decide_eq_true_eq] at hf ⊢
  exact fun hmem => hf (h _ hmem)

lemma unmet_length_lt {included : List String} {target text : String} (hread : l.host.read target = .ok text)
    (hfresh : target ∉ included) : (unmet l (target :: included)).length < (unmet l included).length := by
  have hfile : (target, text) ∈ unmet l included := by
    unfold SourceFiles.read at hread
    split at hread
    · rename_i text' hlookup
      obtain rfl : text' = text := by simpa using hread
      obtain ⟨before, after, heq, -⟩ := List.lookup_eq_some_iff.mp hlookup
      simp [unmet, heq, hfresh]
    · simp at hread
  have hsplit : unmet l (target :: included) = (unmet l included).filter fun f => f.1 ≠ target := by
    rw [unmet, unmet, List.filter_filter]
    congr 1
    funext f
    simp
  rw [hsplit]
  exact List.length_filter_lt_length_iff_exists.mpr ⟨_, hfile, by simp⟩

lemma parseText_ne_exhausted (source : String) (table : Precedences) :
    parseText source table ≠ .error .exhausted := by
  intro h
  unfold parseText at h
  split at h
  · simp at h
  · rename_i tokens _
    have hparse := parse_ne_exhausted tokens table
    cases hp : parse tokens table with
    | ok p => simp [hp, Except.mapError] at h
    | error e =>
      cases e with
      | error e => simp [hp, Except.mapError, Failure.ofHalt] at h
      | exhausted => exact hparse hp

lemma sourceOf_ne_exhausted {i : Import} {target : String} : sourceOf l.host target i ≠ .error .exhausted := by
  unfold sourceOf
  cases l.host.read target <;> simp [Except.mapError]

def VisitHalts (l : Linkage) (depth : ℕ) : Prop :=
  ∀ ⦃path text s⦄, (unmet l (path :: s.included)).length < depth → path ∉ s.included →
    l.text? path = some text → l.entry = path ∨ l.entry ∈ s.included →
      visit l.host l.table depth path text s ≠ .error .exhausted

lemma follow_halts (hvisit : VisitHalts l depth) {i : Import} (hentry : l.entry ∈ s.included)
    (hdepth : (unmet l s.included).length ≤ depth) :
    follow l.host (visit l.host l.table depth) path s i ≠ .error .exhausted := by
  intro h
  rw [follow] at h
  split_ifs at h with hmet
  rcases Lowering.except_bind_error.mp h with h | ⟨text, htext, h⟩
  · exact sourceOf_ne_exhausted h
  · have hfresh : l.host.resolve path i.path ∉ s.included := by simpa using hmet
    have hless := unmet_length_lt (sourceOf_ok htext) hfresh
    exact hvisit (by omega) hfresh (text?_of_fresh hentry hfresh htext) (.inr hentry) h

lemma followAll_halts (hvisit : VisitHalts l depth) {is : List Import}
    (himports : ∀ i ∈ is, l.Imports path (l.host.resolve path i.path)) (hentry : l.entry ∈ s.included)
    (hdepth : (unmet l s.included).length ≤ depth) :
    is.foldlM (follow l.host (visit l.host l.table depth) path) s ≠ .error .exhausted := by
  intro h
  induction is generalizing s with
  | nil => simp [pure, Except.pure] at h
  | cons i is ih =>
    obtain ⟨hi, his⟩ := List.forall_mem_cons.mp himports
    rw [List.foldlM_cons] at h
    rcases Lowering.except_bind_error.mp h with h | ⟨u, hfirst, h⟩
    · exact follow_halts hvisit hentry hdepth h
    · obtain ⟨⟨us, hus⟩, -⟩ := follow_grows (visit_grows l depth) hfirst hi hentry
      have hsub : ∀ q ∈ s.included, q ∈ u.included := fun q hq => (hus.included q).mpr (.inl hq)
      exact ih his (hsub _ hentry) (Nat.le_trans (unmet_length_le hsub) hdepth) h

lemma visit_halts (l : Linkage) (depth : ℕ) : VisitHalts l depth := by
  -- One level deeper there is one file less to meet: the one that is visited has been met.
  induction depth with
  | zero => exact fun path text s hdepth => absurd hdepth (Nat.not_lt_zero _)
  | succ depth ih =>
    intro path text s hdepth hpath htext hentry h
    rw [visit] at h
    rcases Lowering.except_bind_error.mp h with h | ⟨program, hparse, h⟩
    · exact parseText_ne_exhausted text l.table h
    · have hloads : l.Loads ⟨path, program⟩ := ⟨text, htext, hparse⟩
      rcases Lowering.except_bind_error.mp h with h | ⟨u, -, h⟩
      · exact followAll_halts ih (fun i hi => ⟨⟨path, program⟩, hloads, rfl, i, hi, rfl⟩)
          (entry_met hentry) (by simpa using Nat.lt_succ_iff.mp hdepth) h
      · simp [pure, Except.pure] at h

end Linking

/-- The units of a linked program: exactly the files that the first one reaches, each once and behind
what it imports, unless that leads back to it. -/
structure Linkage.Complete (l : Linkage) (units : List SourceUnit) : Prop where
  loads : ∀ u ∈ units, l.Loads u
  nodup : (units.map SourceUnit.path).Nodup
  mem_iff : ∀ q, q ∈ units.map SourceUnit.path ↔ l.Reaches l.entry q
  last : (units.map SourceUnit.path).getLast? = some l.entry
  ordered : ∀ a ∈ units.map SourceUnit.path, ∀ b, l.Imports a b → ¬ l.Reaches b a →
    [b, a].Sublist (units.map SourceUnit.path)

lemma Linking.Grows.units_complete {l : Linkage} {t : Linking.State} {us : List SourceUnit} {program : Program}
    (h : Linking.Grows l l.entry {} t (us ++ [⟨l.entry, program⟩])) : l.Complete t.units := by
  have hunits : t.units = us ++ [⟨l.entry, program⟩] := h.units
  have hmet : ∀ q, q ∈ t.included ↔ q ∈ t.units.map SourceUnit.path := by
    intro q
    rw [h.included, hunits]
    simp
  refine ⟨hunits ▸ h.loads, hunits ▸ h.nodup, fun q => ⟨fun hq => ?_, fun hq => ?_⟩, by simp [hunits], ?_⟩
  · obtain ⟨u, hu, rfl⟩ := List.mem_map.mp hq
    exact h.reached u (hunits ▸ hu)
  -- On the way from the first file no step leads out of the units, for all imports of a unit have been met.
  · induction hq with
    | refl => simp [hunits]
    | tail _ himports ih =>
      obtain ⟨u, hu, rfl⟩ := List.mem_map.mp ih
      exact (hmet _).mp (h.closed u (hunits ▸ hu) _ himports)
  · intro a ha b himports hback
    obtain ⟨u, hu, rfl⟩ := List.mem_map.mp ha
    rcases h.ordered u (hunits ▸ hu) b himports with hs | hs | hs
    · simp at hs
    · exact hunits ▸ hs
    · exact absurd hs hback

section Link

variable {host : SourceFiles} {table : Precedences} {path source : String}

lemma linkUnits_ne_exhausted : linkUnits host table path source ≠ .error .exhausted := by
  intro h
  have hdepth : (Linking.unmet ⟨host, table, host.canonical path, source⟩ [host.canonical path]).length <
      host.files.length + 2 := Nat.lt_add_right 1 (Nat.lt_succ_of_le (List.length_filter_le _ _))
  rcases Lowering.except_bind_error.mp h with h | ⟨t, -, h⟩
  · exact Linking.visit_halts ⟨host, table, host.canonical path, source⟩ _ hdepth (by simp) (if_pos rfl) (.inl rfl) h
  · simp [pure, Except.pure] at h

lemma linkUnits_complete {units : List SourceUnit} (h : linkUnits host table path source = .ok units) :
    (Linkage.mk host table (host.canonical path) source).Complete units := by
  obtain ⟨t, hvisit, hunits⟩ := Lowering.except_bind_ok.mp h
  obtain ⟨us, first, hgrows⟩ :=
    Linking.visit_grows ⟨host, table, host.canonical path, source⟩ _ hvisit (by simp) (if_pos rfl) (.inl rfl)
  obtain rfl := Except.ok.inj hunits
  exact hgrows.units_complete

lemma link_ok {program : Program} : link host table path source = .ok program ↔
    ∃ units, linkUnits host table path source = .ok units ∧ program = units.flatMap SourceUnit.program := by
  rw [link, Lowering.except_bind_ok]
  simp only [pure, Except.pure, Except.ok.injEq, eq_comm]

end Link

/-- Linking comes to an end, and its program is that of the units that the first file reaches. -/
theorem link_complete (host : SourceFiles) (table : Precedences) (path source : String) :
    link host table path source ≠ .error .exhausted ∧
      ∀ program, link host table path source = .ok program → ∃ units : List SourceUnit,
        program = units.flatMap SourceUnit.program ∧
          (Linkage.mk host table (host.canonical path) source).Complete units := by
  constructor
  · intro h
    rcases Lowering.except_bind_error.mp h with h | ⟨units, -, h⟩
    · exact linkUnits_ne_exhausted h
    · simp [pure, Except.pure] at h
  · intro program h
    obtain ⟨units, hunits, hprogram⟩ := link_ok.mp h
    exact ⟨units, hprogram, linkUnits_complete hunits⟩

end Keel
