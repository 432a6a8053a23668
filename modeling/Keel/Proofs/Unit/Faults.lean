import Keel.Proofs.Syntax.Shape
import Keel.Proofs.Unit.Linking
import Mathlib.Data.List.Lex

/-! When linking fails, it is by the first fault that a search through the imports meets, depth first. -/

namespace Keel

namespace Linkage

inductive Broken (l : Linkage) (path : String) : Option Import → Failure → Prop
  | unreadable {i} : l.text? path = none →
      Broken l path (some i) (.compile ⟨.importNotFound i.path (l.host.reason path), some i.position⟩)
  | unlexed {via text e} : l.text? path = some text → lex text = .error e → Broken l path via (.lex e)
  | unparsed {via text tokens e} : l.text? path = some text → lex text = .ok tokens →
      parse tokens l.table = .error (.error e) → Broken l path via (.parse e)

inductive Fault (l : Linkage) : List String → String → Option Import → List ℕ → Failure → Prop
  | here {aside path via f} : l.Broken path via f → Fault l aside path via [] f
  | imported {aside path via program n i route f} : l.Loads ⟨path, program⟩ → program.imports[n]? = some i →
      l.host.resolve path i.path ∉ path :: aside →
      Fault l (path :: aside) (l.host.resolve path i.path) (some i) route f → Fault l aside path via (n :: route) f

/-- The first of all faults: a file is looked into before the files it imports, an import is followed through before
the next one. -/
def FirstFault (l : Linkage) (aside : List String) (path : String) (via : Option Import) (f : Failure) : Prop :=
  ∃ route, l.Fault aside path via route f ∧ ∀ route' f', l.Fault aside path via route' f' → route ≤ route'

variable {l : Linkage} {aside aside' : List String} {path text : String} {via : Option Import} {route : List ℕ}
  {f g : Failure}

lemma nil_le (route : List ℕ) : [] ≤ route := not_lt.mp (List.not_lt_nil route)

lemma Broken.firstFault (h : l.Broken path via f) : l.FirstFault aside path via f :=
  ⟨[], .here h, fun route' _ _ => nil_le route'⟩

lemma broken_iff (htext : l.text? path = some text) : l.Broken path via f ↔ parseText text l.table = .error f := by
  constructor
  · rintro (hnone | ⟨htext', hlex⟩ | ⟨htext', hlex, hparse⟩)
    · cases htext.symm.trans hnone
    · obtain rfl := Option.some.inj (htext.symm.trans htext')
      simp [parseText, hlex]
    · obtain rfl := Option.some.inj (htext.symm.trans htext')
      simp [parseText, hlex, hparse, Except.mapError, Failure.ofHalt]
  · intro h
    have hhalts := Linking.parseText_ne_exhausted text l.table
    rw [h] at hhalts
    unfold parseText at h
    split at h
    · rename_i e hlex
      cases h
      exact .unlexed htext hlex
    · rename_i tokens hlex
      cases hparse : parse tokens l.table with
      | ok p =>
        rw [hparse] at h
        cases h
      | error e =>
        rw [hparse] at h
        cases h
        cases e with
        | error e => exact .unparsed htext hlex hparse
        | exhausted => exact absurd rfl hhalts

lemma Loads.not_broken {program : Program} (h : l.Loads ⟨path, program⟩) : ¬ l.Broken path via f := by
  intro hbroken
  obtain ⟨text, htext, hparse⟩ := h
  cases hparse.symm.trans ((broken_iff htext).mp hbroken)

lemma Broken.unique (h : l.Broken path via f) (h' : l.Broken path via g) : f = g := by
  cases htext : l.text? path with
  | some text =>
    have hf := (broken_iff htext).mp h
    have hg := (broken_iff htext).mp h'
    exact Except.error.inj (hf.symm.trans hg)
  | none =>
    rcases h with _ | ⟨htext', -⟩ | ⟨htext', -, -⟩
    · rcases h' with _ | ⟨htext', -⟩ | ⟨htext', -, -⟩
      · rfl
      · cases htext.symm.trans htext'
      · cases htext.symm.trans htext'
    · cases htext.symm.trans htext'
    · cases htext.symm.trans htext'

lemma Fault.unique (h : l.Fault aside path via route f) (h' : l.Fault aside path via route g) : f = g := by
  induction h with
  | here hbroken =>
    cases h' with
    | here hbroken' => exact hbroken.unique hbroken'
  | imported hloads hi _ _ ih =>
    cases h' with
    | imported hloads' hi' _ hrest' =>
      obtain rfl := hloads.unique hloads'
      obtain rfl := Option.some.inj (hi.symm.trans hi')
      exact ih hrest'

lemma FirstFault.unique (h : l.FirstFault aside path via f) (h' : l.FirstFault aside path via g) : f = g := by
  obtain ⟨route, hf, hleast⟩ := h
  obtain ⟨route', hg, hleast'⟩ := h'
  obtain rfl := le_antisymm (hleast _ _ hg) (hleast' _ _ hf)
  exact hf.unique hg

lemma Fault.reached (h : l.Fault aside path via route f) :
    ∃ q, l.Reaches path q ∧ ∀ program, ¬ l.Loads ⟨q, program⟩ := by
  induction h with
  | here hbroken => exact ⟨_, .refl, fun _ hloads => hloads.not_broken hbroken⟩
  | imported hloads hi _ _ ih =>
    obtain ⟨q, hq, hfault⟩ := ih
    exact ⟨q, hq.head ⟨_, hloads, rfl, _, List.mem_of_getElem? hi, rfl⟩, hfault⟩

end Linkage

namespace Linking

open Linkage

variable {l : Linkage} {s t : State} {us : List SourceUnit} {aside aside' : List String} {root path text : String}
  {via : Option Import} {route : List ℕ} {f : Failure} {depth : ℕ}

lemma Grows.not_fault (hgrows : Grows l root s t us) (hmem : path ∈ us.map SourceUnit.path)
    (haside : ∀ q ∈ s.included, q ∈ aside) : ¬ l.Fault aside path via route f := by
  -- no route to a fault leads through units that are complete
  intro hfault
  induction hfault with
  | here hbroken =>
    obtain ⟨u, hu, rfl⟩ := List.mem_map.mp hmem
    exact (hgrows.loads u hu).not_broken hbroken
  | imported hloads hi hfresh _ ih =>
    obtain ⟨u, hu, rfl⟩ := List.mem_map.mp hmem
    have hmet := hgrows.closed u hu _ ⟨_, hloads, rfl, _, List.mem_of_getElem? hi, rfl⟩
    rcases (hgrows.included _).mp hmet with hs | hnew
    · exact hfresh (List.mem_cons_of_mem _ (haside _ hs))
    · exact ih hnew fun q hq => List.mem_cons_of_mem _ (haside q hq)

lemma Grows.fault_aside (hgrows : Grows l root s t us) (haside : ∀ q ∈ s.included, q ∈ aside)
    (haside' : ∀ q ∈ aside', q ∈ aside ∨ q ∈ us.map SourceUnit.path) (h : l.Fault aside path via route f) :
    l.Fault aside' path via route f := by
  -- units that are complete can be set aside, too: no route to a fault leads through them
  induction h generalizing aside' with
  | here hbroken => exact .here hbroken
  | @imported aside path via program n i route f hloads hi hfresh hrest ih =>
    have hstep : ∀ q ∈ path :: aside', q ∈ path :: aside ∨ q ∈ us.map SourceUnit.path :=
      List.forall_mem_cons.mpr ⟨.inl List.mem_cons_self, fun q hq =>
        (haside' q hq).imp_left (List.mem_cons_of_mem path)⟩
    have hbefore : ∀ q ∈ s.included, q ∈ path :: aside := fun q hq => List.mem_cons_of_mem _ (haside q hq)
    refine .imported hloads hi (fun hmem => ?_) (ih hbefore hstep)
    rcases hstep _ hmem with hold | hnew
    · exact hfresh hold
    · exact hgrows.not_fault hnew hbefore hrest

lemma fault_mono (h : l.Fault aside path via route f) (hsub : ∀ q ∈ aside', q ∈ aside) :
    l.Fault aside' path via route f :=
  (Grows.refl l path ⟨[], []⟩).fault_aside nofun (fun q hq => .inl (hsub q hq)) h

def VisitFails (l : Linkage) (depth : ℕ) : Prop :=
  ∀ ⦃path text s f⦄, visit l.host l.table depth path text s = .error f → f ≠ .exhausted → path ∉ s.included →
    l.text? path = some text → l.entry = path ∨ l.entry ∈ s.included → ∀ via, l.FirstFault s.included path via f

lemma follow_fails (hvisit : VisitFails l depth) {i : Import}
    (h : follow l.host (visit l.host l.table depth) path s i = .error f) (hf : f ≠ .exhausted)
    (hentry : l.entry ∈ s.included) : l.host.resolve path i.path ∉ s.included ∧
      l.FirstFault s.included (l.host.resolve path i.path) (some i) f := by
  rw [follow] at h
  split_ifs at h with hmet
  have hfresh : l.host.resolve path i.path ∉ s.included := by simpa using hmet
  refine ⟨hfresh, ?_⟩
  rcases Lowering.except_bind_error.mp h with h | ⟨text, htext, h⟩
  · have hother : l.host.resolve path i.path ≠ l.entry := fun heq => hfresh (heq ▸ hentry)
    refine Broken.firstFault ?_
    unfold sourceOf SourceFiles.read at h
    cases hfile : l.host.files.lookup (l.host.resolve path i.path) with
    | some text =>
      rw [hfile] at h
      cases h
    | none =>
      rw [hfile] at h
      cases h
      refine .unreadable ?_
      rw [text?, if_neg hother, SourceFiles.read, hfile]
      rfl
  · exact hvisit h hf hfresh (text?_of_fresh hentry hfresh htext) (.inr hentry) (some i)

lemma Grows.firstFault (hgrows : Grows l path s t us) (hs : s.included = path :: aside) {program : Program}
    (hloads : l.Loads ⟨path, program⟩) {k : ℕ} {i : Import} (hi : program.imports[k]? = some i)
    (hmet : ∀ j < k, ∀ i', program.imports[j]? = some i' → l.host.resolve path i'.path ∈ t.included)
    (hfresh : l.host.resolve path i.path ∉ t.included)
    (h : l.FirstFault t.included (l.host.resolve path i.path) (some i) f) (via : Option Import) :
    l.FirstFault aside path via f := by
  -- the first fault that one import leads to is the first of all if the imports before it have led to complete
  -- units
  obtain ⟨route, hfault, hleast⟩ := h
  have hsub : ∀ q ∈ path :: aside, q ∈ t.included := fun q hq => (hgrows.included q).mpr (.inl (hs ▸ hq))
  refine ⟨k :: route, .imported hloads hi (fun hq => hfresh (hsub _ hq)) (fault_mono hfault hsub), ?_⟩
  intro route' f' hfault'
  cases hfault' with
  | here hbroken => exact absurd hbroken hloads.not_broken
  | @imported _ _ _ program' j i' rest _ hloads' hi' hfresh' hrest' =>
    obtain rfl := hloads.unique hloads'
    rcases lt_trichotomy j k with hlt | rfl | hlt
    -- An import before it leads to units that are complete, or to a file on the way to this one.
    · rcases (hgrows.included _).mp (hmet j hlt i' hi') with hold | hnew
      · exact absurd (hs ▸ hold) hfresh'
      · exact absurd hrest' (hgrows.not_fault hnew fun q hq => hs ▸ hq)
    · obtain rfl := Option.some.inj (hi.symm.trans hi')
      have haside : ∀ q ∈ t.included, q ∈ path :: aside ∨ q ∈ us.map SourceUnit.path := by
        intro q hq
        rw [← hs]
        exact (hgrows.included q).mp hq
      have hrest := hgrows.fault_aside (fun q hq => hs ▸ hq) haside hrest'
      exact List.cons_le_cons j (hleast _ _ hrest)
    · exact le_of_lt (List.Lex.rel hlt)

lemma followAll_fails (hvisit : VisitFails l depth) (hs : s.included = path :: aside) (hentry : l.entry ∈ s.included)
    {program : Program} (hloads : l.Loads ⟨path, program⟩) {is : List Import} {k : ℕ}
    (his : program.imports.drop k = is) (hgrows : Grows l path s t us)
    (hmet : ∀ j < k, ∀ i, program.imports[j]? = some i → l.host.resolve path i.path ∈ t.included)
    (h : is.foldlM (follow l.host (visit l.host l.table depth) path) t = .error f) (hf : f ≠ .exhausted)
    (via : Option Import) : l.FirstFault aside path via f := by
  induction is generalizing k t us with
  | nil => simp [pure, Except.pure] at h
  | cons i is ih =>
    have hi : program.imports[k]? = some i := by
      rw [← Nat.add_zero k, ← List.getElem?_drop, his]
      rfl
    have htail : program.imports.drop (k + 1) = is := by
      rw [← List.drop_drop, his]
      rfl
    have hentry' : l.entry ∈ t.included := (hgrows.included _).mpr (.inl hentry)
    rw [List.foldlM_cons] at h
    rcases Lowering.except_bind_error.mp h with h | ⟨u, hfirst, h⟩
    · obtain ⟨hfresh, hfault⟩ := follow_fails hvisit h hf hentry'
      exact hgrows.firstFault hs hloads hi hmet hfresh hfault via
    · have himports : l.Imports path (l.host.resolve path i.path) :=
        ⟨⟨path, program⟩, hloads, rfl, i, List.mem_of_getElem? hi, rfl⟩
      obtain ⟨⟨vs, hvs⟩, htarget⟩ := follow_grows (visit_grows l depth) hfirst himports hentry'
      refine ih htail (hgrows.trans hvs) (fun j hj i' hi' => ?_) h
      obtain hlt | rfl := Nat.lt_succ_iff_lt_or_eq.mp hj
      · exact (hvs.included _).mpr (.inl (hmet j hlt i' hi'))
      · obtain rfl := Option.some.inj (hi.symm.trans hi')
        exact htarget

lemma visit_fails (l : Linkage) (depth : ℕ) : VisitFails l depth := by
  induction depth with
  | zero =>
    intro path text s f h hf
    cases h
    exact absurd rfl hf
  | succ depth ih =>
    intro path text s f h hf hpath htext hentry via
    rw [visit] at h
    rcases Lowering.except_bind_error.mp h with h | ⟨program, hparse, h⟩
    · exact ((broken_iff htext).mpr h).firstFault
    · have hloads : l.Loads ⟨path, program⟩ := ⟨text, htext, hparse⟩
      rcases Lowering.except_bind_error.mp h with h | ⟨t, -, h⟩
      · exact followAll_fails ih rfl (entry_met hentry) hloads (List.drop_zero) (.refl l path _)
          (fun j hj => absurd hj (Nat.not_lt_zero j)) h hf via
      · simp [pure, Except.pure] at h

section Bounds

variable {α β : Type} {x y : Except Failure α}

def Tallies (x y : Except Failure α) : Prop := x = .error .exhausted ∨ y = .error .exhausted ∨ x = y

lemma Tallies.bind {g g' : α → Except Failure β} (h : Tallies x y) (hg : ∀ a, x = .ok a → Tallies (g a) (g' a)) :
    Tallies (x >>= g) (y >>= g') := by
  rcases h with rfl | rfl | rfl
  · exact .inl rfl
  · exact .inr (.inl rfl)
  · cases x with
    | ok a => exact hg a rfl
    | error e => exact .inr (.inr rfl)

end Bounds

/-- Other files that are found in the same places and hold the same where linking gets to. -/
structure SameReached (l : Linkage) (host : SourceFiles) : Prop where
  resolve : host.resolve = l.host.resolve
  read : ∀ q, l.Reaches l.entry q → q ≠ l.entry → host.read q = l.host.read q

variable {host : SourceFiles}

lemma followAll_tallies (hsame : SameReached l host) {visit' : String → String → State → Except Failure State}
    (hvisit : ∀ path text s, l.Reaches l.entry path → l.text? path = some text → path ∉ s.included →
      l.entry ∈ s.included → Tallies (visit l.host l.table depth path text s) (visit' path text s))
    {program : Program} (hloads : l.Loads ⟨path, program⟩) (hreached : l.Reaches l.entry path) {is : List Import}
    (his : ∀ i ∈ is, i ∈ program.imports) (hentry : l.entry ∈ s.included) :
    Tallies (is.foldlM (follow l.host (visit l.host l.table depth) path) s)
      (is.foldlM (follow host visit' path) s) := by
  induction is generalizing s with
  | nil => exact .inr (.inr rfl)
  | cons i is ih =>
    obtain ⟨hi, his⟩ := List.forall_mem_cons.mp his
    have himports : l.Imports path (l.host.resolve path i.path) := ⟨⟨path, program⟩, hloads, rfl, i, hi, rfl⟩
    rw [List.foldlM_cons, List.foldlM_cons]
    refine Tallies.bind ?_ fun t ht => ?_
    · simp only [follow, hsame.resolve]
      by_cases hmet : s.included.contains (l.host.resolve path i.path) = true
      · rw [if_pos hmet, if_pos hmet]
        exact .inr (.inr rfl)
      · rw [if_neg hmet, if_neg hmet]
        have hfresh : l.host.resolve path i.path ∉ s.included := by simpa using hmet
        have hread := hsame.read _ (hreached.tail himports) fun heq => hfresh (heq ▸ hentry)
        rw [sourceOf, sourceOf, hread]
        refine Tallies.bind (.inr (.inr rfl)) fun text htext => ?_
        exact hvisit _ _ _ (hreached.tail himports) (text?_of_fresh hentry hfresh htext) hfresh hentry
    · obtain ⟨⟨us, hgrows⟩, -⟩ := follow_grows (visit_grows l depth) ht himports hentry
      exact ih his ((hgrows.included _).mpr (.inl hentry))

lemma visit_tallies (hsame : SameReached l host) (depth depth' : ℕ) (hreached : l.Reaches l.entry path)
    (htext : l.text? path = some text) (hentry : l.entry = path ∨ l.entry ∈ s.included) :
    Tallies (visit l.host l.table depth path text s) (visit host l.table depth' path text s) := by
  induction depth generalizing depth' path text s with
  | zero => exact .inl rfl
  | succ depth ih =>
    cases depth' with
    | zero => exact .inr (.inl rfl)
    | succ depth' =>
      rw [visit, visit]
      refine Tallies.bind (.inr (.inr rfl)) fun program hparse => ?_
      refine Tallies.bind ?_ fun t _ => .inr (.inr rfl)
      exact followAll_tallies hsame (fun path text s hreached htext _ hentry => ih depth' hreached htext (.inr hentry))
        ⟨text, htext, hparse⟩ hreached (fun i hi => hi) (entry_met hentry)

end Linking

section Link

open Linking

variable {host host' : SourceFiles} {table : Precedences} {path source : String} {f : Failure}

lemma link_error : link host table path source = .error f ↔ linkUnits host table path source = .error f := by
  rw [link, Lowering.except_bind_error]
  simp [pure, Except.pure]

lemma linkUnits_fails (h : linkUnits host table path source = .error f) :
    (Linkage.mk host table (host.canonical path) source).FirstFault [] (host.canonical path) none f := by
  have hf : f ≠ .exhausted := fun heq => linkUnits_ne_exhausted (heq ▸ h)
  rcases Lowering.except_bind_error.mp h with h | ⟨t, -, h⟩
  · exact visit_fails ⟨host, table, host.canonical path, source⟩ _ h hf (by simp) (if_pos rfl) (.inl rfl) none
  · simp [pure, Except.pure] at h

lemma linkUnits_same (hsame : SameReached ⟨host, table, host.canonical path, source⟩ host')
    (hpath : host'.canonical path = host.canonical path) :
    linkUnits host' table path source = linkUnits host table path source := by
  have htallies : Tallies (linkUnits host table path source) (linkUnits host' table path source) := by
    rw [linkUnits, linkUnits, hpath]
    refine Tallies.bind ?_ fun t _ => .inr (.inr rfl)
    exact visit_tallies hsame _ _ .refl (if_pos rfl) (.inl rfl)
  rcases htallies with h | h | h
  · exact absurd h linkUnits_ne_exhausted
  · exact absurd h linkUnits_ne_exhausted
  · exact h.symm

lemma Linkage.Complete.not_fault {l : Linkage} {units : List SourceUnit} (h : l.Complete units) {via : Option Import} :
    ¬ l.FirstFault [] l.entry via f := by
  rintro ⟨route, hfault, -⟩
  obtain ⟨q, hq, hbroken⟩ := hfault.reached
  obtain ⟨u, hu, rfl⟩ := List.mem_map.mp ((h.mem_iff q).mpr hq)
  exact hbroken u.program (h.loads u hu)

end Link

/-- Linking succeeds just if all that is reached are units, fails by the first fault otherwise, and does not depend on
files that are not reached. -/
theorem link_decides (host : SourceFiles) (table : Precedences) (path source : String) :
    let l : Linkage := ⟨host, table, host.canonical path, source⟩
    ((∃ program, link host table path source = .ok program) ↔
      ∀ q, l.Reaches l.entry q → ∃ program, l.Loads ⟨q, program⟩) ∧
    (∀ f, link host table path source = .error f ↔ l.FirstFault [] l.entry none f) ∧
    ∀ host', Linking.SameReached l host' → host'.canonical path = host.canonical path →
      link host' table path source = link host table path source := by
  intro l
  have hfails : ∀ f, link host table path source = .error f → l.FirstFault [] l.entry none f := fun f h =>
    linkUnits_fails (link_error.mp h)
  refine ⟨⟨?_, fun hloads => ?_⟩, fun f => ⟨hfails f, fun hfirst => ?_⟩, fun host' hsame hpath => ?_⟩
  · rintro ⟨program, h⟩ q hq
    obtain ⟨units, hunits, -⟩ := link_ok.mp h
    have hcomplete := linkUnits_complete hunits
    obtain ⟨u, hu, rfl⟩ := List.mem_map.mp ((hcomplete.mem_iff q).mpr hq)
    exact ⟨u.program, hcomplete.loads u hu⟩
  · cases h : link host table path source with
    | ok program => exact ⟨program, rfl⟩
    | error f =>
      obtain ⟨route, hfault, -⟩ := hfails f h
      obtain ⟨q, hq, hbroken⟩ := hfault.reached
      obtain ⟨program, hprogram⟩ := hloads q hq
      exact absurd hprogram (hbroken program)
  · cases h : link host table path source with
    | ok program =>
      obtain ⟨units, hunits, -⟩ := link_ok.mp h
      exact absurd hfirst (linkUnits_complete hunits).not_fault
    | error g => rw [(hfails g h).unique hfirst]
  · rw [link, link, linkUnits_same hsame hpath]

def faultyFiles : List (String × String) := [("a", "fn f() -> void \x7b import \"gone\"; \x7d"), ("b", "\"open")]

def faultyLinkage : Linkage := ⟨.ofFiles faultyFiles, .standard, "main", "import \"a\"; import \"b\";"⟩

def faultyPaths : List String := ["main", "a", "b", "gone"]

def moreFiles : SourceFiles := .ofFiles (faultyFiles ++ [("other", "fn"), ("main", "fn")])

def missingFile : Failure := .compile ⟨.importNotFound "gone" "No such file gone", some ⟨1, 18, 17⟩⟩

lemma reaches_faulty {q : String} (h : faultyLinkage.Reaches "main" q) : q ∈ faultyPaths := by
  have hclosed : ∀ p ∈ faultyPaths, ∀ text ∈ faultyLinkage.text? p, ∀ program ∈ (parseText text .standard).toOption,
      ∀ i ∈ program.imports, faultyLinkage.host.resolve p i.path ∈ faultyPaths := by decide +kernel
  induction h with
  | refl => decide
  | tail _ himport ih =>
    obtain ⟨⟨p, program⟩, ⟨text, htext, hparse⟩, rfl, i, hi, rfl⟩ := himport
    have hprogram : (parseText text .standard).toOption = some program := by
      rw [show parseText text .standard = .ok program from hparse]
      rfl
    exact hclosed p ih text htext program hprogram i hi

theorem link_decides_nested : faultyLinkage.FirstFault [] "main" none missingFile ∧
    link faultyLinkage.host .standard "main" faultyLinkage.source = .error missingFile ∧
    Linking.SameReached faultyLinkage moreFiles ∧
    link moreFiles .standard "main" faultyLinkage.source = .error missingFile := by
  have hmain : faultyLinkage.host.canonical "main" = "main" := by decide +kernel
  have hdecides := link_decides faultyLinkage.host .standard "main" faultyLinkage.source
  rw [hmain] at hdecides
  obtain ⟨-, hfirst, hsame⟩ := hdecides
  have hlink : link faultyLinkage.host .standard "main" faultyLinkage.source = .error missingFile := by
    have hcheck : (match link faultyLinkage.host .standard "main" faultyLinkage.source with
      | .error f => decide (f = missingFile)
      | .ok _ => false) = true := by decide +kernel
    split at hcheck
    · rename_i f hf
      rw [hf, of_decide_eq_true hcheck]
    · cases hcheck
  have hreached : Linking.SameReached faultyLinkage moreFiles := by
    refine ⟨rfl, fun q hq hentry => ?_⟩
    have hread : ∀ q ∈ faultyPaths, q ≠ "main" → moreFiles.read q = faultyLinkage.host.read q := by decide +kernel
    exact hread q (reaches_faulty hq) hentry
  exact ⟨(hfirst _).mp hlink, hlink, hreached, (hsame moreFiles hreached rfl).trans hlink⟩

end Keel
