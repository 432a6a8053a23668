import Keel.CommandLine.Options
import Mathlib.Data.List.Perm.Lattice
import Mathlib.Tactic.Common
import Mathlib.Tactic.SplitIfs

/-! A command line is a list of items, and the job that it stands for does not depend on their order. -/

namespace Keel.Options

open scoped List

inductive Item where
  | emit (format : OutputFormat)
  | out (path : String)
  | optimize | tokens | ast
  | file (path : String)
  deriving DecidableEq, Repr

namespace Item

def arguments : Item → List String
  | emit .wat => ["--emit", "wat"]
  | emit .wasm => ["--emit", "wasm"]
  | out path => ["--out", path]
  | optimize => ["--optimize"]
  | tokens => ["--tokens"]
  | ast => ["--ast"]
  | file path => [path]

def Proper : Item → Prop
  | file path => path.toList.head? ≠ some '-'
  | emit _ | out _ | optimize | tokens | ast => True

instance : DecidablePred Proper
  | file _ => inferInstanceAs (Decidable (_ ≠ _))
  | emit _ | out _ | optimize | tokens | ast => .isTrue trivial

def format? : Item → Option OutputFormat
  | emit format => some format
  | out _ | optimize | tokens | ast | file _ => none

def out? : Item → Option String
  | out path => some path
  | emit _ | optimize | tokens | ast | file _ => none

def file? : Item → Option String
  | file path => some path
  | emit _ | out _ | optimize | tokens | ast => none

def apply (o : CompileJob) : Item → CompileJob
  | emit format => { o with format := format }
  | out path => { o with out := some path }
  | optimize => { o with optimize := true }
  | tokens => { o with dumpTokens := true }
  | ast => { o with dumpProgram := true }
  | file path => { o with file := path }

/-- The job that items ask for: of formats and of paths for the output the last one counts. -/
def job (file : String) (items : List Item) : CompileJob where
  file := file
  format := (items.filterMap format?).getLast?.getD .wat
  out := (items.filterMap out?).getLast?
  optimize := optimize ∈ items
  dumpTokens := tokens ∈ items
  dumpProgram := ast ∈ items

lemma arguments_ne_nil (i : Item) : i.arguments ≠ [] := by
  rcases i with (_ | _) | _ | _ | _ | _ | _ <;> simp [arguments]

lemma arguments_append_inj {i j : Item} (hi : i.Proper) (hj : j.Proper) {rest others : List String}
    (h : i.arguments ++ rest = j.arguments ++ others) : i = j ∧ rest = others := by
  rcases i with (_ | _) | _ | _ | _ | _ | _ <;> rcases j with (_ | _) | _ | _ | _ | _ | _ <;>
    simp_all [arguments, Proper]
  -- What is left is an option that is spelt like a file.
  all_goals
    obtain ⟨rfl, -⟩ := h
    exact hj (by decide)

end Item

structure Splits (args : List String) (items : List Item) : Prop where
  arguments : items.flatMap Item.arguments = args
  proper : ∀ i ∈ items, i.Proper

namespace Splits

variable {args : List String} {items others : List Item}

lemma nil : Splits [] [] := ⟨rfl, by simp⟩

lemma cons (i : Item) (hi : i.Proper) (h : Splits args items) : Splits (i.arguments ++ args) (i :: items) :=
  ⟨by rw [List.flatMap_cons, h.arguments], List.forall_mem_cons.mpr ⟨hi, h.proper⟩⟩

lemma eq_nil (h : Splits [] items) : items = [] := by
  cases items with
  | nil => rfl
  | cons i items =>
    have hempty := h.arguments
    rw [List.flatMap_cons, List.append_eq_nil_iff] at hempty
    exact absurd hempty.1 i.arguments_ne_nil

lemma unique (h : Splits args items) (h' : Splits args others) : items = others := by
  induction items generalizing args others with
  | nil =>
    obtain rfl : [] = args := h.arguments
    exact h'.eq_nil.symm
  | cons i items ih =>
    cases others with
    | nil =>
      obtain rfl : [] = args := h'.arguments
      exact h.eq_nil
    | cons j others =>
      obtain ⟨hi, hitems⟩ := List.forall_mem_cons.mp h.proper
      obtain ⟨hj, hothers⟩ := List.forall_mem_cons.mp h'.proper
      have heq := h.arguments.trans h'.arguments.symm
      rw [List.flatMap_cons, List.flatMap_cons] at heq
      obtain ⟨rfl, hrest⟩ := Item.arguments_append_inj hi hj heq
      rw [ih ⟨rfl, hitems⟩ ⟨hrest.symm, hothers⟩]

end Splits

lemma collect_option (o : CompileJob) {i : Item} (hi : i.file? = none) (hempty : "" ∉ i.arguments)
    (rest : List String) :
    collect o (i.arguments ++ rest) = collect (i.apply o) rest := by
  rcases i with (_ | _) | path | _ | _ | _ | _
  · simp [Item.arguments, Item.apply, collect]
  · simp [Item.arguments, Item.apply, collect]
  · have hpath : path ≠ "" := by
      rintro rfl
      simp [Item.arguments] at hempty
    simp [Item.arguments, Item.apply, collect, hpath]
  · simp [Item.arguments, Item.apply, collect]
  · simp [Item.arguments, Item.apply, collect]
  · simp [Item.arguments, Item.apply, collect]
  · simp [Item.file?] at hi

lemma collect_file (o : CompileJob) {path : String} (hpath : (Item.file path).Proper) (rest : List String) :
    collect o (path :: rest) =
      if o.file = "" then collect { o with file := path } rest else .error (.unexpectedArgument path) := by
  have hne : ∀ option ∈ ["--emit", "--out", "--optimize", "--tokens", "--ast"], path ≠ option := by
    rintro option hmem rfl
    have hall : ∀ option ∈ ["--emit", "--out", "--optimize", "--tokens", "--ast"], ¬ (Item.file option).Proper := by
      decide
    exact hall _ hmem hpath
  simp only [List.forall_mem_cons] at hne
  rw [collect]
  · simp [hne, show path.toList.head? ≠ some '-' from hpath]
  all_goals simp [hne]

lemma exists_splits {o r : CompileJob} {args : List String} (h : collect o args = .ok r) :
    ∃ items, Splits args items := by
  fun_induction collect o args with
  | case1 | case3 | case6 | case7 | case8 | case13 | case15 => cases h
  | case2 => exact ⟨[], .nil⟩
  | case4 o rest ih =>
    obtain ⟨items, hitems⟩ := ih h
    exact ⟨_, .cons (.emit .wat) trivial hitems⟩
  | case5 o rest _ ih =>
    obtain ⟨items, hitems⟩ := ih h
    exact ⟨_, .cons (.emit .wasm) trivial hitems⟩
  | case9 o path rest _ ih =>
    obtain ⟨items, hitems⟩ := ih h
    exact ⟨_, .cons (.out path) trivial hitems⟩
  | case10 o rest _ _ _ _ ih =>
    obtain ⟨items, hitems⟩ := ih h
    exact ⟨_, .cons .optimize trivial hitems⟩
  | case11 o rest _ _ _ _ _ ih =>
    obtain ⟨items, hitems⟩ := ih h
    exact ⟨_, .cons .tokens trivial hitems⟩
  | case12 o rest _ _ _ _ _ _ ih =>
    obtain ⟨items, hitems⟩ := ih h
    exact ⟨_, .cons .ast trivial hitems⟩
  | case14 o path rest _ _ _ _ _ _ _ hfile _ ih =>
    obtain ⟨items, hitems⟩ := ih h
    exact ⟨_, .cons (.file path) hfile hitems⟩

def Named (o : CompileJob) (items : List Item) : Prop :=
  if o.file = "" then ∃ path, items.filterMap Item.file? = [path] else items.filterMap Item.file? = []

lemma named_option (o : CompileJob) {i : Item} (hi : i.file? = none) (items : List Item) :
    Named o (i :: items) ↔ Named (i.apply o) items := by
  have hfile : (i.apply o).file = o.file := by
    cases i with
    | file path => cases hi
    | _ => rfl
  rw [Named, Named, hfile, List.filterMap_cons_none hi]

lemma collect_run (o r : CompileJob) {items : List Item} (hproper : ∀ i ∈ items, i.Proper)
    (hempty : "" ∉ items.flatMap Item.arguments) :
    collect o (items.flatMap Item.arguments) = .ok r ↔ Named o items ∧ r = items.foldl Item.apply o := by
  induction items generalizing o with
  | nil =>
    simp only [List.flatMap_nil, collect, Named, List.filterMap_nil, List.foldl_nil]
    split_ifs
    · simp
    · simp [eq_comm]
  | cons i items ih =>
    obtain ⟨hi, hitems⟩ := List.forall_mem_cons.mp hproper
    rw [List.flatMap_cons, List.mem_append, not_or] at hempty
    rw [List.flatMap_cons, List.foldl_cons]
    cases hfile : i.file? with
    | none => rw [collect_option o hfile hempty.1, named_option o hfile, ih (i.apply o) hitems hempty.2]
    | some path =>
      obtain rfl : i = .file path := by
        cases i with
        | file name => exact congrArg Item.file (Option.some.inj hfile)
        | _ => cases hfile
      have hpath : path ≠ "" := fun h => hempty.1 (List.mem_singleton.mpr h.symm)
      have hstep := collect_file o hi (items.flatMap Item.arguments)
      rw [show (Item.file path).arguments ++ items.flatMap Item.arguments =
        path :: items.flatMap Item.arguments from rfl, hstep]
      by_cases ho : o.file = ""
      · rw [if_pos ho, ih _ hitems hempty.2]
        simp [Named, ho, hpath, Item.file?, Item.apply]
      · simp [Named, ho, Item.file?]

lemma foldl_apply (o : CompileJob) (items : List Item) : items.foldl Item.apply o =
    { file := (items.filterMap Item.file?).getLast?.getD o.file
      format := (items.filterMap Item.format?).getLast?.getD o.format
      out := (items.filterMap Item.out?).getLast?.or o.out
      optimize := o.optimize || decide (.optimize ∈ items)
      dumpTokens := o.dumpTokens || decide (.tokens ∈ items)
      dumpProgram := o.dumpProgram || decide (.ast ∈ items) } := by
  induction items generalizing o with
  | nil => simp
  | cons i items ih =>
    rw [List.foldl_cons, ih]
    cases i <;> simp [Item.apply, Item.file?, Item.format?, Item.out?, List.getLast?_cons]

lemma foldl_job {file : String} {items : List Item} (h : items.filterMap Item.file? = [file]) :
    items.foldl Item.apply ⟨"", .wat, none, false, false, false⟩ = Item.job file items := by
  simp [foldl_apply, Item.job, h]

section Parse

variable {args others : List String} {items reordered : List Item}

lemma parse_eq (hhelp : "--help" ∉ args) (hshort : "-h" ∉ args) :
    parse args = (collect ⟨"", .wat, none, false, false, false⟩ args).map .compile := by
  simp [parse, hhelp, hshort]

lemma parse_splits (hempty : "" ∉ args) (hhelp : "--help" ∉ args) (hshort : "-h" ∉ args) (h : Splits args items)
    (o : Options) : parse args = .ok o ↔
      ∃ file, items.filterMap Item.file? = [file] ∧ o = .compile (Item.job file items) := by
  have hrun (r : CompileJob) := collect_run ⟨"", .wat, none, false, false, false⟩ r h.proper (h.arguments.symm ▸ hempty)
  rw [h.arguments] at hrun
  rw [parse_eq hhelp hshort]
  constructor
  · intro ho
    cases hcollect : collect ⟨"", .wat, none, false, false, false⟩ args with
    | error e =>
      rw [hcollect] at ho
      cases ho
    | ok r =>
      rw [hcollect] at ho
      cases ho
      obtain ⟨⟨file, hfile⟩, rfl⟩ := (hrun r).mp hcollect
      exact ⟨file, hfile, by rw [foldl_job hfile]⟩
  · rintro ⟨file, hfile, rfl⟩
    rw [(hrun _).mpr ⟨⟨file, hfile⟩, (foldl_job hfile).symm⟩]
    rfl

lemma Splits.mem_iff (h : Splits args items) (h' : Splits others reordered) (hperm : reordered ~ items) (arg : String) :
    arg ∈ others ↔ arg ∈ args := by
  rw [← h.arguments, ← h'.arguments]
  exact (hperm.flatMap_right _).mem_iff

lemma job_reordered (hperm : reordered ~ items)
    (hformats : reordered.filterMap Item.format? = items.filterMap Item.format?)
    (houts : reordered.filterMap Item.out? = items.filterMap Item.out?) (file : String) :
    Item.job file reordered = Item.job file items := by
  simp [Item.job, hformats, houts, hperm.mem_iff]

/-- A command line is accepted if it is made of items among which there is one file; there is one way at most to
take it apart. The items in another order are the same job as long as formats, and paths for the output, stay
in order. -/
theorem parse_decides (hempty : "" ∉ args) (hhelp : "--help" ∉ args) (hshort : "-h" ∉ args) :
    (∀ o, parse args = .ok o ↔ ∃ items file, Splits args items ∧ items.filterMap Item.file? = [file] ∧
        o = .compile (Item.job file items)) ∧
      (∀ items items', Splits args items → Splits args items' → items = items') ∧
      ∀ items reordered others, Splits args items → Splits others reordered → reordered ~ items →
        reordered.filterMap Item.format? = items.filterMap Item.format? →
        reordered.filterMap Item.out? = items.filterMap Item.out? →
        ∀ o, parse others = .ok o ↔ parse args = .ok o := by
  refine ⟨fun o => ⟨fun ho => ?_, ?_⟩, fun _ _ h h' => h.unique h', ?_⟩
  · have hcollect := ho
    rw [parse_eq hhelp hshort] at hcollect
    cases hr : collect ⟨"", .wat, none, false, false, false⟩ args with
    | error e =>
      rw [hr] at hcollect
      cases hcollect
    | ok r =>
      obtain ⟨items, hitems⟩ := exists_splits hr
      obtain ⟨file, hfile, hjob⟩ := (parse_splits hempty hhelp hshort hitems o).mp ho
      exact ⟨items, file, hitems, hfile, hjob⟩
  · rintro ⟨items, file, hitems, hfile, hjob⟩
    exact (parse_splits hempty hhelp hshort hitems o).mpr ⟨file, hfile, hjob⟩
  · intro items reordered others h h' hperm hformats houts o
    have hmem := h.mem_iff h' hperm
    have hfiles (file : String) : reordered.filterMap Item.file? = [file] ↔ items.filterMap Item.file? = [file] := by
      rw [← List.perm_singleton, ← List.perm_singleton]
      exact ⟨(hperm.filterMap _).symm.trans, (hperm.filterMap _).trans⟩
    rw [parse_splits hempty hhelp hshort h, parse_splits (mt (hmem _).mp hempty) (mt (hmem _).mp hhelp)
      (mt (hmem _).mp hshort) h']
    simp only [hfiles, job_reordered hperm hformats houts]

def mixedArguments : List String := ["--emit", "wasm", "a.keel", "--out", "--ast", "--tokens", "--emit", "wat"]

theorem parse_decides_mixed : "" ∉ mixedArguments ∧ "--help" ∉ mixedArguments ∧ "-h" ∉ mixedArguments ∧
    parse mixedArguments = .ok (.compile ⟨"a.keel", .wat, some "--ast", false, true, false⟩) ∧
    parse ["--out", "--ast", "--emit", "wasm", "--tokens", "--emit", "wat", "a.keel"] = parse mixedArguments := by
  obtain ⟨hempty, hhelp, hshort⟩ : "" ∉ mixedArguments ∧ "--help" ∉ mixedArguments ∧ "-h" ∉ mixedArguments := by decide
  obtain ⟨haccepts, -, hreorder⟩ := parse_decides hempty hhelp hshort
  have hitems : Splits mixedArguments [.emit .wasm, .file "a.keel", .out "--ast", .tokens, .emit .wat] :=
    ⟨rfl, by decide⟩
  have hok := (haccepts _).mpr ⟨_, "a.keel", hitems, rfl, rfl⟩
  refine ⟨hempty, hhelp, hshort, hok, ?_⟩
  rw [hok]
  exact (hreorder _ [.out "--ast", .emit .wasm, .tokens, .emit .wat, .file "a.keel"] _ hitems ⟨rfl, by decide⟩
    (by decide) rfl rfl _).mpr hok

end Parse

end Keel.Options
