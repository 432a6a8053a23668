import Keel.Proofs.Syntax.Completeness
import Keel.Proofs.Syntax.Powers
import Mathlib.Data.List.TakeWhile

/-! Climbing groups operands in the one way that the powers of the operators between them call for. -/

namespace Keel

open Precedences (Whole HasPower)

/-- Operands and the operators that join them, in the order in which they are joined. -/
inductive Grouping where
  | operand (e : Expr)
  | node (lhs : Grouping) (op : String) (rhs : Grouping)

namespace Grouping

def top? : Grouping → Option String
  | operand _ => none
  | node _ op _ => some op

def first : Grouping → Expr
  | operand e => e
  | node lhs _ _ => lhs.first

def rest : Grouping → List (String × Expr)
  | operand _ => []
  | node lhs op rhs => lhs.rest ++ (op, rhs.first) :: rhs.rest

def expr : Grouping → Expr
  | operand e => e
  | node lhs op rhs => .binary lhs.expr.position op lhs.expr rhs.expr

def Ordered (table : Precedences) : Grouping → Prop
  | operand _ => True
  | node lhs op rhs => lhs.Ordered table ∧ rhs.Ordered table ∧
      (∀ o, lhs.top? = some o → (table.level op).le (table.level o) = true) ∧
      ∀ o, rhs.top? = some o → (table.level op).lt (table.level o) = true

/-- The operands stand in the grouping in their order and are grouped as the powers call for. -/
structure Groups (table : Precedences) (e : Expr) (items : List (String × Expr)) (g : Grouping) : Prop where
  first : g.first = e
  rest : g.rest = items
  ordered : g.Ordered table

def Powered (table : Precedences) (items : List (String × Expr)) : Prop :=
  ∀ item ∈ items, ∃ n, table.HasPower item.1 n

variable {table : Precedences} {op o : String} {n k : ℤ} {g h l r : Grouping}

lemma level_le (hn : table.HasPower op n) (hk : table.HasPower o k) :
    (table.level op).le (table.level o) = true ↔ n ≤ k := by
  rw [hn.level, hk.level, Floating.ofInt_le hn.exact hk.exact, decide_eq_true_eq]

lemma level_lt (hn : table.HasPower op n) (hk : table.HasPower o k) :
    (table.level op).lt (table.level o) = true ↔ n < k := by
  rw [hn.level, hk.level, Floating.ofInt_lt hn.exact hk.exact, decide_eq_true_eq]

lemma exists_top (h : g.rest ≠ []) : ∃ op e, g.top? = some op ∧ (op, e) ∈ g.rest := by
  cases g with
  | operand e => exact absurd rfl h
  | node l op r => exact ⟨op, r.first, rfl, List.mem_append_right _ (List.mem_cons_self ..)⟩

lemma top_mem (h : g.top? = some op) : ∃ e, (op, e) ∈ g.rest := by
  cases g with
  | operand e => cases h
  | node l op r =>
    cases h
    exact ⟨r.first, List.mem_append_right _ (List.mem_cons_self ..)⟩

lemma powered_node (h : Powered table (node l op r).rest) :
    Powered table l.rest ∧ (∃ n, table.HasPower op n) ∧ Powered table r.rest := by
  obtain ⟨hl, hr⟩ := List.forall_mem_append.mp h
  exact ⟨hl, (List.forall_mem_cons.mp hr).1, (List.forall_mem_cons.mp hr).2⟩

lemma Ordered.top_le (hg : g.Ordered table) (hp : Powered table g.rest) (htop : g.top? = some op)
    (hn : table.HasPower op n) {item : String × Expr} (hitem : item ∈ g.rest) (hk : table.HasPower item.1 k) :
    n ≤ k := by
  induction g generalizing op n with
  | operand e => cases hitem
  | node l op r ihl ihr =>
    cases htop
    obtain ⟨hl, hr, hle, hlt⟩ := hg
    obtain ⟨hpl, -, hpr⟩ := powered_node hp
    rcases List.mem_append.mp hitem with hitem | hitem
    · obtain ⟨o, e, ho, hmem⟩ := exists_top (List.ne_nil_of_mem hitem)
      obtain ⟨m, hm⟩ := hpl _ hmem
      exact ((level_le hn hm).mp (hle o ho)).trans (ihl hl hpl ho hm hitem)
    rcases List.mem_cons.mp hitem with rfl | hitem
    · exact (hn.unique hk).le
    · obtain ⟨o, e, ho, hmem⟩ := exists_top (List.ne_nil_of_mem hitem)
      obtain ⟨m, hm⟩ := hpr _ hmem
      exact ((level_lt hn hm).mp (hlt o ho)).le.trans (ihr hr hpr ho hm hitem)

section Node

variable (hg : (node l op r).Ordered table) (hp : Powered table (node l op r).rest)
include hg hp

lemma Ordered.left_le (hn : table.HasPower op n) {item : String × Expr} (hitem : item ∈ l.rest)
    (hk : table.HasPower item.1 k) : n ≤ k :=
  hg.top_le hp rfl hn (List.mem_append_left _ hitem) hk

lemma Ordered.right_lt (hn : table.HasPower op n) {item : String × Expr} (hitem : item ∈ r.rest)
    (hk : table.HasPower item.1 k) : n < k := by
  obtain ⟨-, -, hpr⟩ := powered_node hp
  obtain ⟨o, e, ho, hmem⟩ := exists_top (List.ne_nil_of_mem hitem)
  obtain ⟨m, hm⟩ := hpr _ hmem
  exact ((level_lt hn hm).mp (hg.2.2.2 o ho)).trans_le (hg.2.1.top_le hpr ho hm hitem hk)

lemma Ordered.no_later {l' r' : Grouping} {op' : String} {between : List (String × Expr)}
    (hg' : (node l' op' r').Ordered table) (hp' : Powered table (node l' op' r').rest)
    (hl : l'.rest = l.rest ++ between)
    (hr : (op, r.first) :: r.rest = between ++ (op', r'.first) :: r'.rest) : between = [] := by
  -- of the weakest operators the last one is the top, so that a grouping cannot be parted further to the right
  cases between with
  | nil => rfl
  | cons item between =>
    obtain ⟨rfl, hbetween⟩ : (op, r.first) = item ∧ r.rest = between ++ (op', r'.first) :: r'.rest := List.cons.inj hr
    obtain ⟨-, ⟨n, hn⟩, -⟩ := powered_node hp
    obtain ⟨-, ⟨k, hk⟩, -⟩ := powered_node hp'
    have hmem : (op, r.first) ∈ l'.rest := by simp [hl]
    have hmem' : (op', r'.first) ∈ r.rest := by simp [hbetween]
    have hle : k ≤ n := hg'.left_le hp' hk hmem hn
    have hlt : n < k := hg.right_lt hp hn hmem' hk
    omega

end Node

lemma Ordered.unique (hg : g.Ordered table) (hh : h.Ordered table) (hp : Powered table g.rest)
    (hfirst : h.first = g.first) (hrest : h.rest = g.rest) : h = g := by
  induction g generalizing h with
  | operand e =>
    cases h with
    | operand e' => exact congrArg operand hfirst
    | node l op r => simp [rest] at hrest
  | node l op r ihl ihr =>
    cases h with
    | operand e' => simp [rest] at hrest
    | node l' op' r' =>
      have hp' : Powered table (node l' op' r').rest := hrest ▸ hp
      obtain ⟨hpl, -, hpr⟩ := powered_node hp
      obtain ⟨hl, hr⟩ : l'.rest = l.rest ∧ (op', r'.first) :: r'.rest = (op, r.first) :: r.rest := by
        rcases List.append_eq_append_iff.mp hrest with ⟨between, hl, hr⟩ | ⟨between, hl, hr⟩
        · obtain rfl := hh.no_later hp' hg hp hl hr
          exact ⟨by simpa using hl.symm, hr⟩
        · obtain rfl := hg.no_later hp hh hp' hl hr
          exact ⟨by simpa using hl, hr.symm⟩
      obtain ⟨hitem, hafter⟩ := List.cons.inj hr
      obtain ⟨rfl, hfirst'⟩ := Prod.mk.inj hitem
      rw [ihl hg.1 hh.1 hpl hfirst hl, ihr hg.2.1 hh.2.1 hpr hfirst' hafter]

end Grouping

namespace Precedences

def tight (table : Precedences) (op : String) : Bool :=
  (table.level op).isPositive && comparisonSymbols.all fun c => (table.level c).lt (table.level op)

variable {table : Precedences} {op : String} {n : ℤ}

lemma Whole.ceiling_lt_iff (ht : table.Whole) {c : ℤ} (hc : table.ceiling = .ofInt c) (hexact : Floating.ExactInt c)
    (hn : table.HasPower op n) : c < n ↔ table.tight op = true := by
  obtain ⟨d, hd, hd', hceiling, hle, hattained⟩ := ht.ceiling
  obtain rfl : d = c := ofInt_inj (exactInt_of_bounds hd hd') hexact (hceiling.symm.trans hc)
  have hpositive : (table.level op).isPositive = true := by
    rw [hn.level]
    exact hn.isPositive
  have hcompare : ∀ c, (table.level c).lt (table.level op) = true ↔ (table.level c).toRat < n := by
    intro c
    obtain ⟨-, -, hfinite, -⟩ := ht.level_toRat c
    rw [hn.level, Floating.lt_iff hfinite (Floating.ofInt_finite hn.exact), Floating.toRat_ofInt hn.exact]
  simp only [tight, hpositive, Bool.true_and, List.all_eq_true, hcompare]
  constructor
  · intro hlt c hc
    exact (hle c hc).trans_lt (by exact_mod_cast hlt)
  · intro hall
    obtain rfl | ⟨c, hc, hlevel⟩ := hattained
    · exact hn.2.1
    · have hlt := hall c hc
      rw [hlevel, Floating.toRat_ofInt hexact] at hlt
      exact_mod_cast hlt

end Precedences

namespace Parser

open TokenStream Grouping

def ReadsPrimary (table : Precedences) (result context : ValueType) (e : Expr) (s t : TokenStream) : Prop :=
  ∃ depth, Parser.primary table depth result context s = .ok e t

/-- Operators of some power and primaries in turn. -/
inductive Alternates (table : Precedences) (result context : ValueType) :
    List (String × Expr) → TokenStream → TokenStream → Prop
  | nil {s} : Alternates table result context [] s s
  | cons {items s t u e} : (table.binding? s.head.lexeme).isSome → ReadsPrimary table result context e s.next t →
      Alternates table result context items t u →
      Alternates table result context ((s.head.lexeme, e) :: items) s u

structure Climbed (table : Precedences) (result context : ValueType) (n : ℤ) (s t : TokenStream) (g : Grouping)
    (taken left : List (String × Expr)) (u : TokenStream) (g' : Grouping) : Prop where
  takes : Alternates table result context taken s u
  leaves : Alternates table result context left u t
  strong : ∀ item ∈ taken, ∀ k, table.HasPower item.1 k → n ≤ k
  weak : ∀ k, table.HasPower u.head.lexeme k → k < n
  groups : g'.Groups table g.first (g.rest ++ taken)
  derives : Derives table (.climb result context (.ofInt n) g.expr g'.expr) s u

variable {table : Precedences} {result context : ValueType} {items : List (String × Expr)} {s t u : TokenStream}
  {e : Expr} {n : ℤ} {g : Grouping}

lemma ReadsPrimary.derives (h : ReadsPrimary table result context e s t) :
    Derives table (.primary result context e) s t := by
  obtain ⟨depth, h⟩ := h
  exact (sound depth).primary h

lemma right_of_climb (ht : table.Whole) {op : String} {first : Expr} (hn : table.HasPower op n)
    (h : Derives table (.climb result context (.ofInt (n + 1)) first e) s t) :
    Derives table (.right result context (.ofInt n) first e) s t := by
  -- to climb above a power is the same as to look first whether there is anything to climb
  cases htight : (Floating.ofInt n : Double).lt (table.power s.head.lexeme) with
  | true =>
    obtain ⟨other, hother, hlt⟩ := Precedences.binding?_of_lt_power (Precedences.notNegative_binding? hn.1) htight
    refine .rightTighter hother hlt ?_
    rwa [Precedences.above_ofInt hn.2.1.le hn.2.2]
  | false =>
    cases h with
    | climbEnd _ => exact .rightPlain htight
    | climbStep hpower hleast _ _ _ =>
      exfalso
      rw [Precedences.power_of_binding? hpower] at htight
      obtain ⟨k, rfl, hk⟩ := ht.hasPower hpower
      rw [Floating.ofInt_lt hn.exact hk.exact, decide_eq_false_iff_not] at htight
      rw [Floating.ofInt_lt hk.exact (Precedences.exactInt_succ hn.2.1.le hn.2.2), decide_eq_false_iff_not] at hleast
      omega

lemma Alternates.head_lexeme {op : String} (h : Alternates table result context ((op, e) :: items) s t) :
    s.head.lexeme = op := by
  generalize heq : (op, e) :: items = all at h
  cases h with
  | nil => cases heq
  | cons _ _ _ => exact (Prod.mk.inj (List.cons.inj heq).1).1.symm

lemma Alternates.append {before : List (String × Expr)} (h : Alternates table result context before s t)
    (h' : Alternates table result context items t u) : Alternates table result context (before ++ items) s u := by
  induction h with
  | nil => exact h'
  | cons hop he _ ih => exact .cons hop he (ih h')

section Whole

variable (ht : table.Whole)
include ht

lemma Alternates.powered (h : Alternates table result context items s t) : Powered table items := by
  induction h with
  | nil => exact fun _ h => nomatch h
  | cons hop _ _ ih =>
    obtain ⟨power, hpower⟩ := Option.isSome_iff_exists.mp hop
    obtain ⟨n, -, hn⟩ := ht.hasPower hpower
    exact List.forall_mem_cons.mpr ⟨⟨n, hn⟩, ih⟩

lemma climbed_nothing (h : Alternates table result context items s t) (hn : Floating.ExactInt n) (hn' : 0 ≤ n)
    (hg : g.Ordered table) (hweak : ∀ k, table.HasPower s.head.lexeme k → k < n) :
    Climbed table result context n s t g [] items s g where
  takes := .nil
  leaves := h
  strong := fun _ h => nomatch h
  weak := hweak
  groups := ⟨rfl, (List.append_nil _).symm, hg⟩
  derives := .climbEnd (ht.stops_ofInt hn hn' hweak)

lemma Climbed.step {p : ℤ} {v w x : TokenStream} {taken more left : List (String × Expr)} {r g' : Grouping}
    (hop : table.HasPower s.head.lexeme p) (he : ReadsPrimary table result context e s.next v)
    (hn : Floating.ExactInt n) (hnp : n ≤ p)
    (hr : Climbed table result context (p + 1) v t (.operand e) taken (more ++ left) w r)
    (hg : Climbed table result context n w t (.node g s.head.lexeme r) more left x g') :
    Climbed table result context n s t g ((s.head.lexeme, e) :: (taken ++ more)) left x g' where
  takes := .cons (hop.1 ▸ rfl) he (hr.takes.append hg.takes)
  leaves := hg.leaves
  strong := by
    refine List.forall_mem_cons.mpr ⟨fun k hk => hk.unique hop ▸ hnp, fun item hitem k hk => ?_⟩
    rcases List.mem_append.mp hitem with hitem | hitem
    · have := hr.strong item hitem k hk
      omega
    · exact hg.strong item hitem k hk
  weak := hg.weak
  groups := by
    refine ⟨hg.groups.first, ?_, hg.groups.ordered⟩
    rw [hg.groups.rest, Grouping.rest, hr.groups.rest, hr.groups.first, Grouping.rest, Grouping.first]
    simp
  derives := by
    have hleast : (Floating.ofInt p : Double).lt (.ofInt n) = false := by
      rw [Floating.ofInt_lt hop.exact hn]
      exact decide_eq_false (not_lt.mpr hnp)
    exact .climbStep hop.1 hleast he.derives (right_of_climb ht hop hr.derives) hg.derives

lemma Alternates.climb (h : Alternates table result context items s t) (hend : table.binding? t.head.lexeme = none)
    (hn : Floating.ExactInt n) (hn' : 0 ≤ n) (hg : g.Ordered table) (hp : Powered table g.rest)
    (hnext : ∀ op p k, g.top? = some op → table.HasPower op p → table.HasPower s.head.lexeme k → k ≤ p) :
    ∃ taken left u g', items = taken ++ left ∧ Climbed table result context n s t g taken left u g' := by
  induction hcount : items.length using Nat.strong_induction_on generalizing items s n g with
  | _ count ih =>
    cases h with
    | nil =>
      have hweak : ∀ k, table.HasPower t.head.lexeme k → k < n := by
        intro k hk
        simp [hk.1] at hend
      exact ⟨[], [], t, g, rfl, climbed_nothing ht .nil hn hn' hg hweak⟩
    | @cons items _ v _ e hop he hitems =>
      obtain ⟨⟨p, hop'⟩, hrest⟩ := List.forall_mem_cons.mp ((Alternates.cons hop he hitems).powered ht)
      by_cases hpn : p < n
      · have hweak : ∀ k, table.HasPower s.head.lexeme k → k < n := fun k hk => hk.unique hop' ▸ hpn
        exact ⟨[], _, s, g, rfl, climbed_nothing ht (.cons hop he hitems) hn hn' hg hweak⟩
      -- what climbs above the operator is its right operand
      obtain ⟨taken, left, w, r, rfl, hr⟩ := ih _ (by simp [← hcount]) hitems
        (Precedences.exactInt_succ hop'.2.1.le hop'.2.2) (by have := hop'.2.1; omega) (g := .operand e) trivial
        (fun _ h => nomatch h) (fun _ _ _ h => nomatch h) rfl
      have hrest' : r.rest = taken := hr.groups.rest
      have hordered : (node g s.head.lexeme r).Ordered table := by
        refine ⟨hg, hr.groups.ordered, fun o ho => ?_, fun o ho => ?_⟩
        · obtain ⟨e', hmem⟩ := top_mem ho
          obtain ⟨q, hq⟩ := hp _ hmem
          exact (level_le hop' hq).mpr (hnext o q p ho hq hop')
        · obtain ⟨e', hmem⟩ := top_mem ho
          rw [hrest'] at hmem
          obtain ⟨q, hq⟩ := hrest _ (List.mem_append_left _ hmem)
          have := hr.strong _ hmem q hq
          exact (level_lt hop' hq).mpr (by omega)
      have hpowered : Powered table (node g s.head.lexeme r).rest := by
        refine List.forall_mem_append.mpr ⟨hp, List.forall_mem_cons.mpr ⟨⟨p, hop'⟩, ?_⟩⟩
        exact hrest' ▸ fun item hitem => hrest item (List.mem_append_left _ hitem)
      -- and what is left is joined to both
      have hshorter : left.length < count := by
        rw [← hcount, List.length_cons, List.length_append]
        omega
      obtain ⟨more, left, x, g', rfl, hg'⟩ := ih left.length hshorter hr.leaves hn hn' hordered hpowered
        (fun op q k ho hq hk => by
          cases ho
          have := hr.weak k hk
          have := hq.unique hop'
          omega) rfl
      exact ⟨_, left, x, g', by simp, Climbed.step ht hop' he hn (not_lt.mp hpn) hr hg'⟩

lemma Alternates.groups (h : Alternates table result context items s t) (hend : table.binding? t.head.lexeme = none)
    (hn : Floating.ExactInt n) (hn' : 0 ≤ n) (first : Expr) (strong : String → Bool)
    (hstrong : ∀ op k, table.HasPower op k → (n ≤ k ↔ strong op = true)) :
    ∃ g v, (∀ h : Grouping, h.Groups table first (items.takeWhile fun item => strong item.1) ↔ h = g) ∧
      Alternates table result context (items.takeWhile fun item => strong item.1) s v ∧
      Alternates table result context (items.dropWhile fun item => strong item.1) v t ∧
      Derives table (.climb result context (.ofInt n) first g.expr) s v := by
  -- behind a primary the climb takes the operands up to the first operator that is too weak, and groups them in the
  -- one way that is right
  have hpowered := h.powered ht
  obtain ⟨taken, left, v, g, rfl, hclimb⟩ := h.climb ht hend hn hn' (g := .operand first) trivial (fun _ h => nomatch h)
    (fun _ _ _ h => nomatch h)
  have htaken : ∀ item ∈ taken, strong item.1 = true := by
    intro item hitem
    obtain ⟨k, hk⟩ := hpowered item (List.mem_append_left _ hitem)
    exact (hstrong _ k hk).mp (hclimb.strong item hitem k hk)
  have hleft : left.takeWhile (fun item => strong item.1) = [] ∧ left.dropWhile (fun item => strong item.1) = left := by
    cases hclimb.leaves with
    | nil => exact ⟨rfl, rfl⟩
    | cons hop he hitems =>
      obtain ⟨k, hk⟩ := hpowered _ (List.mem_append_right _ (List.mem_cons_self ..))
      have hweak : ¬strong v.head.lexeme = true := fun htrue =>
        absurd ((hstrong _ k hk).mpr htrue) (not_le.mpr (hclimb.weak k hk))
      exact ⟨List.takeWhile_cons_of_neg hweak, List.dropWhile_cons_of_neg hweak⟩
  rw [List.takeWhile_append_of_pos htaken, List.dropWhile_append_of_pos htaken, hleft.1, hleft.2, List.append_nil]
  have hgroups : g.Groups table first taken := hclimb.groups
  refine ⟨g, v, fun h => ⟨fun hh => ?_, fun hh => hh ▸ hgroups⟩, hclimb.takes, hclimb.leaves, hclimb.derives⟩
  have hp : Powered table g.rest := hgroups.rest ▸ fun item hitem => hpowered item (List.mem_append_left _ hitem)
  exact hgroups.ordered.unique hh.ordered hp (hh.first.trans hgroups.first.symm) (hh.rest.trans hgroups.rest.symm)

end Whole

/-- Operators and primaries in turn are grouped in the only way that the powers of the operators call for. An operand of
a comparison ends at the first operator that does not bind tighter than every comparison. -/
theorem expression_groups {first : Expr} (ht : table.Whole) (hfirst : ReadsPrimary table result context first s t)
    (hitems : Alternates table result context items t u) (hend : table.binding? u.head.lexeme = none) :
    (∃ g : Grouping, (∀ h : Grouping, h.Groups table first items ↔ h = g) ∧
      ∀ depth, 8 * s.rest.length + 3 ≤ depth → Parser.expression table depth result context s = .ok g.expr u) ∧
    ∃ (g : Grouping) (v : TokenStream),
      (∀ h : Grouping, h.Groups table first (items.takeWhile fun item => table.tight item.1) ↔ h = g) ∧
      Alternates table result context (items.takeWhile fun item => table.tight item.1) t v ∧
      Alternates table result context (items.dropWhile fun item => table.tight item.1) v u ∧
      ∀ depth, 8 * s.rest.length + 3 ≤ depth → Parser.operand table depth result context s = .ok g.expr v := by
  refine ⟨?_, ?_⟩
  · have hpositive : ∀ op k, table.HasPower op k → ((0 : ℤ) ≤ k ↔ true = true) := fun op k hk => by
      simp [hk.2.1.le]
    obtain ⟨g, v, hunique, htakes, hleaves, hclimb⟩ := hitems.groups ht hend
      (Precedences.exactInt_of_bounds le_rfl (by norm_num)) le_rfl first (fun _ => true) hpositive
    rw [List.takeWhile_eq_self_iff.mpr fun _ _ => rfl] at hunique
    rw [List.dropWhile_eq_nil_iff.mpr fun _ _ => rfl] at hleaves
    cases hleaves
    rw [Floating.ofInt_zero] at hclimb
    exact ⟨g, hunique, fun depth hdepth => (Derives.expression hfirst.derives hclimb).read hdepth⟩
  · obtain ⟨c, hc, hc', hceiling, -⟩ := ht.ceiling
    have habove : Precedences.above table.ceiling = .ofInt (c + 1) := by
      rw [hceiling, Precedences.above_ofInt hc hc']
    obtain ⟨g, v, hunique, htakes, hleaves, hclimb⟩ := hitems.groups ht hend
      (Precedences.exactInt_succ hc hc') (by omega) first table.tight fun op k hk =>
        Int.add_one_le_iff.trans (ht.ceiling_lt_iff hceiling (Precedences.exactInt_of_bounds hc hc') hk)
    rw [← habove] at hclimb
    exact ⟨g, v, hunique, htakes, hleaves, fun depth hdepth => (Derives.operand hfirst.derives hclimb).read hdepth⟩

lemma Derives.readsPrimary (h : Derives table (.primary result context e) s t) :
    ReadsPrimary table result context e s t :=
  ⟨_, h.read le_rfl⟩

def comparedTokens : TokenStream :=
  .ofTokens [⟨.int (.ofInt 9), "9", ⟨1, 1, 0⟩⟩, ⟨.operator "-", "-", ⟨1, 2, 1⟩⟩, ⟨.identifier "n", "n", ⟨1, 3, 2⟩⟩,
    ⟨.operator "*", "*", ⟨1, 4, 3⟩⟩, ⟨.identifier "k", "k", ⟨1, 5, 4⟩⟩, ⟨.operator "<", "<", ⟨1, 6, 5⟩⟩,
    ⟨.int (.ofInt 4), "4", ⟨1, 7, 6⟩⟩, ⟨.punctuation ")", ")", ⟨1, 8, 7⟩⟩]

theorem expression_groups_compared :
    ∃ (first n k last : Expr) (t u v : TokenStream), Precedences.standard.Whole ∧
      ReadsPrimary .standard .i32 .i64 first comparedTokens t ∧
      Alternates .standard .i32 .i64 [("-", n), ("*", k), ("<", last)] t u ∧
      Precedences.standard.binding? u.head.lexeme = none ∧
      Parser.expression .standard 67 .i32 .i64 comparedTokens =
        .ok (.binary first.position "<" (.binary first.position "-" first (.binary n.position "*" n k)) last) u ∧
      Parser.operand .standard 67 .i32 .i64 comparedTokens =
        .ok (.binary first.position "-" first (.binary n.position "*" n k)) v ∧ v.head.lexeme = "<" := by
  have ht : Precedences.standard.Whole := Precedences.integral_standard.whole
  have hfirst : ReadsPrimary .standard .i32 .i64 (.number ⟨1, 1, 0⟩ (.ofInt 9) .i64) comparedTokens _ :=
    (Derives.int ⟨rfl, rfl⟩).readsPrimary
  have hlast : Alternates .standard .i32 .i64 [("<", .number ⟨1, 7, 6⟩ (.ofInt 4) .i64)]
      comparedTokens.next.next.next.next.next _ :=
    .cons (s := comparedTokens.next.next.next.next.next) (by decide +kernel) (Derives.int ⟨rfl, rfl⟩).readsPrimary .nil
  have hproduct : Alternates .standard .i32 .i64 [("*", .reference ⟨1, 5, 4⟩ "k"), _] comparedTokens.next.next.next _ :=
    .cons (s := comparedTokens.next.next.next) (by decide +kernel)
      (Derives.reference (t := comparedTokens.next.next.next.next.next) ⟨rfl, rfl⟩ (by decide) (by decide)).readsPrimary
      hlast
  have hitems : Alternates .standard .i32 .i64 [("-", .reference ⟨1, 3, 2⟩ "n"), _, _] comparedTokens.next _ :=
    .cons (s := comparedTokens.next) (by decide +kernel)
      (Derives.reference (t := comparedTokens.next.next.next) ⟨rfl, rfl⟩ (by decide) (by decide)).readsPrimary hproduct
  have hend : Precedences.standard.binding? ")" = none := by decide +kernel
  obtain ⟨⟨g, hg, hread⟩, g', v, hg', -, hleaves, hread'⟩ := expression_groups ht hfirst hitems hend
  have hminus : Precedences.standard.tight "-" = true := by decide +kernel
  have htimes : Precedences.standard.tight "*" = true := by decide +kernel
  have hless : Precedences.standard.tight "<" = false := by decide +kernel
  have hloose : (Precedences.standard.level "<").le (Precedences.standard.level "-") = true := by decide +kernel
  have htight : (Precedences.standard.level "-").lt (Precedences.standard.level "*") = true := by decide +kernel
  have hdifference (x y z : Expr) : (Grouping.node (.operand x) "-" (.node (.operand y) "*" (.operand z))).Ordered
      Precedences.standard := by
    simp [Grouping.Ordered, Grouping.top?, htight]
  have hcompared (x y z w : Expr) : (Grouping.node (.node (.operand x) "-" (.node (.operand y) "*" (.operand z))) "<"
      (.operand w)).Ordered Precedences.standard := by
    refine ⟨hdifference x y z, trivial, ?_, fun o ho => nomatch ho⟩
    rintro o ⟨⟩
    exact hloose
  simp only [List.takeWhile, List.dropWhile, hminus, htimes, hless] at hg' hleaves
  obtain rfl := (hg _).mp ⟨rfl, rfl, hcompared _ _ _ _⟩
  obtain rfl := (hg' (.node _ "-" (.node (.operand _) "*" (.operand _)))).mp ⟨rfl, rfl, hdifference _ _ _⟩
  exact ⟨_, _, _, _, _, _, v, ht, hfirst, hitems, hend, hread 67 (by decide), hread' 67 (by decide),
    hleaves.head_lexeme⟩

end Parser

end Keel
