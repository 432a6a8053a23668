import Keel.Proofs.Ranges.Code
import Keel.Proofs.Wasm.Moments

namespace Keel.Ranges

open Lowering
open Wasm (Instr Run Stop Caller Store)

lemma Keeps.of_ok {α : Type} {inv : Wasm.State → Prop} {post : α → Prop} {x : Run α} (h : Keeps inv x post)
    {s t : Wasm.State} {a : α} (hs : inv s) (hx : x s = .ok a t) : post a ∧ inv t := by
  have hr := h s hs
  rwa [hx] at hr

section Reaches

variable {p : Program} {types : List ValueType} {call : Caller}

def Reached (p : Program) (types : List ValueType) (y : Instr) (t : Wasm.State) : Prop :=
  IsCondition p types y ∧ StateInRange p types t

variable (hcall : CallsInRange p call)

include hcall

mutual

lemma HasRange.reaches : ∀ {x : Instr} {type : ValueType}, HasRange p types x type → ∀ ⦃s y t⦄,
    StateInRange p types s → Wasm.Reaches call x s y t → Reached p types y t
  | _, _, .nop => by
    intro s y t hs h
    cases h with
    | here => exact ⟨.single .nop, hs⟩
  | _, _, .const hv => by
    intro s y t hs h
    cases h with
    | here => exact ⟨.single (.const hv), hs⟩
  | _, _, .localGet hi => by
    intro s y t hs h
    cases h with
    | here => exact ⟨.single (.localGet hi), hs⟩
  | _, _, .localSet hi hx => by
    intro s y t hs h
    cases h with
    | here => exact ⟨.single (.localSet hi hx), hs⟩
    | localSet h => exact hx.reaches hs h
  | _, _, .localTee hi hx => by
    intro s y t hs h
    cases h with
    | here => exact ⟨.single (.localTee hi hx), hs⟩
    | localTee h => exact hx.reaches hs h
  | _, _, .globalGet hname => by
    intro s y t hs h
    cases h with
    | here => exact ⟨.single (.globalGet hname), hs⟩
  | _, _, .globalSet hname hx => by
    intro s y t hs h
    cases h with
    | here => exact ⟨.single (.globalSet hname hx), hs⟩
    | globalSet h => exact hx.reaches hs h
  | _, _, .convert hx => by
    intro s y t hs h
    cases h with
    | here => exact ⟨.single (.convert hx), hs⟩
    | convert h => exact hx.reaches hs h
  | _, _, .binary hx hy => by
    intro s y t hs h
    cases h with
    | here => exact ⟨.single (.binary hx hy), hs⟩
    | left h => exact hx.reaches hs h
    | right hr h => exact hy.reaches ((hx.keeps hcall).of_ok hs hr).2 h
  | _, _, .compare hx hy => by
    intro s y t hs h
    cases h with
    | here => exact ⟨.single (.compare hx hy), hs⟩
    | left h => exact hx.reaches hs h
    | right hr h => exact hy.reaches ((hx.keeps hcall).of_ok hs hr).2 h
  | _, _, .shifted hbits hx => by
    intro s y t hs h
    cases h with
    | here => exact ⟨.single (.shifted hbits hx), hs⟩
    | left h => exact hx.reaches hs h
    | right hr h =>
      cases h
      exact ⟨.single (.const (inRange_full (.i32 _))), ((hx.keeps hcall).of_ok hs hr).2⟩
  | _, _, .call hcallee hargs => by
    intro s y t hs h
    cases h with
    | here => exact ⟨.single (.call hcallee hargs), hs⟩
    | argument h => exact hargs.reaches hs h
  | _, _, .drop hx => by
    intro s y t hs h
    cases h with
    | here => exact ⟨.single (.drop hx), hs⟩
    | drop h => exact hx.reaches hs h
  | _, _, .block hbody => by
    intro s y t hs h
    cases h with
    | here => exact ⟨.single (.block hbody), hs⟩
    | block h => exact hbody.reaches hs h
  | _, _, .labelled hbody => by
    intro s y t hs h
    cases h with
    | here => exact ⟨.single (.labelled hbody), hs⟩
    | block h => exact hbody.reaches hs h
  | _, _, .ifThen hc hx => by
    intro s y t hs h
    cases h with
    | here => exact ⟨.single (.ifThen hc hx), hs⟩
    | test h => exact hc.reaches hs h
    | passed hr _ h => exact hx.reaches ((hc.keeps hcall).of_ok hs hr).2 h
  | _, _, .br => by
    intro s y t hs h
    cases h with
    | here => exact ⟨.single .br, hs⟩
  | _, _, .widen hx _ => by
    intro s y t hs h
    exact hx.reaches hs h

lemma IsCondition.reaches : ∀ {c : Instr}, IsCondition p types c → ∀ ⦃s y t⦄, StateInRange p types s →
    Wasm.Reaches call c s y t → Reached p types y t
  | _, .single hx => by
    intro s y t hs h
    exact hx.reaches hs h
  | _, .choice hc hx hy => by
    intro s y t hs h
    cases h with
    | here => exact ⟨.choice hc hx hy, hs⟩
    | choice h => exact hc.reaches hs h
    | yes hr _ h => exact hx.reaches ((hc.keeps hcall).of_ok hs hr).2 h
    | no hr _ h => exact hy.reaches ((hc.keeps hcall).of_ok hs hr).2 h

lemma SequenceHasRange.reaches : ∀ {xs : List Instr} {type : ValueType}, SequenceHasRange p types xs type →
    ∀ ⦃s y t⦄, StateInRange p types s → Wasm.ReachesIn call xs s y t → Reached p types y t
  | _, _, .nil => by
    intro s y t _ h
    cases h
  | _, _, .last hx => by
    intro s y t hs h
    cases h with
    | head h => exact hx.reaches hs h
    | tail _ h => cases h
  | _, _, .cons hx hrest => by
    intro s y t hs h
    cases h with
    | head h => exact hx.reaches hs h
    | tail hr h => exact hrest.reaches ((hx.keeps hcall).of_ok hs hr).2 h

lemma ArgumentsHaveRanges.reaches : ∀ {xs : List Instr} {as : List ValueType}, ArgumentsHaveRanges p types xs as →
    ∀ ⦃s y t⦄, StateInRange p types s → Wasm.ReachesArgument call xs s y t → Reached p types y t
  | _, _, .nil => by
    intro s y t _ h
    cases h
  | _, _, .cons hx hrest => by
    intro s y t hs h
    cases h with
    | head h => exact hx.reaches hs h
    | tail hr h => exact hrest.reaches ((hx.keeps hcall).of_ok hs hr).2 h

end

end Reaches

end Keel.Ranges
