import Keel.Proofs.Correctness.Operations

namespace Keel.Lowering

open Wasm (Instr Run Stop Caller)
open Semantics

section Rules

variable {F α β γ δ : Type} {exits : Stop → Exit → Activation F → Wasm.State → Prop}
  {pre pre' : Activation F → Wasm.State → Prop} {mid : β → α → Activation F → Wasm.State → Prop}
  {post post' : δ → γ → Activation F → Wasm.State → Prop}

def Matches (exits : Stop → Exit → Activation F → Wasm.State → Prop)
    (post : β → α → Activation F → Wasm.State → Prop) :
    EStateM.Result Stop Wasm.State β → EStateM.Result Exit (Activation F) α → Prop
  | .ok n s, .ok v a => post n v a s
  | .error c s, .error e a => exits c e a s
  | _, _ => False

def Simulates (exits : Stop → Exit → Activation F → Wasm.State → Prop) (pre : Activation F → Wasm.State → Prop)
    (x : Run β) (e : Eval F α) (post : β → α → Activation F → Wasm.State → Prop) : Prop :=
  ∀ a s, pre a s → Matches exits post (x s) (e a)

lemma Simulates.bind {x : Run β} {e : Eval F α} {f : β → Run δ} {g : α → Eval F γ}
    (h : Simulates exits pre x e mid) (hf : ∀ n v, Simulates exits (mid n v) (f n) (g v) post) :
    Simulates exits pre (x >>= f) (e >>= g) post := by
  intro a s hp
  have hm := h a s hp
  simp only [Bind.bind, EStateM.bind]
  cases hx : x s <;> cases he : e a <;> rw [hx, he] at hm
  case ok.ok n s' v a' => exact hf n v a' s' hm
  case error.error => exact hm
  all_goals exact hm.elim

lemma Simulates.mono {x : Run δ} {e : Eval F γ} (h : Simulates exits pre x e post)
    (hpre : ∀ a s, pre' a s → pre a s) (hpost : ∀ n v a s, post n v a s → post' n v a s) :
    Simulates exits pre' x e post' := by
  intro a s hp
  have hm := h a s (hpre a s hp)
  cases hx : x s <;> cases he : e a <;> rw [hx, he] at hm
  case ok.ok => exact hpost _ _ _ _ hm
  case error.error => exact hm
  all_goals exact hm.elim

end Rules

end Keel.Lowering
