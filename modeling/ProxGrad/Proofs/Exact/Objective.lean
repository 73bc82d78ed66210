import ProxGrad.Proofs.Action
import ProxGrad.Proofs.Exact.Point
import ProxGrad.Solver.Term

/-!
# Terms that compute functions

A term computes a function if each evaluation overwrites its whole destination with the function's
value and touches nothing else but cells of the term's own. What the destination held before, and
what else the memory holds, plays no part.
-/

set_option autoImplicit false

namespace ProxGrad

/-- What the terms of an objective keep between evaluations: cells of their own, and a condition on
these. Storing into other cells does not break the condition. -/
structure TermState (V : Type) where
  cells : Set Cell
  sound : Memory V → Prop
  sound_of_kept : ∀ {m m' : Memory V},
    (∀ c v, c ∈ cells → m.content c = some v → m'.content c = some v) → sound m → sound m'

namespace TermState

variable {V : Type}

def nothing : TermState V where
  cells := ∅
  sound _ := True
  sound_of_kept _ _ := trivial

theorem sound_of_keepsOutside (own : TermState V) {cells : Set Cell} {m m' : Memory V}
    (kept : m.KeepsOutside cells m') (apart : ∀ c ∈ cells, c ∉ own.cells) (sound : own.sound m) :
    own.sound m' := by
  refine own.sound_of_kept (fun c v member held => ?_) sound
  exact kept c v (fun inside => apart c inside member) held

end TermState

open Exact

variable {𝕜 : Type} [RCLike 𝕜] {shape : List Nat}

theorem exists_outcome_freshLike {m : Memory (Tensor 𝕜)} {x : Ref (Tensor 𝕜)} {p : Point 𝕜 shape}
    (seen : (Action.readRef x).outcome m = (.ok (ofPoint p), m))
    (leftover : ∀ c zeros, (m.leftover c zeros).shape = zeros.shape) :
    ∃ q : Point 𝕜 shape, (Action.freshLike x).outcome m = (.ok m.next, m.push (ofPoint q)) := by
  have fresh := Action.outcome_freshLike seen (fresh_ofPoint p)
  have shaped : (m.leftover m.next (.fill shape 0)).shape = shape := leftover m.next (.fill shape 0)
  obtain ⟨q, same⟩ := exists_eq_ofPoint shaped
  exact ⟨q, by rw [fresh, same]⟩

/-- An action that overwrites a cell with the array of a point, keeps the terms' state sound, and
changes nothing else. -/
structure Overwrites {α : Type} (own : TermState (Tensor 𝕜)) (out : Cell) (p : Point 𝕜 shape)
    (result : α) (action : Action (Tensor 𝕜) α) (m m' : Memory (Tensor 𝕜)) : Prop where
  outcome : action.outcome m = (.ok result, m')
  written : m'.content out = some (ofPoint p)
  sound : own.sound m'
  kept : m.KeepsOutside (insert out own.cells) m'

theorem overwrites_store {own : TermState (Tensor 𝕜)} {m : Memory (Tensor 𝕜)} {out : Cell}
    {old : Point 𝕜 shape} (sound : own.sound m) (foreign : out ∉ own.cells)
    (held : m.content out = some (ofPoint old)) (p : Point 𝕜 shape) :
    Overwrites own out p () (Action.store out (ofPoint p)) m (m.put out (ofPoint p)) := by
  have kept : m.KeepsOutside {out} (m.put out (ofPoint p)) := .put (Set.mem_singleton out) m _
  exact {
    outcome := by rw [Action.outcome_store held, store_ofPoint]
    written := Memory.content_put_self held _
    sound := own.sound_of_keepsOutside kept (fun c same => same ▸ foreign) sound
    kept := kept.mono (Set.singleton_subset_iff.mpr (Set.mem_insert out own.cells)) }

/-- A smooth term that computes the value `f` and the gradient `G`. -/
structure SmoothTerm.Computes (term : SmoothTerm (Tensor 𝕜)) (own : TermState (Tensor 𝕜))
    (f : Point 𝕜 shape → ℝ) (G : Point 𝕜 shape → Point 𝕜 shape) : Prop where
  gradient {m : Memory (Tensor 𝕜)} {x out : Cell} {p old : Point 𝕜 shape} :
    x ≠ out → x ∉ own.cells → out ∉ own.cells → own.sound m →
    m.content x = some (ofPoint p) → m.content out = some (ofPoint old) →
    ∃ m', Overwrites own out (G p) () (term.gradient (.cell x) out) m m'
  valueAndGradient {m : Memory (Tensor 𝕜)} {x out : Cell} {p old : Point 𝕜 shape} :
    x ≠ out → x ∉ own.cells → out ∉ own.cells → own.sound m →
    m.content x = some (ofPoint p) → m.content out = some (ofPoint old) →
    ∃ m', Overwrites own out (G p) (real (f p)) (term.valueAndGradient (.cell x) out) m m'

/-- A proximal term that computes the map `P` of points and steps. -/
structure ProximalTerm.Computes (term : ProximalTerm (Tensor 𝕜)) (own : TermState (Tensor 𝕜))
    (P : Point 𝕜 shape → ℝ → Point 𝕜 shape) : Prop where
  prox {m : Memory (Tensor 𝕜)} {out : Cell} {old : Point 𝕜 shape} (y : Point 𝕜 shape) {step : ℝ} :
    0 < step → out ∉ own.cells → own.sound m → m.content out = some (ofPoint old) →
    ∃ m', Overwrites own out (P y step) () (term.prox (.const (ofPoint y)) (real step) out) m m'

/-- An objective whose terms compute a value, a gradient and a proximal map. -/
structure Objective.Computes (objective : Objective (Tensor 𝕜)) (own : TermState (Tensor 𝕜))
    (f : Point 𝕜 shape → ℝ) (G : Point 𝕜 shape → Point 𝕜 shape)
    (P : Point 𝕜 shape → ℝ → Point 𝕜 shape) : Prop where
  smooth : objective.smooth.Computes own f G
  proximal : objective.proximal.Computes own P

end ProxGrad
