import ProxGrad.Proofs.Exact.LeastSquares

/-!
# The exact squared distance

Half the squared distance from data of the shape of the point. Its gradient is the difference from
the data.
-/

set_option autoImplicit false

namespace ProxGrad

open Exact

variable {𝕜 : Type} [RCLike 𝕜] {shape : List Nat}

theorem Exact.inner_ofPoint (p q : Point 𝕜 shape) :
    Calculus.inner (ofPoint p) (ofPoint q) = .ok (real (RCLike.re (inner 𝕜 p q))) :=
  inner_flatten_ofPoint p q

noncomputable def distanceAt (y x : Point 𝕜 shape) : ℝ :=
  1 / 2 * ‖x - y‖ ^ 2

namespace Terms

variable {data x : Ref (Tensor 𝕜)} {out : Cell} {m : Memory (Tensor 𝕜)} {y p old : Point 𝕜 shape}

theorem outcome_squaredDistance (dataSeen : (Action.readRef data).outcome m = (.ok (ofPoint y), m))
    (seen : (Action.readRef x).outcome m = (.ok (ofPoint p), m))
    (held : m.content out = some (ofPoint old)) :
    ((squaredDistance data).valueAndGradient x out).outcome m =
      (.ok (real (distanceAt y p)), m.put out (ofPoint (p - y))) := by
  have stored := Action.outcome_store held (ofPoint (p - y))
  rw [store_ofPoint] at stored
  have value : (do Calculus.mul oneHalf (← Calculus.inner (ofPoint (p - y)) (ofPoint (p - y)))) =
      .ok (real (distanceAt y p) : Tensor 𝕜) := by
    rw [inner_ofPoint, LeastSquares.oneHalf_eq_real, inner_self_eq_norm_sq]
    exact mul_real _ _
  change (Bind.bind (Action.readRef x) _).outcome m = _
  rw [Action.outcome_bind_of_ok seen, Action.outcome_bind_of_ok dataSeen, sub_ofPoint,
    Action.outcome_bind_of_ok (Action.outcome_lift _ m), Action.outcome_bind_of_ok stored, value]
  rfl

variable {own : TermState (Tensor 𝕜)}

theorem squaredDistance_computes
    (dataSeen : ∀ m, own.sound m → (Action.readRef data).outcome m = (.ok (ofPoint y), m)) :
    (squaredDistance data).Computes own (distanceAt y) (· - y) where
  gradient := by
    intro m x out p old _ _ foreign sound held destination
    obtain ⟨_, written, sound', kept⟩ := overwrites_store sound foreign destination (p - y)
    have evaluated := outcome_squaredDistance (dataSeen m sound) (Action.outcome_readRef_cell held)
      destination
    exact ⟨_, Action.outcome_bind_of_ok evaluated, written, sound', kept⟩
  valueAndGradient := by
    intro m x out p old _ _ foreign sound held destination
    obtain ⟨_, written, sound', kept⟩ := overwrites_store sound foreign destination (p - y)
    have evaluated := outcome_squaredDistance (dataSeen m sound) (Action.outcome_readRef_cell held)
      destination
    exact ⟨_, evaluated, written, sound', kept⟩

end Terms

end ProxGrad
