import Mathlib.Analysis.Calculus.Deriv.Pow
import ProxGrad.Analysis.GradientCheck
import ProxGrad.Proofs.Exact.Evaluation

/-!
# Exact gradient checks

In exact arithmetic the central difference of a quadratic function is its directional derivative,
for a step of any length: the terms of even order cancel. What a check measures there is how far the
written gradient is from the true one along the direction, relative to what it claims.
-/

set_option autoImplicit false

namespace ProxGrad

open Exact

namespace GradientCheck

section Functions

variable {𝕜 : Type} [RCLike 𝕜] {shape observed : List Nat}

/-- A polynomial of degree at most two. -/
def IsQuadratic (f : Point 𝕜 shape → ℝ) : Prop :=
  ∃ (c : ℝ) (linear : Point 𝕜 shape →ₗ[ℝ] ℝ)
    (bilinear : Point 𝕜 shape →ₗ[ℝ] Point 𝕜 shape →ₗ[ℝ] ℝ), ∀ u, f u = c + linear u + bilinear u u

/-- The derivative of `f` along `d` is the real part of the inner product of `D` with `d`. -/
def IsGradient (f : Point 𝕜 shape → ℝ) (D : Point 𝕜 shape → Point 𝕜 shape) : Prop :=
  ∀ p d, HasDerivAt (fun t : ℝ => f (p + t • d)) (RCLike.re (inner 𝕜 (D p) d)) 0

theorem hasDerivAt_cubic (a b c e : ℝ) :
    HasDerivAt (fun t : ℝ => a + t * b + t ^ 2 * c + t ^ 3 * e) b 0 := by
  have linear := (hasDerivAt_id' (0 : ℝ)).mul_const b
  have square := (hasDerivAt_pow 2 (0 : ℝ)).mul_const c
  have cube := (hasDerivAt_pow 3 (0 : ℝ)).mul_const e
  exact (((linear.const_add a).add square).add cube).congr_deriv (by norm_num)

theorem IsQuadratic.central_difference {f : Point 𝕜 shape → ℝ} {D : Point 𝕜 shape → Point 𝕜 shape}
    (quadratic : IsQuadratic f) (gradient : IsGradient f D) (p d : Point 𝕜 shape) {h : ℝ}
    (nonzero : h ≠ 0) :
    (f (p + h • d) - f (p - h • d)) / (2 * h) = RCLike.re (inner 𝕜 (D p) d) := by
  -- On the line the terms of even order cancel, and the one of first order is the derivative.
  obtain ⟨c, linear, bilinear, polynomial⟩ := quadratic
  let slope := linear d + (bilinear p d + bilinear d p)
  have line (t : ℝ) : f (p + t • d) = f p + t * slope + t ^ 2 * bilinear d d + t ^ 3 * 0 := by
    simp only [polynomial, map_add, map_smul, LinearMap.add_apply, LinearMap.smul_apply,
      smul_eq_mul, slope]
    ring
  have derivative := gradient p d
  simp only [line] at derivative
  rw [derivative.unique (hasDerivAt_cubic _ slope _ 0), sub_eq_add_neg p, ← neg_smul, line, line]
  field_simp
  ring

/-- The real part of the inner product, as a form on the real vector space of points. -/
noncomputable def realInner (observed : List Nat) :
    Point 𝕜 observed →ₗ[ℝ] Point 𝕜 observed →ₗ[ℝ] ℝ :=
  LinearMap.mk₂ ℝ (fun u v => RCLike.re (inner 𝕜 u v))
    (fun u u' v => by rw [inner_add_left, map_add])
    (fun a u v => by
      rw [RCLike.real_smul_eq_coe_smul (K := 𝕜), inner_smul_left, RCLike.conj_ofReal,
        RCLike.re_ofReal_mul, smul_eq_mul])
    (fun u v v' => by rw [inner_add_right, map_add])
    (fun a u v => by rw [LeastSquares.re_inner_real_smul, smul_eq_mul])

theorem isQuadratic_misfitAt (A : Point 𝕜 shape →ₗ[𝕜] Point 𝕜 observed) (y : Point 𝕜 observed) :
    IsQuadratic (LeastSquares.misfitAt A y) := by
  let T : Point 𝕜 shape →ₗ[ℝ] Point 𝕜 observed := A.restrictScalars ℝ
  refine ⟨1 / 2 * ‖y‖ ^ 2, -(realInner observed y ∘ₗ T),
    (1 / 2 : ℝ) • (realInner observed).compl₁₂ T T, fun u => ?_⟩
  have cross : realInner observed y (A u) = RCLike.re (inner 𝕜 (A u) y) := inner_re_symm _ _
  have square : realInner observed (A u) (A u) = ‖A u‖ ^ 2 := inner_self_eq_norm_sq _
  change 1 / 2 * ‖A u - y‖ ^ 2 = 1 / 2 * ‖y‖ ^ 2 + -(realInner observed y (A u)) +
    1 / 2 * realInner observed (A u) (A u)
  rw [norm_sub_sq (𝕜 := 𝕜), cross, square]
  ring

theorem isGradient_gradientAt (A : Point 𝕜 shape →ₗ[𝕜] Point 𝕜 observed) (y : Point 𝕜 observed) :
    IsGradient (LeastSquares.misfitAt A y) (LeastSquares.gradientAt A y) := by
  intro p d
  have line (t : ℝ) : LeastSquares.misfitAt A y (p + t • d) = LeastSquares.misfitAt A y p +
      t * RCLike.re (inner 𝕜 (LeastSquares.gradientAt A y p) d) +
      t ^ 2 * (1 / 2 * ‖A d‖ ^ 2) + t ^ 3 * 0 := by
    have image : ‖A (t • d)‖ ^ 2 = t ^ 2 * ‖A d‖ ^ 2 := by
      rw [LinearMap.map_smul_of_tower, norm_smul, mul_pow, Real.norm_eq_abs, sq_abs]
    rw [LeastSquares.misfitAt_add, LeastSquares.re_inner_real_smul, image]
    ring
  simp only [line]
  exact hasDerivAt_cubic _ _ _ 0

theorem isQuadratic_distanceAt (y : Point 𝕜 shape) : IsQuadratic (distanceAt y) :=
  isQuadratic_misfitAt LinearMap.id y

theorem isGradient_distanceAt (y : Point 𝕜 shape) : IsGradient (distanceAt y) (· - y) := by
  have same : LeastSquares.gradientAt LinearMap.id y = (· - y) := by
    funext p
    rw [LeastSquares.gradientAt, LinearMap.adjoint_id]
    rfl
  rw [← same]
  exact isGradient_gradientAt LinearMap.id y

theorem cubicAt_add_smul (c p d : Point ℝ shape) (t : ℝ) :
    cubicAt c (p + t • d) = cubicAt c p + t * inner ℝ (cubicGradientAt c p) d +
      t ^ 2 * (∑ i, 3 * c i * p i * d i ^ 2) + t ^ 3 * cubicAt c d := by
  rw [PiLp.inner_apply, cubicAt, cubicAt, cubicAt, Finset.mul_sum, Finset.mul_sum, Finset.mul_sum,
    ← Finset.sum_add_distrib, ← Finset.sum_add_distrib, ← Finset.sum_add_distrib]
  refine Finset.sum_congr rfl fun i _ => ?_
  change c i * (p i + t * d i) ^ 3 = c i * p i ^ 3 + t * (d i * (3 * c i * p i ^ 2)) +
    t ^ 2 * (3 * c i * p i * d i ^ 2) + t ^ 3 * (c i * d i ^ 3)
  ring

theorem isGradient_cubicAt (c : Point ℝ shape) : IsGradient (cubicAt c) (cubicGradientAt c) := by
  intro p d
  simp only [cubicAt_add_smul]
  exact hasDerivAt_cubic _ _ _ _

end Functions

/-! ## What a check computes -/

section Measure

variable {𝕜 : Type} [RCLike 𝕜] {shape : List Nat}

/-- The least normal number, below which the claimed derivative is not divided by. -/
noncomputable def smallest : ℝ :=
  2 ^ (-1022 : ℤ)

theorem leastNormal_eq_real : (Calculus.leastNormal : Tensor 𝕜) = real smallest := by
  refine congrArg Tensor.scalar (?_ : (2 : 𝕜) ^ (-1022 : ℤ) = (smallest : 𝕜))
  rw [smallest]
  push_cast
  rfl

theorem smallest_pos : 0 < smallest :=
  zpow_pos two_pos _

theorem larger_real (a b : ℝ) : larger (real a) (real b : Tensor 𝕜) = .ok (real (max a b)) :=
  choose_larger_real a b

theorem relativeError_real (difference claimed : ℝ) :
    relativeError (real difference) (real claimed : Tensor 𝕜) =
      .ok (real (|difference - claimed| / max |claimed| smallest)) := by
  have nonzero : max |claimed| smallest ≠ 0 := (lt_max_of_lt_right smallest_pos).ne'
  simp only [relativeError, sub_real, abs_real, leastNormal_eq_real, larger_real, bind, Except.bind]
  exact div_real _ nonzero

theorem atMost_real (a b : ℝ) :
    Calculus.atMost (real a) (real b : Tensor 𝕜) = .ok (real (if a ≤ b then 1 else 0)) := by
  have compared : (if RCLike.re (a : 𝕜) ≤ RCLike.re (b : 𝕜) then (1 : 𝕜) else 0) =
      ((if a ≤ b then 1 else 0 : ℝ) : 𝕜) := by
    rw [RCLike.ofReal_re, RCLike.ofReal_re]
    split_ifs <;> simp
  rw [real, real, real, ← compared]
  exact entrywise_scalar _ _ _

noncomputable def claimed (G : Point 𝕜 shape → Point 𝕜 shape) (p d : Point 𝕜 shape) : ℝ :=
  RCLike.re (inner 𝕜 (G p) d)

/-- The relative error that a check finds for values `f` and gradients `G`. -/
noncomputable def errorAt (f : Point 𝕜 shape → ℝ) (G : Point 𝕜 shape → Point 𝕜 shape)
    (p d : Point 𝕜 shape) (h : ℝ) : ℝ :=
  |(f (p + h • d) - f (p - h • d)) / (2 * h) - claimed G p d| / max |claimed G p d| smallest

/-- How far the gradients `G` are from `D` along a direction, relative to what they claim. -/
noncomputable def deviation (D G : Point 𝕜 shape → Point 𝕜 shape) (p d : Point 𝕜 shape) : ℝ :=
  |RCLike.re (inner 𝕜 (D p - G p) d)| / max |claimed G p d| smallest

theorem IsQuadratic.errorAt_eq {f : Point 𝕜 shape → ℝ} {D : Point 𝕜 shape → Point 𝕜 shape}
    (quadratic : IsQuadratic f) (gradient : IsGradient f D)
    (G : Point 𝕜 shape → Point 𝕜 shape) (p d : Point 𝕜 shape) {h : ℝ} (nonzero : h ≠ 0) :
    errorAt f G p d h = deviation D G p d := by
  rw [errorAt, quadratic.central_difference gradient p d nonzero, deviation, claimed,
    inner_sub_left, map_sub]

theorem errorAt_cubicAt (c p d : Point ℝ shape) {h : ℝ} (nonzero : h ≠ 0) :
    errorAt (cubicAt c) (cubicGradientAt c) p d h =
      h ^ 2 * |∑ i, c i * d i ^ 3| / max |inner ℝ (cubicGradientAt c p) d| smallest := by
  have difference : (cubicAt c (p + h • d) - cubicAt c (p - h • d)) / (2 * h) -
      inner ℝ (cubicGradientAt c p) d = h ^ 2 * cubicAt c d := by
    rw [sub_eq_add_neg p, ← neg_smul, cubicAt_add_smul, cubicAt_add_smul]
    field_simp
    ring
  change |_ - inner ℝ (cubicGradientAt c p) d| / max |inner ℝ (cubicGradientAt c p) d| smallest = _
  rw [difference, abs_mul, abs_of_nonneg (sq_nonneg h), cubicAt]

theorem deviation_neg (D G : Point 𝕜 shape → Point 𝕜 shape) (p d : Point 𝕜 shape) :
    deviation D G p (-d) = deviation D G p d := by
  rw [deviation, deviation, claimed, claimed, inner_neg_right, inner_neg_right, map_neg, map_neg,
    abs_neg, abs_neg]

theorem deviation_self (D : Point 𝕜 shape → Point 𝕜 shape) (p d : Point 𝕜 shape) :
    deviation D D p d = 0 := by
  rw [deviation, sub_self, inner_zero_left, map_zero, abs_zero, zero_div]

variable {own : TermState (Tensor 𝕜)} {f : SmoothTerm (Tensor 𝕜)} {value : Point 𝕜 shape → ℝ}
  {G : Point 𝕜 shape → Point 𝕜 shape} {m : Memory (Tensor 𝕜)} {x r : Ref (Tensor 𝕜)}
  {p d : Point 𝕜 shape}

/-- What a check does once point and direction are accepted. -/
def measure {V : Type} [Calculus V] (f : SmoothTerm V) (x direction : Ref V) (step : V) :
    Action V V := do
  let gradient ← Action.freshLike x
  f.gradient x gradient
  let d ← Action.readRef direction
  let claimed ← Action.lift (Calculus.inner (← Action.read gradient) d)
  let point ← Action.readRef x
  let ahead ← f.value (.const (← Action.lift (do Calculus.add point (← Calculus.mul step d))))
  let behind ← f.value (.const (← Action.lift (do Calculus.sub point (← Calculus.mul step d))))
  let difference ← Action.lift (do
    Calculus.div (← Calculus.sub ahead behind) (← Calculus.mul (Calculus.ofNat 2) step))
  Action.lift (relativeError difference claimed)

theorem exists_outcome_measure (evaluates : f.Evaluates own value G) (ready : own.Ready m)
    (point : Shows own m x p) (direction : Shows own m r d) {h : ℝ} (nonzero : h ≠ 0) :
    ∃ m', (measure f x r (real h)).outcome m = (.ok (real (errorAt value G p d h)), m') ∧
      m.KeepsOutside own.cells m' := by
  -- The claimed gradient goes to a new array; the values are asked for at points of no array.
  obtain ⟨q, fresh⟩ := exists_outcome_freshLike point.seen ready.leftover
  have pushed : m.KeepsOutside ∅ (m.push (ofPoint q)) := .push ∅ m _
  have point₁ := point.of_keepsOutside pushed fun _ _ => Set.notMem_empty _
  obtain ⟨m₂, written, ready₂⟩ := evaluates.gradient (ready.push (ofPoint q)) point₁ point.ne_next
    ready.next_foreign (Memory.content_push_next m (ofPoint q))
  have kept₂ : m.KeepsOutside own.cells m₂ := by
    intro c v outside held
    refine written.kept c v ?_ (pushed c v (Set.notMem_empty c) held)
    rintro (rfl | member)
    · exact Memory.ne_next_of_content held rfl
    · exact outside member
  obtain ⟨m₃, ahead, ready₃, kept₃⟩ := evaluates.value (p + h • d) ready₂
  obtain ⟨m₄, behind, ready₄, kept₄⟩ := evaluates.value (p - h • d) ready₃
  have forth : (do Calculus.add (ofPoint p) (← Calculus.mul (real h) (ofPoint d))) =
      .ok (ofPoint (p + h • d)) := by
    rw [mul_real_ofPoint]
    exact add_ofPoint p (h • d)
  have back : (do Calculus.sub (ofPoint p) (← Calculus.mul (real h) (ofPoint d))) =
      .ok (ofPoint (p - h • d)) := by
    rw [mul_real_ofPoint]
    exact sub_ofPoint p (h • d)
  have difference : (do
      Calculus.div (← Calculus.sub (real (value (p + h • d))) (real (value (p - h • d))))
        (← Calculus.mul (Calculus.ofNat 2) (real h))) =
      .ok (real ((value (p + h • d) - value (p - h • d)) / (2 * h)) : Tensor 𝕜) := by
    rw [sub_real, ofNat_eq_real, mul_real]
    exact div_real _ (mul_ne_zero two_ne_zero nonzero)
  refine ⟨m₄, ?_, (kept₂.trans kept₃).trans kept₄⟩
  have point₂ := point.of_keepsOutside kept₂ point.foreign
  have direction₂ := direction.of_keepsOutside kept₂ direction.foreign
  rw [measure, Action.outcome_bind_of_ok fresh, Action.outcome_bind_of_ok written.outcome,
    Action.outcome_bind_of_ok direction₂.seen,
    Action.outcome_bind_of_ok (Action.outcome_read written.written), inner_ofPoint,
    Action.outcome_bind_of_ok (Action.outcome_lift _ m₂), Action.outcome_bind_of_ok point₂.seen,
    forth, Action.outcome_bind_of_ok (Action.outcome_lift _ m₂), Action.outcome_bind_of_ok ahead,
    back, Action.outcome_bind_of_ok (Action.outcome_lift _ m₃), Action.outcome_bind_of_ok behind,
    difference, Action.outcome_bind_of_ok (Action.outcome_lift _ m₄), relativeError_real]
  rfl

/-! ## Directions -/

/-- A drawn direction brought to the length of the point, or to length one at zero. -/
noncomputable def scaledTo (p z : Point 𝕜 shape) : Point 𝕜 shape :=
  ((if p = 0 then 1 else ‖p‖) / ‖z‖) • z

theorem scaled_ofPoint {z : Point 𝕜 shape} (nonzero : z ≠ 0) (p : Point 𝕜 shape) :
    scaled (ofPoint z) (ofPoint p) = .ok (ofPoint (scaledTo p z)) := by
  have one : (Calculus.ofDecimal 1 0 : Tensor 𝕜) = real 1 := by
    rw [ofDecimal_eq_real]
    norm_num
  have target : (if decide (0 < ‖p‖) = true then real ‖p‖ else real 1 : Tensor 𝕜) =
      real (if p = 0 then 1 else ‖p‖) := by
    by_cases zero : p = 0 <;> simp [zero]
  simp only [scaled, norm_ofPoint, ofDecimal_zero, less_real, one, target, bind, Except.bind,
    div_real _ (norm_ne_zero_iff.mpr nonzero)]
  exact mul_ofPoint_real z _

theorem norm_scaledTo (p : Point 𝕜 shape) {z : Point 𝕜 shape} (nonzero : z ≠ 0) :
    ‖scaledTo p z‖ = if p = 0 then 1 else ‖p‖ := by
  have positive : 0 < ‖z‖ := norm_pos_iff.mpr nonzero
  have nonneg : 0 ≤ if p = 0 then 1 else ‖p‖ := by
    split_ifs
    · exact zero_le_one
    · exact norm_nonneg p
  rw [scaledTo, norm_smul, norm_div, norm_norm, Real.norm_of_nonneg nonneg,
    div_mul_cancel₀ _ positive.ne']

/-- How a check comes by its direction, and the memory in which it goes on: the direction is given,
or drawn and scaled. -/
inductive Chosen (own : TermState (Tensor 𝕜)) (m : Memory (Tensor 𝕜)) (p : Point 𝕜 shape)
    (draw : Tensor 𝕜 → Action (Tensor 𝕜) (Tensor 𝕜)) :
    Option (Ref (Tensor 𝕜)) → Point 𝕜 shape → Memory (Tensor 𝕜) → Prop
  | given {r : Ref (Tensor 𝕜)} {d : Point 𝕜 shape} (shows : Shows own m r d) :
      Chosen own m p draw (some r) d m
  | drawn {z : Point 𝕜 shape} {m' : Memory (Tensor 𝕜)} (nonzero : z ≠ 0)
      (drew : (draw (ofPoint p)).outcome m = (.ok (ofPoint z), m')) (ready : own.Ready m')
      (kept : m.KeepsOutside own.cells m') : Chosen own m p draw none (scaledTo p z) m'

variable {draw : Tensor 𝕜 → Action (Tensor 𝕜) (Tensor 𝕜)} {m' : Memory (Tensor 𝕜)}
  {direction : Option (Ref (Tensor 𝕜))}

theorem outcome_accept (point : Shows own m x p) (name : String) :
    (accept name x).outcome m = (.ok x, m) := by
  have finite : Calculus.finite? name (ofPoint p) = .ok none := rfl
  rw [accept, Action.outcome_bind_of_ok point.seen, finite]
  rfl

theorem exists_outcome_error_eq_measure (chosen : Chosen own m p draw direction d m')
    (ready : own.Ready m) (point : Shows own m x p) (step : Tensor 𝕜) :
    ∃ r, (error f x step direction draw).outcome m = (measure f x r step).outcome m' ∧
      own.Ready m' ∧ m.KeepsOutside own.cells m' ∧ Shows own m' r d := by
  cases chosen with
  | @given r _ shows =>
    refine ⟨r, ?_, ready, .refl _ m, shows⟩
    rw [error, Action.outcome_bind_of_ok (outcome_accept point _)]
    exact Action.outcome_bind_of_ok (outcome_accept shows _)
  | @drawn z _ nonzero drew ready' kept =>
    refine ⟨.const (ofPoint (scaledTo p z)), ?_, ready', kept, .const _⟩
    have shows : Shows own m' (.const (ofPoint (scaledTo p z))) (scaledTo p z) := .const _
    rw [error, Action.outcome_bind_of_ok (outcome_accept point _)]
    refine (Action.outcome_bind_of_ok point.seen).trans ((Action.outcome_bind_of_ok drew).trans ?_)
    rw [scaled_ofPoint nonzero]
    exact (Action.outcome_bind_of_ok (Action.outcome_lift _ m')).trans
      (Action.outcome_bind_of_ok (outcome_accept shows _))

/-- What the two functions give for a term at a point, however the direction is chosen and for every
step but zero: the error, and whether it is within a tolerance. The point and a given direction are
as they were. -/
def Measures (f : SmoothTerm (Tensor 𝕜)) (own : TermState (Tensor 𝕜)) (m : Memory (Tensor 𝕜))
    (x : Ref (Tensor 𝕜)) (p : Point 𝕜 shape) (draw : Tensor 𝕜 → Action (Tensor 𝕜) (Tensor 𝕜))
    (found : Point 𝕜 shape → ℝ → ℝ) : Prop :=
  ∀ direction d begun, Chosen own m p draw direction d begun → ∀ h : ℝ, h ≠ 0 → ∃ m',
    (error f x (real h) direction draw).outcome m = (.ok (real (found d h)), m') ∧
    (∀ tolerance : ℝ, (agrees f x (real h) (real tolerance) direction draw).outcome m =
      (.ok (real (if found d h ≤ tolerance then 1 else 0)), m')) ∧
    m.KeepsOutside own.cells m' ∧ Shows own m' x p ∧ ∀ r, direction = some r → Shows own m' r d

theorem measures_errorAt (evaluates : f.Evaluates own value G) (ready : own.Ready m)
    (point : Shows own m x p) : Measures f own m x p draw (errorAt value G p) := by
  intro direction d begun chosen h nonzero
  obtain ⟨r, same, ready₁, kept₁, shows⟩ :=
    exists_outcome_error_eq_measure (f := f) chosen ready point (real h)
  obtain ⟨m', measured, kept₂⟩ := exists_outcome_measure evaluates ready₁
    (point.of_keepsOutside kept₁ point.foreign) shows nonzero
  have kept := kept₁.trans kept₂
  rw [measured] at same
  refine ⟨m', same, fun tolerance => ?_, kept, point.of_keepsOutside kept point.foreign, ?_⟩
  · rw [agrees, Action.outcome_bind_of_ok same, atMost_real]
    rfl
  · rintro r' rfl
    cases chosen with
    | given shows' => exact shows'.of_keepsOutside kept shows'.foreign

/-- Whether a check accepts a term at a point, however the direction is chosen, for every step but
zero and every tolerance that is not negative. -/
def AlwaysAccepted (f : SmoothTerm (Tensor 𝕜)) (own : TermState (Tensor 𝕜)) (m : Memory (Tensor 𝕜))
    (x : Ref (Tensor 𝕜)) (p : Point 𝕜 shape) (draw : Tensor 𝕜 → Action (Tensor 𝕜) (Tensor 𝕜)) :
    Prop :=
  ∀ direction d begun, Chosen own m p draw direction d begun → ∀ h : ℝ, h ≠ 0 →
    ∀ tolerance : ℝ, 0 ≤ tolerance → ∃ m',
      (agrees f x (real h) (real tolerance) direction draw).outcome m = (.ok (real 1), m')

theorem IsQuadratic.measures {D : Point 𝕜 shape → Point 𝕜 shape} (quadratic : IsQuadratic value)
    (gradient : IsGradient value D) (evaluates : f.Evaluates own value G) (ready : own.Ready m)
    (point : Shows own m x p) : Measures f own m x p draw fun d _ => deviation D G p d := by
  intro direction d begun chosen h nonzero
  have measured := measures_errorAt evaluates ready point direction d begun chosen h nonzero
  rwa [quadratic.errorAt_eq gradient G p d nonzero] at measured

theorem IsQuadratic.alwaysAccepted (quadratic : IsQuadratic value) (gradient : IsGradient value G)
    (evaluates : f.Evaluates own value G) (ready : own.Ready m) (point : Shows own m x p) :
    AlwaysAccepted f own m x p draw := by
  intro direction d begun chosen h nonzero tolerance nonneg
  obtain ⟨m', -, judged, -⟩ :=
    quadratic.measures gradient evaluates ready point direction d begun chosen h nonzero
  refine ⟨m', ?_⟩
  rw [judged]
  simp only [deviation_self, if_pos nonneg]

/-- What a gradient check measures. For a quadratic function with the gradient `D` and any written
gradient `G` it is the deviation of one from the other along the direction, the same for every step
and for the opposite direction; so the gradients of a least-squares misfit and of a squared distance
are always accepted. For a cubic function with its own gradient the square of the step remains. A
drawn direction has the length of the point, or length one at zero. -/
theorem checks_measure_deviation (ready : own.Ready m) (point : Shows own m x p)
    (draw : Tensor 𝕜 → Action (Tensor 𝕜) (Tensor 𝕜)) :
    (∀ (f : SmoothTerm (Tensor 𝕜)) (value : Point 𝕜 shape → ℝ)
        (D G : Point 𝕜 shape → Point 𝕜 shape),
      IsQuadratic value → IsGradient value D → f.Evaluates own value G →
      Measures f own m x p draw (fun d _ => deviation D G p d) ∧
        ∀ d, deviation D G p (-d) = deviation D G p d) ∧
    (∀ (f : SmoothTerm (Tensor 𝕜)) (value : Point 𝕜 shape → ℝ) (D : Point 𝕜 shape → Point 𝕜 shape),
      IsQuadratic value → IsGradient value D → f.Evaluates own value D →
      AlwaysAccepted f own m x p draw) ∧
    (∀ (observed : List Nat) (term : LeastSquares (Tensor 𝕜))
        (A : Point 𝕜 shape →ₗ[𝕜] Point 𝕜 observed) (y : Point 𝕜 observed),
      term.Of own A y → AlwaysAccepted term.term own m x p draw) ∧
    (∀ (data : Ref (Tensor 𝕜)) (y : Point 𝕜 shape),
      (∀ m, own.sound m → (Action.readRef data).outcome m = (.ok (ofPoint y), m)) →
      AlwaysAccepted (Terms.squaredDistance data) own m x p draw) ∧
    (∀ (shape : List Nat) (own : TermState (Tensor ℝ)) (m : Memory (Tensor ℝ)) (x : Ref (Tensor ℝ))
        (p : Point ℝ shape) (draw : Tensor ℝ → Action (Tensor ℝ) (Tensor ℝ))
        (coefficients : Ref (Tensor ℝ)) (t : Tensor ℝ) (c : Point ℝ shape),
      own.Ready m → Shows own m x p →
      (∀ m, own.sound m → (Action.readRef coefficients).outcome m = (.ok t, m)) →
      Coefficients t c →
      IsGradient (cubicAt c) (cubicGradientAt c) ∧
        Measures (Terms.cubic coefficients) own m x p draw fun d h =>
          h ^ 2 * |∑ i, c i * d i ^ 3| / max |inner ℝ (cubicGradientAt c p) d| smallest) ∧
    ∀ z : Point 𝕜 shape, z ≠ 0 →
      scaled (ofPoint z) (ofPoint p) = .ok (ofPoint (scaledTo p z)) ∧
        ‖scaledTo p z‖ = if p = 0 then 1 else ‖p‖ := by
  refine ⟨?_, ?_, ?_, ?_, ?_, ?_⟩
  · intro f value D G quadratic gradient evaluates
    exact ⟨quadratic.measures gradient evaluates ready point, deviation_neg D G p⟩
  · intro f value D quadratic gradient evaluates
    exact quadratic.alwaysAccepted gradient evaluates ready point
  · intro observed term A y given
    exact (isQuadratic_misfitAt A y).alwaysAccepted (isGradient_gradientAt A y)
      given.represents.evaluates ready point
  · intro data y dataSeen
    exact (isQuadratic_distanceAt y).alwaysAccepted (isGradient_distanceAt y)
      (Terms.squaredDistance_evaluates dataSeen) ready point
  · intro shape own m x p draw coefficients t c ready point seen given
    refine ⟨isGradient_cubicAt c, fun direction d begun chosen h nonzero => ?_⟩
    have measured := measures_errorAt (Terms.cubic_evaluates seen given) ready point direction d
      begun chosen h nonzero
    rwa [errorAt_cubicAt c p d nonzero] at measured
  · intro z nonzero
    exact ⟨scaled_ofPoint nonzero p, norm_scaledTo p nonzero⟩

/-- A complex misfit checked in place at a point along another with step one half and tolerance
zero, and along a drawn direction. -/
theorem complex_misfit_is_accepted :
    let A : Matrix (Fin (Shape.size [2])) (Fin (Shape.size [2, 1])) ℂ := !![Complex.I, 0; 1, 2]
    let y : Point ℂ [2] := WithLp.toLp 2 ![1, Complex.I]
    let x : Point ℂ [2, 1] := WithLp.toLp 2 ![3, -Complex.I]
    let d : Point ℂ [2, 1] := WithLp.toLp 2 ![1, Complex.I]
    let f := (LeastSquares.ofMatrix .dense [2, 1] [2] (.const (ofMatrix A))
      (.const (ofPoint y))).term
    let check (direction : Option (Ref (Tensor ℂ))) := (agrees f (.cell ⟨0⟩) (real (1 / 2)) (real 0)
      direction fun _ => pure (ofPoint d)).outcome { cells := #[ofPoint x] }
    (∃ m', check (some (.const (ofPoint d))) = (.ok (real 1), m')) ∧
      ∃ m', check none = (.ok (real 1), m') := by
  intro A y x d f check
  have ready : TermState.nothing.Ready ({ cells := #[ofPoint x] } : Memory (Tensor ℂ)) :=
    ⟨trivial, nofun, fun _ _ => rfl⟩
  have point : Shows .nothing ({ cells := #[ofPoint x] } : Memory (Tensor ℂ)) (.cell ⟨0⟩) x :=
    ⟨Action.outcome_readRef_cell rfl, fun c _ => Set.notMem_empty c⟩
  have nonzero : d ≠ 0 := by
    intro zero
    exact one_ne_zero (congrArg (fun p : Point ℂ [2, 1] => p ⟨0, by decide⟩) zero)
  have half : (1 / 2 : ℝ) ≠ 0 := by norm_num
  obtain ⟨-, -, accepted, -⟩ :=
    checks_measure_deviation ready point fun _ => pure (ofPoint d)
  have always := accepted [2] _ A.toEuclideanLin y (.matrix .dense A y
    (fun m _ => Action.outcome_readRef_const _ m) fun m _ => Action.outcome_readRef_const _ m)
  exact ⟨always _ _ _ (.given (.const d)) _ half 0 le_rfl,
    always _ _ _ (.drawn nonzero (Action.outcome_pure _ _) ready (.refl _ _)) _ half 0 le_rfl⟩

end Measure

end GradientCheck

end ProxGrad
