import ProxGrad.Proofs.Delivery
import ProxGrad.Session.Terms

/-!
# Terms and relocation

Every term reads its data and its point, and stores one value into its destination. So it stores the
same value wherever the destination stands, as long as the arrays it refers to stay in place.
-/

set_option autoImplicit false

namespace ProxGrad

open Relocation

variable {V : Type} [Calculus V] {ρ : Relocation V}

/-- A differentiable term that delivers one gradient into any destination but its point. -/
structure SmoothTerm.Relocates (ρ : Relocation V) (f : SmoothTerm V) : Prop where
  valueAndGradient {kin : V → V → Prop} {stale : Set Cell} {x : Ref V} {out : Cell} :
    x.Avoids stale → x.Avoids {out} → ρ.Delivers kin stale out (f.valueAndGradient x out)
      (f.valueAndGradient (ρ.ref x) (ρ.image out))
  gradient {kin : V → V → Prop} {stale : Set Cell} {x : Ref V} {out : Cell} :
    x.Avoids stale → x.Avoids {out} → ρ.Delivers kin stale out (f.gradient x out)
      (f.gradient (ρ.ref x) (ρ.image out))
  value {kin : V → V → Prop} {stale : Set Cell} {x : Ref V} :
    Absorbs kin → ρ.MakesKin kin → x.Avoids stale →
      ρ.Settles kin stale stale (f.value x) (f.value (ρ.ref x))

/-- A proximal term that leaves one proximal point in any destination. -/
structure ProximalTerm.Relocates (ρ : Relocation V) (g : ProximalTerm V) : Prop where
  prox {kin : V → V → Prop} {stale : Set Cell} {y : Ref V} {out : Cell} :
    Absorbs kin → ρ.MakesKin kin → ∀ step, out ∈ ρ.own → y.Avoids stale →
      ρ.Settles kin stale (stale \ {out}) (g.prox y step out) (g.prox (ρ.ref y) step (ρ.image out))
  value {kin : V → V → Prop} {stale : Set Cell} {x : Ref V} :
    Absorbs kin → ρ.MakesKin kin → x.Avoids stale →
      ρ.Settles kin stale stale (g.value x) (g.value (ρ.ref x))

structure Objective.Relocates (ρ : Relocation V) (objective : Objective V) : Prop where
  smooth : objective.smooth.Relocates ρ
  proximal : objective.proximal.Relocates ρ

/-- A value that is computed with a gradient, which goes into a new array. -/
theorem SmoothTerm.relocates_ofValueAndGradient {f : Ref V → Cell → Action V V}
    (delivers : ∀ {kin : V → V → Prop} {stale : Set Cell} {x : Ref V} {out : Cell},
      x.Avoids stale → x.Avoids {out} →
      ρ.Delivers kin stale out (f x out) (f (ρ.ref x) (ρ.image out))) :
    (SmoothTerm.ofValueAndGradient f).Relocates ρ where
  valueAndGradient := delivers
  gradient seeable apart := (delivers seeable apart).map fun _ => ()
  value {kin stale x} absorbs makes seeable := by
    intro m₁ m₂ fresh matched
    refine (coupled_freshLike makes seeable fresh matched).bind ?_
    rintro out _ n₁ n₂ ⟨rfl, own, new, apart, matched⟩
    obtain ⟨still, other⟩ := not_or.mp new
    have evaluated := (delivers (seeable.insert apart) apart).settles absorbs own
    rw [Set.insert_sdiff_self_of_notMem other] at evaluated
    exact evaluated n₁ n₂ (not_or.mpr ⟨Ne.symm still, fresh⟩) matched

namespace Terms

theorem squaredDistance_relocates {y : Ref V} (foreign : y.Avoids ρ.own) :
    (squaredDistance y).Relocates ρ := by
  refine SmoothTerm.relocates_ofValueAndGradient fun fresh _ => ?_
  refine .bind (.readRef fresh) fun x => ?_
  refine .bind (.readRef_foreign foreign) fun y => ?_
  refine .bind (.lift _) fun r => ?_
  exact .store_lift r _

theorem diagonal_relocates {d : Ref V} (foreign : d.Avoids ρ.own) :
    (diagonal d).Relocates ρ := by
  refine SmoothTerm.relocates_ofValueAndGradient fun fresh apart => ?_
  refine .bind (.readRef_foreign foreign) fun d => ?_
  refine .bind (.readRef fresh) fun x => ?_
  refine .bind (.lift _) fun g => ?_
  exact .store_reread g fresh apart _

theorem cubic_relocates {c : Ref V} (foreign : c.Avoids ρ.own) : (cubic c).Relocates ρ := by
  refine SmoothTerm.relocates_ofValueAndGradient fun fresh apart => ?_
  refine .bind (.readRef_foreign foreign) fun c => ?_
  refine .bind (.readRef fresh) fun x => ?_
  refine .bind (.lift _) fun g => ?_
  exact .store_reread g fresh apart _

theorem scaledGradient_relocates {factor : Ref V} (foreign : factor.Avoids ρ.own) :
    (scaledGradient factor).Relocates ρ := by
  refine SmoothTerm.relocates_ofValueAndGradient fun fresh apart => ?_
  refine .bind (.readRef_foreign foreign) fun factor => ?_
  refine .bind (.readRef fresh) fun x => ?_
  refine .bind (.lift _) fun g => ?_
  exact .store_reread g fresh apart _

theorem total_relocates : (total : SmoothTerm V).Relocates ρ :=
  SmoothTerm.relocates_ofValueAndGradient fun fresh apart => .store_reread _ fresh apart _

section

variable {kin : V → V → Prop} {stale : Set Cell} {y : Ref V} {out : Cell}

theorem proxL1_delivers {weight : Ref V} (foreign : weight.Avoids ρ.own) (fresh : y.Avoids stale)
    (step : V) : ρ.Delivers kin stale out (proxL1 weight y step out)
      (proxL1 weight (ρ.ref y) step (ρ.image out)) := by
  refine .bind (.readRef fresh) fun y => ?_
  refine .bind (.lift _) fun y => ?_
  refine .bind (.readRef_foreign foreign) fun weight => ?_
  exact .bind (.lift _) fun z => .store_only z

theorem proxRidge_delivers {weight : Ref V} (foreign : weight.Avoids ρ.own)
    (fresh : y.Avoids stale) (step : V) : ρ.Delivers kin stale out (proxRidge weight y step out)
      (proxRidge weight (ρ.ref y) step (ρ.image out)) := by
  refine .bind (.readRef fresh) fun y => ?_
  refine .bind (.lift _) fun y => ?_
  refine .bind (.readRef_foreign foreign) fun weight => ?_
  exact .bind (.lift _) fun z => .store_only z

theorem proxNonNegative_delivers (fresh : y.Avoids stale) :
    ρ.Delivers kin stale out (proxNonNegative y out) (proxNonNegative (ρ.ref y) (ρ.image out)) := by
  refine .bind (.readRef fresh) fun y => ?_
  refine .bind (.lift _) fun y => ?_
  exact .bind (.lift _) fun z => .store_only z

theorem projectBox_delivers {lower upper : Ref V} (below : lower.Avoids ρ.own)
    (above : upper.Avoids ρ.own) (fresh : y.Avoids stale) :
    ρ.Delivers kin stale out (projectBox lower upper y out)
      (projectBox lower upper (ρ.ref y) (ρ.image out)) := by
  refine .bind (.readRef fresh) fun y => ?_
  refine .bind (.lift _) fun y => ?_
  refine .bind (.readRef_foreign below) fun lower => ?_
  refine .bind (.lift _) fun raised => ?_
  refine .bind (.readRef_foreign above) fun upper => ?_
  exact .bind (.lift _) fun z => .store_only z

end

end Terms

/-! ## Least squares -/

/-- Whether an operator leaves the memory as it is, and what it gives follows from the content of
these cells. -/
def LinearOperator.Reads (a : LinearOperator V) (cells : Set Cell) : Prop :=
  ∀ v m₁ m₂, (∀ c ∈ cells, Memory.content m₂ c = m₁.content c) →
    ((a.apply v).outcome m₂ = (((a.apply v).outcome m₁).1, m₂)) ∧
    ((a.adjoint v).outcome m₂ = (((a.adjoint v).outcome m₁).1, m₂))

namespace LinearOperator

variable {a : LinearOperator V} {cells : Set Cell}

omit [Calculus V] in
theorem Reads.steady (reads : a.Reads cells) (foreign : ∀ c ∈ cells, c ∉ ρ.own)
    {kin : V → V → Prop} {stale : Set Cell} (v : V) :
    ρ.Steady kin stale (a.apply v) (a.apply v) ∧
      ρ.Steady kin stale (a.adjoint v) (a.adjoint v) := by
  constructor
  all_goals
    intro m₁ m₂ matched
    have here := reads v m₁ m₁ fun _ _ => rfl
    have there := reads v m₁ m₂ fun c member => matched.foreign c (foreign c member)
  · have lifted := Steady.lift ((a.apply v).outcome m₁).1 m₁ m₂ matched
    rw [here.1, there.1]
    exact lifted
  · have lifted := Steady.lift ((a.adjoint v).outcome m₁).1 m₁ m₂ matched
    rw [here.2, there.2]
    exact lifted

end LinearOperator

namespace LeastSquares

variable {f : LeastSquares V} {cells : Set Cell} {kin : V → V → Prop} {stale : Set Cell}

theorem residual_steady (reads : f.operator.Reads cells) (foreign : ∀ c ∈ cells, c ∉ ρ.own)
    (observed : f.observed.Avoids ρ.own) {x : Ref V} (fresh : x.Avoids stale) :
    ρ.Steady kin stale (f.residual x) (f.residual (ρ.ref x)) := by
  refine .bind (.readRef fresh) fun x => ?_
  refine .bind (.lift _) fun flat => ?_
  refine .bind (reads.steady foreign flat).1 fun image => ?_
  refine .bind (.readRef_foreign observed) fun y => ?_
  exact .bind (.lift _) fun _ => .lift _

theorem term_relocates (reads : f.operator.Reads cells) (foreign : ∀ c ∈ cells, c ∉ ρ.own)
    (observed : f.observed.Avoids ρ.own) : f.term.Relocates ρ where
  valueAndGradient fresh apart := by
    refine .bind (residual_steady reads foreign observed fresh) fun r => ?_
    simp only [storeGradient, bind_assoc]
    refine .bind (reads.steady foreign r).2 fun g => ?_
    exact .bind (.lift _) fun g => .store_lift g _
  gradient fresh apart := by
    refine .bind (residual_steady reads foreign observed fresh) fun r => ?_
    refine .bind (reads.steady foreign r).2 fun g => ?_
    exact .bind (.lift _) fun g => .store_only g
  value absorbs makes fresh :=
    (Steady.bind (residual_steady reads foreign observed fresh) fun _ => .lift _).settles

end LeastSquares

/-! ## Terms of a session -/

namespace Session

/-- An object that another one is made of: itself, one in its fields, or one whose calls it counts,
at any depth. -/
inductive World.Part (w : World) (root : Handle) : Handle → Prop where
  | self : Part w root root
  | field {h part : Handle} {name : String} :
    Part w root h → w.field? h name = some part → Part w root part
  | counted {h part : Handle} {i : Instance} :
    Part w root h → w.instance? h = some i → i.body = .counting part → Part w root part

theorem World.exists_field_of_field? {w : World} {h part : Handle} {name : String}
    (found : w.field? h name = some part) :
    ∃ i, w.instance? h = some i ∧ (name, part) ∈ i.fields := by
  obtain ⟨i, instance?, lookup⟩ := Option.bind_eq_some_iff.mp found
  refine ⟨i, instance?, ?_⟩
  obtain ⟨before, after, split, -⟩ := List.lookup_eq_some_iff.mp lookup
  simp [split]

theorem World.Part.trans {w : World} {root middle h : Handle} (outer : w.Part root middle)
    (inner : w.Part middle h) : w.Part root h := by
  induction inner with
  | self => exact outer
  | field _ found ih => exact .field ih found
  | counted _ found body ih => exact .counted ih found body

/-- An object none of whose arrays are moved, new or, where it counts in them, guarded. -/
structure World.StaysPut (w : World) (ρ : Relocation Value) (root : Handle) : Prop where
  data : ∀ c, w.Part root (.data c) → c ∉ ρ.own
  counts : ∀ h c, w.Part root h → w.field? h "calls" = some (.data c) → c ∉ ρ.guarded
  operators : ∀ h i a, w.Part root h → w.instance? h = some i → i.body = .operator a →
    ∃ cells, a.Reads cells ∧ ∀ c ∈ cells, c ∉ ρ.own

/-- An object none of whose parts refers to a certain array, or to one that does not exist yet. -/
structure World.Spares (w : World) (root : Handle) (c : Cell) : Prop where
  data : ∀ d, w.Part root (.data d) → d ≠ c ∧ d.index < w.memory.cells.size
  operators : ∀ h i a, w.Part root h → w.instance? h = some i → i.body = .operator a →
    a.Reads {d | d ≠ c ∧ d.index < w.memory.cells.size}

variable {w : World} {ρ : Relocation Value} {kin : Value → Value → Prop} {stale : Set Cell}

theorem World.Spares.staysPut {root : Handle} {c : Cell} {bound : c.index < w.memory.cells.size}
    {guarded : Set Cell} (spares : w.Spares root c)
    (uncounted : ∀ h d, w.Part root h → w.field? h "calls" = some (.data d) → d ∉ guarded) :
    w.StaysPut (toEnd w.memory c bound guarded) root := by
  have foreign {d : Cell} (elsewhere : d ≠ c ∧ d.index < w.memory.cells.size) :
      d ∉ (toEnd w.memory c bound guarded).own :=
    not_or.mpr ⟨elsewhere.1, Nat.not_le.mpr elsewhere.2⟩
  exact {
    data := fun d part => foreign (spares.data d part)
    counts := uncounted
    operators := fun h i a part found body =>
      ⟨_, spares.operators h i a part found body, fun _ => foreign⟩ }

namespace World.StaysPut

variable {h : Handle} (stays : w.StaysPut ρ h)
include stays

theorem part {h' : Handle} (member : w.Part h h') : w.StaysPut ρ h' where
  data c inner := stays.data c (member.trans inner)
  counts h'' c inner := stays.counts h'' c (member.trans inner)
  operators h'' i a inner := stays.operators h'' i a (member.trans inner)

theorem refOf_avoids : (w.refOf h).Avoids ρ.own := by
  cases h with
  | data c => exact stays.data c .self
  | object index => trivial

theorem delivers_fieldRef {α : Type} {out : Cell} {name : String} {f g : Ref Value → Action Value α}
    (next : ∀ r : Ref Value, r.Avoids ρ.own → ρ.Delivers kin stale out (f r) (g r)) :
    ρ.Delivers kin stale out (w.fieldRef h name >>= f) (w.fieldRef h name >>= g) := by
  unfold World.fieldRef
  cases found : w.field? h name with
  | none => exact .throw _
  | some part => exact next _ (stays.part (.field .self found)).refOf_avoids

theorem settles_fieldRef {α : Type} {after : Set Cell} {name : String}
    {f g : Ref Value → Action Value α}
    (next : ∀ r : Ref Value, r.Avoids ρ.own → ρ.Settles kin stale after (f r) (g r)) :
    ρ.Settles kin stale after (w.fieldRef h name >>= f) (w.fieldRef h name >>= g) := by
  unfold World.fieldRef
  cases found : w.field? h name with
  | none => exact .throw _
  | some part => exact next _ (stays.part (.field .self found)).refOf_avoids

theorem steady_readField {name : String} :
    ρ.Steady kin stale (readField w h name) (readField w h name) := by
  unfold readField World.fieldRef
  cases found : w.field? h name with
  | none => exact .throw _
  | some part => exact .readRef_foreign (stays.part (.field .self found)).refOf_avoids

theorem steady_countUp : ρ.Steady kin stale (countUp w h) (countUp w h) := by
  refine .bind stays.steady_readField fun calls => ?_
  refine .bind (.lift _) fun next => ?_
  split
  case h_1 c found =>
    exact .write_foreign (stays.data c (.field .self found)) (stays.counts h c .self found) next
  case h_2 => exact .throw _

theorem steady_isSpent (limit : Value) :
    ρ.Steady kin stale (isSpent w h limit) (isSpent w h limit) :=
  .bind stays.steady_readField fun _ => .lift _

theorem steady_countCall (kind : Evaluation) {x : Ref Value} (fresh : x.Avoids stale) :
    ρ.Steady kin stale (countCall w h kind x) (countCall w h kind (ρ.ref x)) := by
  refine .bind stays.steady_readField fun limit => ?_
  have counting : ρ.Steady kin stale
      (do
        countUp w h
        let point ← Action.lift (copied (← Action.readRef x))
        Action.record (.evaluation kind point))
      (do
        countUp w h
        let point ← Action.lift (copied (← Action.readRef (ρ.ref x)))
        Action.record (.evaluation kind point)) := by
    refine .bind stays.steady_countUp fun _ => ?_
    refine .bind (.readRef fresh) fun x => ?_
    exact .bind (.lift _) fun point => .record _
  cases limit.isAbsent with
  | true => exact counting
  | false =>
    refine .bind (stays.steady_isSpent limit) fun spent => ?_
    cases spent with
    | true => exact .throw _
    | false => exact counting

end World.StaysPut

theorem failingTerm_relocates (fault : Fault) : (failingTerm fault).Relocates ρ where
  valueAndGradient _ _ := .throw fault
  gradient _ _ := .throw fault
  value _ _ _ := .throw fault

theorem exists_of_operatorOf {h : Handle} {a : LinearOperator Value}
    (found : operatorOf w h = .ok a) :
    ∃ A i, w.field? h "A" = some A ∧ w.instance? A = some i ∧ i.body = .operator a := by
  unfold operatorOf at found
  split at found
  case h_1 held =>
    cases found
    obtain ⟨A, field, instance?⟩ := Option.bind_eq_some_iff.mp held
    exact ⟨A, _, field, instance?, rfl⟩
  case h_2 => cases found

theorem exists_of_leastSquaresOf {h : Handle} {f : LeastSquares Value}
    (found : leastSquaresOf w h = .ok f) :
    ∃ A i, w.field? h "A" = some A ∧ w.instance? A = some i ∧ i.body = .operator f.operator ∧
      ∃ y, w.field? h "y" = some y ∧ f.observed = w.refOf y := by
  obtain ⟨a, operator, rest⟩ := exists_of_bind_eq_ok found
  obtain ⟨A, i, held, instance?, body⟩ := exists_of_operatorOf operator
  split at rest
  case h_1 y shape stored _ =>
    cases rest
    exact ⟨A, i, held, instance?, body, y, stored, rfl⟩
  case h_2 => cases rest

section

variable {h : Handle} (stays : w.StaysPut ρ h)
include stays

theorem withField_relocates {name : String} {f : Ref Value → SmoothTerm Value}
    (relocates : ∀ r : Ref Value, r.Avoids ρ.own → (f r).Relocates ρ) :
    (withField w h name f).Relocates ρ where
  valueAndGradient fresh apart :=
    stays.delivers_fieldRef fun r foreign => (relocates r foreign).valueAndGradient fresh apart
  gradient fresh apart :=
    stays.delivers_fieldRef fun r foreign => (relocates r foreign).gradient fresh apart
  value absorbs makes fresh :=
    stays.settles_fieldRef fun r foreign => (relocates r foreign).value absorbs makes fresh

theorem counted_relocates {inner : SmoothTerm Value} (relocates : inner.Relocates ρ) :
    (counted w h inner).Relocates ρ where
  valueAndGradient fresh apart :=
    .bind (stays.steady_countCall .valueAndGradient fresh) fun _ =>
      relocates.valueAndGradient fresh apart
  gradient fresh apart :=
    .bind (stays.steady_countCall .gradient fresh) fun _ => relocates.gradient fresh apart
  value absorbs makes fresh :=
    .bind (stays.steady_countCall .value fresh).settles fun _ =>
      relocates.value absorbs makes fresh

theorem leastSquaresTerm_relocates : (leastSquaresTerm w h).Relocates ρ := by
  unfold leastSquaresTerm
  split
  case h_1 found =>
    obtain ⟨A, i, held, instance?, body, y, stored, observed⟩ := exists_of_leastSquaresOf found
    obtain ⟨cells, reads, foreign⟩ :=
      (stays.part (.field .self held)).operators A i _ .self instance? body
    refine LeastSquares.term_relocates reads foreign ?_
    rw [observed]
    exact (stays.part (.field .self stored)).refOf_avoids
  all_goals exact failingTerm_relocates _

theorem definedTerm_relocates {i : Instance} (instance? : w.instance? h = some i)
    {nested : Handle → SmoothTerm Value}
    (relocates : ∀ part, w.StaysPut ρ part → (nested part).Relocates ρ) (owner : ClassId) :
    (definedTerm w h i.body nested owner).Relocates ρ := by
  unfold definedTerm
  split_ifs
  · exact withField_relocates stays fun _ => Terms.squaredDistance_relocates
  · exact withField_relocates stays fun _ => Terms.diagonal_relocates
  · exact withField_relocates stays fun _ => Terms.cubic_relocates
  · exact withField_relocates stays fun _ => Terms.scaledGradient_relocates
  · exact Terms.total_relocates
  · exact leastSquaresTerm_relocates stays
  · split
    case h_1 inner body =>
      exact counted_relocates stays (relocates inner (stays.part (.counted .self instance? body)))
    case h_2 => exact failingTerm_relocates _

end

theorem smoothTermWithin_relocates (fuel : Nat) {h : Handle} (stays : w.StaysPut ρ h) :
    (smoothTermWithin w fuel h).Relocates ρ := by
  induction fuel generalizing h with
  | zero => exact failingTerm_relocates _
  | succ fuel ih =>
    rw [smoothTermWithin]
    cases found : w.instance? h with
    | none => exact failingTerm_relocates _
    | some i =>
      dsimp -zeta only
      extract_lets defined own derived
      have relocates (m : Method) : (own m).Relocates ρ := by
        dsimp only [own]
        split
        case h_1 owner _ => exact definedTerm_relocates stays found (fun _ => ih) owner
        case h_2 => exact failingTerm_relocates _
      have derived_relocates : derived.Relocates ρ :=
        SmoothTerm.relocates_ofValueAndGradient (relocates .valueAndGradient).valueAndGradient
      refine ⟨(relocates .valueAndGradient).valueAndGradient, fun fresh apart => ?_,
        fun absorbs makes fresh => ?_⟩
      · dsimp only
        split_ifs
        · exact derived_relocates.gradient fresh apart
        · exact (relocates .gradient).gradient fresh apart
      · dsimp only
        split_ifs
        · exact derived_relocates.value absorbs makes fresh
        · exact (relocates .value).value absorbs makes fresh

theorem smoothTerm_relocates {h : Handle} (stays : w.StaysPut ρ h) :
    (smoothTerm w h).Relocates ρ :=
  smoothTermWithin_relocates _ stays

/-! ## Values of other terms -/

section

variable {x : Ref Value} (absorbs : Absorbs kin) (makes : ρ.MakesKin kin) (fresh : x.Avoids stale)
include absorbs makes fresh

theorem definedValue_settles {h : Handle} (stays : w.StaysPut ρ h)
    {nested : Handle → Ref Value → Action Value Value}
    (settles : ∀ part, w.StaysPut ρ part →
      ρ.Settles kin stale stale (nested part x) (nested part (ρ.ref x))) (owner : ClassId) :
    ρ.Settles kin stale stale (definedValue w h nested owner x)
      (definedValue w h nested owner (ρ.ref x)) := by
  unfold definedValue
  split_ifs
  · refine stays.settles_fieldRef fun weight foreign => Steady.settles ?_
    exact .bind (.readRef fresh) fun x => .bind (.readRef_foreign foreign) fun weight => .lift _
  · refine stays.settles_fieldRef fun weight foreign => Steady.settles ?_
    exact .bind (.readRef fresh) fun x => .bind (.readRef_foreign foreign) fun weight => .lift _
  · refine Steady.settles ?_
    refine .bind (.readRef fresh) fun x => .bind (.lift _) fun negative => ?_
    exact .bind (.lift _) fun found => .pure _
  · exact (Steady.pure _).settles
  · exact (Steady.bind (.readRef fresh) fun x => .lift _).settles
  · exact .throw _
  · cases first : w.field? h "diff" with
    | none => exact .throw _
    | some diff =>
      cases second : w.field? h "prox" with
      | none => exact .throw _
      | some prox =>
        have smooth := smoothTerm_relocates (stays.part (.field .self first))
        refine .bind (smooth.value absorbs makes fresh) fun f => ?_
        refine .bind (settles prox (stays.part (.field .self second))) fun g => ?_
        exact (Steady.lift _).settles
  · exact .throw _

theorem termValueWithin_settles (fuel : Nat) {h : Handle} (stays : w.StaysPut ρ h) :
    ρ.Settles kin stale stale (termValueWithin w fuel h x)
      (termValueWithin w fuel h (ρ.ref x)) := by
  induction fuel generalizing h with
  | zero => exact .throw _
  | succ fuel ih =>
    refine .bind (Steady.lift _).settles fun owner => ?_
    exact definedValue_settles absorbs makes fresh stays (fun _ => ih) owner

end

end Session

end ProxGrad
