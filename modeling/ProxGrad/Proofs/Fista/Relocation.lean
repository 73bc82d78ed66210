import ProxGrad.Proofs.RelocatedTerms
import ProxGrad.Solver.Fista

/-!
# Runs on another array

A run of the accelerated method does the same on whichever array it works, as long as that is no
array of a term and not the history: it gives the same faults, leaves the same iterate and history,
and makes the same calls. The arrays that it allocates may hold anything at first, because each is
stored into before it is read.
-/

set_option autoImplicit false

namespace ProxGrad

namespace Fista

open Relocation

variable {V : Type} [Calculus V] {ρ : Relocation V} {kin : V → V → Prop} {stale : Set Cell}
  {m₁ m₂ : Memory V} {objective : Objective V} {plan : Plan V} {w : Workspace V}

def Workspace.relocated (ρ : Relocation V) (w : Workspace V) : Workspace V :=
  { w with
    iterate := ρ.image w.iterate
    proximal := ρ.image w.proximal
    gradient := ρ.image w.gradient }

/-- The arrays of a run that is relocated: the iterate is the moved one, and the others are that one
or new ones. -/
structure Workspace.Own (ρ : Relocation V) (w : Workspace V) : Prop where
  iterate : w.iterate = ρ.moved
  proximal : w.proximal ∈ ρ.own
  gradient : w.gradient ∈ ρ.own
  apart : w.gradient ≠ ρ.moved

/-- A history that stays in place and is not among the cells that must not change. -/
def Plan.StaysPut (plan : Plan V) (ρ : Relocation V) : Prop :=
  ∀ c, plan.history = some c → c ∉ ρ.own ∧ c ∉ ρ.guarded

section

variable (absorbs : Absorbs kin) (makes : ρ.MakesKin kin) (relocates : objective.Relocates ρ)
  (history : Plan.StaysPut plan ρ) (own : w.Own ρ)

/-! ## One iteration -/

omit [Calculus V] in
theorem announce_steady (n : Nat) (value : V) :
    ρ.Steady kin stale (announce plan n value) (announce plan n value) := by
  unfold announce
  split
  · exact .report _ _
  · exact .pure _

include history in
theorem remember_steady (n : Nat) (value : V) :
    ρ.Steady kin stale (remember plan n value) (remember plan n value) := by
  unfold remember
  split
  case h_1 c noted =>
    obtain ⟨foreign, free⟩ := history c noted
    have read : ρ.Steady kin stale (Action.readRef (.cell c)) (Action.readRef (.cell c)) :=
      .readRef_foreign foreign
    exact .bind read fun values => .bind (.lift _) fun next => .write_foreign foreign free next
  case h_2 => exact .pure _

include absorbs relocates history own

theorem evaluate_settles (n : Nat) (fresh : ρ.moved ∉ stale) :
    ρ.Settles kin stale (stale \ {w.gradient}) (evaluate objective plan w n)
      (evaluate objective plan (w.relocated ρ) n) := by
  have seeable : Ref.Avoids stale (.cell w.iterate : Ref V) := by rw [own.iterate]; exact fresh
  have apart : Ref.Avoids {w.gradient} (.cell w.iterate : Ref V) := by
    rw [own.iterate]
    exact own.apart.symm
  intro m₁ m₂ _ matched
  unfold evaluate
  split
  · have evaluated :=
      (relocates.smooth.valueAndGradient seeable apart).settles absorbs own.gradient
    refine (evaluated m₁ m₂ fresh matched).bind ?_
    rintro value _ n₁ n₂ ⟨rfl, matched⟩
    have noted : ρ.Steady kin (stale \ {w.gradient})
        (do remember plan n value; announce plan n value)
        (do remember plan n value; announce plan n value) :=
      .bind (remember_steady history n value) fun _ => announce_steady n value
    exact noted.settles n₁ n₂ (fun inside => fresh inside.1) matched
  · exact (relocates.smooth.gradient seeable apart).settles absorbs own.gradient m₁ m₂ fresh matched

include makes

omit history in
theorem proximalStep_settles (fresh : ρ.moved ∉ stale) (fresh' : w.gradient ∉ stale) :
    ρ.Settles kin stale (stale \ {w.proximal}) (proximalStep objective w)
      (proximalStep objective (w.relocated ρ)) := by
  have seeable : w.iterate ∉ stale := by rw [own.iterate]; exact fresh
  refine .bind (Steady.read seeable).settles fun x => ?_
  refine .bind (Steady.read fresh').settles fun g => ?_
  refine .bind (Steady.lift _).settles fun y => ?_
  refine .bind (Steady.lift _).settles fun step => ?_
  have point : Ref.Avoids stale (.const y) := trivial
  exact relocates.proximal.prox absorbs makes step own.proximal point

omit relocates history makes in
theorem accelerate_settles (n : Nat) (s : State V) (fresh : w.proximal ∉ stale) :
    ρ.Settles kin stale (stale \ {w.iterate}) (accelerate plan w n s)
      (accelerate plan (w.relocated ρ) n s) := by
  have delivers : ρ.Delivers kin stale w.iterate (accelerate plan w n s)
      (accelerate plan (w.relocated ρ) n s) := by
    refine .bind (.lift _) fun next => ?_
    refine .bind (.read fresh) fun z => ?_
    refine .bind (.lift _) fun y => ?_
    generalize Calculus.store s.previous z = kept
    obtain ⟨previous, kept⟩ := kept
    cases kept with
    | error fault => exact .store_lift y (.error fault)
    | ok _ => exact .store_lift y (.ok (s.advance plan w next previous))
  exact delivers.settles absorbs (own.iterate ▸ ρ.moved_own)

theorem coupled_iteration (n : Nat) (s : State V) (alike : ρ.Alike kin m₁ m₂) :
    Coupled (fun s s' n₁ n₂ => s = s' ∧ ρ.Alike kin n₁ n₂) (ρ.Alike kin)
      ((iteration objective plan w n s).outcome m₁)
      ((iteration objective plan (w.relocated ρ) n s).outcome m₂) := by
  obtain ⟨stale, fresh, matched⟩ := alike
  have evaluated := evaluate_settles absorbs relocates history own n fresh m₁ m₂ fresh matched
  refine evaluated.bind ?_
  rintro _ _ n₁ n₂ ⟨-, matched⟩
  have fresh₁ : ρ.moved ∉ stale \ {w.gradient} := fun inside => fresh inside.1
  have stepped := proximalStep_settles absorbs makes relocates own fresh₁
    (fun inside => inside.2 rfl) n₁ n₂ fresh₁ matched
  refine stepped.bind ?_
  rintro _ _ n₁ n₂ ⟨-, matched⟩
  have fresh₂ : ρ.moved ∉ (stale \ {w.gradient}) \ {w.proximal} := fun inside => fresh₁ inside.1
  cases plan.accelerated with
  | false => exact .ok ⟨rfl, matched.alike fresh₂⟩
  | true =>
    refine Coupled.mono (accelerate_settles absorbs own n s (fun inside => inside.2 rfl)
      n₁ n₂ fresh₂ matched) ?_ fun _ _ alike => alike
    rintro s _ n₁ n₂ ⟨rfl, matched⟩
    exact ⟨rfl, matched.alike fun inside => fresh₂ inside.1⟩

/-! ## Whole runs -/

theorem coupled_afterIterations (s : State V) (n : Nat) (alike : ρ.Alike kin m₁ m₂) :
    Coupled (fun s s' n₁ n₂ => s = s' ∧ ρ.Alike kin n₁ n₂) (ρ.Alike kin)
      ((afterIterations objective plan w s n).outcome m₁)
      ((afterIterations objective plan (w.relocated ρ) s n).outcome m₂) := by
  induction n with
  | zero => exact .ok ⟨rfl, alike⟩
  | succ n ih =>
    refine ih.bind ?_
    rintro s _ n₁ n₂ ⟨rfl, alike⟩
    exact coupled_iteration absorbs makes relocates history own (n + 1) s alike

end

/-- Workspaces and states of runs on the moved cell and on its image. -/
def Paired (ρ : Relocation V) (p q : Workspace V × State V) : Prop :=
  q = (p.1.relocated ρ, p.2) ∧ p.1.Own ρ

section

variable (makes : ρ.MakesKin kin)
include makes

theorem coupled_proximalArray (matched : ρ.Matches kin stale m₁ m₂) (fresh : ρ.moved ∉ stale) :
    Coupled (fun c d n₁ n₂ => d = ρ.image c ∧ c ∈ ρ.own ∧ ρ.Alike kin n₁ n₂) (ρ.Alike kin)
      ((proximalArray plan ρ.moved).outcome m₁)
      ((proximalArray plan (ρ.image ρ.moved)).outcome m₂) := by
  unfold proximalArray
  cases plan.accelerated with
  | false => exact .ok ⟨rfl, ρ.moved_own, matched.alike fresh⟩
  | true =>
    have seeable : Ref.Avoids stale (.cell ρ.moved : Ref V) := fresh
    refine (coupled_freshLike makes seeable fresh matched).mono ?_ fun _ _ alike => alike
    rintro c d n₁ n₂ ⟨image, own, -, apart, matched⟩
    exact ⟨image, own, matched.alike (not_or.mpr ⟨apart, fresh⟩)⟩

theorem coupled_prepare (lipschitz : V) (alike : ρ.Alike kin m₁ m₂) :
    Coupled (fun p q n₁ n₂ => Paired ρ p q ∧ ρ.Alike kin n₁ n₂) (ρ.Alike kin)
      ((prepare plan ρ.moved lipschitz).outcome m₁)
      ((prepare plan (ρ.image ρ.moved) lipschitz).outcome m₂) := by
  obtain ⟨stale, fresh, matched⟩ := alike
  refine ((Steady.read fresh).settles m₁ m₂ fresh matched).bind ?_
  rintro start _ n₁ n₂ ⟨rfl, matched⟩
  refine (coupled_proximalArray makes matched fresh).bind ?_
  rintro proximal _ n₁ n₂ ⟨rfl, inside, stale, fresh, matched⟩
  have seeable : Ref.Avoids stale (.cell ρ.moved : Ref V) := fresh
  refine (coupled_freshLike makes seeable fresh matched).bind ?_
  rintro gradient _ n₁ n₂ ⟨rfl, inside', -, apart, matched⟩
  have fresh' : ρ.moved ∉ insert gradient stale := not_or.mpr ⟨apart, fresh⟩
  refine ((Steady.lift _).settles n₁ n₂ fresh' matched).bind ?_
  rintro lipschitz _ n₁ n₂ ⟨rfl, matched⟩
  refine ((Steady.lift _).settles n₁ n₂ fresh' matched).bind ?_
  rintro one _ n₁ n₂ ⟨rfl, matched⟩
  exact .ok ⟨⟨rfl, rfl, inside, inside', Ne.symm apart⟩, matched.alike fresh'⟩

theorem coupled_setUp (alike : ρ.Alike kin m₁ m₂) :
    Coupled (fun p q n₁ n₂ => p.1 = q.1 ∧ Paired ρ p.2 q.2 ∧ ρ.Alike kin n₁ n₂)
      (ρ.Alike kin) ((setUp plan ρ.moved).outcome m₁)
      ((setUp plan (ρ.image ρ.moved)).outcome m₂) := by
  obtain ⟨stale, fresh, matched⟩ := alike
  refine ((Steady.read fresh).settles m₁ m₂ fresh matched).bind ?_
  rintro start _ n₁ n₂ ⟨rfl, matched⟩
  refine ((Steady.lift _).settles n₁ n₂ fresh matched).bind ?_
  rintro ⟨iterations, lipschitz⟩ _ n₁ n₂ ⟨rfl, matched⟩
  refine (coupled_prepare makes lipschitz (matched.alike fresh)).bind ?_
  rintro ⟨w, s⟩ ⟨w', s'⟩ n₁ n₂ ⟨paired, alike⟩
  exact .ok ⟨rfl, paired, alike⟩

/-- A run on the moved cell, and one on its image from the same content: they fail alike or give the
cell and its image back, and in the end both hold the same. -/
theorem coupled_minimize (absorbs : Absorbs kin) (relocates : objective.Relocates ρ)
    (history : Plan.StaysPut plan ρ) (alike : ρ.Alike kin m₁ m₂) :
    Coupled (fun c d n₁ n₂ => c = ρ.moved ∧ d = ρ.image ρ.moved ∧ ρ.Alike kin n₁ n₂)
      (ρ.Alike kin) ((minimize (pure objective) plan ρ.moved).outcome m₁)
      ((minimize (pure objective) plan (ρ.image ρ.moved)).outcome m₂) := by
  refine (coupled_setUp makes alike).bind ?_
  rintro ⟨iterations, w, s⟩ ⟨_, w', s'⟩ n₁ n₂ ⟨rfl, ⟨paired, own⟩, alike⟩
  cases paired
  refine (coupled_afterIterations absorbs makes relocates history own s iterations alike).bind ?_
  rintro _ _ n₁ n₂ ⟨-, alike⟩
  exact .ok ⟨rfl, rfl, alike⟩

end

end Fista

end ProxGrad
