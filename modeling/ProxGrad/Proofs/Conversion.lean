import ProxGrad.Proofs.Nearest
import ProxGrad.Value.Array

/-!
# Faults of conversion

A value that has no entry of a floating type is refused with its defect, except for the integers and
ratios that no finite number is nearest to: these leave the conversion as overflows. Where the
element type is found from the values themselves, it holds all of them, and nothing overflows.
-/

set_option autoImplicit false

namespace ProxGrad

/-! ## Outcomes -/

def Fault.IsConversion (fault : Fault) : Prop :=
  ∃ defect, fault = .conversion defect

/-- A result with a property, or a fault with another. -/
def Outcome {α : Type} (fails : Fault → Prop) (gives : α → Prop) : Except Fault α → Prop
  | .ok x => gives x
  | .error fault => fails fault

namespace Outcome

variable {α β : Type} {fails fails' : Fault → Prop} {gives gives' : α → Prop} {after : β → Prop}

theorem mono {a : Except Fault α} (outcome : Outcome fails gives a)
    (fault : ∀ fault, fails fault → fails' fault) (result : ∀ x, gives x → gives' x) :
    Outcome fails' gives' a := by
  cases a with
  | ok x => exact result x outcome
  | error f => exact fault f outcome

theorem bind {a : Except Fault α} {next : α → Except Fault β} (first : Outcome fails gives a)
    (rest : ∀ x, gives x → Outcome fails after (next x)) : Outcome fails after (a >>= next) := by
  cases a with
  | ok x => exact rest x first
  | error f => exact first

theorem map {a : Except Fault α} {f : α → β} (outcome : Outcome fails (fun x => after (f x)) a) :
    Outcome fails after (a.map f) := by
  cases a <;> exact outcome

theorem mapM {f : α → Except Fault β} {xs : List α}
    (each : ∀ x ∈ xs, Outcome fails (fun _ => True) (f x)) :
    Outcome fails (fun _ => True) (xs.mapM f) := by
  induction xs with
  | nil => trivial
  | cons x xs ih =>
    rw [List.mapM_cons]
    refine (each x List.mem_cons_self).bind fun _ _ => ?_
    exact (ih fun y member => each y (List.mem_cons_of_mem x member)).bind fun _ _ => trivial

end Outcome

/-! ## Numbers without a nearest finite one -/

namespace Scalar

/-- A number of its own that is too large for a floating type: an integer or a ratio that the format
in which it is read makes infinite. A real type reads the only entry of an array like the entry
itself. -/
inductive TooLarge : DType → Scalar → Prop
  | int {d : DType} {p : Precision} {i : ℤ} (kind : d.realPart = .real p)
      (beyond : p.reading.format.infiniteFrom ≤ |(i : ℝ)|) : TooLarge d (.int i)
  | ratio {d : DType} {num : ℤ} {den : ℕ} (beyond : Format.double.infiniteFrom ≤ |(num : ℝ)| / den) :
      TooLarge d (.ratio num den)
  | only {p : Precision} {e : DType} {x : Scalar} (inside : TooLarge (.real p) x) :
      TooLarge (.real p) (.table e [] [x])

/-- An entry, a defect, or an overflow exactly of a number that is too large. -/
inductive Converts (large : Prop) : Except Fault Scalar → Prop
  | done {y : Scalar} (small : ¬ large) : Converts large (.ok y)
  | refused {defect : ConversionDefect} (small : ¬ large) :
      Converts large (.error (.conversion defect))
  | exceeds (beyond : large) : Converts large (.error .overflow)

theorem converts_realInRange {p : Precision} {f : Format} {s : Bool} {v : ℝ} {r : Binary}
    (precise : 0 < f.precision) (ranged : 2 ≤ f.maxExponent) (rounds : Binary.Rounds f s v r) :
    Converts (f.infiniteFrom ≤ v) (realInRange p r) := by
  have infinite := rounds.eq_infinite_iff precise ranged
  obtain ⟨q, t, nearest, ⟨rfl, beyond⟩ | ⟨m, e, rfl, normal, same⟩⟩ := rounds
  · exact .exceeds (infinite.mp rfl)
  · exact .done fun high => Binary.noConfusion (infinite.mpr high)

theorem Converts.congr {large large' : Prop} {a : Except Fault Scalar} (converts : Converts large a)
    (same : large' ↔ large) : Converts large' a := by
  cases converts with
  | done small => exact .done (mt same.mp small)
  | refused small => exact .refused (mt same.mp small)
  | exceeds beyond => exact .exceeds (same.mpr beyond)

theorem Converts.map {large : Prop} {a : Except Fault Scalar} (converts : Converts large a)
    (f : Scalar → Scalar) : Converts large (a.map f) := by
  cases converts with
  | done small => exact .done small
  | refused small => exact .refused small
  | exceeds beyond => exact .exceeds beyond

theorem double_precise : 0 < Format.double.precision ∧ 2 ≤ Format.double.maxExponent := by decide

theorem reading_precise (p : Precision) :
    0 < p.reading.format.precision ∧ 2 ≤ p.reading.format.maxExponent := by
  cases p <;> decide

theorem converts_int (p : Precision) (i : ℤ) :
    Converts (TooLarge (.real p) (.int i)) (realOfValue p (.int i)) := by
  obtain ⟨precise, ranged⟩ := reading_precise p
  rw [realOfValue]
  refine (converts_realInRange precise ranged (Binary.rounds_ofInt precise ranged i)).congr
    ⟨fun large => ?_, .int rfl⟩
  cases large with
  | int kind beyond =>
    cases kind
    exact beyond

theorem converts_ratio (p : Precision) (num : ℤ) (den : ℕ) :
    Converts (TooLarge (.real p) (.ratio num den)) (realOfValue p (.ratio num den)) := by
  obtain ⟨precise, ranged⟩ := double_precise
  rw [realOfValue]
  have same : TooLarge (.real p) (.ratio num den) ↔
      Format.double.infiniteFrom ≤ |(num : ℝ)| / den := by
    refine ⟨fun large => ?_, .ratio⟩
    cases large with
    | ratio beyond => exact beyond
  by_cases positive : den = 0
  · subst positive
    rw [Binary.ofRatio, Nat.div_zero, Binary.round, if_pos rfl]
    refine .done fun large => ?_
    have high := same.mp large
    rw [Nat.cast_zero, div_zero] at high
    have low : 0 < Format.double.zeroUpTo := Binary.two_zpow_pos _
    exact absurd (low.trans (Format.double.zeroUpTo_lt_infiniteFrom precise ranged)) high.not_gt
  · have rounds : Binary.Rounds .double (num < 0) (num.natAbs / den)
        (Binary.ofRatio .double (num < 0) num.natAbs den) :=
      Binary.rounds_ofRatio precise ranged positive
    rw [Nat.cast_natAbs, Int.cast_abs] at rounds
    exact (converts_realInRange precise ranged rounds).congr same

theorem converts_realOfText (p : Precision) (s : String) {large : Prop} (small : ¬ large) :
    Converts large (realOfValue p (.text s)) := by
  rw [realOfValue]
  split
  · exact .done small
  · exact .refused small

/-- The outcomes of a value of its own as an entry of a real type. -/
theorem converts_realOfValue (p : Precision) (x : Scalar) :
    Converts (TooLarge (.real p) x) (realOfValue p x) := by
  cases x with
  | bool b =>
    rw [realOfValue]
    cases b <;> exact .done nofun
  | int i => exact converts_int p i
  | ratio num den => exact converts_ratio p num den
  | real | absent =>
    rw [realOfValue]
    exact .done nofun
  | text s => exact converts_realOfText p s nofun
  | decimal d =>
    rcases d with n | s | ⟨s, signaling, payload⟩
    · rw [realOfValue]
      exact .done nofun
    · rw [realOfValue]
      exact .done nofun
    · rw [realOfValue]
      split
      · exact .refused nofun
      · exact .done nofun
  | number d x =>
    cases x with
    | text s =>
      rw [realOfValue]
      exact converts_realOfText p s nofun
    | _ => exact .done nofun
  | table d shape entries =>
    match shape, entries with
    | [], [x] =>
      rw [realOfValue, realOfOnly]
      refine (converts_realOfValue p x).congr ⟨fun large => ?_, .only⟩
      cases large with
      | only inside => exact inside
    | [], [] | [], _ :: _ :: _ | _ :: _, _ => exact .refused nofun
  | brokenText | list | tuple | complex | dict | foreign => exact .refused nofun
termination_by sizeOf x

theorem converts_complexOfText (p : Precision) (s : String) {large : Prop} (small : ¬ large) :
    Converts large (complexOfText p s) := by
  rw [complexOfText]
  split
  · exact .done small
  · split
    · exact .refused small
    · exact .refused small

/-- The outcomes of a value of its own as an entry of a complex type. -/
theorem converts_complexOfValue (p : Precision) (x : Scalar) :
    Converts (TooLarge (.complex p) x) (complexOfValue p x) := by
  have number (same : TooLarge (.complex p) x ↔ TooLarge (.real p) x) :
      Converts (TooLarge (.complex p) x) ((realOfValue p x).map (cast (.complex p))) :=
    ((converts_realOfValue p x).congr same).map _
  cases x with
  | bool | real | decimal => exact number ⟨nofun, nofun⟩
  | int i =>
    refine number ⟨fun large => ?_, fun large => ?_⟩ <;>
    · cases large with
      | int kind beyond =>
        cases kind
        exact .int rfl beyond
  | ratio num den =>
    refine number ⟨fun large => ?_, fun large => ?_⟩ <;>
    · cases large with
      | ratio beyond => exact .ratio beyond
  | complex | absent => exact .done nofun
  | text s => exact converts_complexOfText p s nofun
  | number d x =>
    cases x with
    | text s => exact converts_complexOfText p s nofun
    | _ => exact .done nofun
  | table d shape entries =>
    match shape, entries with
    | [], [x] =>
      cases x with
      | text s => exact converts_complexOfText p s nofun
      | _ => exact .done nofun
    | [], x :: _ :: _ => cases x <;> exact .refused nofun
    | [], [] | _ :: _, _ => exact .refused nofun
  | brokenText | list | tuple | dict | foreign => exact .refused nofun

theorem converts_ofValue {d : DType} (floating : d.isInexact = true) (x : Scalar) :
    Converts (TooLarge d x) (ofValue d x) := by
  cases d with
  | real p => exact converts_realOfValue p x
  | complex p => exact converts_complexOfValue p x
  | _ => cases floating

end Scalar

namespace Value

/-- A leaf that is too large for a floating type. A number with a numeric element type never is: it
is cut to the new type. -/
def TooLarge (d : DType) : Value → Prop
  | .scalar .object x | .scalar (.text _) x => x.TooLarge d
  | v => v.toEntry.TooLarge d

theorem converts_entryAs {d : DType} (floating : d.isInexact = true) (v : Value)
    (leaf : ∀ a, v ≠ .array a) : Scalar.Converts (v.TooLarge d) (entryAs d v) := by
  have read (x : Scalar) := Scalar.converts_ofValue floating x
  cases d with
  | real p | complex p =>
    cases v with
    | array a => exact absurd rfl (leaf a)
    | scalar e x =>
      cases e with
      | object | text => exact read x
      | _ => exact .done nofun
    | _ => exact read _
  | _ => cases floating

end Value

/-! ## Types found from the values -/

namespace DType

theorem promote_comm (d e : DType) : d.promote e = e.promote d := by
  have joined (p q : Precision) : p.join q = q.join p := by cases p <;> cases q <;> rfl
  cases d with
  | int s m =>
    cases e with
    | int t n => cases s <;> cases t <;> simp [promote, Nat.max_comm]
    | _ => cases s <;> rfl
  | text m =>
    cases e with
    | text n => simp [promote, textWidth, Nat.max_comm]
    | _ => rfl
  | real p | complex p =>
    cases e with
    | real q | complex q => simp [promote, joined p q]
    | _ => rfl
  | _ => cases e <;> rfl

theorem holds_signed {bits : ℕ} {i : ℤ} :
    holds true bits i = true ↔ -(2 ^ (bits - 1) : ℕ) ≤ i ∧ i < (2 ^ (bits - 1) : ℕ) := by
  simp [holds]

theorem holds_unsigned {bits : ℕ} {i : ℤ} :
    holds false bits i = true ↔ 0 ≤ i ∧ i < (2 ^ bits : ℕ) := by
  simp [holds]

theorem holds_mono {signed : Bool} {m n : ℕ} {i : ℤ} (held : holds signed m i = true)
    (wider : m ≤ n) : holds signed n i = true := by
  cases signed with
  | true =>
    have range : 2 ^ (m - 1) ≤ 2 ^ (n - 1) := Nat.pow_le_pow_right (by decide) (by omega)
    rw [holds_signed] at held ⊢
    omega
  | false =>
    have range : 2 ^ m ≤ 2 ^ n := Nat.pow_le_pow_right (by decide) wider
    rw [holds_unsigned] at held ⊢
    omega

theorem holds_signed_of_unsigned {m n : ℕ} {i : ℤ} (held : holds false m i = true)
    (wider : m ≤ n - 1) : holds true n i = true := by
  have range : 2 ^ m ≤ 2 ^ (n - 1) := Nat.pow_le_pow_right (by decide) wider
  rw [holds_unsigned] at held
  rw [holds_signed]
  omega

/-- A type that holds a leaf, the number being in its range or without bounds to it. -/
inductive Fits : DType → Value → Prop
  | any {v : Value} : Fits .object v
  | written {n : ℕ} {v : Value} : Fits (.text n) v
  | cut {d e : DType} {x : Scalar} (numeric : e ≠ .object) (told : ∀ n, e ≠ .text n) :
      Fits d (.scalar e x)
  | truth {d : DType} {b : Bool} : Fits d (.bool b)
  | held {signed : Bool} {bits : ℕ} {i : ℤ} (held : holds signed bits i = true)
      (small : i.natAbs ≤ 2 ^ 64) : Fits (.int signed bits) (.int i)
  | rounded {d : DType} {i : ℤ} (floating : d.isInexact = true) (small : i.natAbs ≤ 2 ^ 64) :
      Fits d (.int i)
  | real {d : DType} {x : Binary} (floating : d.isInexact = true) : Fits d (.real x)
  | complex {d : DType} {re im : Binary} (floating : d.isInexact = true) :
      Fits d (.complex re im)

/-- The smallest type that holds the values of a type and others holds those of the type. -/
theorem fits_promote {d : DType} {v : Value} (fits : d.Fits v) (e : DType) :
    (d.promote e).Fits v := by
  cases fits with
  | any => cases e <;> exact .any
  | written => cases e <;> first | exact .written | exact .any
  | cut numeric told => exact .cut numeric told
  | truth => exact .truth
  | @held signed bits i held small =>
    cases e with
    | bool => cases signed <;> exact .held held small
    | int other n =>
      cases signed with
      | true =>
        cases other with
        | true => exact .held (holds_mono held (Nat.le_max_left bits n)) small
        | false =>
          rw [promote]
          split_ifs with narrow fits
          · exact .held held small
          · exact .held (holds_mono held (by omega)) small
          · exact .rounded rfl small
      | false =>
        cases other with
        | true =>
          rw [promote]
          split_ifs with narrow fits
          · exact .held (holds_signed_of_unsigned held (by omega)) small
          · exact .held (holds_signed_of_unsigned held (by omega)) small
          · exact .rounded rfl small
        | false => exact .held (holds_mono held (Nat.le_max_left bits n)) small
    | real | complex => cases signed <;> exact .rounded rfl small
    | text => cases signed <;> exact .written
    | object => cases signed <;> exact .any
  | rounded floating small =>
    cases d with
    | real | complex => cases e <;> first | exact .rounded rfl small | exact .written | exact .any
    | _ => cases floating
  | real floating =>
    cases d with
    | real | complex => cases e <;> first | exact .real rfl | exact .written | exact .any
    | _ => cases floating
  | complex floating =>
    cases d with
    | real | complex => cases e <;> first | exact .complex rfl | exact .written | exact .any
    | _ => cases floating

theorem fits_ownType (v : Value) (leaf : ∀ a, v ≠ .array a) : v.toEntry.ownType.Fits v := by
  cases v with
  | int i =>
    change DType.Fits (if holds true 64 i then .int64 else if holds false 64 i then .int false 64
      else .object) _
    split_ifs with signed unsigned
    · refine .held signed ?_
      rw [holds_signed] at signed
      omega
    · refine .held unsigned ?_
      rw [holds_unsigned] at unsigned
      omega
    · exact .any
  | scalar d x =>
    change DType.Fits d _
    cases d with
    | object => exact .any
    | text => exact .written
    | _ => exact .cut DType.noConfusion fun _ => DType.noConfusion
  | bool => exact .truth
  | real => exact .real rfl
  | complex => exact .complex rfl
  | text | brokenText => exact .written
  | array a => exact absurd rfl (leaf a)
  | _ => exact .any

theorem fits_foldl {d : DType} {v : Value} (fits : d.Fits v) (ds : List DType) :
    (ds.foldl promote d).Fits v := by
  induction ds generalizing d with
  | nil => exact fits
  | cons e ds ih => exact ih (fits_promote fits e)

/-- The common type of several holds the values of each. -/
theorem fits_joinTypes {d : DType} {v : Value} {ds : List DType} (member : d ∈ ds)
    (fits : d.Fits v) : (Value.joinTypes ds).Fits v := by
  cases ds with
  | nil => cases member
  | cons e ds =>
    rw [Value.joinTypes]
    induction ds generalizing e with
    | nil =>
      obtain rfl := List.mem_singleton.mp member
      exact fits
    | cons e' ds ih =>
      rcases List.mem_cons.mp member with rfl | later
      · exact fits_foldl (fits_promote fits e') ds
      rcases List.mem_cons.mp later with rfl | later
      · rw [List.foldl_cons, promote_comm]
        exact fits_foldl (fits_promote fits e) ds
      · rw [List.foldl_cons]
        exact ih _ (List.mem_cons_of_mem _ later)

end DType

namespace Value

theorem not_tooLarge_of_fits {d : DType} {v : Value} (fits : d.Fits v)
    (floating : d.isInexact = true) : ¬ v.TooLarge d := by
  cases fits with
  | any | written | held => cases floating
  | @cut d e x numeric told =>
    cases e with
    | object => exact absurd rfl numeric
    | text n => exact absurd rfl (told n)
    | _ => exact nofun
  | truth | real | complex => exact nofun
  | @rounded d i floating small =>
    rintro (⟨kind, beyond⟩ | _)
    rename_i p
    obtain ⟨precise, wide⟩ : 0 < p.reading.format.precision ∧
        65 < p.reading.format.maxExponent := by cases p <;> decide
    have high := (p.reading.format.two_zpow_le_infiniteFrom precise).trans beyond
    have range : (2 : ℝ) ^ (65 : ℤ) ≤ 2 ^ ((p.reading.format.maxExponent : ℤ) - 1) :=
      Binary.two_zpow_le (by omega)
    have few : |(i : ℝ)| ≤ 2 ^ 64 := by
      rw [← Int.cast_abs, Int.abs_eq_natAbs]
      exact_mod_cast small
    norm_num at range few
    linarith

/-- A leaf of a type that holds it has an entry of the type, or a defect. -/
theorem outcome_entryAs_of_fits {d : DType} {v : Value} (fits : d.Fits v)
    (leaf : ∀ a, v ≠ .array a) : Outcome Fault.IsConversion (fun _ => True) (entryAs d v) := by
  by_cases floating : d.isInexact = true
  · have converts := converts_entryAs floating v leaf
    cases outcome : entryAs d v with
    | ok y => trivial
    | error fault =>
      rw [outcome] at converts
      cases converts with
      | refused => exact ⟨_, rfl⟩
      | exceeds beyond => exact absurd beyond (not_tooLarge_of_fits fits floating)
  · cases fits with
    | any => trivial
    | written =>
      cases v with
      | array a => exact absurd rfl (leaf a)
      | scalar e x => cases e <;> trivial
      | _ => trivial
    | @cut d e x numeric told =>
      cases e with
      | object => exact absurd rfl numeric
      | text n => exact absurd rfl (told n)
      | _ => cases d <;> trivial
    | truth => cases d <;> trivial
    | @held signed bits i held small =>
      change Outcome _ _ (Scalar.heldInteger signed bits i)
      rw [Scalar.heldInteger, if_pos held]
      trivial
    | rounded held | real held | complex held => exact absurd held floating

end Value

end ProxGrad
