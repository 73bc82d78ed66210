import ProxGrad.Configuration.Document

/-!
# Outcomes of documents

A document that gives a value should give the initial configuration, the configuration that its
mapping makes, or a refusal. It does so unless its value is blank, which is read as nothing, or a
mapping has a key that is no text, which is no refusal of the mapping but of the operation.
-/

set_option autoImplicit false

namespace ProxGrad

/-- The faults of options and configurations that are not accepted. -/
def Fault.IsRefusal : Fault → Prop
  | .invalidOptions _ | .notMapping | .configurationDocument _ => True
  | _ => False

namespace Document

def Key.name : Key → Option String
  | .text s => some s
  | .broken _ | .other => none

/-- A value that is false, zero, or empty, and no mapping and not nothing. -/
def Root.IsBlank : Root → Prop
  | .mapping _ => False
  | .collection size => size = 0
  | .single v => v.truth? = .ok false ∧ v.isAbsent = false

/-- Whether a mapping has a key that is no text. -/
def Root.HasOtherKey : Root → Prop
  | .mapping entries => ∃ entry ∈ entries, entry.1 = .other
  | _ => False

theorem Root.isVoid_iff (root : Root) :
    root.isVoid = true ↔ root = .single .absent ∨ root = .mapping [] ∨ root.IsBlank := by
  cases root with
  | mapping entries => simp [isVoid, IsBlank]
  | collection size => simp [isVoid, IsBlank]
  | single v =>
    have void : (Root.single v).isVoid = true ↔ v.truth? = .ok false := by
      rw [isVoid]
      cases v.truth? with
      | ok truth => simp
      | error fault => simp
    rw [void, IsBlank]
    cases v with
    | absent => exact iff_of_true rfl (.inl rfl)
    | _ => simp [Value.isAbsent]

end Document

namespace Configuration

open Document

variable {root : Root} {entries : List (Key × Value)}

def byName (entries : List (Key × Value)) : List Entry :=
  entries.map fun (key, v) => (key.name, v)

/-- What a document with a value should give: the initial configuration for nothing, that of a
mapping of names whose values are taken, and a refusal in every other case. -/
inductive Intended : Root → Except Fault Configuration → Prop
  | initial : Intended (.single .absent) (.ok ⟨Field.initial⟩)
  | made {entries : List (Key × Value)} {c : Configuration}
      (names : ¬ (Root.mapping entries).HasOtherKey) (made : ofEntries (byName entries) = .ok c) :
      Intended (.mapping entries) (.ok c)
  | refused {root : Root} {fault : Fault} (present : root ≠ .single .absent)
      (unmade : ∀ entries c, root = .mapping entries → ¬ root.HasOtherKey →
        ofEntries (byName entries) ≠ .ok c)
      (refusal : fault.IsRefusal) : Intended root (.error fault)

theorem named_of_names (names : ¬ (Root.mapping entries).HasOtherKey) :
    named entries = .ok (byName entries) := by
  induction entries with
  | nil => rfl
  | cons entry entries ih =>
    obtain ⟨key, v⟩ := entry
    have rest := ih fun ⟨entry, member, other⟩ => names ⟨entry, List.mem_cons_of_mem _ member, other⟩
    cases key with
    | text | broken =>
      rw [named, rest]
      rfl
    | other => exact absurd ⟨_, List.mem_cons_self, rfl⟩ names

theorem named_of_hasOtherKey (other : (Root.mapping entries).HasOtherKey) :
    named entries = .error .operandTypes := by
  induction entries with
  | nil =>
    obtain ⟨_, member, -⟩ := other
    cases member
  | cons entry entries ih =>
    obtain ⟨key, v⟩ := entry
    cases key with
    | other => rfl
    | text | broken =>
      obtain ⟨entry, member, same⟩ := other
      rcases List.mem_cons.mp member with rfl | later
      · cases same
      · rw [named, ih ⟨entry, later, same⟩]
        rfl

/-! ## Outcomes -/

theorem ofRoot_of_names (names : ¬ (Root.mapping entries).HasOtherKey) :
    (∀ c, ofEntries (byName entries) = .ok c → ofRoot (.mapping entries) = .ok c) ∧
      ∀ ds, ofEntries (byName entries) = .error (.configuration ds) →
        ofRoot (.mapping entries) = .error (.configurationDocument ds) := by
  -- An empty mapping is read as nothing, which makes the same configuration.
  cases entries with
  | nil =>
    constructor
    · intro c made
      exact made
    · intro ds refused
      cases refused
  | cons entry entries =>
    have present : (Root.mapping (entry :: entries)).isVoid = false := rfl
    rw [ofRoot, present]
    simp only [named_of_names names, Bool.false_eq_true, ↓reduceIte]
    constructor
    · intro c made
      rw [made]
    · intro ds refused
      rw [refused]

theorem ofRoot_of_hasOtherKey (other : root.HasOtherKey) : ofRoot root = .error .operandTypes := by
  cases root with
  | mapping entries =>
    have present : (Root.mapping entries).isVoid = false := by
      obtain ⟨_, member, -⟩ := other
      cases entries with
      | nil => cases member
      | cons => rfl
    rw [ofRoot, present]
    simp only [named_of_hasOtherKey other, Bool.false_eq_true, ↓reduceIte]
  | _ => exact other.elim

theorem ofRoot_of_isBlank (blank : root.IsBlank) : ofRoot root = .ok ⟨Field.initial⟩ := by
  unfold ofRoot
  rw [if_pos (root.isVoid_iff.mpr (.inr (.inr blank)))]
  rfl

theorem ofRoot_of_notMapping (present : root ≠ .single .absent) (full : ¬ root.IsBlank)
    (noMapping : ∀ entries, root ≠ .mapping entries) : ofRoot root = .error .notMapping := by
  have said : ¬ root.isVoid = true := by
    rw [root.isVoid_iff]
    rintro (absent | empty | blank)
    · exact present absent
    · exact noMapping _ empty
    · exact full blank
  unfold ofRoot
  rw [if_neg said]
  cases root with
  | mapping entries => exact absurd rfl (noMapping entries)
  | _ => rfl

theorem ofEntries_eq_error {data : List Entry} {fault : Fault}
    (refused : ofEntries data = .error fault) : ∃ ds, fault = .configuration ds := by
  unfold ofEntries at refused
  split at refused
  · cases refused
  · cases refused
    exact ⟨_, rfl⟩

theorem intended_ofRoot_iff (root : Root) :
    Intended root (ofRoot root) ↔ ¬ root.IsBlank ∧ ¬ root.HasOtherKey := by
  constructor
  · intro intended
    constructor
    · intro blank
      rw [ofRoot_of_isBlank blank] at intended
      cases intended with
      | initial => cases blank.2
      | made => exact blank
    · intro other
      rw [ofRoot_of_hasOtherKey other] at intended
      cases intended with
      | refused _ _ refusal => exact refusal
  · rintro ⟨full, names⟩
    by_cases absent : root = .single .absent
    · rw [absent]
      exact .initial
    · cases root with
      | mapping entries =>
        obtain ⟨made, refused⟩ := ofRoot_of_names names
        cases outcome : ofEntries (byName entries) with
        | ok c =>
          rw [made c outcome]
          exact .made names outcome
        | error fault =>
          obtain ⟨ds, rfl⟩ := ofEntries_eq_error outcome
          rw [refused ds outcome]
          refine .refused absent (fun _ c same _ made => ?_) trivial
          cases same
          cases outcome.symm.trans made
      | _ =>
        rw [ofRoot_of_notMapping absent full nofun]
        exact .refused absent nofun trivial

theorem load_eq {bytes : ByteArray} (parsed : Root.read (decode bytes) = .ok root) :
    load (.file bytes) = ofRoot root := by
  rw [load, parsed]
  rfl

/-- The value of a document is loaded as it should be, unless it is blank or has a key that is no
text. Blank documents give the initial configuration, other keys a fault that is no refusal. -/
theorem documents_load_as_intended {bytes : ByteArray}
    (parsed : Root.read (decode bytes) = .ok root) :
    (Intended root (load (.file bytes)) ↔ ¬ root.IsBlank ∧ ¬ root.HasOtherKey) ∧
      (root.IsBlank → load (.file bytes) = .ok ⟨Field.initial⟩) ∧
      (root.HasOtherKey → load (.file bytes) = .error .operandTypes) := by
  rw [load_eq parsed]
  exact ⟨intended_ofRoot_iff root, ofRoot_of_isBlank, ofRoot_of_hasOtherKey⟩

/-! ## Small documents -/

def isEntry (key : Key) (n : Int) : Root → Bool
  | .mapping [(k, .int i)] => k == key && i == n
  | _ => false

def isEmptyCollection : Root → Bool
  | .collection 0 => true
  | _ => false

theorem eq_of_isEntry {key : Key} {n : Int} (one : isEntry key n root = true) :
    root = .mapping [(key, .int n)] := by
  unfold isEntry at one
  split at one
  · obtain ⟨rfl, rfl⟩ : _ ∧ _ := by simpa using one
    rfl
  · cases one

theorem eq_of_isEmptyCollection (none : isEmptyCollection root = true) : root = .collection 0 := by
  unfold isEmptyCollection at none
  split at none
  · rfl
  · cases none

theorem exists_read_of_any {text : Text} {p : Root → Bool}
    (found : (Root.read text).toOption.any p = true) :
    ∃ root, Root.read text = .ok root ∧ p root = true := by
  cases read : Root.read text with
  | ok root =>
    rw [read] at found
    exact ⟨root, rfl, found⟩
  | error fault =>
    rw [read] at found
    cases found

/-- A document with a count of iterations. -/
theorem count_document_loads_as_intended :
    let count := "niter: 3\n".toUTF8
    ∃ root c, Root.read (decode count) = .ok root ∧ Intended root (load (.file count)) ∧
      load (.file count) = .ok c ∧ c.get .iterations = .int 3 := by
  intro count
  obtain ⟨root, parsed, one⟩ := exists_read_of_any (p := isEntry (.text "niter") 3)
    (show (Root.read (decode count)).toOption.any _ = true by decide +kernel)
  cases eq_of_isEntry one
  obtain ⟨intended, -⟩ := documents_load_as_intended parsed
  refine ⟨_, _, parsed, intended.mpr ⟨id, ?_⟩, (load_eq parsed).trans rfl, rfl⟩
  rintro ⟨_, member, other⟩
  cases List.mem_singleton.mp member
  cases other

/-- An empty sequence is loaded as nothing is, and a mapping of a number to a number is no mapping
that is refused. -/
theorem empty_and_numbered_documents_depart :
    (let empty := "[]\n".toUTF8
      ∃ root, Root.read (decode empty) = .ok root ∧ ¬ Intended root (load (.file empty)) ∧
        load (.file empty) = .ok ⟨Field.initial⟩) ∧
    (let numbered := "1: 2\n".toUTF8
      ∃ root, Root.read (decode numbered) = .ok root ∧ ¬ Intended root (load (.file numbered)) ∧
        load (.file numbered) = .error .operandTypes) := by
  constructor
  · intro empty
    obtain ⟨root, parsed, none⟩ := exists_read_of_any (p := isEmptyCollection)
      (show (Root.read (decode empty)).toOption.any _ = true by decide +kernel)
    cases eq_of_isEmptyCollection none
    rw [load_eq parsed]
    exact ⟨_, parsed, fun intended => ((intended_ofRoot_iff _).mp intended).1 rfl, rfl⟩
  · intro numbered
    obtain ⟨root, parsed, one⟩ := exists_read_of_any (p := isEntry .other 2)
      (show (Root.read (decode numbered)).toOption.any _ = true by decide +kernel)
    cases eq_of_isEntry one
    rw [load_eq parsed]
    exact ⟨_, parsed, fun intended => ((intended_ofRoot_iff _).mp intended).2
      ⟨_, List.mem_cons_self, rfl⟩, rfl⟩

end Configuration

end ProxGrad
