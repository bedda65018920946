import CssValues.Dimension.Length

/-!
# Runs of operations on a length

A run performs one operation after the other on a length; an operation that is undefined leaves the
length as it was. Absolute units convert into each other and nothing else converts but a unit into
itself, so a run stays among the absolute units or in the one unit that it starts with. Sums and
comparisons are defined exactly where that conversion is.
-/

namespace CssValues

namespace Length

/-! ## Conversion -/

/-- Conversion is undefined exactly between different units that are not both absolute. -/
theorem convert?_eq_none_iff {x : Length} {unit : LengthUnit} :
    x.convert? unit = none ↔
      unit ≠ x.unit ∧ (x.unit.isAbsolute = false ∨ unit.isAbsolute = false) := by
  by_cases hunit : unit = x.unit
  · simp [convert?, hunit]
  · rw [convert?, if_neg hunit, LengthUnit.isAbsolute, LengthUnit.isAbsolute]
    cases hsource : x.unit.perInch? with
    | none => simp [hunit]
    | some source =>
      cases htarget : unit.perInch? with
      | none => simp [hunit]
      | some target => simp

/-- A converted length has the unit that was asked for. -/
theorem unit_of_convert? {x y : Length} {unit : LengthUnit} (h : x.convert? unit = some y) :
    y.unit = unit := by
  rw [convert?] at h
  split at h
  next hunit =>
    cases h
    exact hunit.symm
  next =>
    split at h
    · cases h
      rfl
    · cases h

/-- Conversion to its own unit leaves a length as it is, every word of its value included. -/
theorem convert?_self (x : Length) : x.convert? x.unit = some x := if_pos rfl

/-- A unit that converts into an absolute one is absolute, and one that does not is kept. -/
theorem isAbsolute_of_convert? {x y : Length} {unit : LengthUnit} (h : x.convert? unit = some y) :
    y.unit.isAbsolute = x.unit.isAbsolute ∧ (x.unit.isAbsolute = false → y.unit = x.unit) := by
  rw [unit_of_convert? h]
  by_cases hunit : unit = x.unit
  · rw [hunit]
    exact ⟨rfl, fun _ => rfl⟩
  · have hdefined : ¬ (x.unit.isAbsolute = false ∨ unit.isAbsolute = false) := by
      intro hrelative
      rw [convert?_eq_none_iff.mpr ⟨hunit, hrelative⟩] at h
      cases h
    rw [not_or, Bool.not_eq_false, Bool.not_eq_false] at hdefined
    rw [hdefined.1, hdefined.2]
    exact ⟨rfl, fun h => nomatch h⟩

/-- Exactly the absolute lengths have a number of pixels. -/
theorem inPx?_isSome_iff {x : Length} : x.inPx?.isSome = true ↔ x.unit.isAbsolute = true := by
  have hpx : LengthUnit.px.isAbsolute = true := rfl
  rw [inPx?, Option.isSome_map, ← Option.ne_none_iff_isSome, ne_eq, convert?_eq_none_iff, hpx]
  simp only [ne_eq, Bool.true_eq_false, or_false, not_and, Bool.not_eq_false]
  constructor
  · intro h
    by_cases hunit : LengthUnit.px = x.unit
    · rw [← hunit]
      exact hpx
    · exact h hunit
  · intro h _
    exact h

/-! ## Sums and comparisons -/

/-- A sum is undefined exactly when the conversion of the second operand is. -/
theorem add?_eq_none_iff {x y : Length} : x.add? y = none ↔ y.convert? x.unit = none :=
  Option.map_eq_none_iff

/-- A difference is undefined exactly when the conversion of the second operand is. -/
theorem sub?_eq_none_iff {x y : Length} : x.sub? y = none ↔ y.convert? x.unit = none := by
  rw [sub?, add?_eq_none_iff, convert?_eq_none_iff, convert?_eq_none_iff]
  rfl

/-- A sum has the unit of its first operand. -/
theorem unit_of_add? {x y z : Length} (h : x.add? y = some z) : z.unit = x.unit := by
  obtain ⟨_, -, hz⟩ := Option.map_eq_some_iff.mp h
  rw [← hz]

/-- A comparison is undefined exactly without a conversion or with NaN. -/
theorem compareConverted?_eq_none_iff {x y : Length} :
    x.compareConverted? y = none ↔ y.convert? x.unit = none ∨
      ∃ z, y.convert? x.unit = some z ∧ (x.value.IsNaN ∨ z.value.IsNaN) := by
  rw [compareConverted?]
  cases y.convert? x.unit with
  | none => simp
  | some z =>
    change (if x.value.IsNaN ∨ z.value.IsNaN then none else _) = none ↔ _
    by_cases hnan : x.value.IsNaN ∨ z.value.IsNaN
    · simp [hnan]
    · simp [hnan]

/-! ## Runs -/

/-- What can be done with a length. -/
inductive Operation where
  | convert (unit : LengthUnit)
  | add (other : Length)
  | sub (other : Length)
  | mul (factor : Binary64)
  | div (divisor : Binary64)
  | neg

namespace Operation

/-- The result of an operation, if it is defined. -/
def result? (x : Length) : Operation → Option Length
  | convert unit => x.convert? unit
  | add other => x.add? other
  | sub other => x.sub? other
  | mul factor => some (x * factor)
  | div divisor => some (x / divisor)
  | neg => some (-x)

/-- All operations but conversions keep the unit. -/
theorem unit_of_result? {x y : Length} {op : Operation} (h : op.result? x = some y)
    (hop : ∀ unit, op ≠ convert unit) : y.unit = x.unit := by
  cases op with
  | convert unit => exact absurd rfl (hop unit)
  | add other => exact unit_of_add? h
  | sub other => exact unit_of_add? h
  | mul | div | neg =>
    cases h
    rfl

/-- Operations neither leave nor enter the absolute units, and change no other unit. -/
theorem isAbsolute_of_result? {x y : Length} {op : Operation} (h : op.result? x = some y) :
    y.unit.isAbsolute = x.unit.isAbsolute ∧ (x.unit.isAbsolute = false → y.unit = x.unit) := by
  by_cases hop : ∃ unit, op = convert unit
  · obtain ⟨unit, rfl⟩ := hop
    exact isAbsolute_of_convert? h
  · rw [unit_of_result? h (not_exists.mp hop)]
    exact ⟨rfl, fun _ => rfl⟩

end Operation

/-- The length after an operation: its result, or the length itself if there is none. -/
def step (x : Length) (op : Operation) : Length := (op.result? x).getD x

/-- The length after a run. -/
def run (start : Length) (ops : List Operation) : Length := ops.foldl step start

/-- An operation keeps a length absolute or not, and keeps a unit that is not absolute. -/
theorem isAbsolute_step (x : Length) (op : Operation) :
    (step x op).unit.isAbsolute = x.unit.isAbsolute ∧
      (x.unit.isAbsolute = false → (step x op).unit = x.unit) := by
  unfold step
  cases hresult : op.result? x with
  | none => exact ⟨rfl, fun _ => rfl⟩
  | some y => exact Operation.isAbsolute_of_result? hresult

/-- A run keeps a length absolute or not, and keeps a unit that is not absolute. -/
theorem isAbsolute_run (start : Length) (ops : List Operation) :
    (run start ops).unit.isAbsolute = start.unit.isAbsolute ∧
      (start.unit.isAbsolute = false → (run start ops).unit = start.unit) := by
  induction ops generalizing start with
  | nil => exact ⟨rfl, fun _ => rfl⟩
  | cons op ops ih =>
    obtain ⟨hclass, hunit⟩ := isAbsolute_step start op
    obtain ⟨hclass', hunit'⟩ := ih (step start op)
    refine ⟨hclass'.trans hclass, fun hrelative => ?_⟩
    exact (hunit' (hclass.trans hrelative)).trans (hunit hrelative)

/-- The last operation of a run comes after the run of all others. -/
theorem run_append_singleton (start : Length) (ops : List Operation) (op : Operation) :
    run start (ops ++ [op]) = step (run start ops) op := by
  rw [run, List.foldl_append]
  rfl

/-- Wherever a run has come to: the units it can be in; what an operation does to the unit, and that
an undefined one does nothing; when conversion, sums and differences are undefined; that conversion
to the own unit changes no word; and when comparisons and pixels are defined. -/
theorem runs_respect_units (start : Length) (ops : List Operation) :
    let x := run start ops
    ((start.unit.isAbsolute = false → x.unit = start.unit) ∧
      (start.unit.isAbsolute = true → x.unit.isAbsolute = true)) ∧
    (∀ op : Operation, (op.result? x = none → run start (ops ++ [op]) = x) ∧
      ∀ y, op.result? x = some y → run start (ops ++ [op]) = y ∧
        (∀ unit, op = .convert unit → y.unit = unit) ∧
        ((∀ unit, op ≠ .convert unit) → y.unit = x.unit)) ∧
    ((∀ unit, x.convert? unit = none ↔
        unit ≠ x.unit ∧ (x.unit.isAbsolute = false ∨ unit.isAbsolute = false)) ∧
      (∀ y, x.add? y = none ↔ y.convert? x.unit = none) ∧
      ∀ y, x.sub? y = none ↔ y.convert? x.unit = none) ∧
    x.convert? x.unit = some x ∧
    (∀ y, x.compareConverted? y = none ↔ y.convert? x.unit = none ∨
      ∃ z, y.convert? x.unit = some z ∧ (x.value.IsNaN ∨ z.value.IsNaN)) ∧
    (x.inPx?.isSome = true ↔ x.unit.isAbsolute = true) := by
  intro x
  obtain ⟨hclass, hunit⟩ := isAbsolute_run start ops
  refine ⟨⟨hunit, hclass.trans⟩, fun op => ?_, ⟨fun _ => convert?_eq_none_iff,
    fun _ => add?_eq_none_iff, fun _ => sub?_eq_none_iff⟩, convert?_self x,
    fun _ => compareConverted?_eq_none_iff, inPx?_isSome_iff⟩
  rw [run_append_singleton, step]
  constructor
  · intro hnone
    rw [hnone]
    rfl
  · intro y hy
    rw [hy]
    refine ⟨rfl, fun unit hop => ?_, Operation.unit_of_result? hy⟩
    rw [hop] at hy
    exact unit_of_convert? hy

end Length

end CssValues
