import CssValues.Proofs.CssText.Formed
import CssValues.Structured.Values

/-!
# Runs of operations on resolutions

A run starts with nothing at hand and performs one public operation after the other; each
resolution that an operation gives joins those at hand, and any of them can be used again. Only
building, reading and scaling check their result. Conversions and sums do not, and they need not:
every operation answers as it would if its bare result were checked, so whatever is at hand is
neither negative nor NaN, and no minus sign is written.
-/

namespace CssValues

/-- The value is a number, and not below zero. -/
def IsNonNegative (x : Binary64) : Prop := ¬ x.IsNaN ∧ ¬ x < 0

/-- A value is not negative when it is at least zero, and no NaN. -/
theorem isNonNegative_iff {x : Binary64} : IsNonNegative x ↔ 0 ≤ x := by
  rw [IsNonNegative, Binary64.lt_zero_iff, Binary64.zero_le_iff]
  refine and_congr_right fun hnan => ?_
  simp only [hnan, not_false_eq_true, true_and, not_and, not_not]

namespace Resolution

/-! ## Operations -/

/-- The constructor of each unit. -/
def inUnit : ResolutionUnit → Binary64 → Except ValueError Resolution
  | .dpi => dpi
  | .dpcm => dpcm
  | .dppx => dppx
  | .x => x

/-- What can be done with resolutions. Those at hand are named by their places. -/
inductive Operation where
  | build (value : Binary64) (unit : ResolutionUnit)
  | buildIn (unit : ResolutionUnit) (value : Binary64)
  | read (tree : Tree)
  | convert (place : Nat) (unit : ResolutionUnit)
  | add (left right : Nat)
  | scale (place : Nat) (factor : Binary64)

namespace Operation

variable (atHand : List Resolution)

/-- The answer of an operation; none if it names a resolution that is not at hand. -/
def answer? : Operation → Option (Except DecodeError Resolution)
  | build value unit => some (DecodeError.ofCheck (ofValue value unit))
  | buildIn unit value => some (DecodeError.ofCheck (inUnit unit value))
  | read tree => some (decode tree)
  | convert place unit => do return .ok ((← atHand[place]?).convert unit)
  | add left right => do return .ok ((← atHand[left]?) + (← atHand[right]?))
  | scale place factor => do return DecodeError.ofCheck ((← atHand[place]?).scale factor)

/-- The value and unit that an operation computes, before any check. -/
def computed? : Operation → Option (Dimension ResolutionUnit)
  | build value unit | buildIn unit value => some ⟨value, unit⟩
  | read tree => (decode tree : Except DecodeError (Dimension ResolutionUnit)).toOption
  | convert place unit => do return (← atHand[place]?).toDimension.convert unit
  | add left right => do return (← atHand[left]?).toDimension + (← atHand[right]?).toDimension
  | scale place factor => do return (← atHand[place]?).toDimension * factor

/-- The operation checks its result. -/
def isChecked : Operation → Bool
  | build .. | buildIn .. | read .. | scale .. => true
  | convert .. | add .. => false

end Operation

/-- The resolution of a bare value and unit, if the value is not refused. -/
def check (x : Dimension ResolutionUnit) : Except DecodeError Resolution :=
  DecodeError.ofCheck (ofValue x.value x.unit)

/-- A value that is not negative passes the check. -/
theorem check_of_zero_le {x : Dimension ResolutionUnit} (h : 0 ≤ x.value) :
    check x = .ok ⟨x, h⟩ := by
  rw [check, ofValue_eq_ok h]
  rfl

/-- A value below zero, and NaN, is refused, and the error has it. -/
theorem check_of_not_zero_le {x : Dimension ResolutionUnit} (h : ¬ 0 ≤ x.value) :
    check x = .error (.refused (.negativeResolution x.value)) := by
  rw [check, ofValue_eq_error h]
  rfl

/-- A resolution passes the check, and stays as it is. -/
theorem check_toDimension (r : Resolution) : check r.toDimension = .ok r :=
  check_of_zero_le r.zero_le_value

/-- Reading a resolution is reading a dimension and then checking it. -/
theorem decode_eq_check {tree : Tree} {x : Dimension ResolutionUnit} (h : decode tree = .ok x) :
    decode tree = check x := by
  have hread : (decode tree : Except DecodeError Resolution) = decode tree >>= check := rfl
  rw [hread, h]
  exact pure_bind x check

/-- What does not read as a dimension does not read as a resolution, with the same error. -/
theorem decode_eq_error {tree : Tree} {error : DecodeError}
    (h : (decode tree : Except DecodeError (Dimension ResolutionUnit)) = .error error) :
    (decode tree : Except DecodeError Resolution) = .error error := by
  have hread : (decode tree : Except DecodeError Resolution) = decode tree >>= check := rfl
  rw [hread, h]
  rfl

namespace Operation

variable {atHand : List Resolution} {op : Operation}

/-- Every operation answers as if its bare result were checked, whether it is or not; without a
result it gives no resolution. -/
theorem answer?_cases (atHand : List Resolution) (op : Operation) :
    (∃ x, op.computed? atHand = some x ∧ op.answer? atHand = some (check x)) ∨
      op.computed? atHand = none ∧ ∀ r, op.answer? atHand ≠ some (.ok r) := by
  cases op with
  | build value unit => exact Or.inl ⟨_, rfl, rfl⟩
  | buildIn unit value =>
    refine Or.inl ⟨⟨value, unit⟩, rfl, ?_⟩
    cases unit <;> rfl
  | read tree =>
    rw [computed?, answer?]
    cases htree : (decode tree : Except DecodeError (Dimension ResolutionUnit)) with
    | error error =>
      rw [decode_eq_error htree]
      exact Or.inr ⟨rfl, by simp⟩
    | ok x =>
      rw [decode_eq_check htree]
      exact Or.inl ⟨x, rfl, rfl⟩
  | convert place unit =>
    simp only [computed?, answer?]
    cases atHand[place]? with
    | none => exact Or.inr ⟨rfl, by simp⟩
    | some r => exact Or.inl ⟨_, rfl, congrArg some (check_toDimension (r.convert unit)).symm⟩
  | add left right =>
    simp only [computed?, answer?]
    cases atHand[left]? with
    | none => exact Or.inr ⟨rfl, by simp⟩
    | some r =>
      cases atHand[right]? with
      | none => exact Or.inr ⟨rfl, by simp⟩
      | some s => exact Or.inl ⟨_, rfl, congrArg some (check_toDimension (r + s)).symm⟩
  | scale place factor =>
    simp only [computed?, answer?]
    cases atHand[place]? with
    | none => exact Or.inr ⟨rfl, by simp⟩
    | some r => exact Or.inl ⟨_, rfl, rfl⟩

/-- An operation that has a bare result answers with its check. -/
theorem answer?_of_computed? {x : Dimension ResolutionUnit} (h : op.computed? atHand = some x) :
    op.answer? atHand = some (check x) := by
  rcases answer?_cases atHand op with ⟨y, hy, hanswer⟩ | ⟨hnone, -⟩
  · cases hy.symm.trans h
    exact hanswer
  · cases hnone.symm.trans h

/-- Only operations that check their result compute what is refused. -/
theorem isChecked_of_computed? {x : Dimension ResolutionUnit} (h : op.computed? atHand = some x)
    (hx : ¬ 0 ≤ x.value) : op.isChecked = true := by
  cases op with
  | build | buildIn | read | scale => rfl
  | convert place unit =>
    obtain ⟨r, -, hr⟩ := Option.bind_eq_some_iff.mp h
    cases hr
    exact absurd (r.convert unit).zero_le_value hx
  | add left right =>
    obtain ⟨r, -, h⟩ := Option.bind_eq_some_iff.mp h
    obtain ⟨s, -, hr⟩ := Option.bind_eq_some_iff.mp h
    cases hr
    exact absurd (r + s).zero_le_value hx

end Operation

/-! ## Runs -/

/-- The resolutions at hand after an operation: those before it, and its own if it gives one. -/
def step (atHand : List Resolution) (op : Operation) : List Resolution :=
  match op.answer? atHand with
  | some (.ok r) => atHand ++ [r]
  | _ => atHand

/-- The resolutions at hand after a run. -/
def run (ops : List Operation) : List Resolution := ops.foldl step []

/-- An operation leaves all resolutions at hand in their places. -/
theorem prefix_step (atHand : List Resolution) (op : Operation) : atHand <+: step atHand op := by
  unfold step
  split
  · exact List.prefix_append _ _
  · exact List.prefix_rfl

/-- So does every run that goes on. -/
theorem prefix_run_append (ops more : List Operation) : run ops <+: run (ops ++ more) := by
  have hfoldl (atHand : List Resolution) : atHand <+: more.foldl step atHand := by
    induction more generalizing atHand with
    | nil => exact List.prefix_rfl
    | cons op more ih => exact (prefix_step atHand op).trans (ih (step atHand op))
  rw [run, run, List.foldl_append]
  exact hfoldl _

/-- The last operation of a run comes after the run of all others. -/
theorem run_append_singleton (ops : List Operation) (op : Operation) :
    run (ops ++ [op]) = step (run ops) op := by
  rw [run, List.foldl_append]
  rfl

/-- A resolution that an operation gives comes at hand. -/
theorem step_of_ok {atHand : List Resolution} {op : Operation} {r : Resolution}
    (h : op.answer? atHand = some (.ok r)) : step atHand op = atHand ++ [r] := by
  rw [step, h]

/-- A refused operation leaves the resolutions at hand as they are. -/
theorem step_of_error {atHand : List Resolution} {op : Operation} {error : DecodeError}
    (h : op.answer? atHand = some (.error error)) : step atHand op = atHand := by
  rw [step, h]

/-- An operation that computes nothing, for want of a resolution or of a tree of the right shape,
changes nothing. -/
theorem step_of_computed?_eq_none {atHand : List Resolution} {op : Operation}
    (h : op.computed? atHand = none) : step atHand op = atHand := by
  rcases Operation.answer?_cases atHand op with ⟨x, hx, -⟩ | ⟨-, hnone⟩
  · cases hx.symm.trans h
  · unfold step
    split
    next r hr => exact absurd hr (hnone r)
    next => rfl

/-! ## Texts -/

/-- Digits are written without a minus sign for a value that is not below zero. -/
theorem minus_not_mem_finiteText {x : Binary64} (h : ¬ x < 0) : '-' ∉ (finiteText x).toList := by
  rw [toList_finiteText_of_not_lt h]
  intro hminus
  rcases Decimal.isDigit_or_eq_of_mem_chars hminus with hdigit | hpoint
  · contradiction
  · contradiction

/-- The text of a resolution has no minus sign in it. -/
theorem minus_not_mem_cssText (r : Resolution) : '-' ∉ (cssText r).toList := by
  have hunit : '-' ∉ (Vocabulary.token r.unit).toList := by cases r.unit <;> decide
  obtain ⟨hnan, hlt⟩ := isNonNegative_iff.mpr r.zero_le_value
  change '-' ∉ (quantity r).text.toList
  rcases Binary64.isFinite_or_isInfinite hnan with hfinite | hinfinite
  · rw [Quantity.toList_text_of_isFinite hfinite, List.mem_append]
    intro hminus
    rcases hminus with hnumeral | htoken
    · exact minus_not_mem_finiteText hlt hnumeral
    · exact hunit htoken
  · have hsign : r.value.negative = false := by
      rw [← Bool.not_eq_true]
      intro hnegative
      have hzero := (Binary64.zero_le_iff.mp r.zero_le_value).2 hnegative
      exact absurd (hinfinite.symm.trans hzero) (by decide)
    rw [Quantity.toList_text_of_isInfinite hinfinite]
    change '-' ∉ Quantity.infiniteHead r.value.negative ++
      ([' ', '*', ' ', '1'] ++ ((Vocabulary.token r.unit).toList ++ [')']))
    have hhead : '-' ∉ Quantity.infiniteHead false := by decide
    have hsigns : '-' ∉ [' ', '*', ' ', '1'] := by decide
    have hclose : '-' ∉ [')'] := by decide
    simp only [hsign, List.mem_append, hhead, hsigns, hunit, hclose, or_self, not_false_eq_true]

/-! ## The invariant -/

/-- In every run, all resolutions at hand are numbers that are not below zero, in their own unit and
in dots per pixel, and are written without a minus sign. An operation that computes such a value
gives it; one that computes another value is a checked one, refuses it by that value, and leaves
everything at hand as it was. Whatever is at hand stays so. -/
theorem runs_stay_nonNegative (ops : List Operation) :
    (∀ r ∈ run ops, IsNonNegative r.value ∧ IsNonNegative r.inDppx ∧ '-' ∉ (cssText r).toList) ∧
    (∀ op x, op.computed? (run ops) = some x →
      (IsNonNegative x.value → ∃ r : Resolution, r.toDimension = x ∧
        op.answer? (run ops) = some (.ok r) ∧ run (ops ++ [op]) = run ops ++ [r]) ∧
      (¬ IsNonNegative x.value → op.isChecked = true ∧
        op.answer? (run ops) = some (.error (.refused (.negativeResolution x.value))) ∧
        run (ops ++ [op]) = run ops)) ∧
    (∀ op, op.computed? (run ops) = none → run (ops ++ [op]) = run ops) ∧
    ∀ more, run ops <+: run (ops ++ more) := by
  refine ⟨fun r _ => ⟨?_, ?_, minus_not_mem_cssText r⟩, fun op x h => ⟨fun hx => ?_, fun hx => ?_⟩,
    fun op h => ?_, prefix_run_append ops⟩
  · exact isNonNegative_iff.mpr r.zero_le_value
  · exact isNonNegative_iff.mpr (r.convert .dppx).zero_le_value
  · have hanswer := Operation.answer?_of_computed? h
    rw [check_of_zero_le (isNonNegative_iff.mp hx)] at hanswer
    exact ⟨_, rfl, hanswer, (run_append_singleton ops op).trans (step_of_ok hanswer)⟩
  · have hrefused := fun hle => hx (isNonNegative_iff.mpr hle)
    have hanswer := Operation.answer?_of_computed? h
    rw [check_of_not_zero_le hrefused] at hanswer
    exact ⟨Operation.isChecked_of_computed? h hrefused, hanswer,
      (run_append_singleton ops op).trans (step_of_error hanswer)⟩
  · exact (run_append_singleton ops op).trans (step_of_computed?_eq_none h)

end Resolution

end CssValues
