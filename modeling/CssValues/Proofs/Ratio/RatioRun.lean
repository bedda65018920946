import CssValues.Proofs.Ratio.LowestTerms
import CssValues.Structured.Values

/-!
# Runs of operations on ratios

A run starts with nothing at hand and performs one public operation after the other; each ratio that
an operation gives joins those at hand, and any of them can be used again. Only building and reading
check their components. Exchanging them and simplifying do not, and they need not: a run on bare
components, where nothing but those two checks stands between an operation and what is at hand,
has the same components at hand.

So whatever is at hand is well formed. Its quotient is the exact one rounded once, simplifying it
goes through words without a loss and never divides by zero, and its text is a numeral, or two
around a slash.
-/

namespace CssValues

open Binary64 (ofQuotient unitsPerOne ofUInt64)

namespace Ratio

/-! ## Operations -/

/-- What can be done with ratios. Those at hand are named by their places. -/
inductive Operation where
  | build (width height : Binary64)
  | buildSingle (value : Binary64)
  | square
  | widescreen
  | standard
  | read (tree : Tree)
  | invert (place : Nat)
  | simplify (place : Nat)

namespace Operation

/-- The answer of an operation; none if it names a ratio that is not at hand. -/
def answer? (atHand : List Ratio) : Operation → Option (Except DecodeError Ratio)
  | build width height => some (DecodeError.ofCheck (ofComponents width height))
  | buildSingle value => some (DecodeError.ofCheck (ofValue value))
  | square => some (.ok Ratio.square)
  | widescreen => some (.ok Ratio.widescreen)
  | standard => some (.ok Ratio.standard)
  | read tree => some (decode tree)
  | invert place => atHand[place]?.map fun r => .ok r.inverse
  | simplify place => atHand[place]?.map fun r => .ok r.simplified

/-- The components that an operation computes from those at hand, before any check. -/
def computed? (atHand : List (Binary64 × Binary64)) : Operation → Option (Binary64 × Binary64)
  | build width height => some (width, height)
  | buildSingle value => some (value, 1)
  | square => some (1, 1)
  | widescreen => some (16, 9)
  | standard => some (4, 3)
  | read tree => (tree.decodePair "width" "height").toOption
  | invert place => atHand[place]?.map Prod.swap
  | simplify place => atHand[place]?.map fun (width, height) => lowestTerms width height

/-- The operation checks the components that it computes. -/
def isChecked : Operation → Bool
  | build .. | buildSingle .. | read .. => true
  | square | widescreen | standard | invert .. | simplify .. => false

end Operation

/-- The ratios at hand after an operation: those before it, and its own if it gives one. -/
def step (atHand : List Ratio) (op : Operation) : List Ratio :=
  match op.answer? atHand with
  | some (.ok r) => atHand ++ [r]
  | _ => atHand

/-- The ratios at hand after a run. -/
def run (ops : List Operation) : List Ratio := ops.foldl step []

/-- The components at hand after an operation, when only a checked one looks at what it computes. -/
def bareStep (atHand : List (Binary64 × Binary64)) (op : Operation) : List (Binary64 × Binary64) :=
  match op.computed? atHand with
  | some (width, height) =>
    if op.isChecked = true ∧ ¬ (IsRatioComponent width ∧ IsRatioComponent height) then atHand
    else atHand ++ [(width, height)]
  | none => atHand

/-- The components at hand after a run. -/
def bareRun (ops : List Operation) : List (Binary64 × Binary64) := ops.foldl bareStep []

/-! ## Runs on bare components -/

/-- The components without what is known of them. -/
def bare (r : Ratio) : Binary64 × Binary64 := (r.width, r.height)

/-- Without what is known of them, the components of a simplified ratio are the lowest terms. -/
theorem bare_simplified (r : Ratio) : r.simplified.bare = lowestTerms r.width r.height := by
  rw [bare, width_simplified, height_simplified]

/-- A ratio that an operation gives comes at hand. -/
theorem step_of_ok {atHand : List Ratio} {op : Operation} {r : Ratio}
    (h : op.answer? atHand = some (.ok r)) : step atHand op = atHand ++ [r] := by
  rw [step, h]

/-- A refused operation leaves the ratios at hand as they are. -/
theorem step_of_error {atHand : List Ratio} {op : Operation} {error : DecodeError}
    (h : op.answer? atHand = some (.error error)) : step atHand op = atHand := by
  rw [step, h]

/-- An operation without an answer leaves the ratios at hand as they are. -/
theorem step_of_none {atHand : List Ratio} {op : Operation} (h : op.answer? atHand = none) :
    step atHand op = atHand := by
  rw [step, h]

section Step

variable {atHand : List Ratio} {op : Operation}

/-- An operation without a result leaves the components at hand as they are. -/
theorem bareStep_of_none (h : op.computed? (atHand.map bare) = none) :
    bareStep (atHand.map bare) op = atHand.map bare := by
  rw [bareStep, h]

/-- Components that need no check are at hand when the ratio is. -/
theorem bareStep_of_unchecked {r : Ratio} (hchecked : op.isChecked = false)
    (h : op.computed? (atHand.map bare) = some r.bare)
    (hanswer : op.answer? atHand = some (.ok r)) :
    bareStep (atHand.map bare) op = (step atHand op).map bare := by
  rw [step_of_ok hanswer, List.map_append, bareStep, h]
  exact if_neg fun hand => Bool.false_ne_true (hchecked.symm.trans hand.1)

/-- Components that are checked are at hand when the check lets them pass. -/
theorem bareStep_of_checked {width height : Binary64} (hchecked : op.isChecked = true)
    (h : op.computed? (atHand.map bare) = some (width, height))
    (hanswer : op.answer? atHand = some (DecodeError.ofCheck (ofComponents width height))) :
    bareStep (atHand.map bare) op = (step atHand op).map bare := by
  rw [bareStep, h]
  by_cases hvalid : IsRatioComponent width ∧ IsRatioComponent height
  · rw [ofComponents_eq_ok hvalid.1 hvalid.2] at hanswer
    rw [step_of_ok hanswer, List.map_append]
    exact if_neg fun hand => hand.2 hvalid
  · rw [ofComponents_eq_error hvalid] at hanswer
    rw [step_of_error hanswer]
    exact if_pos ⟨hchecked, hvalid⟩

/-- A ratio at hand gives the ratio whose components come from its own. -/
theorem bareStep_of_place {place : Nat} {f : Ratio → Ratio}
    {g : Binary64 × Binary64 → Binary64 × Binary64} (hchecked : op.isChecked = false)
    (hcomputed : op.computed? (atHand.map bare) =
      (atHand.map bare)[place]?.map g)
    (hanswer : op.answer? atHand = atHand[place]?.map fun r => .ok (f r))
    (hbare : ∀ r : Ratio, g r.bare = (f r).bare) :
    bareStep (atHand.map bare) op = (step atHand op).map bare := by
  rw [List.getElem?_map] at hcomputed
  cases hr : atHand[place]? with
  | none =>
    rw [hr, Option.map_none] at hanswer hcomputed
    rw [step_of_none hanswer, bareStep_of_none hcomputed]
  | some r =>
    rw [hr, Option.map_some] at hanswer hcomputed
    rw [Option.map_some, hbare] at hcomputed
    exact bareStep_of_unchecked hchecked hcomputed hanswer

end Step

/-- Every operation does to bare components what it does to ratios. -/
theorem bareStep_map_bare (atHand : List Ratio) (op : Operation) :
    bareStep (atHand.map bare) op = (step atHand op).map bare := by
  cases op with
  | build width height => exact bareStep_of_checked rfl rfl rfl
  | buildSingle value => exact bareStep_of_checked rfl rfl rfl
  | square => exact bareStep_of_unchecked rfl rfl rfl
  | widescreen => exact bareStep_of_unchecked rfl rfl rfl
  | standard => exact bareStep_of_unchecked rfl rfl rfl
  | read tree =>
    cases hread : (tree.decodePair "width" "height" : Except DecodeError (Binary64 × Binary64)) with
    | error error =>
      have hanswer : (Operation.read tree).answer? atHand = some (.error error) := by
        change some (tree.decodePair "width" "height" >>= _) = _
        rw [hread]
        rfl
      have hcomputed : (Operation.read tree).computed? (atHand.map bare) = none := by
        rw [Operation.computed?, hread]
        rfl
      rw [bareStep_of_none hcomputed, step_of_error hanswer]
    | ok pair =>
      obtain ⟨width, height⟩ := pair
      have hanswer : (Operation.read tree).answer? atHand =
          some (DecodeError.ofCheck (ofComponents width height)) := by
        change some (tree.decodePair "width" "height" >>= _) = _
        rw [hread]
        rfl
      have hcomputed :
          (Operation.read tree).computed? (atHand.map bare) = some (width, height) := by
        rw [Operation.computed?, hread]
        rfl
      exact bareStep_of_checked rfl hcomputed hanswer
  | invert place => exact bareStep_of_place (f := inverse) rfl rfl rfl fun _ => rfl
  | simplify place =>
    exact bareStep_of_place (f := simplified) rfl rfl rfl fun r => (bare_simplified r).symm

/-- So does every run. -/
theorem bareRun_eq (ops : List Operation) : bareRun ops = (run ops).map bare := by
  have hfoldl (atHand : List Ratio) :
      ops.foldl bareStep (atHand.map bare) = (ops.foldl step atHand).map bare := by
    induction ops generalizing atHand with
    | nil => rfl
    | cons op ops ih =>
      rw [List.foldl_cons, List.foldl_cons, bareStep_map_bare, ih]
  exact hfoldl []

/-! ## What every ratio is -/

/-- The quotient is the exact one, rounded once. -/
theorem quotient_eq (r : Ratio) :
    r.quotient = ofQuotient false (r.width.units * unitsPerOne) r.height.units := by
  have hwidth := r.width_valid
  have hheight := r.height_valid
  change Binary64.div r.width r.height = _
  simp only [Binary64.div, hwidth.1.not_isNaN, hwidth.1.not_isInfinite, hheight.1.not_isNaN,
    hheight.1.not_isInfinite, hheight.not_isZero, or_self, if_false, hwidth.negative_eq,
    hheight.negative_eq]
  rfl

/-- The words that simplifying goes through stand for the numbers that they come from and go to,
and what it divides by is not zero and divides both. -/
structure ReducesExactly (r : Ratio) : Prop where
  toWord : ∀ decimals w h, decimals ≤ 10 →
    wholeAtScale? r.width r.height (Binary64.ofNat (Nat.pow 10 decimals)) = some (w, h) →
    ((r.width * Binary64.ofNat (Nat.pow 10 decimals)).round.IsFinite ∧
      (r.width * Binary64.ofNat (Nat.pow 10 decimals)).round.toRat = w.toNat ∧ 0 < w.toNat) ∧
    (r.height * Binary64.ofNat (Nat.pow 10 decimals)).round.IsFinite ∧
      (r.height * Binary64.ofNat (Nat.pow 10 decimals)).round.toRat = h.toNat ∧ 0 < h.toNat
  divisor : ∀ w h, wholeComponents? r.width r.height = some (w, h) →
    euclid w h ≠ 0 ∧ (euclid w h).toNat ∣ w.toNat ∧ (euclid w h).toNat ∣ h.toNat
  ofWord : ∀ w h, wholeComponents? r.width r.height = some (w, h) →
    (ofUInt64 (w / euclid w h)).toRat = (w / euclid w h).toNat ∧
      (ofUInt64 (h / euclid w h)).toRat = (h / euclid w h).toNat

/-- Simplifying is exact for every ratio wherever it goes through words: a number near a whole one
is rounded to exactly that, and whole numbers up to `2 ^ 53` are kept. -/
theorem reducesExactly (r : Ratio) : r.ReducesExactly where
  toWord decimals w h hle haccepted := by
    have hscale := (isRatioComponent_scale hle).1
    have hwhole := (wholeAtScale?_eq_some_iff_isWholeUnder hle).mp haccepted
    obtain ⟨hwidth, hwidth'⟩ := hwhole.width.isFinite_and_toRat_round
      (r.width_valid.negative_mul hscale)
    obtain ⟨hheight, hheight'⟩ := hwhole.height.isFinite_and_toRat_round
      (r.height_valid.negative_mul hscale)
    exact ⟨⟨hwidth, hwidth', hwhole.width.pos⟩, hheight, hheight', hwhole.height.pos⟩
  divisor w h haccepted := by
    obtain ⟨decimals, hle, hhere⟩ := exists_of_wholeComponents? haccepted
    have hpos := Nat.gcd_pos_of_pos_left h.toNat (pos_of_wholeAtScale? hhere).1
    rw [toNat_euclid]
    refine ⟨fun hzero => ?_, Nat.gcd_dvd_left _ _, Nat.gcd_dvd_right _ _⟩
    rw [← toNat_euclid, hzero] at hpos
    exact Nat.lt_irrefl 0 hpos
  ofWord w h haccepted := by
    obtain ⟨decimals, hle, hhere⟩ := exists_of_wholeComponents? haccepted
    have hwhole := (wholeAtScale?_eq_some_iff_isWholeUnder hle).mp hhere
    have hquotient {n : UInt64} (hn : n.toNat ≤ Binary64.maxExactNat) :
        (n / euclid w h).toNat ≤ Binary64.maxExactNat := by
      rw [UInt64.toNat_div]
      exact (Nat.div_le_self _ _).trans hn
    exact ⟨Binary64.toRat_ofUInt64 (hquotient hwhole.width.le_maxExactNat),
      Binary64.toRat_ofUInt64 (hquotient hwhole.height.le_maxExactNat)⟩

/-- The characters of the text of a ratio. -/
def isTextChar (c : Char) : Bool := c.isDigit || c == '.' || c == ' ' || c == '/'

/-- The text of a ratio has only digits, points, spaces and at most one slash in it. -/
theorem isTextChar_and_count_slash (r : Ratio) :
    (∀ c ∈ (cssText r).toList, isTextChar c = true) ∧ (cssText r).toList.count '/' ≤ 1 := by
  have hnumeral {x : Binary64} (hx : IsRatioComponent x) :
      (∀ c ∈ (finiteText x).toList, isTextChar c = true) ∧ (finiteText x).toList.count '/' = 0 := by
    have hsign : ¬ x < 0 := by
      rw [Binary64.lt_zero_iff, hx.negative_eq]
      simp
    rw [toList_finiteText_of_not_lt hsign]
    refine ⟨fun c hc => ?_, List.count_eq_zero_of_not_mem fun hslash => ?_⟩
    · rcases Decimal.isDigit_or_eq_of_mem_chars hc with hdigit | hpoint
      · rw [isTextChar, hdigit]
        rfl
      · rw [hpoint]
        rfl
    · rcases Decimal.isDigit_or_eq_of_mem_chars hslash with hdigit | hpoint
      · contradiction
      · contradiction
  obtain ⟨hwidth, hwidth'⟩ := hnumeral r.width_valid
  obtain ⟨hheight, hheight'⟩ := hnumeral r.height_valid
  by_cases heq : r.width = r.height
  · rw [toList_cssText_of_eq heq]
    exact ⟨hwidth, hwidth'.le.trans (Nat.zero_le 1)⟩
  · rw [toList_cssText_of_ne heq]
    constructor
    · simp only [List.mem_append, List.mem_cons]
      rintro c (hc | rfl | rfl | rfl | hc)
      · exact hwidth c hc
      · rfl
      · rfl
      · rfl
      · exact hheight c hc
    · simp [List.count_append, hwidth', hheight']

/-- The components are finite and above zero, and so is their exact quotient, which is rounded to a
value without a sign. Simplifying is exact where it goes through words, and the text is made of
numerals around at most one slash. -/
structure IsWellFormed (r : Ratio) : Prop where
  width_isFinite : r.width.IsFinite
  width_pos : 0 < r.width
  height_isFinite : r.height.IsFinite
  height_pos : 0 < r.height
  quotient_not_isNaN : ¬ r.quotient.IsNaN
  quotient_negative : r.quotient.negative = false
  reducesExactly : r.ReducesExactly
  isTextChar_of_mem : ∀ c ∈ (cssText r).toList, isTextChar c = true
  count_slash_le : (cssText r).toList.count '/' ≤ 1

/-- Every ratio is well formed, as its components were checked when it was built. -/
theorem isWellFormed (r : Ratio) : r.IsWellFormed where
  width_isFinite := r.width_valid.1
  width_pos := r.width_valid.2
  height_isFinite := r.height_valid.1
  height_pos := r.height_valid.2
  quotient_not_isNaN := by
    rw [quotient_eq]
    exact Binary64.not_isNaN_ofQuotient _ _ _
  quotient_negative := by rw [quotient_eq, Binary64.negative_ofQuotient]
  reducesExactly := r.reducesExactly
  isTextChar_of_mem := r.isTextChar_and_count_slash.1
  count_slash_le := r.isTextChar_and_count_slash.2

/-- Every run has the same components at hand as the run on bare components, where only building and
reading are checked. So these are all finite and above zero, and the ratios at hand are all well
formed. -/
theorem runs_stay_wellFormed (ops : List Operation) :
    bareRun ops = (run ops).map bare ∧
      (∀ pair ∈ bareRun ops, IsRatioComponent pair.1 ∧ IsRatioComponent pair.2) ∧
      ∀ r ∈ run ops, r.IsWellFormed := by
  refine ⟨bareRun_eq ops, fun pair hpair => ?_, fun r _ => r.isWellFormed⟩
  rw [bareRun_eq] at hpair
  obtain ⟨r, -, rfl⟩ := List.mem_map.mp hpair
  exact ⟨r.width_valid, r.height_valid⟩

end Ratio

end CssValues
