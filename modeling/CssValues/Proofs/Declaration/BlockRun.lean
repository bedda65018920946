import CssValues.Declaration.Block
import Mathlib.Data.List.Induction
import Mathlib.Data.List.ReduceOption
import Mathlib.Logic.Function.Iterate

/-!
# Runs of steps on a block

A run starts with the empty block and takes one step after the other. A step declares a property, or
any value under any name, or declares again, as important, what stands at some place of the block; a
value that fails to be built declares nothing. Whatever the steps, the block holds what they have
declared, in order, and its text grows at the end only.
-/

namespace CssValues

/-! ## Importance -/

/-- Importance is set by the first mark, and further ones change nothing. -/
theorem Declaration.iterate_makeImportant (d : Declaration) (marks : Nat) :
    makeImportant^[marks] d = { d with important := d.important || decide (0 < marks) } := by
  induction marks generalizing d with
  | zero => simp
  | succ marks ih =>
    rw [Function.iterate_succ_apply, ih]
    simp [makeImportant]

namespace Block

/-! ## Texts -/

/-- The declarations of another block, pushed one after the other. -/
def append (block other : Block) : Block := other.declarations.foldl push block

/-- A block that joins two has the declarations of the first and then those of the second. -/
theorem declarations_append (block other : Block) :
    (block.append other).declarations = block.declarations ++ other.declarations := by
  obtain ⟨declarations⟩ := other
  simp only [append]
  induction declarations generalizing block with
  | nil => exact (List.append_nil _).symm
  | cons d declarations ih =>
    rw [List.foldl_cons, ih, declarations_push, List.append_assoc, List.singleton_append]

/-- A block is empty when it has no declarations. -/
theorem isEmpty_iff {block : Block} : block.isEmpty = true ↔ block.declarations = [] :=
  List.isEmpty_iff

/-- A block is not empty when it has a declaration. -/
theorem isEmpty_eq_false_iff {block : Block} :
    block.isEmpty = false ↔ block.declarations ≠ [] :=
  List.isEmpty_eq_false_iff

/-- The texts of two blocks that hold something meet in one space. -/
theorem cssText_append {block other : Block} (hblock : block.isEmpty = false)
    (hother : other.isEmpty = false) :
    cssText (block.append other) = cssText block ++ " " ++ cssText other := by
  rw [isEmpty_eq_false_iff] at hblock hother
  change " ".intercalate ((block.append other).declarations.map cssText) = _
  rw [declarations_append, List.map_append, String.intercalate_append_of_ne_nil
    (List.map_eq_nil_iff.not.mpr hblock) (List.map_eq_nil_iff.not.mpr hother)]
  rfl

/-- The text of a block with one declaration is the text of that declaration. -/
theorem cssText_singleton (d : Declaration) : cssText (Block.mk [d]) = cssText d :=
  String.intercalate_singleton

/-- The text of a declaration at the end follows one space, unless it is the first. -/
theorem cssText_push (block : Block) (d : Declaration) :
    cssText (block.push d) = cssText block ++ (if block.isEmpty then "" else " ") ++ cssText d := by
  cases hempty : block.isEmpty with
  | true =>
    obtain ⟨declarations⟩ := block
    cases isEmpty_iff.mp hempty
    exact (cssText_singleton d).trans String.empty_append.symm
  | false =>
    change cssText (block.append ⟨[d]⟩) = _
    rw [cssText_append hempty rfl, cssText_singleton]
    rfl

/-- A declaration has a text, since it ends with a semicolon. -/
theorem cssText_declaration_ne_empty (d : Declaration) : cssText d ≠ "" := by
  change d.property ++ ": " ++ d.value ++ (if d.important then " !important" else "") ++ ";" ≠ ""
  intro h
  exact absurd (String.append_eq_empty_iff.mp h).2 (by decide)

/-- Only the block that holds nothing has no text. -/
theorem cssText_eq_empty_iff (block : Block) : cssText block = "" ↔ block.isEmpty = true := by
  obtain ⟨declarations⟩ := block
  rcases List.eq_nil_or_concat' declarations with rfl | ⟨front, d, rfl⟩
  · exact ⟨fun _ => rfl, fun _ => rfl⟩
  · refine iff_of_false (fun h => ?_) fun h => ?_
    · change cssText (push ⟨front⟩ d) = "" at h
      rw [cssText_push] at h
      exact cssText_declaration_ne_empty d (String.append_eq_empty_iff.mp h).2
    · exact List.append_ne_nil_of_right_ne_nil _ (List.cons_ne_nil _ _) (isEmpty_iff.mp h)

/-! ## Steps -/

/-- What can be done with a block: to add a property; to declare a value of any type under any name,
mark the declaration as important some number of times and push it; and to push an important copy of
the declaration at some place. The property or value may have failed to be built. -/
inductive Step : Type 1 where
  | add {name : PropertyName} (property : Except ValueError (Property name))
  | push {α : Type} [CssText α] (name : String) (value : Except ValueError α) (marks : Nat)
  | repush (place : Nat)

/-- The block after a step. Without a value, or without a declaration at the place, it is the block
before. -/
def step (block : Block) : Step → Block
  | .add (.ok property) => block.add property
  | @Step.push _ _ name (.ok value) marks =>
    block.push (Declaration.makeImportant^[marks] (Declaration.of name value))
  | .repush place =>
    match block.declarations[place]? with
    | some d => block.push d.makeImportant
    | none => block
  | .add (.error _) => block
  | @Step.push _ _ _ (.error _) _ => block

/-- The block after a run. -/
def run (steps : List Step) : Block := steps.foldl step empty

/-- What a step declares, if it does, after the given declarations. -/
def Step.declaration? (before : List Declaration) : Step → Option Declaration
  | @add name (.ok property) =>
    some { property := Vocabulary.token name, value := cssText property.value }
  | @push _ _ name (.ok value) marks =>
    some { property := name, value := cssText value, important := decide (0 < marks) }
  | repush place => before[place]?.map fun d => { d with important := true }
  | add (.error _) => none
  | @push _ _ _ (.error _) _ => none

/-- A step puts what it declares at the end, and does nothing else. -/
theorem declarations_step (block : Block) (next : Step) :
    (block.step next).declarations =
      block.declarations ++ (next.declaration? block.declarations).toList := by
  cases next with
  | add property =>
    cases property with
    | error _ => exact (List.append_nil _).symm
    | ok property => rfl
  | push name value marks =>
    cases value with
    | error _ => exact (List.append_nil _).symm
    | ok value =>
      rw [step, declarations_push, Declaration.iterate_makeImportant]
      rfl
  | repush place =>
    rw [step, Step.declaration?]
    cases block.declarations[place]? with
    | none => exact (List.append_nil _).symm
    | some d => rfl

/-- A step without a declaration leaves the block as it is. -/
theorem step_of_none {block : Block} {next : Step}
    (h : next.declaration? block.declarations = none) : block.step next = block := by
  have hdeclarations := declarations_step block next
  rw [h, Option.toList_none, List.append_nil] at hdeclarations
  exact congrArg Block.mk hdeclarations

/-- A step with a declaration pushes it. -/
theorem step_of_some {block : Block} {next : Step} {d : Declaration}
    (h : next.declaration? block.declarations = some d) : block.step next = block.push d := by
  have hdeclarations := declarations_step block next
  rw [h] at hdeclarations
  exact congrArg Block.mk hdeclarations

/-! ## Runs -/

/-- The last step of a run comes after the run of all others. -/
theorem run_append_singleton (steps : List Step) (next : Step) :
    run (steps ++ [next]) = (run steps).step next := by
  rw [run, List.foldl_append]
  rfl

/-- A run declares what its steps declare, each one after those before it. -/
theorem declarations_run (steps : List Step) :
    (run steps).declarations = (steps.mapIdx fun i next =>
      next.declaration? (run (steps.take i)).declarations).reduceOption := by
  induction steps using List.reverseRecOn with
  | nil => rfl
  | append_singleton steps last ih =>
    have htake : (steps.mapIdx fun i next =>
          next.declaration? (run ((steps ++ [last]).take i)).declarations) =
        steps.mapIdx fun i next => next.declaration? (run (steps.take i)).declarations := by
      refine List.mapIdx_eq_mapIdx_iff.mpr fun i hlt => ?_
      rw [List.take_append_of_le_length (Nat.le_of_lt hlt)]
    rw [run_append_singleton, declarations_step, List.mapIdx_concat, htake, List.take_left,
      List.reduceOption_append, ← ih]
    cases last.declaration? (run steps).declarations with
    | none => rfl
    | some d => rfl

/-- What a block holds, it keeps. -/
theorem prefix_step (block : Block) (next : Step) :
    block.declarations <+: (block.step next).declarations := by
  rw [declarations_step]
  exact List.prefix_append _ _

/-- Further steps keep the declarations that are there, in their order. -/
theorem prefix_run_append (steps more : List Step) :
    (run steps).declarations <+: (run (steps ++ more)).declarations := by
  induction more using List.reverseRecOn with
  | nil => simp
  | append_singleton more next ih =>
    rw [← List.append_assoc, run_append_singleton]
    exact ih.trans (prefix_step _ next)

/-- Wherever a run has come to: the block holds what the steps have declared, in order; a step that
declares nothing changes nothing, and any other adds its declaration at the end of the list and of
the text; no step changes what is there, not even one that repeats it as important; importance is
set once; the texts of two blocks that hold something meet in one space; and only the block that
holds nothing has no text. -/
theorem runs_keep_declarations (steps : List Step) :
    let block := run steps
    block.declarations = (steps.mapIdx fun i next =>
      next.declaration? (run (steps.take i)).declarations).reduceOption ∧
    (∀ next : Step,
      (next.declaration? block.declarations = none → run (steps ++ [next]) = block) ∧
      ∀ d, next.declaration? block.declarations = some d →
        (run (steps ++ [next])).declarations = block.declarations ++ [d] ∧
        cssText (run (steps ++ [next])) =
          cssText block ++ (if block.isEmpty then "" else " ") ++ cssText d) ∧
    (∀ (more : List Step) (place : Nat) (d : Declaration), block.declarations[place]? = some d →
      (run (steps ++ more)).declarations[place]? = some d) ∧
    (∀ (place : Nat) (d : Declaration), block.declarations[place]? = some d →
      (run (steps ++ [.repush place])).declarations =
        block.declarations ++ [{ d with important := true }]) ∧
    (∀ d : Declaration, d.makeImportant.makeImportant = d.makeImportant) ∧
    (∀ other : Block,
      (block.append other).declarations = block.declarations ++ other.declarations ∧
      (block.isEmpty = false → other.isEmpty = false →
        cssText (block.append other) = cssText block ++ " " ++ cssText other)) ∧
    (cssText block = "" ↔ block.isEmpty = true) := by
  intro block
  refine ⟨declarations_run steps, fun next => ⟨fun hnone => ?_, fun d hsome => ?_⟩,
    fun more place d hplace => ?_, fun place d hplace => ?_, fun d => rfl,
    fun other => ⟨declarations_append block other, cssText_append⟩, cssText_eq_empty_iff block⟩
  · rw [run_append_singleton, step_of_none hnone]
  · rw [run_append_singleton, step_of_some hsome]
    exact ⟨rfl, cssText_push block d⟩
  · obtain ⟨rest, hrest⟩ := prefix_run_append steps more
    rw [← hrest, List.getElem?_append_left (List.getElem?_eq_some_iff.mp hplace).1]
    exact hplace
  · rw [run_append_singleton, declarations_step, Step.declaration?, hplace]
    rfl

end Block

end CssValues
