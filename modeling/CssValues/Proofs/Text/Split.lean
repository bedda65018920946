import CssValues.Text.WhiteSpace

/-!
# Splitting texts

A text is split by the first character that fails a test, and the white space around a text is
trimmed away.
-/

namespace CssValues

section Split

variable {p : Char → Bool} {front rest : List Char} (hfront : ∀ c ∈ front, p c = true)
  (hrest : ∀ c ∈ rest.head?, p c = false)

include hfront hrest

/-- The characters before the first that fails the test are taken. -/
theorem takeWhile_append_eq : (front ++ rest).takeWhile p = front := by
  rw [List.takeWhile_append_of_pos hfront]
  cases rest with
  | nil => rw [List.takeWhile_nil, List.append_nil]
  | cons c rest => simp [hrest c rfl]

/-- The characters before the first that fails the test are dropped. -/
theorem dropWhile_append_eq : (front ++ rest).dropWhile p = rest := by
  rw [List.dropWhile_append_of_pos hfront]
  cases rest with
  | nil => rfl
  | cons c rest => simp [hrest c rfl]

end Split

/-- Texts are split in the same way by the first character that fails a test. -/
theorem eq_and_eq_of_append_eq {p : Char → Bool} {a b u v : List Char}
    (ha : ∀ c ∈ a, p c = true) (hb : ∀ c ∈ b, p c = true) (hu : ∀ c ∈ u.head?, p c = false)
    (hv : ∀ c ∈ v.head?, p c = false) (h : a ++ u = b ++ v) : a = b ∧ u = v := by
  constructor
  · rw [← takeWhile_append_eq ha hu, h, takeWhile_append_eq hb hv]
  · rw [← dropWhile_append_eq ha hu, h, dropWhile_append_eq hb hv]

/-- Trimming removes the white space around a text that has none at its ends. -/
theorem trimWhiteSpace_append {before text after : List Char}
    (hhead : ∀ c ∈ text.head?, isWhiteSpace c = false)
    (hlast : ∀ c ∈ text.getLast?, isWhiteSpace c = false)
    (hbefore : ∀ c ∈ before, isWhiteSpace c = true) (hafter : ∀ c ∈ after, isWhiteSpace c = true) :
    trimWhiteSpace (before ++ (text ++ after)) = text := by
  have hspace : ∀ c ∈ after.reverse, isWhiteSpace c = true :=
    fun c hc => hafter c (List.mem_reverse.mp hc)
  by_cases hne : text = []
  · -- the white space on both sides goes at once
    subst hne
    have hall : ∀ c ∈ before ++ after, isWhiteSpace c = true :=
      fun c hc => (List.mem_append.mp hc).elim (hbefore c) (hafter c)
    have hnone := @dropWhile_append_eq isWhiteSpace _ [] hall nofun
    rw [List.append_nil] at hnone
    rw [List.nil_append, trimWhiteSpace, hnone]
    rfl
  · have hfront : ∀ c ∈ (text ++ after).head?, isWhiteSpace c = false := by
      obtain ⟨first, rest, hcons⟩ := List.exists_cons_of_ne_nil hne
      rw [hcons, List.head?_cons] at hhead
      rwa [hcons, List.cons_append, List.head?_cons]
    have hback : ∀ c ∈ text.reverse.head?, isWhiteSpace c = false := by
      rwa [List.head?_reverse]
    rw [trimWhiteSpace, dropWhile_append_eq hbefore hfront, List.reverse_append,
      dropWhile_append_eq hspace hback, List.reverse_reverse]

/-- The first character that is left fails the test. -/
theorem eq_false_of_head?_dropWhile {p : Char → Bool} {text : List Char} :
    ∀ c ∈ (text.dropWhile p).head?, p c = false := by
  intro c hc
  have hhead := List.head?_dropWhile_not p text
  rwa [Option.mem_def.mp hc] at hhead

/-- A text is the trimmed text with white space around it, and the trimmed text has none at its
ends. -/
theorem exists_trimWhiteSpace (text : List Char) :
    ∃ before after, text = before ++ (trimWhiteSpace text ++ after) ∧
      (∀ c ∈ before, isWhiteSpace c = true) ∧ (∀ c ∈ after, isWhiteSpace c = true) ∧
      (∀ c ∈ (trimWhiteSpace text).head?, isWhiteSpace c = false) ∧
      ∀ c ∈ (trimWhiteSpace text).getLast?, isWhiteSpace c = false := by
  have hback : text.dropWhile isWhiteSpace = trimWhiteSpace text ++
      ((text.dropWhile isWhiteSpace).reverse.takeWhile isWhiteSpace).reverse := by
    rw [trimWhiteSpace, ← List.reverse_append, List.takeWhile_append_dropWhile,
      List.reverse_reverse]
  refine ⟨text.takeWhile isWhiteSpace,
    ((text.dropWhile isWhiteSpace).reverse.takeWhile isWhiteSpace).reverse, ?_, ?_, ?_, ?_, ?_⟩
  · rw [← hback, List.takeWhile_append_dropWhile]
  · exact List.all_eq_true.mp List.all_takeWhile
  · exact fun c hc => List.all_eq_true.mp List.all_takeWhile c (List.mem_reverse.mp hc)
  · intro c hc
    obtain ⟨rest, hrest⟩ := List.head?_eq_some_iff.mp hc
    have hfirst : (text.dropWhile isWhiteSpace).head? = some c := by
      rw [hback, hrest]
      rfl
    exact eq_false_of_head?_dropWhile c hfirst
  · rw [trimWhiteSpace, List.getLast?_reverse]
    exact eq_false_of_head?_dropWhile

/-- The trimmed text is the one that has no white space at its ends and stands in nothing but white
space. -/
theorem trimWhiteSpace_eq_iff {text trimmed : List Char} :
    trimWhiteSpace text = trimmed ↔
      ∃ before after, text = before ++ (trimmed ++ after) ∧
        (∀ c ∈ before, isWhiteSpace c = true) ∧ (∀ c ∈ after, isWhiteSpace c = true) ∧
        (∀ c ∈ trimmed.head?, isWhiteSpace c = false) ∧
        ∀ c ∈ trimmed.getLast?, isWhiteSpace c = false := by
  constructor
  · rintro rfl
    exact exists_trimWhiteSpace text
  · rintro ⟨before, after, rfl, hbefore, hafter, hhead, hlast⟩
    exact trimWhiteSpace_append hhead hlast hbefore hafter

/-- A text without white space at its ends is not changed by trimming. -/
theorem trimWhiteSpace_eq_self {text : List Char}
    (hhead : ∀ c ∈ text.head?, isWhiteSpace c = false)
    (hlast : ∀ c ∈ text.getLast?, isWhiteSpace c = false) : trimWhiteSpace text = text :=
  trimWhiteSpace_eq_iff.mpr
    ⟨[], [], (List.append_nil text).symm, List.forall_mem_nil _, List.forall_mem_nil _, hhead,
      hlast⟩

/-- Trimming twice is trimming once. -/
theorem trimWhiteSpace_trimWhiteSpace (text : List Char) :
    trimWhiteSpace (trimWhiteSpace text) = trimWhiteSpace text := by
  obtain ⟨-, -, -, -, -, hhead, hlast⟩ := exists_trimWhiteSpace text
  exact trimWhiteSpace_eq_self hhead hlast

end CssValues
