import Mathlib

/-!
# Searching a list for a pattern

The first place at which a pattern occurs, and what a search finds in a
beginning of the input: the same place once the occurrence is complete, and
nothing before.
-/

namespace Search

universe u

variable {α : Type u} [DecidableEq α] {pattern start input : List α} {index : ℕ}

/-- The first index at which the pattern occurs. -/
def find (pattern input : List α) : Option ℕ :=
  input.tails.findIdx? fun tail => pattern.isPrefixOf tail

theorem find_eq_some_iff :
    find pattern input = some index ↔
      index ≤ input.length ∧ pattern <+: input.drop index ∧
        ∀ earlier < index, ¬pattern <+: input.drop earlier := by
  rw [find, List.findIdx?_eq_some_iff_getElem]
  simp only [List.getElem_tails, List.isPrefixOf_iff_prefix, List.length_tails,
    Nat.lt_succ_iff, exists_prop]

theorem find_eq_none_iff : find pattern input = none ↔ ¬pattern <:+: input := by
  rw [find, List.findIdx?_eq_none_iff, List.infix_iff_prefix_suffix]
  simp only [List.mem_tails, Bool.eq_false_iff, ne_eq, List.isPrefixOf_iff_prefix, not_exists,
    not_and]
  exact forall_congr' fun tail => ⟨fun absent occurs suffix => absent suffix occurs,
    fun absent suffix occurs => absent occurs suffix⟩

theorem add_length_le_of_find (found : find pattern input = some index) :
    index + pattern.length ≤ input.length := by
  rcases find_eq_some_iff.mp found with ⟨inside, occurs, _⟩
  have fits := occurs.length_le
  rw [List.length_drop] at fits
  omega

/-- A search in a beginning of the input finds the first occurrence when it is there whole. -/
theorem find_of_prefix (begins : start <+: input) (found : find pattern input = some index) :
    find pattern start =
      if index + pattern.length ≤ start.length then some index else none := by
  have first := (find_eq_some_iff.mp found).2
  have drops : ∀ i, start.drop i <+: input.drop i := fun i => begins.drop i
  split
  · next whole =>
    rw [find_eq_some_iff]
    refine ⟨by omega, ?_, fun earlier less occurs => ?_⟩
    · apply List.prefix_of_prefix_length_le first.1 (drops index)
      rw [List.length_drop]
      omega
    · exact first.2 earlier less (occurs.trans (drops earlier))
  · next short =>
    cases foundEarly : find pattern start with
    | none => rfl
    | some other =>
        have fits := add_length_le_of_find foundEarly
        have occurs := (find_eq_some_iff.mp foundEarly).2.1.trans (drops other)
        have notBefore : ¬other < index := fun less => first.2 other less occurs
        omega

end Search
