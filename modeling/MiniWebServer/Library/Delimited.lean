import Mathlib

/-!
# Lists cut at a two-symbol delimiter

A stream protocol cuts its input at the first occurrence of a delimiter made of
two different symbols `a` and `b`. This file gives the cut, characterises it
declaratively, and shows that a cut, once found, does not depend on what
arrives later.
-/

namespace Delimited

universe u

variable {α : Type u}

/-- No occurrence of the delimiter `a b`. -/
def Free (a b : α) (input : List α) : Prop :=
  ¬[a, b] <:+: input

/-- A line followed by its delimiter. -/
def terminated (a b : α) (line : List α) : List α :=
  line ++ [a, b]

/-- The lines one after the other, each followed by its delimiter. -/
def joined (a b : α) (lines : List (List α)) : List α :=
  (lines.map (terminated a b)).flatten

@[simp]
theorem joined_nil (a b : α) : joined a b [] = [] :=
  rfl

@[simp]
theorem joined_cons (a b : α) (line : List α) (lines : List (List α)) :
    joined a b (line :: lines) = terminated a b line ++ joined a b lines :=
  rfl

@[simp]
theorem joined_append (a b : α) (first second : List (List α)) :
    joined a b (first ++ second) = joined a b first ++ joined a b second := by
  simp [joined]

@[simp]
theorem free_nil (a b : α) : Free a b [] := by
  simp [Free]

@[simp]
theorem free_singleton (a b x : α) : Free a b [x] := by
  intro occurs
  have short := occurs.length_le
  simp at short

theorem free_cons_cons {a b x y : α} {rest : List α} :
    Free a b (x :: y :: rest) ↔ ¬(x = a ∧ y = b) ∧ Free a b (y :: rest) := by
  rw [Free, Free, List.infix_cons_iff, not_or]
  apply and_congr_left
  intro _
  apply not_congr
  rw [List.cons_prefix_cons, List.cons_prefix_cons]
  constructor
  · rintro ⟨rfl, rfl, _⟩
    exact ⟨rfl, rfl⟩
  · rintro ⟨rfl, rfl⟩
    exact ⟨rfl, rfl, List.nil_prefix⟩

theorem free_append_of_not_mem {a b : α} {left right : List α} (leftFree : Free a b left)
    (rightFree : Free a b right) (absent : b ∉ right) : Free a b (left ++ right) := by
  induction left with
  | nil => simpa using rightFree
  | cons x rest ih =>
      cases rest with
      | nil =>
          cases right with
          | nil => simp
          | cons y tail =>
              simp only [List.cons_append, List.nil_append, free_cons_cons]
              refine ⟨fun both => absent ?_, rightFree⟩
              simp [both.2]
      | cons y tail =>
          rw [free_cons_cons] at leftFree
          simp only [List.cons_append, free_cons_cons]
          exact ⟨leftFree.1, ih leftFree.2⟩

theorem free_cons_of_ne {a b x : α} {rest : List α} (other : x ≠ a) (free : Free a b rest) :
    Free a b (x :: rest) := by
  cases rest with
  | nil => exact free_singleton a b x
  | cons y tail => exact free_cons_cons.mpr ⟨fun both => other both.1, free⟩

theorem free_append_of_left_not_mem {a b : α} {left right : List α} (absent : a ∉ left)
    (rightFree : Free a b right) : Free a b (left ++ right) := by
  induction left with
  | nil => exact rightFree
  | cons x rest ih =>
      simp only [List.mem_cons, not_or] at absent
      exact free_cons_of_ne (Ne.symm absent.1) (ih absent.2)

theorem free_of_not_mem_left {a b : α} {input : List α} (absent : a ∉ input) :
    Free a b input := by
  rintro ⟨before, after, rfl⟩
  simp at absent

theorem free_of_not_mem_right {a b : α} {input : List α} (absent : b ∉ input) :
    Free a b input := by
  rintro ⟨before, after, rfl⟩
  simp at absent

variable [DecidableEq α]

/-- Cut the input at the first delimiter: the line before it and what follows. -/
def cut (a b : α) : List α → Option (List α × List α)
  | x :: y :: rest =>
      if x = a ∧ y = b then some ([], rest)
      else (cut a b (y :: rest)).map fun pair => (x :: pair.1, pair.2)
  | _ => none

theorem cut_eq_none_iff {a b : α} {input : List α} : cut a b input = none ↔ Free a b input := by
  induction input with
  | nil => simp [cut]
  | cons x rest ih =>
      cases rest with
      | nil => simp [cut]
      | cons y tail =>
          rw [free_cons_cons, ← ih]
          by_cases here : x = a ∧ y = b
          · simp [cut, here]
          · simp [cut, here]

theorem cut_terminated_append {a b : α} (distinct : a ≠ b) {line : List α}
    (free : Free a b line) (rest : List α) :
    cut a b (terminated a b line ++ rest) = some (line, rest) := by
  induction line with
  | nil => simp [terminated, cut]
  | cons x line ih =>
      cases line with
      | nil =>
          have notHere : ¬(x = a ∧ a = b) := fun both => distinct both.2
          simp [terminated, cut, notHere]
      | cons y tail =>
          rw [free_cons_cons] at free
          have tailCut := ih free.2
          simp only [terminated, List.cons_append] at tailCut ⊢
          rw [cut, if_neg free.1, tailCut]
          rfl

theorem cut_eq_some {a b : α} {input line rest : List α}
    (found : cut a b input = some (line, rest)) :
    Free a b line ∧ input = terminated a b line ++ rest := by
  induction input generalizing line with
  | nil => simp [cut] at found
  | cons x tail ih =>
      cases tail with
      | nil => simp [cut] at found
      | cons y tail =>
          by_cases here : x = a ∧ y = b
          · simp only [cut, if_pos here, Option.some.injEq, Prod.mk.injEq] at found
            rcases found with ⟨rfl, rfl⟩
            rcases here with ⟨rfl, rfl⟩
            exact ⟨free_nil _ _, rfl⟩
          · simp only [cut, if_neg here, Option.map_eq_some_iff, Prod.mk.injEq] at found
            rcases found with ⟨⟨inner, left⟩, innerCut, rfl, rfl⟩
            rcases ih innerCut with ⟨innerFree, inputEq⟩
            refine ⟨?_, by rw [inputEq]; rfl⟩
            cases inner with
            | nil => simp
            | cons z inner =>
                have headEq : y = z := by
                  simp only [terminated, List.cons_append, List.cons.injEq] at inputEq
                  exact inputEq.1
                subst headEq
                exact free_cons_cons.mpr ⟨here, innerFree⟩

/-- Input up to its first blank line falls into lines in one way. -/
theorem lines_eq_of_joined_append_eq {a b : α} (distinct : a ≠ b) {first second : List (List α)}
    {rest other : List α} (firstLines : ∀ line ∈ first, Free a b line ∧ line ≠ [])
    (secondLines : ∀ line ∈ second, Free a b line ∧ line ≠ [])
    (same : joined a b first ++ (terminated a b [] ++ rest) =
      joined a b second ++ (terminated a b [] ++ other)) :
    first = second ∧ rest = other := by
  induction first generalizing second with
  | nil =>
      have blank := cut_terminated_append distinct (free_nil a b) rest
      rw [joined_nil, List.nil_append] at same
      cases second with
      | nil =>
          rw [same, joined_nil, List.nil_append,
            cut_terminated_append distinct (free_nil a b)] at blank
          simp only [Option.some.injEq, Prod.mk.injEq, true_and] at blank
          exact ⟨rfl, blank.symm⟩
      | cons line second =>
          have isLine := secondLines line (by simp)
          rw [same, joined_cons, List.append_assoc,
            cut_terminated_append distinct isLine.1] at blank
          simp only [Option.some.injEq, Prod.mk.injEq] at blank
          exact absurd blank.1 isLine.2
  | cons line first ih =>
      have isLine := firstLines line (by simp)
      rw [joined_cons, List.append_assoc] at same
      have firstCut := cut_terminated_append distinct isLine.1
        (joined a b first ++ (terminated a b [] ++ rest))
      rw [same] at firstCut
      cases second with
      | nil =>
          rw [joined_nil, List.nil_append,
            cut_terminated_append distinct (free_nil a b)] at firstCut
          simp only [Option.some.injEq, Prod.mk.injEq] at firstCut
          exact absurd firstCut.1.symm isLine.2
      | cons other second =>
          rw [joined_cons, List.append_assoc,
            cut_terminated_append distinct (secondLines other (by simp)).1] at firstCut
          simp only [Option.some.injEq, Prod.mk.injEq] at firstCut
          rcases firstCut with ⟨rfl, restEq⟩
          have tails := @ih second
            (fun line member => firstLines line (by simp [member]))
            (fun line member => secondLines line (by simp [member])) restEq.symm
          exact ⟨by rw [tails.1], tails.2⟩

/-- Lines at the front of an input are its first lines. -/
theorem prefix_of_joined_append_eq {a b : α} (distinct : a ≠ b) {first lines : List (List α)}
    {last rest : List α} (free : ∀ line ∈ first, Free a b line) (lastFree : Free a b last)
    (linesFree : ∀ line ∈ lines, Free a b line)
    (same : joined a b first ++ last = joined a b lines ++ rest) : lines <+: first := by
  induction lines generalizing first with
  | nil => exact List.nil_prefix
  | cons line lines ih =>
      have front := cut_terminated_append distinct (linesFree line (by simp))
        (joined a b lines ++ rest)
      rw [← List.append_assoc, ← joined_cons, ← same] at front
      cases first with
      | nil =>
          rw [joined_nil, List.nil_append, cut_eq_none_iff.mpr lastFree] at front
          cases front
      | cons other first =>
          rw [joined_cons, List.append_assoc,
            cut_terminated_append distinct (free other (by simp))] at front
          simp only [Option.some.injEq, Prod.mk.injEq] at front
          rcases front with ⟨rfl, restEq⟩
          rw [List.cons_prefix_cons]
          exact ⟨rfl, ih (fun line member => free line (by simp [member]))
            (fun line member => linesFree line (by simp [member])) restEq⟩

/-- A cut that has been found is not changed by later input. -/
theorem cut_append_of_eq_some {a b : α} (distinct : a ≠ b) {input line rest : List α}
    (found : cut a b input = some (line, rest)) (later : List α) :
    cut a b (input ++ later) = some (line, rest ++ later) := by
  rcases cut_eq_some found with ⟨free, rfl⟩
  rw [List.append_assoc]
  exact cut_terminated_append distinct free (rest ++ later)

theorem length_of_cut_eq_some {a b : α} {input line rest : List α}
    (found : cut a b input = some (line, rest)) :
    input.length = line.length + 2 + rest.length := by
  rw [(cut_eq_some found).2]
  simp only [terminated, List.length_append, List.length_cons, List.length_nil]

/-- A scan for the first index of the delimiter finds where the cut is. -/
theorem find?_range_eq_map_cut (a b : α) (input : List α) :
    (List.range (input.length - 1)).find?
        (fun i => input[i]? = some a ∧ input[i + 1]? = some b) =
      (cut a b input).map fun pair => pair.1.length := by
  induction input with
  | nil => rfl
  | cons x rest ih =>
      cases rest with
      | nil => rfl
      | cons y tail =>
          have lengthEq : (x :: y :: tail).length - 1 = ((y :: tail).length - 1) + 1 := by
            simp
          rw [lengthEq, List.range_succ_eq_map, List.find?_cons]
          by_cases here : x = a ∧ y = b
          · simp [cut, here]
          · simp only [List.getElem?_cons_zero, List.getElem?_cons_succ, Option.some.injEq,
              here, decide_false, List.find?_map, cut, if_false, Option.map_map]
            have shifted := congrArg (Option.map Nat.succ) ih
            simpa [Function.comp_def] using shifted

/-- The input behind its last delimiter. -/
def remainder (a b : α) (input : List α) : List α :=
  match _found : cut a b input with
  | none => input
  | some (_, rest) => remainder a b rest
termination_by input.length
decreasing_by
  have := length_of_cut_eq_some _found
  omega

theorem remainder_of_cut_eq_none {a b : α} {input : List α} (noCut : cut a b input = none) :
    remainder a b input = input := by
  rw [remainder]
  split
  · rfl
  · next found => rw [noCut] at found; cases found

theorem remainder_of_cut_eq_some {a b : α} {input line rest : List α}
    (found : cut a b input = some (line, rest)) : remainder a b input = remainder a b rest := by
  rw [remainder]
  split
  · next noCut => rw [found] at noCut; cases noCut
  · next foundAgain =>
    rw [found] at foundAgain
    cases foundAgain
    rfl

/-- The lines of the input, the last of which may lack its delimiter. -/
def lines (a b : α) (input : List α) : List (List α) :=
  if input = [] then []
  else
    match _found : cut a b input with
    | none => [input]
    | some (line, rest) => line :: lines a b rest
termination_by input.length
decreasing_by
  have := length_of_cut_eq_some _found
  omega

@[simp]
theorem lines_nil (a b : α) : lines a b ([] : List α) = [] := by
  rw [lines, if_pos rfl]

theorem lines_of_cut_eq_none {a b : α} {input : List α} (nonempty : input ≠ [])
    (noCut : cut a b input = none) : lines a b input = [input] := by
  rw [lines, if_neg nonempty]
  split
  · rfl
  · next found => rw [noCut] at found; cases found

theorem lines_of_cut_eq_some {a b : α} {input line rest : List α}
    (found : cut a b input = some (line, rest)) :
    lines a b input = line :: lines a b rest := by
  have nonempty : input ≠ [] := by
    rintro rfl
    cases found
  rw [lines, if_neg nonempty]
  split
  · next noCut => rw [found] at noCut; cases noCut
  · next foundAgain =>
    rw [found] at foundAgain
    cases foundAgain
    rfl

/-- The lines of terminated lines and a last one. -/
theorem lines_joined_append {a b : α} (distinct : a ≠ b) {first : List (List α)} {last : List α}
    (free : ∀ line ∈ first, Free a b line) (lastFree : Free a b last) (nonempty : last ≠ []) :
    lines a b (joined a b first ++ last) = first ++ [last] := by
  induction first with
  | nil => exact lines_of_cut_eq_none nonempty (cut_eq_none_iff.mpr lastFree)
  | cons line first ih =>
      have found := cut_terminated_append distinct (free line (List.mem_cons_self ..))
        (joined a b first ++ last)
      rw [joined_cons, List.append_assoc, lines_of_cut_eq_some found,
        ih fun other member => free other (List.mem_cons_of_mem line member), List.cons_append]

theorem findIdx?_eq_none_of_not_mem {symbol : α} {input : List α} (absent : symbol ∉ input) :
    input.findIdx? (· = symbol) = none := by
  rw [List.findIdx?_eq_none_iff]
  intro other member
  simp only [decide_eq_false_iff_not]
  rintro rfl
  exact absent member

theorem findIdx?_append_cons {symbol : α} {before : List α} (absent : symbol ∉ before)
    (after : List α) :
    (before ++ symbol :: after).findIdx? (· = symbol) = some before.length := by
  rw [List.findIdx?_append, findIdx?_eq_none_of_not_mem absent]
  simp [List.findIdx?_cons]

/-- A list that holds the symbol, split at its first occurrence. -/
theorem exists_split_of_mem {symbol : α} {input : List α} (present : symbol ∈ input) :
    ∃ before after, input = before ++ symbol :: after ∧ symbol ∉ before := by
  rcases List.append_of_mem present with ⟨before, after, inputEq⟩
  induction before generalizing input with
  | nil => exact ⟨[], after, inputEq, by simp⟩
  | cons head before ih =>
      by_cases here : head = symbol
      · subst here
        exact ⟨[], before ++ head :: after, inputEq, by simp⟩
      · have later : symbol ∈ before ++ symbol :: after := by simp
        rcases ih later rfl with ⟨first, rest, splitEq, absent⟩
        refine ⟨head :: first, rest, by rw [inputEq, List.cons_append, splitEq]; rfl, ?_⟩
        simp only [List.mem_cons, not_or]
        exact ⟨Ne.symm here, absent⟩

end Delimited
