import Mathlib

/-!
# Consumers that may be resumed

A consumer works on the input that has arrived so far: it returns the outputs
it could produce and, unless it has stopped for good, the state and the
unconsumed input from which it goes on. A consumer is resumable when consuming
an input in two parts comes to the same as consuming it at once. The outputs of
a resumable consumer do not depend on how its input is cut into chunks.
-/

namespace Incremental

universe u v w

variable {State : Type u} {Symbol : Type v} {Output : Type w}

/-- The outputs produced, and where to go on from (nowhere after a stop). -/
abbrev Outcome (State : Type u) (Symbol : Type v) (Output : Type w) :=
  List Output × Option (State × List Symbol)

/-- What a consumer does with the input that is there. -/
abbrev Consumer (State : Type u) (Symbol : Type v) (Output : Type w) :=
  State → List Symbol → Outcome State Symbol Output

namespace Consumer

/-- Go on with one more piece of input after an earlier outcome. -/
def extend (consume : Consumer State Symbol Output) (earlier : Outcome State Symbol Output)
    (piece : List Symbol) : Outcome State Symbol Output :=
  match earlier.2 with
  | none => earlier
  | some (state, unread) =>
      let later := consume state (unread ++ piece)
      (earlier.1 ++ later.1, later.2)

/-- Consuming in two parts comes to the same as consuming at once. -/
def Resumable (consume : Consumer State Symbol Output) : Prop :=
  ∀ state first second,
    consume state (first ++ second) = consume.extend (consume state first) second

/-- Consume a list of chunks as they arrive. -/
def feed (consume : Consumer State Symbol Output) (start : Outcome State Symbol Output)
    (chunks : List (List Symbol)) : Outcome State Symbol Output :=
  chunks.foldl consume.extend start

variable {consume : Consumer State Symbol Output}

@[simp]
theorem feed_nil (start : Outcome State Symbol Output) : consume.feed start [] = start :=
  rfl

@[simp]
theorem feed_cons (start : Outcome State Symbol Output) (chunk : List Symbol)
    (chunks : List (List Symbol)) :
    consume.feed start (chunk :: chunks) = consume.feed (consume.extend start chunk) chunks :=
  rfl

/-- Only the outputs still to come depend on the state: those made are kept. -/
theorem extend_append_outputs (made outputs : List Output)
    (next : Option (State × List Symbol)) (piece : List Symbol) :
    consume.extend (made ++ outputs, next) piece =
      (made ++ (consume.extend (outputs, next) piece).1,
        (consume.extend (outputs, next) piece).2) := by
  cases next with
  | none => rfl
  | some pair => simp [extend]

theorem extend_extend (resumable : consume.Resumable) (earlier : Outcome State Symbol Output)
    (first second : List Symbol) :
    consume.extend (consume.extend earlier first) second =
      consume.extend earlier (first ++ second) := by
  rcases earlier with ⟨outputs, next⟩
  cases next with
  | none => rfl
  | some pair =>
      rcases pair with ⟨state, unread⟩
      have split := resumable state (unread ++ first) second
      rw [List.append_assoc] at split
      calc consume.extend (consume.extend (outputs, some (state, unread)) first) second
          = consume.extend (outputs ++ (consume state (unread ++ first)).1,
              (consume state (unread ++ first)).2) second := rfl
        _ = (outputs ++ (consume.extend (consume state (unread ++ first)) second).1,
              (consume.extend (consume state (unread ++ first)) second).2) :=
            extend_append_outputs outputs _ _ second
        _ = consume.extend (outputs, some (state, unread)) (first ++ second) := by
            rw [← split]
            rfl

/-- After any consumption there is nothing left to do until input arrives. -/
theorem extend_nil_of_resumable (resumable : consume.Resumable) (state : State)
    (input : List Symbol) :
    consume.extend (consume state input) [] = consume state input := by
  rw [← resumable, List.append_nil]

/-- More input adds outputs to those made. -/
theorem outputs_prefix_of_prefix (resumable : consume.Resumable) (state : State)
    {first whole : List Symbol} (front : first <+: whole) :
    (consume state first).1 <+: (consume state whole).1 := by
  rcases front with ⟨rest, rfl⟩
  rw [resumable]
  cases stopped : (consume state first).2 with
  | none => simp [extend, stopped]
  | some pair => simp [extend, stopped]

/-- A consumer that has stopped does not go on with more input. -/
theorem eq_of_stopped_of_prefix (resumable : consume.Resumable) {state : State}
    {first whole : List Symbol} (front : first <+: whole)
    (stopped : (consume state first).2 = none) :
    consume state whole = consume state first := by
  rcases front with ⟨rest, rfl⟩
  rw [resumable, extend, stopped]

/-- What a resumable consumer does depends on the input only, not on its chunks. -/
theorem feed_extend_eq_extend_flatten (resumable : consume.Resumable)
    (start : Outcome State Symbol Output) (chunk : List Symbol) (chunks : List (List Symbol)) :
    consume.feed (consume.extend start chunk) chunks =
      consume.extend start (chunk ++ chunks.flatten) := by
  induction chunks generalizing chunk with
  | nil => simp
  | cons next rest ih =>
      rw [feed_cons, extend_extend resumable, ih, List.flatten_cons, List.append_assoc]

/-- From a start with nothing left to do, feeding chunks is consuming their
concatenation. -/
theorem feed_eq_extend_flatten (resumable : consume.Resumable)
    {start : Outcome State Symbol Output} (settled : consume.extend start [] = start)
    (chunks : List (List Symbol)) :
    consume.feed start chunks = consume.extend start chunks.flatten := by
  have fed := feed_extend_eq_extend_flatten resumable start [] chunks
  rw [settled, List.nil_append] at fed
  exact fed

end Consumer

end Incremental
