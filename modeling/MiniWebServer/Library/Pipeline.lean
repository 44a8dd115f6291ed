import Mathlib

/-!
# Replies in the order of their requests

A pipeline takes requests one after the other and makes its replies one after
the other. `InOrder` relates the two histories position by position: requests
may be ahead of the replies, but no reply stands where another one belongs.
-/

namespace Pipeline

universe u v

variable {Request : Type u} {Reply : Type v} {Answers : Request → Reply → Prop}
  {requests : List Request} {replies : List Reply}

/-- The reply at each position answers the request at that position. -/
def InOrder (Answers : Request → Reply → Prop) (requests : List Request)
    (replies : List Reply) : Prop :=
  ∀ (position : ℕ) (reply : Reply), replies[position]? = some reply →
    ∃ request, requests[position]? = some request ∧ Answers request reply

namespace InOrder

theorem nil (requests : List Request) : InOrder Answers requests [] := by
  intro position reply found
  simp at found

/-- Requests may arrive at any time. -/
theorem arrive (inOrder : InOrder Answers requests replies) (later : List Request) :
    InOrder Answers (requests ++ later) replies := by
  intro position reply found
  rcases inOrder position reply found with ⟨request, asked, answers⟩
  have inside : position < requests.length := (List.getElem?_eq_some_iff.mp asked).1
  exact ⟨request, by rwa [List.getElem?_append_left inside], answers⟩

/-- The next reply has to answer the request whose turn it is. -/
theorem reply (inOrder : InOrder Answers requests replies) {request : Request} {reply : Reply}
    (turn : requests[replies.length]? = some request) (answers : Answers request reply) :
    InOrder Answers requests (replies ++ [reply]) := by
  intro position other found
  rcases Nat.lt_trichotomy position replies.length with before | rfl | after
  · rw [List.getElem?_append_left before] at found
    exact inOrder position other found
  · rw [List.getElem?_concat_length, Option.some.injEq] at found
    subst found
    exact ⟨request, turn, answers⟩
  · rw [List.getElem?_eq_none (by simp; omega)] at found
    cases found

/-- A request that finds all earlier ones answered is answered at once. -/
theorem answer (inOrder : InOrder Answers requests replies) {request : Request} {reply : Reply}
    (answered : requests.length = replies.length) (answers : Answers request reply) :
    InOrder Answers (requests ++ [request]) (replies ++ [reply]) := by
  refine (inOrder.arrive [request]).reply ?_ answers
  rw [← answered, List.getElem?_concat_length]

/-- What is in order was so all the time. -/
theorem of_append {later : List Reply} (inOrder : InOrder Answers requests (replies ++ later)) :
    InOrder Answers requests replies := by
  intro position reply found
  have inside : position < replies.length := (List.getElem?_eq_some_iff.mp found).1
  exact inOrder position reply (by rwa [List.getElem?_append_left inside])

end InOrder

end Pipeline
