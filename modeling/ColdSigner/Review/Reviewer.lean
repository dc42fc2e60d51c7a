import ColdSigner.Review.Screen
/-!
# The decisions of the user

A reviewer stands at one place of a review. Accepting leads to the next place, or approves the
request at the last one; refusing at any place refuses the whole request.
-/
namespace ColdSigner

/-- How a review stands. -/
inductive ReviewState where
  /-- The user looks at a place. -/
  | pending (place : Place)
  | approved
  | rejected
  deriving DecidableEq, Repr

/-- How a review stands, and the number of the step; the highest number is never passed. -/
structure Reviewer where
  state : ReviewState
  step : UInt16
  deriving DecidableEq, Repr

namespace Reviewer

def start (review : Review) : Reviewer := ⟨.pending review.first, 0⟩

/-- The place that the user looks at. -/
def place? (reviewer : Reviewer) : Option Place :=
  match reviewer.state with
  | .pending place => some place
  | _ => none

def currentStep? (reviewer : Reviewer) (review : Review) : Option ReviewStep :=
  reviewer.place?.map review.render

def accept (reviewer : Reviewer) (review : Review) : Reviewer :=
  match reviewer.state with
  | .pending place =>
      match review.next? place with
      | some following =>
          ⟨.pending following, if reviewer.step = 0xffff then 0xffff else reviewer.step + 1⟩
      | none => ⟨.approved, reviewer.step⟩
  | _ => reviewer

def reject (reviewer : Reviewer) : Reviewer :=
  match reviewer.state with
  | .pending _ => ⟨.rejected, reviewer.step⟩
  | _ => reviewer

end Reviewer

end ColdSigner
