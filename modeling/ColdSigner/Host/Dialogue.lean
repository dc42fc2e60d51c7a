import ColdSigner.Apdu.Chunk
import ColdSigner.Host.Error
/-!
# Dialogues with a device

What the host does is a tree: it sends commands and goes on according to what comes back. The
tree says nothing about the channel, so the same dialogue runs over any `Link`, an honest or a
hostile one. Times are in milliseconds.
-/
namespace ColdSigner

/-- The data of an answer and its status word. -/
structure Answer where
  data : Bytes
  status : UInt16
  deriving DecidableEq, Repr

namespace Answer

/-- The answer with these bytes, the last two of which are the status word. -/
def ofBytes? (bytes : Bytes) : Option Answer :=
  if bytes.length < 2 then none
  else
    let count := bytes.length - 2
    some ⟨bytes.take count, UInt16.ofNat (Bytes.ofBigEndian (bytes.drop count))⟩

end Answer

/-- What becomes of one request, which may be several commands. -/
inductive Outcome where
  /-- It ended after some time, with the data of the last answer or with an error. -/
  | ended (result : Except HostError Bytes) (elapsed : Nat)
  /-- The time of the user ran out first. -/
  | expired

/-- A dialogue that ends with a value. -/
inductive Dialogue (α : Type) where
  | done (result : α)
  /-- Send commands in a row, each of them with a limit on the time of its answer, and all of
  them within a budget, if there is one. -/
  | request (commands : List Bytes) (limit : Nat) (budget : Option Nat)
      (next : Outcome → Dialogue α)
  | wait (time : Nat) (next : Dialogue α)

namespace Dialogue

def bind {α β : Type} : Dialogue α → (α → Dialogue β) → Dialogue β
  | done result, f => f result
  | request commands limit budget next, f =>
      request commands limit budget fun outcome => (next outcome).bind f
  | wait time next, f => wait time (next.bind f)

instance : Monad Dialogue where
  pure := done
  bind := bind

end Dialogue

/-- How long an answer takes, if it comes at all. -/
inductive Arrival where
  | after (delay : Nat) (result : Except HostError Answer)
  | never

/-- A channel to a device, as a function of its state. -/
structure Link (σ : Type) where
  exchange : σ → Bytes → Arrival × σ

namespace Link

variable {σ : Type} (link : Link σ)

/-- The budget, if there is one, is not used up by then. -/
def within (budget : Option Nat) (time : Nat) : Bool := budget.all (time ≤ ·)

/-- Send commands in a row. The first answer that is no success ends the request; so does one
that takes longer than the limit. -/
def perform (limit : Nat) (budget : Option Nat) :
    List Bytes → Nat → Bytes → σ → Outcome × σ
  | [], elapsed, data, state => (.ended (.ok data) elapsed, state)
  | command :: rest, elapsed, _, state =>
      let (arrival, next) := link.exchange state command
      let late : Outcome :=
        if within budget (elapsed + limit) then .ended (.error .requestTimeout) (elapsed + limit)
        else .expired
      match arrival with
      | .never => (late, next)
      | .after delay result =>
          if limit < delay then (late, next)
          else if !within budget (elapsed + delay) then (.expired, next)
          else match result with
            | .error e => (.ended (.error e) (elapsed + delay), next)
            | .ok answer =>
                if answer.status = Status.ok then
                  perform limit budget rest (elapsed + delay) answer.data next
                else (.ended (.error (.ofStatus answer.status)) (elapsed + delay), next)

end Link

namespace Dialogue

def run {σ α : Type} (link : Link σ) : Dialogue α → σ → α × σ
  | done result, state => (result, state)
  | request commands limit budget next, state =>
      let (outcome, after) := link.perform limit budget commands 0 [] state
      (next outcome).run link after
  | wait _ next, state => next.run link state

theorem run_bind {σ α β : Type} (link : Link σ) (dialogue : Dialogue α) (f : α → Dialogue β)
    (state : σ) :
    (dialogue.bind f).run link state =
      (f (dialogue.run link state).1).run link (dialogue.run link state).2 := by
  induction dialogue generalizing state with
  | done result => rfl
  | request commands limit budget next ih => exact ih _ _
  | wait time next ih => exact ih _

end Dialogue

end ColdSigner
