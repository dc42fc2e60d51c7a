import ColdSigner.Display.Coin
import ColdSigner.Display.Time
import ColdSigner.Path.Text
import ColdSigner.Review.Walk
/-!
# What the user sees

Each place of a review has a title, some screens with named values, and a label for going on.
-/
namespace ColdSigner

open Number Display

inductive StepKind where
  | path
  | inputGroup
  | outputGroup
  | tokenGroup
  | changeOutput
  | finalConfirm
  | hash
  | address
  deriving DecidableEq, Repr

namespace StepKind

def all : List StepKind :=
  [path, inputGroup, outputGroup, tokenGroup, changeOutput, finalConfirm, hash, address]

def name : StepKind → String
  | path => "Path"
  | inputGroup => "InputGroup"
  | outputGroup => "OutputGroup"
  | tokenGroup => "TokenGroup"
  | changeOutput => "ChangeOutput"
  | finalConfirm => "FinalConfirm"
  | hash => "Hash"
  | address => "Address"

end StepKind

namespace Place

def kind : Place → StepKind
  | path => .path
  | inputs _ _ => .inputGroup
  | output _ => .outputGroup
  | token _ => .tokenGroup
  | change _ => .changeOutput
  | final => .finalConfirm
  | hash => .hash
  | address => .address

/-- The label for accepting a step. -/
def confirm : Place → String
  | final => "Sign transaction"
  | hash => "Sign hash"
  | address => "Confirm address"
  | _ => "Continue"

end Place

/-- Named values that are shown together. -/
structure Screen where
  fields : List (String × String)
  deriving DecidableEq, Repr

namespace Screen

def one (name value : String) : Screen := ⟨[(name, value)]⟩

def field? (screen : Screen) (name : String) : Option String :=
  (screen.fields.find? (·.1 == name)).map (·.2)

theorem field?_one (name value other : String) :
    (one name value).field? other = if name = other then some value else none := by
  by_cases hName : name = other <;> simp [field?, one, hName]

end Screen

structure ReviewStep where
  kind : StepKind
  title : String
  screens : List Screen
  confirm : String
  deriving DecidableEq, Repr

namespace TxOutput

/-- The screens for the signatures that a lockup wants beside the first one. -/
def multisigScreens : Lockup → List Screen
  | .multisig hashes required =>
      (List.range' 2 (required - 1)).map fun number =>
        Screen.one "Multi-sig" ("signature " ++ Decimal.text number ++ " of " ++
          Decimal.text required ++ " (" ++ Decimal.text hashes.length ++ " keys)")
  | _ => []

def tokenScreen (token : Token) : Screen :=
  ⟨[("Token ID", hex 64 token.id.toList),
    ("Token Amount", Display.amount coinCapacity token.amount)]⟩

def screens (output : TxOutput) : List Screen :=
  [Screen.one "Address" output.lockup.address] ++ multisigScreens output.lockup ++
    output.tokens.map tokenScreen ++ [Screen.one "ALPH" (coin coinCapacity output.amount)] ++
    (if output.lockTime = 0 then []
      else [Screen.one "Lock Time" (time coinCapacity output.lockTime)]) ++
    (if output.data = [] then [] else [Screen.one "Message" (note output.data)])

end TxOutput

namespace Review

variable (review : Review)

/-- The title and the screens of the inputs from `first` up to `stop`. A key that is not the
one of the account gets a warning. -/
def inputScreens (tx : UnsignedTx) (first stop : Nat) : List Screen :=
  let key := (tx.inputKey? first).getD (FixedBytes.zero 33)
  [Screen.one "Address" (Lockup.ofKey key).address,
    Screen.one "Public Key" (hex 66 key.toList)] ++
    (if 0 < first then [Screen.one "Unlock Script" "P2PKH, new key"] else []) ++
    (if key ≠ review.account.publicKey then [Screen.one "Warning" "External input"] else []) ++
    ((tx.inputs.take stop).drop first).map fun input =>
      Screen.one "Output Ref" (hex 66 input.outputKey.toList)

/-- The title of the inputs from `first` up to `stop`. -/
def inputTitle (first stop : Nat) : String :=
  if stop - first = 1 then "Input #" ++ Decimal.text first
  else "Inputs #" ++ Decimal.text first ++ " - #" ++ Decimal.text (stop - 1)

/-- The screens of an output, if there is one at this place. -/
def outputScreens (tx : UnsignedTx) (index : Nat) : List Screen :=
  match tx.outputs[index]? with
  | some output => output.screens
  | none => []

/-- The screen of a token and its total. -/
def tokenScreens (tx : UnsignedTx) (number : Nat) : List Screen :=
  let change := review.change? tx
  match (tx.tokenIds change)[number]? with
  | none => []
  | some id =>
      let total := match tx.tokenTotal? change id with
        | some total => amount Uint256.maxDigits total
        | none => "Overflow"
      [⟨[("Token ID", hex 64 id.toList), ("Total Amount", total)]⟩]

/-- The screens of the last step of a transaction. -/
def finalScreens (tx : UnsignedTx) : List Screen :=
  let fees := match tx.fee? with
    | some fee => coin coinCapacity fee
    | none => "Overflow"
  [Screen.one "Network" tx.network.text, Screen.one "Fees" fees,
    Screen.one "Transaction ID" (hex 64 review.id.toList)]

/-- The title and the screens of a place. A place that does not belong to the review has an
empty title and no screens. -/
def content (place : Place) : String × List Screen :=
  match review.subject, place with
  | .transaction _, .path =>
      ("Path", [Screen.one "Path" review.account.path.text,
        Screen.one "Address" review.account.address])
  | .transaction tx, .inputs first stop =>
      (inputTitle first stop, review.inputScreens tx first stop)
  | .transaction tx, .output index => ("Output #" ++ Decimal.text index, outputScreens tx index)
  | .transaction tx, .token number => ("Token", review.tokenScreens tx number)
  | .transaction tx, .change index => ("Change", outputScreens tx index)
  | .transaction tx, .final => ("Confirm", review.finalScreens tx)
  | .hash, .hash => ("Review", [Screen.one "Hash" (hex 64 review.id.toList)])
  | .address, .address => ("Review", [Screen.one "Address" review.account.address])
  | _, _ => ("", [])

def render (place : Place) : ReviewStep :=
  let (title, screens) := review.content place
  ⟨place.kind, title, screens, place.confirm⟩

end Review

end ColdSigner
