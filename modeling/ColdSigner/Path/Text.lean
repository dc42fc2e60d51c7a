import ColdSigner.Number.Decimal
import ColdSigner.Path
import ColdSigner.Text.Blank
/-!
# Paths as text

A path is written as `m` and, for each number, a slash and the number without its highest bit;
an apostrophe marks a hardened number. Reading is more liberal: the `m` and the first slash may
be missing, `h` marks a hardened number too, and blanks around the text do not count.
-/
namespace ColdSigner.DerivationPath

open Number

/-- One number behind its slash. -/
def componentChars (index : UInt32) : List Char :=
  if isHardened index then
    '/' :: Decimal.chars (index - hardened).toNat ++ ['\'']
  else
    '/' :: Decimal.chars index.toNat

def chars (path : DerivationPath) : List Char :=
  'm' :: path.indices.flatMap componentChars

def text (path : DerivationPath) : String :=
  String.ofList path.chars

def split : List Char → List (List Char)
  | [] => [[]]
  | c :: rest =>
      if c = '/' then [] :: split rest
      else match split rest with
        | [] => [[c]]
        | piece :: pieces => (c :: piece) :: pieces

/-- A number below the lowest hardened one, in decimal; a plus sign in front is allowed. -/
def indexOfChars (text : List Char) : Except WireError UInt32 :=
  let digits := match text with
    | '+' :: rest => rest
    | text => text
  match Decimal.ofChars? digits with
  | some value =>
      if value < hardened.toNat then .ok (UInt32.ofNat value) else .error .invalidEncoding
  | none => .error .invalidEncoding

/-- A number with or without the mark of a hardened one. -/
def componentOfChars (text : List Char) : Except WireError UInt32 :=
  if text.getLast? = some '\'' ∨ text.getLast? = some 'h' then
    (indexOfChars text.dropLast).map (· + hardened)
  else
    indexOfChars text

/-- Read the pieces between slashes, for which there is only so much room. -/
def indicesOfPieces : Nat → List (List Char) → Except WireError (List UInt32)
  | _, [] => .ok []
  | room, piece :: pieces => do
      let index ← componentOfChars piece
      match room with
      | 0 => .error .invalidLength
      | room + 1 => return index :: (← indicesOfPieces room pieces)

/-- The text without this character in front, if it has it. -/
def dropLeading (c : Char) : List Char → List Char
  | d :: rest => if d = c then rest else d :: rest
  | [] => []

def ofChars (text : List Char) : Except WireError DerivationPath :=
  match dropLeading '/' (dropLeading 'm' (Text.trim text)) with
  | [] => .ok root
  | body => do ofIndices (← indicesOfPieces maxDepth (split body))

def ofText (text : String) : Except WireError DerivationPath :=
  ofChars text.toList

end ColdSigner.DerivationPath
