import Mathlib.Data.List.Forall2
import Mathlib.Data.List.TakeWhile
import ColdSigner.Path.Text
import ColdSigner.Proofs.DisplayedValues
/-!
# The spellings of a path

A path may be written in more ways than one: with or without the `m` and the slash in front of its
numbers, with either mark behind a hardened number, and with blanks around all of it. `Spells` lists
these ways from the side of the writer. The reader accepts exactly them (`spells_iff`), and so it
reads its own text of every path back (`reads_every_spelling`).
-/
namespace ColdSigner

namespace Text

/-- What is trimmed are blanks. -/
theorem exists_trim (text : List Char) :
    ∃ before after, (∀ c ∈ before, isBlank c = true) ∧ (∀ c ∈ after, isBlank c = true) ∧
      text = before ++ trim text ++ after := by
  have hBlank {c : Char} {list : List Char} (hMem : c ∈ list.takeWhile isBlank) :
      isBlank c = true := List.mem_takeWhile_imp hMem
  refine ⟨text.takeWhile isBlank, ((text.dropWhile isBlank).reverse.takeWhile isBlank).reverse,
    fun c hMem => hBlank hMem, fun c hMem => hBlank (List.mem_reverse.1 hMem), ?_⟩
  rw [trim, List.append_assoc, ← List.reverse_append, List.takeWhile_append_dropWhile,
    List.reverse_reverse, List.takeWhile_append_dropWhile]

/-- The blanks around a text without blanks are what is trimmed. -/
theorem trim_append {before core after : List Char} (hBefore : ∀ c ∈ before, isBlank c = true)
    (hAfter : ∀ c ∈ after, isBlank c = true) (hCore : ∀ c ∈ core, isBlank c = false) :
    trim (before ++ core ++ after) = core := by
  rw [trim, List.append_assoc, List.dropWhile_append_of_pos hBefore]
  cases core with
  | nil =>
      have hNone : after.dropWhile isBlank = [] := List.dropWhile_eq_nil_iff.2 hAfter
      rw [List.nil_append, hNone]
      rfl
  | cons first rest =>
      have hFront : (first :: rest ++ after).dropWhile isBlank = first :: rest ++ after := by
        rw [List.cons_append, List.dropWhile_cons_of_neg (by simp [hCore first (by simp)])]
      have hBack : (first :: rest).reverse.dropWhile isBlank = (first :: rest).reverse := by
        rw [List.dropWhile_eq_self_iff]
        intro hLength
        exact Bool.not_eq_true _ ▸ hCore _ (List.mem_reverse.1 (List.getElem_mem hLength))
      rw [hFront, List.reverse_append,
        List.dropWhile_append_of_pos fun c hMem => hAfter c (List.mem_reverse.1 hMem), hBack,
        List.reverse_reverse]

end Text

namespace DerivationPath

open Number

/-- A character that may be missing. -/
def IsOptional (c : Char) (text : List Char) : Prop := text = [] ∨ text = [c]

/-! ## One number -/

/-- A number behind a plus sign or none, with any number of zeros in front of its digits. -/
def SpellsNumber (text : List Char) (value : Nat) : Prop :=
  ∃ sign zeros, IsOptional '+' sign ∧
    text = sign ++ (List.replicate zeros '0' ++ Decimal.chars value)

/-- The characters that mark a number as hardened. -/
def marks : List Char := ['\'', 'h']

/-- A number of any size, and whether there is a mark behind it. -/
inductive SpellsComponent : List Char → Nat → Bool → Prop where
  | plain {text : List Char} {value : Nat} (hNumber : SpellsNumber text value) :
      SpellsComponent text value false
  | marked {text : List Char} {value : Nat} {mark : Char} (hNumber : SpellsNumber text value)
      (hMark : mark ∈ marks) : SpellsComponent (text ++ [mark]) value true

/-- A number of a path: a number without the highest bit, which a mark adds. -/
def SpellsIndex (text : List Char) (index : UInt32) : Prop :=
  ∃ number marked, SpellsComponent text number.toNat marked ∧ number.toNat < hardened.toNat ∧
    index = if marked then number + hardened else number

/-- The characters of numbers and marks. -/
def indexAlphabet : List Char := Decimal.alphabet ++ ('+' :: marks)

theorem SpellsNumber.subset {text : List Char} {value : Nat} (hText : SpellsNumber text value) :
    text ⊆ '+' :: Decimal.alphabet := by
  obtain ⟨sign, zeros, hSign, rfl⟩ := hText
  have hSignSubset : sign ⊆ '+' :: Decimal.alphabet := by
    rcases hSign with rfl | rfl <;> decide
  refine List.append_subset.2 ⟨hSignSubset, List.append_subset.2 ⟨?_, ?_⟩⟩
  · intro c hMem
    rw [List.eq_of_mem_replicate hMem]
    decide
  · exact fun c hMem => List.mem_cons_of_mem _ (Decimal.chars_subset value hMem)

theorem SpellsNumber.ne_nil {text : List Char} {value : Nat} (hText : SpellsNumber text value) :
    text ≠ [] := by
  obtain ⟨sign, zeros, -, rfl⟩ := hText
  simp [Decimal.chars_ne_nil]

/-- A number does not end in a mark. -/
theorem SpellsNumber.getLast?_notMem {text : List Char} {value : Nat}
    (hText : SpellsNumber text value) : ∀ c ∈ text.getLast?, c ∉ marks := by
  intro c hLast
  have hApart : ('+' :: Decimal.alphabet).all (fun c => c ∉ marks) = true := by decide
  exact of_decide_eq_true (List.all_eq_true.1 hApart c (hText.subset (List.mem_of_getLast? hLast)))

/-- A plus sign in front belongs to no digits. -/
theorem spellsNumber_plus_iff {digits : List Char} {value : Nat} :
    SpellsNumber ('+' :: digits) value ↔ Decimal.ofChars? digits = some value := by
  rw [Decimal.ofChars?_eq_some_iff]
  constructor
  · rintro ⟨sign, zeros, rfl | rfl, hText⟩
    · have hMem : '+' ∈ List.replicate zeros '0' ++ Decimal.chars value :=
        hText ▸ List.mem_cons_self
      rcases List.mem_append.1 hMem with hMem | hMem
      · exact absurd (List.eq_of_mem_replicate hMem) (by decide)
      · exact absurd (Decimal.chars_subset value hMem) (by decide)
    · exact ⟨zeros, List.tail_eq_of_cons_eq hText⟩
  · rintro ⟨zeros, rfl⟩
    exact ⟨['+'], zeros, .inr rfl, rfl⟩

/-- Without a plus sign in front the text is the digits. -/
theorem spellsNumber_iff_of_head?_ne {text : List Char} {value : Nat}
    (hHead : text.head? ≠ some '+') :
    SpellsNumber text value ↔ Decimal.ofChars? text = some value := by
  rw [Decimal.ofChars?_eq_some_iff]
  constructor
  · rintro ⟨sign, zeros, rfl | rfl, rfl⟩
    · exact ⟨zeros, rfl⟩
    · exact absurd rfl hHead
  · rintro ⟨zeros, rfl⟩
    exact ⟨[], zeros, .inl rfl, rfl⟩

theorem SpellsNumber.unique {text : List Char} {value other : Nat}
    (hText : SpellsNumber text value) (hOther : SpellsNumber text other) : value = other := by
  by_cases hHead : text.head? = some '+'
  · obtain ⟨digits, rfl⟩ := List.head?_eq_some_iff.1 hHead
    rw [spellsNumber_plus_iff] at hText hOther
    exact Option.some.inj (hText.symm.trans hOther)
  · rw [spellsNumber_iff_of_head?_ne hHead] at hText hOther
    exact Option.some.inj (hText.symm.trans hOther)

theorem indexOfChars_plus_eq_ok_iff {digits : List Char} {index : UInt32} :
    indexOfChars ('+' :: digits) = .ok index ↔
      Decimal.ofChars? digits = some index.toNat ∧ index.toNat < hardened.toNat := by
  cases hRead : Decimal.ofChars? digits with
  | none => simp [indexOfChars, hRead]
  | some value =>
      have hSmall (hValue : value < hardened.toNat) : (UInt32.ofNat value).toNat = value :=
        UInt32.toNat_ofNat_of_lt' (hValue.trans hardened.toNat_lt)
      simp only [indexOfChars, hRead, Option.some.injEq]
      constructor
      · intro hIndex
        split at hIndex
        · next hValue =>
            obtain rfl : UInt32.ofNat value = index := Except.ok.inj hIndex
            exact ⟨(hSmall hValue).symm, (hSmall hValue).symm ▸ hValue⟩
        · cases hIndex
      · rintro ⟨rfl, hValue⟩
        rw [if_pos hValue, UInt32.ofNat_toNat]

/-- A plus sign in front of another text is not read. -/
theorem indexOfChars_of_head?_ne {text : List Char} (hHead : text.head? ≠ some '+') :
    indexOfChars text = indexOfChars ('+' :: text) := by
  unfold indexOfChars
  split
  · exact absurd rfl hHead
  · rfl

theorem indexOfChars_eq_ok_iff {text : List Char} {index : UInt32} :
    indexOfChars text = .ok index ↔
      SpellsNumber text index.toNat ∧ index.toNat < hardened.toNat := by
  by_cases hHead : text.head? = some '+'
  · obtain ⟨digits, rfl⟩ := List.head?_eq_some_iff.1 hHead
    rw [indexOfChars_plus_eq_ok_iff, spellsNumber_plus_iff]
  · rw [indexOfChars_of_head?_ne hHead, indexOfChars_plus_eq_ok_iff,
      spellsNumber_iff_of_head?_ne hHead]

/-! ## A number with or without a mark -/

section

variable {text : List Char} {value : Nat} {isMarked : Bool}

theorem SpellsComponent.subset (hText : SpellsComponent text value isMarked) :
    text ⊆ indexAlphabet := by
  have hNumbers : '+' :: Decimal.alphabet ⊆ indexAlphabet := by decide
  cases hText with
  | plain hNumber => exact List.Subset.trans hNumber.subset hNumbers
  | marked hNumber hMark =>
      refine List.append_subset.2 ⟨List.Subset.trans hNumber.subset hNumbers, ?_⟩
      exact List.cons_subset.2
        ⟨List.mem_append_right _ (List.mem_cons_of_mem _ hMark), List.nil_subset _⟩

theorem SpellsComponent.ne_nil (hText : SpellsComponent text value isMarked) : text ≠ [] := by
  cases hText with
  | plain hNumber => exact hNumber.ne_nil
  | marked => simp

theorem SpellsComponent.isMarked_iff (hText : SpellsComponent text value isMarked) :
    isMarked = true ↔ ∃ mark ∈ marks, text.getLast? = some mark := by
  cases hText with
  | plain hNumber =>
      refine iff_of_false (by simp) ?_
      rintro ⟨mark, hMark, hLast⟩
      exact hNumber.getLast?_notMem mark hLast hMark
  | @marked digits value mark hNumber hMark => exact iff_of_true rfl ⟨mark, hMark, by simp⟩

theorem spellsComponent_false_iff : SpellsComponent text value false ↔ SpellsNumber text value := by
  refine ⟨fun hText => ?_, .plain⟩
  cases hText with
  | plain hNumber => exact hNumber

theorem spellsComponent_true_iff {mark : Char} (hMark : mark ∈ marks) :
    SpellsComponent (text ++ [mark]) value true ↔ SpellsNumber text value := by
  refine ⟨fun hText => ?_, fun hNumber => .marked hNumber hMark⟩
  generalize hWhole : text ++ [mark] = whole at hText
  cases hText with
  | marked hNumber _ =>
      obtain ⟨rfl, -⟩ := List.append_inj' hWhole rfl
      exact hNumber

theorem SpellsComponent.unique {other : Nat} {otherMarked : Bool}
    (hText : SpellsComponent text value isMarked)
    (hOther : SpellsComponent text other otherMarked) : value = other := by
  obtain rfl : isMarked = otherMarked :=
    Bool.eq_iff_iff.2 (hText.isMarked_iff.trans hOther.isMarked_iff.symm)
  cases isMarked with
  | false =>
      rw [spellsComponent_false_iff] at hText hOther
      exact hText.unique hOther
  | true =>
      obtain ⟨mark, hMark, hLast⟩ := hText.isMarked_iff.1 rfl
      obtain ⟨digits, rfl⟩ := List.getLast?_eq_some_iff.1 hLast
      rw [spellsComponent_true_iff hMark] at hText hOther
      exact hText.unique hOther

end

section

variable {text : List Char} {index : UInt32}

/-- A number is hardened exactly if there is a mark behind it. -/
theorem SpellsIndex.isHardened_iff (hText : SpellsIndex text index) :
    isHardened index = true ↔ ∃ mark ∈ marks, text.getLast? = some mark := by
  obtain ⟨number, isMarked, hComponent, hNumber, rfl⟩ := hText
  rw [← hComponent.isMarked_iff]
  cases isMarked with
  | false =>
      have hPlain : ¬ isHardened number = true := by
        simpa [isHardened, UInt32.le_iff_toNat_le] using hNumber
      exact iff_of_false hPlain (by simp)
  | true =>
      have hSum : (number + hardened).toNat = number.toNat + hardened.toNat := by
        have hHardened : hardened.toNat = 2147483648 := rfl
        rw [UInt32.toNat_add, Nat.mod_eq_of_lt]
        omega
      refine iff_of_true ?_ rfl
      simp [isHardened, UInt32.le_iff_toNat_le, hSum]

/-- A number with the highest bit set is no number of a path. -/
theorem SpellsIndex.value_lt {value : Nat} {isMarked : Bool} (hText : SpellsIndex text index)
    (hValue : SpellsComponent text value isMarked) : value < hardened.toNat := by
  obtain ⟨number, _, hComponent, hNumber, -⟩ := hText
  exact hComponent.unique hValue ▸ hNumber

theorem componentOfChars_eq_ok_iff :
    componentOfChars text = .ok index ↔ SpellsIndex text index := by
  have hMarked : text.getLast? = some '\'' ∨ text.getLast? = some 'h' ↔
      ∃ mark ∈ marks, text.getLast? = some mark := by
    simp [marks]
  unfold componentOfChars
  split
  · next hLast =>
      obtain ⟨mark, hMark, hLast⟩ := hMarked.1 hLast
      obtain ⟨digits, rfl⟩ := List.getLast?_eq_some_iff.1 hLast
      rw [List.dropLast_concat]
      constructor
      · intro hRead
        cases hNumber : indexOfChars digits with
        | error error => simp [hNumber, Except.map] at hRead
        | ok number =>
            obtain ⟨hSpelled, hLess⟩ := indexOfChars_eq_ok_iff.1 hNumber
            obtain rfl : number + hardened = index := by simpa [hNumber, Except.map] using hRead
            exact ⟨number, true, .marked hSpelled hMark, hLess, rfl⟩
      · rintro ⟨number, isMarked, hComponent, hNumber, rfl⟩
        obtain rfl : isMarked = true := hComponent.isMarked_iff.2 ⟨mark, hMark, hLast⟩
        rw [spellsComponent_true_iff hMark] at hComponent
        rw [indexOfChars_eq_ok_iff.2 ⟨hComponent, hNumber⟩]
        rfl
  · next hLast =>
      rw [indexOfChars_eq_ok_iff]
      constructor
      · rintro ⟨hNumber, hIndex⟩
        exact ⟨index, false, .plain hNumber, hIndex, rfl⟩
      · rintro ⟨number, isMarked, hComponent, hNumber, rfl⟩
        obtain rfl : isMarked = false :=
          Bool.eq_false_iff.2 fun hTrue => hLast (hMarked.2 (hComponent.isMarked_iff.1 hTrue))
        exact ⟨spellsComponent_false_iff.1 hComponent, hNumber⟩

end

/-! ## The numbers between slashes -/

theorem split_eq_splitOn (text : List Char) : split text = text.splitOn '/' := by
  induction text with
  | nil => rfl
  | cons c text ih =>
      obtain ⟨piece, pieces, hPieces⟩ := List.exists_cons_of_ne_nil (List.splitOn_ne_nil '/' text)
      rw [List.splitOn_cons_eq_if_modifyHead, split, ih, hPieces]
      simp only [beq_iff_eq, List.modifyHead_cons]

theorem indicesOfPieces_eq_ok_iff {room : Nat} {pieces : List (List Char)}
    {indices : List UInt32} :
    indicesOfPieces room pieces = .ok indices ↔
      pieces.length ≤ room ∧ List.Forall₂ SpellsIndex pieces indices := by
  induction pieces generalizing room indices with
  | nil =>
      rw [indicesOfPieces, List.forall₂_nil_left_iff]
      simp [eq_comm]
  | cons piece pieces ih =>
      simp only [indicesOfPieces, List.forall₂_cons_left_iff, ← componentOfChars_eq_ok_iff,
        List.length_cons]
      cases componentOfChars piece with
      | error error => simp [Bind.bind, Except.bind]
      | ok index =>
          cases room with
          | zero => simp [Bind.bind, Except.bind]
          | succ room =>
              simp only [Bind.bind, Except.bind, pure, Except.pure, Nat.add_le_add_iff_right]
              constructor
              · intro hRead
                cases hRest : indicesOfPieces room pieces with
                | error error => simp [hRest] at hRead
                | ok rest =>
                    obtain ⟨hRoom, hSpelled⟩ := ih.1 hRest
                    obtain rfl : index :: rest = indices := by simpa [hRest] using hRead
                    exact ⟨hRoom, index, rest, rfl, hSpelled, rfl⟩
              · rintro ⟨hRoom, first, rest, hFirst, hSpelled, rfl⟩
                rw [ih.2 ⟨hRoom, hSpelled⟩, Except.ok.inj hFirst]

/-- What holds of every text that spells a number holds of each piece of a path. -/
theorem forall_mem_of_forall₂ {P : List Char → Prop}
    (hSpelling : ∀ {piece index}, SpellsIndex piece index → P piece) {pieces : List (List Char)}
    {indices : List UInt32} (hPieces : List.Forall₂ SpellsIndex pieces indices) :
    ∀ piece ∈ pieces, P piece :=
  ((List.forall₂_and_left _ _).1 (hPieces.imp fun _ _ hPiece => ⟨hSpelling hPiece, hPiece⟩)).1

section Intercalate

variable {pieces : List (List Char)}
  (hPieces : ∀ piece ∈ pieces, piece ≠ [] ∧ piece ⊆ indexAlphabet)
include hPieces

theorem intercalate_subset : ['/'].intercalate pieces ⊆ '/' :: indexAlphabet := by
  induction pieces with
  | nil => simp
  | cons piece pieces ih =>
      obtain ⟨⟨-, hPiece⟩, hRest⟩ := List.forall_mem_cons.1 hPieces
      have hFirst : piece ⊆ '/' :: indexAlphabet := List.subset_cons_of_subset _ hPiece
      cases pieces with
      | nil => simpa using hFirst
      | cons next pieces =>
          rw [List.intercalate_cons_cons]
          refine List.append_subset.2 ⟨List.append_subset.2 ⟨hFirst, ?_⟩, ih hRest⟩
          simp

/-- Numbers with slashes between them begin with a number, if there are any. -/
theorem head?_intercalate_mem : ∀ c ∈ (['/'].intercalate pieces).head?, c ∈ indexAlphabet := by
  intro c hHead
  cases pieces with
  | nil => simp at hHead
  | cons piece pieces =>
      obtain ⟨⟨hSome, hPiece⟩, -⟩ := List.forall_mem_cons.1 hPieces
      obtain ⟨first, rest, rfl⟩ := List.exists_cons_of_ne_nil hSome
      have hFirst : first = c := by
        cases pieces with
        | nil => simpa using hHead
        | cons next pieces => simpa [List.intercalate_cons_cons] using hHead
      exact hFirst ▸ hPiece List.mem_cons_self

theorem intercalate_eq_nil_iff : ['/'].intercalate pieces = [] ↔ pieces = [] := by
  refine ⟨fun hNone => ?_, fun h => h ▸ rfl⟩
  cases pieces with
  | nil => rfl
  | cons piece pieces =>
      have hSome := (hPieces piece List.mem_cons_self).1
      cases pieces with
      | nil => exact absurd (by simpa using hNone) hSome
      | cons next pieces => simp [List.intercalate_cons_cons] at hNone

end Intercalate

/-! ## A whole path -/

/-- A text without blanks around it and without what may be in front of its numbers. -/
def body (text : List Char) : List Char :=
  dropLeading '/' (dropLeading 'm' (Text.trim text))

/-- What stands between the slashes of a text; nothing does in the text of the path to the root. -/
def components (text : List Char) : List (List Char) :=
  if body text = [] then [] else (body text).splitOn '/'

/-- A path that is written out: blanks around it, the `m` and the first slash or not, and its
numbers with slashes between them. -/
inductive Spells : List Char → DerivationPath → Prop where
  | around {before lead slash after : List Char} {pieces : List (List Char)}
      {path : DerivationPath} (hBefore : ∀ c ∈ before, Text.isBlank c = true)
      (hLead : IsOptional 'm' lead) (hSlash : IsOptional '/' slash)
      (hPieces : List.Forall₂ SpellsIndex pieces path.indices)
      (hAfter : ∀ c ∈ after, Text.isBlank c = true) :
      Spells (before ++ (lead ++ (slash ++ ['/'].intercalate pieces)) ++ after) path

/-- The reader takes a text for a path exactly if each component spells a number of it. -/
theorem ofChars_eq_ok_iff {text : List Char} {path : DerivationPath} :
    ofChars text = .ok path ↔ List.Forall₂ SpellsIndex (components text) path.indices := by
  have hBody : ofChars text =
      if body text = [] then .ok root
      else indicesOfPieces maxDepth ((body text).splitOn '/') >>= ofIndices := by
    unfold ofChars body
    split
    · next hNone => rw [if_pos hNone]
    · next hSome => rw [if_neg hSome, split_eq_splitOn]
  rw [hBody, components]
  split
  · rw [List.forall₂_nil_left_iff]
    exact ⟨fun hRoot => Except.ok.inj hRoot ▸ rfl, fun hNone => congrArg _ (ext hNone.symm)⟩
  · constructor
    · intro hRead
      cases hIndices : indicesOfPieces maxDepth ((body text).splitOn '/') with
      | error error => simp [hIndices, Bind.bind, Except.bind] at hRead
      | ok indices =>
          obtain ⟨hRoom, hSpelled⟩ := indicesOfPieces_eq_ok_iff.1 hIndices
          have hLength : indices.length ≤ 8 := hSpelled.length_eq ▸ hRoom
          rw [hIndices] at hRead
          obtain rfl : ⟨indices, hLength⟩ = path := by
            simpa [Bind.bind, Except.bind, ofIndices, hLength] using hRead
          exact hSpelled
    · intro hSpelled
      have hRoom : ((body text).splitOn '/').length ≤ maxDepth :=
        hSpelled.length_eq ▸ path.length_le
      rw [indicesOfPieces_eq_ok_iff.2 ⟨hRoom, hSpelled⟩]
      simp [Bind.bind, Except.bind, ofIndices, path.length_le]

theorem dropLeading_append {c : Char} {lead rest : List Char} (hLead : IsOptional c lead)
    (hRest : rest.head? ≠ some c) : dropLeading c (lead ++ rest) = rest := by
  rcases hLead with rfl | rfl
  · cases rest with
    | nil => rfl
    | cons first rest => exact if_neg fun hFirst => hRest (congrArg some hFirst)
  · exact if_pos rfl

theorem exists_dropLeading (c : Char) (text : List Char) :
    ∃ lead, IsOptional c lead ∧ text = lead ++ dropLeading c text := by
  cases text with
  | nil => exact ⟨[], .inl rfl, rfl⟩
  | cons first rest =>
      by_cases hFirst : first = c
      · exact ⟨[c], .inr rfl, by simp [dropLeading, hFirst]⟩
      · exact ⟨[], .inl rfl, by simp [dropLeading, hFirst]⟩

/-- The components of a text that is written out are the numbers it is written with. -/
theorem components_eq {before lead slash after : List Char} {pieces : List (List Char)}
    (hBefore : ∀ c ∈ before, Text.isBlank c = true) (hLead : IsOptional 'm' lead)
    (hSlash : IsOptional '/' slash) (hPieces : ∀ piece ∈ pieces, piece ≠ [] ∧ piece ⊆ indexAlphabet)
    (hAfter : ∀ c ∈ after, Text.isBlank c = true) :
    components (before ++ (lead ++ (slash ++ ['/'].intercalate pieces)) ++ after) = pieces := by
  have hHead {c : Char} (hApart : c ∉ indexAlphabet) : (['/'].intercalate pieces).head? ≠ some c :=
    fun hHead => hApart (head?_intercalate_mem hPieces c hHead)
  have hRest : (slash ++ ['/'].intercalate pieces).head? ≠ some 'm' := by
    rcases hSlash with rfl | rfl
    · exact hHead (by decide)
    · simp
  have hCore : ∀ c ∈ lead ++ (slash ++ ['/'].intercalate pieces), Text.isBlank c = false := by
    have hSubset : lead ++ (slash ++ ['/'].intercalate pieces) ⊆ 'm' :: '/' :: indexAlphabet := by
      refine List.append_subset.2 ⟨?_, List.append_subset.2 ⟨?_, ?_⟩⟩
      · rcases hLead with rfl | rfl <;> decide
      · rcases hSlash with rfl | rfl <;> decide
      · exact List.subset_cons_of_subset _ (intercalate_subset hPieces)
    have hPlain : ('m' :: '/' :: indexAlphabet).all (fun c => !Text.isBlank c) = true := by decide
    exact fun c hMem => (Bool.not_eq_true' _).mp (List.all_eq_true.1 hPlain c (hSubset hMem))
  have hBody : body (before ++ (lead ++ (slash ++ ['/'].intercalate pieces)) ++ after) =
      ['/'].intercalate pieces := by
    rw [body, Text.trim_append hBefore hAfter hCore, dropLeading_append hLead hRest,
      dropLeading_append hSlash (hHead (by decide))]
  rw [components, hBody]
  split
  · next hNone => exact ((intercalate_eq_nil_iff hPieces).1 hNone).symm
  · next hSome =>
      refine List.splitOn_intercalate '/' (fun piece hMem hSlash => ?_)
        fun hNone => hSome ((intercalate_eq_nil_iff hPieces).2 hNone)
      exact absurd ((hPieces piece hMem).2 hSlash) (by decide)

/-- The ways to write a path are the texts whose components spell its numbers. -/
theorem spells_iff {text : List Char} {path : DerivationPath} :
    Spells text path ↔ List.Forall₂ SpellsIndex (components text) path.indices := by
  constructor
  · rintro ⟨hBefore, hLead, hSlash, hPieces, hAfter⟩
    have hSpelled : ∀ piece ∈ _, piece ≠ [] ∧ piece ⊆ indexAlphabet :=
      forall_mem_of_forall₂ (fun ⟨_, _, hText, _⟩ => ⟨hText.ne_nil, hText.subset⟩) hPieces
    rwa [components_eq hBefore hLead hSlash hSpelled hAfter]
  · intro hPieces
    obtain ⟨before, after, hBefore, hAfter, hText⟩ := Text.exists_trim text
    obtain ⟨lead, hLead, hTrim⟩ := exists_dropLeading 'm' (Text.trim text)
    obtain ⟨slash, hSlash, hRest⟩ := exists_dropLeading '/' (dropLeading 'm' (Text.trim text))
    have hBody : ['/'].intercalate (components text) = body text := by
      rw [components]
      split
      · next hNone => rw [hNone]; rfl
      · exact List.intercalate_splitOn '/'
    have hSpells := Spells.around hBefore hLead hSlash hPieces hAfter
    rwa [hBody, body, ← hRest, ← hTrim, ← hText] at hSpells

/-! ## The text that is written -/

/-- The text of a number of a path, behind its slash. -/
def pieceChars (index : UInt32) : List Char := (componentChars index).drop 1

theorem spellsNumber_chars (value : Nat) : SpellsNumber (Decimal.chars value) value :=
  ⟨[], 0, .inl rfl, rfl⟩

theorem spellsIndex_pieceChars (index : UInt32) : SpellsIndex (pieceChars index) index := by
  have hHardened : hardened.toNat = 2147483648 := rfl
  unfold pieceChars componentChars
  split
  · next hIndex =>
      have hLower : hardened ≤ index := by simpa [isHardened] using hIndex
      have hRest : (index - hardened).toNat < hardened.toNat := by
        have hSize := index.toNat_lt
        rw [UInt32.toNat_sub_of_le _ _ hLower]
        omega
      refine ⟨index - hardened, true, .marked (spellsNumber_chars _) (by decide), hRest, ?_⟩
      rw [if_pos rfl, UInt32.sub_add_cancel]
  · next hIndex =>
      refine ⟨index, false, .plain (spellsNumber_chars _), ?_, rfl⟩
      simpa [isHardened, UInt32.le_iff_toNat_le] using hIndex

theorem componentChars_eq (index : UInt32) : componentChars index = '/' :: pieceChars index := by
  unfold pieceChars componentChars
  split <;> rfl

theorem flatMap_componentChars (first : UInt32) (rest : List UInt32) :
    (first :: rest).flatMap componentChars =
      '/' :: ['/'].intercalate ((first :: rest).map pieceChars) := by
  induction rest generalizing first with
  | nil => simp [componentChars_eq]
  | cons next rest ih =>
      rw [List.flatMap_cons, ih, componentChars_eq]
      simp [List.intercalate_cons_cons]

theorem spells_chars (path : DerivationPath) : Spells path.chars path := by
  have hPieces : List.Forall₂ SpellsIndex (path.indices.map pieceChars) path.indices := by
    rw [List.forall₂_map_left_iff, List.forall₂_same]
    exact fun index _ => spellsIndex_pieceChars index
  have hNoBlank : ∀ c ∈ ([] : List Char), Text.isBlank c = true := by simp
  obtain ⟨slash, hSlash, hText⟩ : ∃ slash, IsOptional '/' slash ∧
      path.indices.flatMap componentChars =
        slash ++ ['/'].intercalate (path.indices.map pieceChars) := by
    cases path.indices with
    | nil => exact ⟨[], .inl rfl, rfl⟩
    | cons first rest => exact ⟨['/'], .inr rfl, flatMap_componentChars first rest⟩
  have hSpells : Spells ([] ++ (['m'] ++ (slash ++ _)) ++ []) path :=
    .around hNoBlank (.inr rfl) hSlash hPieces hNoBlank
  rwa [← hText, List.nil_append, List.append_nil] at hSpells

theorem ofText_eq_ok_iff {text : String} {path : DerivationPath} :
    ofText text = .ok path ↔ Spells text.toList path :=
  ofChars_eq_ok_iff.trans spells_iff.symm

/-- A text that no path is spelled by is refused. -/
theorem exists_error_of_forall_ne {text : String} (hNone : ∀ path, ofText text ≠ .ok path) :
    ∃ error, ofText text = .error error := by
  cases hRead : ofText text with
  | error error => exact ⟨error, rfl⟩
  | ok path => exact absurd hRead (hNone path)

/-- Every path reads back from its text. A text reads as a path exactly if it spells it, so the `m`
and the slash in front, the choice of the marks and blanks around the text change nothing. A text
with more than eight components, or with a number that has the highest bit set, is refused; a number
that is read is hardened exactly if there is a mark behind it. -/
theorem reads_every_spelling :
    (∀ path : DerivationPath, ofText path.text = .ok path) ∧
      (∀ text path, ofText text = .ok path ↔ Spells text.toList path) ∧
      (∀ text : String,
        (8 < (components text.toList).length ∨
          ∃ piece ∈ components text.toList, ∃ value isMarked,
            SpellsComponent piece value isMarked ∧ 2 ^ 31 ≤ value) →
        ∃ error, ofText text = .error error) ∧
      ∀ text path, ofText text = .ok path →
        List.Forall₂ (fun piece index =>
            isHardened index = true ↔ ∃ mark ∈ marks, piece.getLast? = some mark)
          (components text.toList) path.indices := by
  refine ⟨fun path => ?_, fun text path => ofText_eq_ok_iff, fun text hBad => ?_,
    fun text path hRead => ?_⟩
  · rw [ofText_eq_ok_iff, text, String.toList_ofList]
    exact spells_chars path
  · refine exists_error_of_forall_ne fun path hRead => ?_
    have hSpelled := ofChars_eq_ok_iff.1 hRead
    rcases hBad with hLong | ⟨piece, hMem, value, isMarked, hValue, hLarge⟩
    · have hShort := hSpelled.length_eq ▸ path.length_le
      omega
    · have hSmall : ∀ piece ∈ components text.toList, ∀ value isMarked,
          SpellsComponent piece value isMarked → value < hardened.toNat :=
        forall_mem_of_forall₂ (fun hPiece _ _ => hPiece.value_lt) hSpelled
      exact Nat.not_lt.2 hLarge (hSmall piece hMem value isMarked hValue)
  · exact (ofChars_eq_ok_iff.1 hRead).imp fun _ _ hPiece => hPiece.isHardened_iff

example : (ofText " m44h/+07'\n").toOption = some ⟨[44 + hardened, 7 + hardened], by decide⟩ := by
  cbv

end DerivationPath

end ColdSigner
