/-!
# Display names

When a function cannot be shown under the name it was written with, it gets one
from an endless list: first the letters of `alphabet`, then all of them with
subscript `₁`, then with subscript `₂`, and so on.
-/

namespace UntypedLambda

/-- The letters that display names are made of: Latin, Greek without `λ`,
circled and accented. -/
def alphabet : List Char :=
  ['a', 'b', 'c', 'd', 'e', 'f', 'g', 'h', 'i', 'j', 'k', 'l', 'm',
    'n', 'o', 'p', 'q', 'r', 's', 't', 'u', 'v', 'w', 'x', 'y', 'z',
    'α', 'β', 'γ', 'δ', 'ε', 'ζ', 'η', 'θ', 'ι', 'κ', 'μ', 'ν',
    'ξ', 'ο', 'π', 'ρ', 'σ', 'τ', 'υ', 'φ', 'χ', 'ψ', 'ω',
    'ⓐ', 'ⓑ', 'ⓒ', 'ⓓ', 'ⓔ', 'ⓕ', 'ⓖ', 'ⓗ', 'ⓘ', 'ⓙ', 'ⓚ', 'ⓛ', 'ⓜ',
    'ⓝ', 'ⓞ', 'ⓟ', 'ⓠ', 'ⓡ', 'ⓢ', 'ⓣ', 'ⓤ', 'ⓥ', 'ⓦ', 'ⓧ', 'ⓨ', 'ⓩ',
    'à', 'á', 'â', 'ã', 'ä', 'å', 'æ', 'ç', 'è', 'é', 'ê', 'ë', 'ì', 'í', 'î', 'ï',
    'ð', 'ñ', 'ò', 'ó', 'ô', 'õ', 'ö', 'ø', 'ù', 'ú', 'û', 'ü', 'ý', 'þ', 'ÿ']

/-- There are letters. -/
theorem alphabet_length_pos : 0 < alphabet.length := by
  decide

/-- The subscript form of a decimal digit. -/
def subscriptDigit (d : Char) : Char := Char.ofNat (d.toNat - '0'.toNat + '₀'.toNat)

/-- A name with a number as its subscript. -/
def subscript (name : String) (n : Nat) : String :=
  name ++ String.ofList ((Nat.toDigits 10 n).map subscriptDigit)

/-- A name with a number as its subscript; a negative number cannot be one. -/
def subscript? (name : String) : Int → Option String
  | .ofNat n => some (subscript name n)
  | .negSucc _ => none

/-- The letter of the display name at an index of the endless list. -/
def displayLetter (i : Nat) : Char :=
  alphabet.get ⟨i % alphabet.length, Nat.mod_lt i alphabet_length_pos⟩

/-- The display name at an index of the endless list. -/
def displayName (i : Nat) : String :=
  let letter := String.singleton (displayLetter i)
  if i < alphabet.length then letter else subscript letter (i / alphabet.length)

/-- The part of the endless list that starts at an index. -/
def displayNames (start count : Nat) : List String :=
  (List.range count).map fun i => displayName (start + i)

/-- The first display name from index `i` on that is not among the names taken,
of which there are at most `fuel`. -/
def freeNameFrom : Nat → Nat → List String → String
  | 0, i, _ => displayName i
  | fuel + 1, i, taken =>
      if displayName i ∈ taken then freeNameFrom fuel (i + 1) (taken.erase (displayName i))
      else displayName i

/-- The first display name that is not among the names taken. -/
def freeName (taken : List String) : String := freeNameFrom taken.length 0 taken

end UntypedLambda
