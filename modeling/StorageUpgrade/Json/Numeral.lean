/-!
# Numbers as they are written

A number is read for its digits; only plain integers are given a value. Of all other numbers it
matters whether they lie within the range of numbers of 64 bits with a floating point, since a
number beyond that range stands for nothing.
-/

namespace StorageUpgrade.Json

/-- A number: its digits before and behind the point, the text of its exponent from the letter on,
and what the exponent amounts to. The last three are empty or zero where they are not written. -/
structure Numeral where
  negative : Bool
  whole : List Char
  fraction : List Char
  exponentText : List Char
  exponent : Int
  deriving DecidableEq, Repr

namespace Numeral

/-! ## Reading -/

/-- The digits at the front of a text, and the text behind them. -/
def splitDigits (text : List Char) : List Char × List Char :=
  (text.takeWhile Char.isDigit, text.dropWhile Char.isDigit)

/-- The digits of a fraction at the front of a text, and the text behind it. -/
def readFraction : List Char → Option (List Char × List Char)
  | '.' :: rest =>
    let (digits, rest) := splitDigits rest
    if digits.isEmpty then none else some (digits, rest)
  | text => some ([], text)

/-- The text of an exponent at the front of a text, what it amounts to, and the text behind it. -/
def readExponent : List Char → Option (List Char × Int × List Char)
  | [] => some ([], 0, [])
  | c :: rest =>
    if c = 'e' ∨ c = 'E' then
      let (sign, rest) := match rest with
        | '+' :: rest => (['+'], rest)
        | '-' :: rest => (['-'], rest)
        | rest => ([], rest)
      let (digits, rest) := splitDigits rest
      let size : Int := Nat.ofDigitChars 10 digits 0
      if digits.isEmpty then none
      else some (c :: sign ++ digits, if sign = ['-'] then -size else size, rest)
    else some ([], 0, c :: rest)

/-- Reads a number behind its sign. No digit may follow a leading zero. -/
def read? (negative : Bool) (text : List Char) : Option (Numeral × List Char) := do
  let (whole, rest) := splitDigits text
  if whole.isEmpty || (whole.head? = some '0' && whole.length ≠ 1) then none
  let (fraction, rest) ← readFraction rest
  let (exponentText, exponent, rest) ← readExponent rest
  return ({ negative, whole, fraction, exponentText, exponent }, rest)

/-! ## Values -/

def text (n : Numeral) : List Char :=
  (if n.negative then ['-'] else []) ++ n.whole
    ++ (if n.fraction.isEmpty then [] else '.' :: n.fraction) ++ n.exponentText

/-- The value of a number without fraction and exponent, other than minus zero. -/
def integer? (n : Numeral) : Option Int :=
  let size := Nat.ofDigitChars 10 n.whole 0
  if !n.fraction.isEmpty || !n.exponentText.isEmpty || (n.negative && size = 0) then none
  else some (if n.negative then -size else size)

/-! ## Range -/

/-- Puts digits behind a number as long as it fits into 64 bits; gives the digits left over. -/
def appendDigits (n : Nat) : List Char → Nat × List Char
  | [] => (n, [])
  | c :: digits =>
    let next := Nat.ofDigitChars 10 [c] n
    if next < Nat.pow 2 64 then appendDigits next digits else (n, c :: digits)

/-- The number nearest to `n` among those with 53 binary digits before their zeros. Of two that are
equally near the one is taken whose 53 digits are even. -/
def roundTo53Bits (n : Nat) : Nat :=
  let unit := Nat.pow 2 (n.log2 - 52)
  let quotient := n / unit
  let remainder := n % unit
  let up := unit < 2 * remainder ∨ (unit = 2 * remainder ∧ quotient % 2 = 1)
  (if up then quotient + 1 else quotient) * unit

/-- From here on numbers are beyond the range: half a unit above the largest of 64 bits. -/
def rangeEnd : Nat := (Nat.pow 2 54 - 1) * Nat.pow 2 970

/-- Whether a number is within the range. The digits that fit into 64 bits are taken times a power
of ten, with the exponent corrected for the digits left over and for those behind the point. Both
factors are rounded, and the power may not be beyond the range by itself. -/
def isInRange (n : Numeral) : Bool :=
  let (significand, left) := appendDigits 0 n.whole
  let (significand, left') := appendDigits significand n.fraction
  let power := n.exponent + left.length - (n.fraction.length - left'.length)
  significand = 0 || power < 0 || (power ≤ 308 &&
    roundTo53Bits significand * roundTo53Bits (Nat.pow 10 power.toNat) < rangeEnd)

end Numeral

end StorageUpgrade.Json
