import Cutlist.Binary64

/-!
# Numbers with a fixed count of decimal places

The exact binary value is rounded once, a tie to the even digit, and every digit
before the point is written. Zero, and a negative number that rounds to zero,
keep their sign.
-/

namespace Cutlist.Decimal

def digits (n : Nat) : List Char := Nat.toDigits 10 n

/-- The decimal digits of a number, zeros in front up to the width. -/
def padded (width n : Nat) : List Char := (digits n).leftpad width '0'

/-- `n` units of `10 ^ -places`, with the point before the last
`places` digits. -/
def pointed (places n : Nat) : List Char :=
  digits (n / Nat.pow 10 places) ++ '.' :: padded places (n % Nat.pow 10 places)

def minus (negative : Bool) : List Char := if negative then ['-'] else []

end Cutlist.Decimal

namespace Cutlist.Binary64

open Decimal

/-- The units of `10 ^ -places` nearest to a magnitude. -/
def decimalUnits (places quanta : Nat) : Nat :=
  roundHalfEven (quanta * Nat.pow 10 places) unit

/-- The number with `places` digits after the point. -/
def toFixed (places : Nat) : Binary64 → String
  | .finite s q _ =>
      String.ofList (minus s ++ pointed places (decimalUnits places q))
  | .infinite s => String.ofList (minus s ++ ['i', 'n', 'f'])
  | .nan => "nan"

end Cutlist.Binary64
