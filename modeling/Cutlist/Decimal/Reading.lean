import Cutlist.Binary64
import Cutlist.Text.Blank
import Cutlist.Text.Numeral

/-!
# Numbers read from text

A number may stand between white space and be written with the digits of any
script, and a single low line may stand between two digits. A real number has
digits, a point with digits on at least one side, an exponent with digits, or is
the name of infinity or of not-a-number in any case; a whole number has digits
only. Both may have a sign.
-/

namespace Cutlist.Decimal

/-- The value of ASCII digits. -/
def value (ds : List Char) : Nat :=
  ds.foldl (fun n c => 10 * n + (c.toNat - '0'.toNat)) 0

/-- A decimal digit of any script as an ASCII digit, every other
character as it is. -/
def plainDigit (c : Char) : Char :=
  match Text.digit? c with
  | some d => Nat.digitChar d
  | none => c

/-- The characters of a number, without the white space around it
and in ASCII digits. -/
def plain (s : String) : List Char :=
  (Text.strip Text.isNumberBlank s.toList).map plainDigit

/-- A sign and what follows it; no sign counts as plus. -/
def signed : List Char → Bool × List Char
  | '-' :: r => (true, r)
  | '+' :: r => (false, r)
  | r => (false, r)

/-- The text without its low lines, each of which has to stand between two
digits. The first argument is the character before. -/
def ungroup : Char → List Char → Option (List Char)
  | _, [] => some []
  | before, '_' :: r =>
      if before.isDigit && (r.head?.any Char.isDigit) then ungroup '_' r
      else none
  | _, c :: r => (ungroup c r).map (c :: ·)

/-- The exponent of a number, if the text is one; no text is the
exponent zero. -/
def exponent? : List Char → Option Int
  | [] => some 0
  | c :: r =>
      if c == 'e' || c == 'E' then
        let (negative, ds) := signed r
        if !ds.isEmpty && ds.all Char.isDigit then
          some (if negative then -(value ds : Int) else value ds)
        else none
      else none

/-- The number with the given digits before and after the point. -/
def scaled (negative : Bool) (whole fraction : List Char) (exponent : Int) :
    Binary64 :=
  let ds := whole ++ fraction
  Binary64.ofDecimal negative (value ds) ds.length (exponent - fraction.length)

def unsigned? (negative : Bool) (cs : List Char) : Option Binary64 :=
  let whole := cs.takeWhile Char.isDigit
  let (fraction, rest) := match cs.dropWhile Char.isDigit with
    | '.' :: r => (r.takeWhile Char.isDigit, r.dropWhile Char.isDigit)
    | r => ([], r)
  if whole.isEmpty && fraction.isEmpty then none
  else (exponent? rest).map (scaled negative whole fraction)

/-- The number that a text spells, if it spells one. -/
def number? (s : String) : Option Binary64 := do
  let (negative, cs) := signed (← ungroup ' ' (plain s))
  let name := String.ofList (cs.map Char.toLower)
  if name == "inf" || name == "infinity" then some (.infinite negative)
  else if name == "nan" then some .nan
  else unsigned? negative cs

/-- Why a text spells no whole number. -/
inductive NotWhole where
  | malformed
  | tooLong (digits : Nat)
  deriving DecidableEq

/-- The most digits of a whole number that is read. -/
def maxDigits : Nat := 4300

/-- The whole number that a text spells. The digits are counted before what
follows them is looked at. -/
def wholeNumber (s : String) : Except NotWhole Int := do
  let (negative, cs) := signed (plain s)
  let isPart := fun c : Char => c.isDigit || c == '_'
  match ungroup ' ' (cs.takeWhile isPart) with
  | none => throw .malformed
  | some ds =>
      if ds.length > maxDigits then throw (.tooLong ds.length)
      else if ds.isEmpty || !(cs.dropWhile isPart).isEmpty then throw .malformed
      else return if negative then -(value ds : Int) else value ds

end Cutlist.Decimal
