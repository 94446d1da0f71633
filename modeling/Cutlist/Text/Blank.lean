/-!
# White space

The characters that separate words. There are two sets: the one for text, and a
narrower one around a number, where the four information separators do not count
as white space.
-/

namespace Cutlist.Text

/-- White space outside ASCII. -/
def isWideBlank (c : Char) : Bool :=
  c == '\u0085' || c == '\u00a0' || c == '\u1680'
    || ('\u2000' ≤ c && c ≤ '\u200a') || c == '\u2028' || c == '\u2029'
    || c == '\u202f' || c == '\u205f' || c == '\u3000'

/-- Tab, line feed, vertical tab, form feed, carriage return and space. -/
def isPlainBlank (c : Char) : Bool := c == ' ' || ('\t' ≤ c && c ≤ '\r')

/-- White space in text: the plain blanks, the separators `\x1c` to `\x1f`, and
those outside ASCII. -/
def isBlank (c : Char) : Bool :=
  isPlainBlank c || ('\x1c' ≤ c && c ≤ '\x1f') || isWideBlank c

def isNumberBlank (c : Char) : Bool := isPlainBlank c || isWideBlank c

/-- Without the leading and trailing characters of a class. -/
def strip (p : Char → Bool) (cs : List Char) : List Char :=
  (((cs.dropWhile p).reverse).dropWhile p).reverse

def trim (s : String) : String := String.ofList (strip isBlank s.toList)

def squeeze (s : String) : String :=
  String.ofList (s.toList.filter fun c => !isBlank c)

end Cutlist.Text
