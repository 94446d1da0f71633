import Cutlist.Text.Quoted

/-!
# Text in files

Text is stored in UTF-8. Bytes that are no text are reported with the place
where the first bad character begins and what is wrong with it. The ends of
lines are all read as line feeds.
-/

namespace Cutlist.Text.Utf8

/-- What is wrong with a character. -/
inductive Flaw where
  | start
  | continuation
  | cut
  deriving DecidableEq

/-- The first bad character: its first byte, its place, and how many of its
bytes are good. -/
structure Fault where
  byte : UInt8
  place : Nat
  length : Nat
  flaw : Flaw
  deriving DecidableEq

def Flaw.message : Flaw → String
  | .start => "invalid start byte"
  | .continuation => "invalid continuation byte"
  | .cut => "unexpected end of data"

def Fault.message (f : Fault) : String :=
  let bytes :=
    if f.length = 1 then
      s!"byte 0x{String.ofList (hex 2 f.byte.toNat)} in position {f.place}"
    else s!"bytes in position {f.place}-{f.place + f.length - 1}"
  s!"'utf-8' codec can't decode {bytes}: {f.flaw.message}"

/-- The ranges of the bytes that have to follow a first byte. Overlong
forms, surrogates and numbers beyond the last character are ruled out by
the first of them. -/
def following? (byte : Nat) : Option (List (Nat × Nat)) :=
  let plain := (0x80, 0xbf)
  if byte < 0x80 then some []
  else if byte < 0xc2 then none
  else if byte < 0xe0 then some [plain]
  else if byte = 0xe0 then some [(0xa0, 0xbf), plain]
  else if byte = 0xed then some [(0x80, 0x9f), plain]
  else if byte < 0xf0 then some [plain, plain]
  else if byte = 0xf0 then some [(0x90, 0xbf), plain, plain]
  else if byte < 0xf4 then some [plain, plain, plain]
  else if byte = 0xf4 then some [(0x80, 0x8f), plain, plain]
  else none

/-- How far bytes fit the ranges, after `good` bytes that do, and what is wrong
with the next. -/
def misfit? (good : Nat) : List (Nat × Nat) → List UInt8 → Option (Nat × Flaw)
  | [], _ => none
  | _ :: _, [] => some (good, .cut)
  | (low, high) :: ranges, b :: bytes =>
      if low ≤ b.toNat ∧ b.toNat ≤ high then misfit? (good + 1) ranges bytes
      else some (good, .continuation)

/-- The first bad character from a place on. -/
def fault? (place : Nat) : List UInt8 → Option Fault
  | [] => none
  | b :: bytes =>
      match following? b.toNat with
      | none => some ⟨b, place, 1, .start⟩
      | some ranges => match misfit? 1 ranges bytes with
        | some (good, flaw) => some ⟨b, place, good, flaw⟩
        | none => fault? (place + 1 + ranges.length) (bytes.drop ranges.length)
  termination_by bytes => bytes.length
  decreasing_by rw [List.length_drop, List.length_cons]; omega

/-- The text that bytes hold. -/
def decode (bytes : ByteArray) : Except Fault String :=
  match String.fromUTF8? bytes with
  | some s => .ok s
  | none => .error ((fault? 0 bytes.toList).getD ⟨0, 0, 1, .start⟩)

/-- Every end of a line as a line feed. -/
def unifyLines : List Char → List Char
  | '\r' :: '\n' :: r => '\n' :: unifyLines r
  | '\r' :: r => '\n' :: unifyLines r
  | c :: r => c :: unifyLines r
  | [] => []

/-- The text of a file, with line feeds at the ends of lines. -/
def text (bytes : ByteArray) : Except Fault String :=
  return String.ofList (unifyLines (← decode bytes).toList)

theorem unifyLines_of_notMem {cs : List Char} (h : '\r' ∉ cs) :
    unifyLines cs = cs := by
  induction cs with
  | nil => rfl
  | cons c r ih =>
      have hc : c ≠ '\r' := fun hc => h (by simp [hc])
      rw [unifyLines.eq_def]
      split <;> simp_all

end Cutlist.Text.Utf8
