-- Texts as lists of code points. A text may hold a surrogate on its own,
-- which no `String` can, so every text that the program reads, keeps or
-- writes is a `Text`, and `String` serves for literals only.

namespace Lectern

/-! ## Code points -/

/-- A code point: a number below `0x110000`. The surrogates are among them. -/
structure CodePoint where
  val : Nat
  lt : val < 0x110000
deriving DecidableEq

namespace CodePoint

/-- The code point of a character. -/
def ofChar (c : Char) : CodePoint where
  val := c.toNat
  lt := by
    have h := c.valid
    simp only [UInt32.isValidChar, Nat.isValidChar] at h
    show c.val.toNat < 0x110000
    omega

instance : Coe Char CodePoint := ⟨ofChar⟩

/-- The code point with this number, and the replacement character for a
number that is too large. -/
def ofNat (n : Nat) : CodePoint :=
  if h : n < 0x110000 then ⟨n, h⟩ else ofChar '\ufffd'

/-- The first half of a surrogate pair. -/
def isHighSurrogate (c : CodePoint) : Bool := 0xD800 ≤ c.val && c.val < 0xDC00

/-- The second half of a surrogate pair. -/
def isLowSurrogate (c : CodePoint) : Bool := 0xDC00 ≤ c.val && c.val < 0xE000

/-- Half of a surrogate pair, which is no character on its own. -/
def isSurrogate (c : CodePoint) : Bool := 0xD800 ≤ c.val && c.val < 0xE000

/-- The character that two surrogates stand for together. -/
def ofSurrogates (high low : CodePoint) : CodePoint :=
  ofNat (0x10000 + (high.val - 0xD800) * 0x400 + (low.val - 0xDC00))

/-- The character of a code point, if it has one. -/
def toChar? (c : CodePoint) : Option Char :=
  if c.isSurrogate then none else some (Char.ofNat c.val)

/-- The digit that a code point shows in base ten. -/
def digit? (c : CodePoint) : Option Nat :=
  if 0x30 ≤ c.val ∧ c.val ≤ 0x39 then some (c.val - 0x30) else none

/-- The digit that a code point shows in base sixteen, in either case. -/
def hexDigit? (c : CodePoint) : Option Nat :=
  if 0x30 ≤ c.val ∧ c.val ≤ 0x39 then some (c.val - 0x30)
  else if 0x61 ≤ c.val ∧ c.val ≤ 0x66 then some (c.val - 0x61 + 10)
  else if 0x41 ≤ c.val ∧ c.val ≤ 0x46 then some (c.val - 0x41 + 10)
  else none

/-- Line feed. -/
def lineFeed : CodePoint := '\n'

/-- Carriage return. -/
def carriageReturn : CodePoint := '\r'

/-- The straight quotation mark. -/
def quotationMark : CodePoint := '\x22'

/-- The straight apostrophe. -/
def apostrophe : CodePoint := '\x27'

/-- The brace that opens a group or an object. -/
def openBrace : CodePoint := '\x7b'

/-- The brace that closes a group or an object. -/
def closeBrace : CodePoint := '\x7d'

/-- The backslash, which opens a control word and an escape. -/
def backslash : CodePoint := '\x5c'

end CodePoint

/-! ## Texts -/

/-- A text: its code points in reading order. -/
abbrev Text := List CodePoint

namespace Text

/-- The text of a string. -/
def ofString (s : String) : Text := s.toList.map CodePoint.ofChar

theorem ofString_inj {s t : String} : ofString s = ofString t ↔ s = t := by
  have hchar : Function.Injective CodePoint.ofChar := by
    intro c d h
    exact Char.toNat_inj.mp (congrArg CodePoint.val h)
  refine ⟨fun h => String.toList_inj.mp ((List.map_inj_right hchar).mp h), congrArg _⟩

/-- The string of a text, if the text holds no surrogate. -/
def toString? (t : Text) : Option String := (t.mapM CodePoint.toChar?).map String.ofList

/-- A number in base ten. -/
def ofNat (n : Nat) : Text := (Nat.toDigits 10 n).map CodePoint.ofChar

/-- A whole number in base ten, with a minus sign when it is negative. -/
def ofInt (n : Int) : Text :=
  if n < 0 then '-' :: ofNat n.natAbs else ofNat n.natAbs

/-- A number in base sixteen, in small letters, with zeros in front up to
`width` digits. -/
def hex (width n : Nat) : Text :=
  (Nat.toDigits 16 n).map CodePoint.ofChar |>.leftpad width '0'

/-- Texts one after the other, with a separator between two of them. -/
def joinWith (separator : Text) (ts : List Text) : Text := separator.intercalate ts

/-- Lines, each ended by a line feed. -/
def ofLines (lines : List String) : Text :=
  lines.flatMap fun line => ofString line ++ [CodePoint.lineFeed]

end Text

end Lectern
