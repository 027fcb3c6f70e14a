-- Quoted texts: how a message shows a text so that every code point of it
-- can be told.
import Lectern.Text.Printable

namespace Lectern.Text

/-- The mark around a quoted text: the apostrophe, unless the text holds
one and holds no quotation mark. -/
def quoteMark (t : Text) : CodePoint :=
  if CodePoint.apostrophe ∈ t ∧ CodePoint.quotationMark ∉ t then CodePoint.quotationMark
  else CodePoint.apostrophe

/-- A code point by its number: two digits of base sixteen, or four, or
eight, whichever is the first to do. -/
def numbered (c : CodePoint) : Text :=
  if c.val ≤ 0xFF then CodePoint.backslash :: 'x' :: hex 2 c.val
  else if c.val ≤ 0xFFFF then CodePoint.backslash :: 'u' :: hex 4 c.val
  else CodePoint.backslash :: 'U' :: hex 8 c.val

/-- One code point inside quote marks. The mark itself and the backslash
have a backslash in front, the tab and the line ends have letters, and what
does not print is numbered. -/
def quotedCodePoint (mark c : CodePoint) : Text :=
  if c = mark ∨ c = CodePoint.backslash then [CodePoint.backslash, c]
  else if c = CodePoint.ofChar '\t' then [CodePoint.backslash, 't']
  else if c = CodePoint.lineFeed then [CodePoint.backslash, 'n']
  else if c = CodePoint.carriageReturn then [CodePoint.backslash, 'r']
  else if c.isPrintable then [c]
  else numbered c

/-- A text between quote marks. -/
def quoted (t : Text) : Text :=
  let mark := quoteMark t
  mark :: t.flatMap (quotedCodePoint mark) ++ [mark]

end Lectern.Text
