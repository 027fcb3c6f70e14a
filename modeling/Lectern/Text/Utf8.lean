-- UTF-8. The reader takes one byte at a time and keeps the character that
-- it has begun, with the range that the next byte must be in. So it stops
-- at the first byte that no well-formed text can have at its place, and it
-- knows the bytes that this character has so far.
import Lectern.Text.Basic

namespace Lectern.Utf8

/-! ## Reading -/

/-- Why bytes are not UTF-8. -/
inductive Reason
  | badStart
  | badContinuation
  | unexpectedEnd
deriving DecidableEq

/-- Bytes that are not UTF-8: where the character at fault begins, and the
bytes of it, of which there is at least one. -/
structure Fault where
  reason : Reason
  offset : Nat
  first : UInt8
  length : Nat
deriving DecidableEq

/-- A character of which some bytes are read. -/
structure Partial where
  offset : Nat
  first : UInt8
  length : Nat
  /-- The bits read so far. -/
  value : Nat
  /-- The bytes still to come, at least one. -/
  missing : Nat
  /-- The least byte that may come next. -/
  low : Nat
  /-- The greatest byte that may come next. -/
  high : Nat

/-- The character that a byte above ASCII begins. The bounds of the second
byte keep out the surrogates, the numbers that are too large, and the
characters that fit into fewer bytes. -/
def Partial.begin? (offset : Nat) (b : UInt8) : Option Partial :=
  let n := b.toNat
  if 0xC2 ≤ n ∧ n ≤ 0xDF then some ⟨offset, b, 1, n - 0xC0, 1, 0x80, 0xBF⟩
  else if n = 0xE0 then some ⟨offset, b, 1, 0, 2, 0xA0, 0xBF⟩
  else if n = 0xED then some ⟨offset, b, 1, 0xD, 2, 0x80, 0x9F⟩
  else if 0xE1 ≤ n ∧ n ≤ 0xEF then some ⟨offset, b, 1, n - 0xE0, 2, 0x80, 0xBF⟩
  else if n = 0xF0 then some ⟨offset, b, 1, 0, 3, 0x90, 0xBF⟩
  else if 0xF1 ≤ n ∧ n ≤ 0xF3 then some ⟨offset, b, 1, n - 0xF0, 3, 0x80, 0xBF⟩
  else if n = 0xF4 then some ⟨offset, b, 1, 4, 3, 0x80, 0x8F⟩
  else none

/-- The fault that a character begun but not finished is. -/
def Partial.fault (p : Partial) (reason : Reason) : Fault := ⟨reason, p.offset, p.first, p.length⟩

/-- The character with one more byte, which is known to be in range. -/
def Partial.push (p : Partial) (b : UInt8) : Partial :=
  ⟨p.offset, p.first, p.length + 1, p.value * 0x40 + (b.toNat - 0x80), p.missing - 1, 0x80, 0xBF⟩

/-- Reads bytes, from a given offset on. `read` holds the code points so
far, last first. -/
def decodeFrom (offset : Nat) (begun : Option Partial) (read : Text) :
    List UInt8 → Except Fault Text
  | [] =>
    match begun with
    | none => .ok read.reverse
    | some p => .error (p.fault .unexpectedEnd)
  | b :: rest =>
    match begun with
    | none =>
      if b.toNat < 0x80 then decodeFrom (offset + 1) none (CodePoint.ofNat b.toNat :: read) rest
      else
        match Partial.begin? offset b with
        | some p => decodeFrom (offset + 1) (some p) read rest
        | none => .error ⟨.badStart, offset, b, 1⟩
    | some p =>
      if p.low ≤ b.toNat ∧ b.toNat ≤ p.high then
        let p := p.push b
        if p.missing = 0 then decodeFrom (offset + 1) none (CodePoint.ofNat p.value :: read) rest
        else decodeFrom (offset + 1) (some p) read rest
      else .error (p.fault .badContinuation)

/-- The text that bytes stand for. -/
def decode (bytes : List UInt8) : Except Fault Text := decodeFrom 0 none [] bytes

/-! ## Writing -/

/-- The bytes of a code point. Only a surrogate has none. -/
def bytes? (c : CodePoint) : Option (List UInt8) :=
  let n := c.val
  let tail (shift : Nat) : UInt8 := UInt8.ofNat (0x80 + n / shift % 0x40)
  if n < 0x80 then some [UInt8.ofNat n]
  else if n < 0x800 then some [UInt8.ofNat (0xC0 + n / 0x40), tail 1]
  else if c.isSurrogate then none
  else if n < 0x10000 then some [UInt8.ofNat (0xE0 + n / 0x1000), tail 0x40, tail 1]
  else some [UInt8.ofNat (0xF0 + n / 0x40000), tail 0x1000, tail 0x40, tail 1]

/-- A run of surrogates, for which there are no bytes. -/
structure Unwritable where
  offset : Nat
  first : CodePoint
  length : Nat
deriving DecidableEq

/-- The first run of surrogates in a text. -/
def firstUnwritable? (t : Text) : Option Unwritable :=
  match t.dropWhile (!·.isSurrogate) with
  | [] => none
  | c :: rest =>
    some ⟨(t.takeWhile (!·.isSurrogate)).length, c, 1 + (rest.takeWhile (·.isSurrogate)).length⟩

/-- The bytes of a text, or the first run of surrogates in it. -/
def encode (t : Text) : Except Unwritable (List UInt8) :=
  match firstUnwritable? t with
  | some u => .error u
  | none => .ok (t.flatMap fun c => (bytes? c).getD [])

end Lectern.Utf8
