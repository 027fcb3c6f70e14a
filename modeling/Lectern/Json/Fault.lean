-- Why a text gives no JSON value.
import Lectern.Text.Lines

namespace Lectern.Json

/-- What is wrong at a place in a text. -/
inductive Complaint
  | byteOrderMark
  | noValue
  | noName
  | noColon
  | noComma
  | openString
  | controlCharacter
  | badEscape
  | badUnit
  | extraData
deriving DecidableEq

/-- A complaint in words. -/
def Complaint.text : Complaint → Text
  | .byteOrderMark => Text.ofString "Unexpected UTF-8 BOM (decode using utf-8-sig)"
  | .noValue => Text.ofString "Expecting value"
  | .noName => Text.ofString "Expecting property name enclosed in double quotes"
  | .noColon => Text.ofString "Expecting ':' delimiter"
  | .noComma => Text.ofString "Expecting ',' delimiter"
  | .openString => Text.ofString "Unterminated string starting at"
  | .controlCharacter => Text.ofString "Invalid control character at"
  | .badEscape => Text.ofString "Invalid \\escape"
  | .badUnit => Text.ofString "Invalid \\uXXXX escape"
  | .extraData => Text.ofString "Extra data"

/-- Why a text gives no value: it is not JSON from some place on, its
values stand inside each other too deeply, or a whole number in it has too
many digits. -/
inductive Fault
  | malformed (complaint : Complaint) (place : Place)
  | tooDeep
  | longNumber (digits : Nat)
deriving DecidableEq

/-- How far a reader goes: how many arrays and objects may stand inside
each other, and how many digits a whole number may have. -/
structure Limits where
  depth : Nat
  digits : Nat

/-- The limits of the program. Of the thousand calls that can be open the
reader takes one for each array and object, and the caller has some, so the
depth is exact to within two for a program that starts with the caller, and
less for one that stands deeper. -/
def Limits.standard : Limits := ⟨991, 4300⟩

/-- A fault in words. -/
def Fault.message : Fault → Text
  | .malformed complaint place =>
    Text.ofString "input is not valid JSON: " ++ complaint.text ++ Text.ofString ": " ++ place.text
  | .tooDeep => Text.ofString "input JSON is nested too deeply"
  | .longNumber digits =>
    Text.ofString "Exceeds the limit (" ++ Text.ofNat Limits.standard.digits
      ++ Text.ofString " digits) for integer string conversion: value has " ++ Text.ofNat digits
      ++ Text.ofString
        " digits; use sys.set_int_max_str_digits() to increase the limit"

end Lectern.Json
