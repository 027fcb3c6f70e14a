-- The JSON reader: a machine with a stack, which takes one code point at a
-- time. The stack holds the arrays and objects that are open. The phase
-- says where in the grammar the reader stands. A step that fails names the
-- place where the good part of the text ends, and every state that the
-- machine reaches can still be completed to a value.
import Lectern.Json.Numeral

namespace Lectern.Json

/-! ## States -/

/-- An array or object that is open, with what is read of it. -/
inductive Frame
  /-- The items before the one that is read, last first. -/
  | array (before : List Value)
  /-- The fields before the one that is read, and the name of that one. -/
  | object (before : Fields) (name : Text)

/-- What a string is read for. -/
inductive Role
  | value
  /-- The name of a field that comes after these. -/
  | name (before : Fields)

/-- Where the reader stands inside a string. -/
inductive StringPart
  | plain
  /-- Right after a unit escape, with the place of its `u`. The unit is the
  last code point read. -/
  | unit (place : Place)
  /-- After a backslash. It joins if the code point before it came from a
  unit escape and is the first half of a pair. -/
  | escape (place : Place) (joins : Bool)
  /-- Inside a unit escape, with the place of its `u` and the digits read. -/
  | digits (place : Place) (joins : Bool) (read : Digits)

/-- Where the reader stands in the grammar. -/
inductive Phase
  | value
  /-- After the bracket of an array. -/
  | firstItem
  /-- After the brace of an object. -/
  | firstName
  /-- After a comma in an object. -/
  | name (before : Fields)
  | colon (before : Fields) (name : Text)
  | ended (v : Value)
  | literal (start : Place) (left : Text) (v : Value)
  | numeral (start : Place) (n : Numeral) (part : NumeralPart)
  /-- Inside a string, with its code points last first. -/
  | string (start : Place) (role : Role) (read : Text) (part : StringPart)

/-- A state of the reader. The innermost open container comes first. -/
structure State where
  stack : List Frame
  phase : Phase

/-- The state before the first code point. -/
def State.start : State := ⟨[], .value⟩

/-! ## Steps -/

/-- White space between the parts of a value. -/
def isSpace (c : CodePoint) : Bool :=
  c.val = 0x20 || c.val = 0x09 || c.val = 0x0A || c.val = 0x0D

/-- The fault of a code point that cannot follow a value. -/
def leftover (stack : List Frame) (place : Place) : Fault :=
  match stack with
  | [] => .malformed .extraData place
  | _ :: _ => .malformed .noComma place

/-- A step from the end of a value. -/
def afterValue (here : Place) (stack : List Frame) (v : Value) (c : CodePoint) :
    Except Fault State :=
  if isSpace c then .ok ⟨stack, .ended v⟩
  else
    match stack with
    | [] => .error (leftover [] here)
    | .array before :: rest =>
      if c = CodePoint.ofChar ',' then .ok ⟨.array (v :: before) :: rest, .value⟩
      else if c = CodePoint.ofChar ']' then
        .ok ⟨rest, .ended (.array (v :: before).reverse)⟩
      else .error (leftover stack here)
    | .object before name :: rest =>
      if c = CodePoint.ofChar ',' then .ok ⟨rest, .name (before.put name v)⟩
      else if c = CodePoint.closeBrace then
        .ok ⟨rest, .ended (.object (before.put name v))⟩
      else .error (leftover stack here)

/-- The literals, by their first code point: the rest of each and its value. -/
def literal? (c : CodePoint) : Option (Text × Value) :=
  if c = CodePoint.ofChar 'n' then some (Text.ofString "ull", .null)
  else if c = CodePoint.ofChar 't' then some (Text.ofString "rue", .bool true)
  else if c = CodePoint.ofChar 'f' then some (Text.ofString "alse", .bool false)
  else if c = CodePoint.ofChar 'N' then some (Text.ofString "aN", .float Binary64.nan)
  else if c = CodePoint.ofChar 'I' then
    some (Text.ofString "nfinity", .float Binary64.infinity)
  else none

/-- A step at the first code point of a value. -/
def startValue (limits : Limits) (here : Place) (stack : List Frame) (c : CodePoint) :
    Except Fault State :=
  if c = CodePoint.quotationMark then .ok ⟨stack, .string here .value [] .plain⟩
  else if c = CodePoint.ofChar '[' then
    if limits.depth ≤ stack.length then .error .tooDeep else .ok ⟨stack, .firstItem⟩
  else if c = CodePoint.openBrace then
    if limits.depth ≤ stack.length then .error .tooDeep else .ok ⟨stack, .firstName⟩
  else if c = CodePoint.ofChar '-' then .ok ⟨stack, .numeral here (.ofSign true) .sign⟩
  else
    match c.digit?, literal? c with
    | some d, _ =>
      let n := Numeral.ofSign false
      let n := { n with whole := n.whole.push d }
      .ok ⟨stack, .numeral here n (if d = 0 then .zero else .whole)⟩
    | none, some (left, v) => .ok ⟨stack, .literal here left v⟩
    | none, none => .error (.malformed .noValue here)

/-- A step inside a literal. -/
def literalStep (stack : List Frame) (start : Place) (left : Text) (v : Value) (c : CodePoint) :
    Except Fault State :=
  match left with
  | [] => .error (.malformed .noValue start)
  | d :: more =>
    if c = d then .ok ⟨stack, if more.isEmpty then .ended v else .literal start more v⟩
    else .error (.malformed .noValue start)

/-! ### Numbers -/

/-- A step from the end of a number. -/
def afterNumeral (limits : Limits) (here : Place) (stack : List Frame) (n : Numeral)
    (c : CodePoint) : Except Fault State :=
  match n.value limits with
  | .error f => .error f
  | .ok v => afterValue here stack v c

/-- The fault of a number with a point or an exponent that has no digits.
The number ends before that point or letter, which cannot follow it. -/
def numeralFault (limits : Limits) (stack : List Frame) (n : Numeral) (place : Place) : Fault :=
  match n.value limits with
  | .error f => f
  | .ok _ => leftover stack place

/-- The letter that opens an exponent. -/
def isExponentLetter (c : CodePoint) : Bool := c.val = 0x65 || c.val = 0x45

/-- A step inside a number. -/
def numeralStep (limits : Limits) (here : Place) (stack : List Frame) (start : Place)
    (n : Numeral) (part : NumeralPart) (c : CodePoint) : Except Fault State :=
  let go (n : Numeral) (part : NumeralPart) : Except Fault State :=
    .ok ⟨stack, .numeral start n part⟩
  match part with
  | .sign =>
    match c.digit? with
    | some d => go { n with whole := n.whole.push d } (if d = 0 then .zero else .whole)
    | none =>
      if c = CodePoint.ofChar 'I' then
        .ok ⟨stack, .literal start (Text.ofString "nfinity") (.float Binary64.negativeInfinity)⟩
      else .error (.malformed .noValue start)
  | .zero =>
    if c = CodePoint.ofChar '.' then go n (.point here)
    else if isExponentLetter c then go n (.letter here)
    else afterNumeral limits here stack n c
  | .whole =>
    match c.digit? with
    | some d => go { n with whole := n.whole.push d } .whole
    | none =>
      if c = CodePoint.ofChar '.' then go n (.point here)
      else if isExponentLetter c then go n (.letter here)
      else afterNumeral limits here stack n c
  | .point place =>
    match c.digit? with
    | some d => go { n with fraction := n.fraction.push d } .fraction
    | none => .error (numeralFault limits stack n place)
  | .fraction =>
    match c.digit? with
    | some d => go { n with fraction := n.fraction.push d } .fraction
    | none =>
      if isExponentLetter c then go n (.letter here) else afterNumeral limits here stack n c
  | .letter place =>
    match c.digit? with
    | some d => go { n with exponent := n.exponent.push d } .exponent
    | none =>
      if c = CodePoint.ofChar '-' then go { n with exponentNegative := true } (.exponentSign place)
      else if c = CodePoint.ofChar '+' then go n (.exponentSign place)
      else .error (numeralFault limits stack n place)
  | .exponentSign place =>
    match c.digit? with
    | some d => go { n with exponent := n.exponent.push d } .exponent
    | none => .error (numeralFault limits stack n place)
  | .exponent =>
    match c.digit? with
    | some d => go { n with exponent := n.exponent.push d } .exponent
    | none => afterNumeral limits here stack n c

/-! ### Strings -/

/-- The code point that a letter after a backslash stands for. -/
def escaped? (c : CodePoint) : Option CodePoint :=
  if c = CodePoint.quotationMark ∨ c = CodePoint.backslash ∨ c = CodePoint.ofChar '/' then some c
  else if c = CodePoint.ofChar 'b' then some (CodePoint.ofNat 0x08)
  else if c = CodePoint.ofChar 'f' then some (CodePoint.ofNat 0x0C)
  else if c = CodePoint.ofChar 'n' then some CodePoint.lineFeed
  else if c = CodePoint.ofChar 'r' then some CodePoint.carriageReturn
  else if c = CodePoint.ofChar 't' then some (CodePoint.ofNat 0x09)
  else none

/-- The phase after a string. -/
def Role.ended (role : Role) (t : Text) : Phase :=
  match role with
  | .value => .ended (.string t)
  | .name before => .colon before t

/-- A unit escape comes after the code points of a string, last first. The
second half of a pair joins the first half if that is the unit before. -/
def pushUnit (read : Text) (joins : Bool) (unit : CodePoint) : Text :=
  match read with
  | high :: rest =>
    if joins && unit.isLowSurrogate then CodePoint.ofSurrogates high unit :: rest
    else unit :: read
  | [] => [unit]

/-- A step inside a string, between two escapes. `joins` says whether an
escape that begins here may join the code point before it. -/
def plainStep (here : Place) (stack : List Frame) (start : Place) (role : Role) (read : Text)
    (joins : Bool) (c : CodePoint) : Except Fault State :=
  if c = CodePoint.quotationMark then .ok ⟨stack, role.ended read.reverse⟩
  else if c = CodePoint.backslash then .ok ⟨stack, .string start role read (.escape here joins)⟩
  else if c.val < 0x20 then .error (.malformed .controlCharacter here)
  else .ok ⟨stack, .string start role (c :: read) .plain⟩

/-- A step inside a string. -/
def stringStep (here : Place) (stack : List Frame) (start : Place) (role : Role) (read : Text)
    (part : StringPart) (c : CodePoint) : Except Fault State :=
  match part with
  | .plain => plainStep here stack start role read false c
  | .unit _ =>
    plainStep here stack start role read ((read.head?.map (·.isHighSurrogate)).getD false) c
  | .escape place joins =>
    match escaped? c with
    | some d => .ok ⟨stack, .string start role (d :: read) .plain⟩
    | none =>
      if c = CodePoint.ofChar 'u' then
        .ok ⟨stack, .string start role read (.digits here joins .none)⟩
      else .error (.malformed .badEscape place)
  | .digits place joins d =>
    match c.hexDigit? with
    | none => .error (.malformed .badUnit place)
    | some n =>
      let d : Digits := ⟨d.value * 16 + n, d.count + 1⟩
      if d.count < 4 then .ok ⟨stack, .string start role read (.digits place joins d)⟩
      else
        .ok ⟨stack, .string start role (pushUnit read joins (CodePoint.ofNat d.value))
          (.unit place)⟩

/-! ### Any step -/

/-- One step of the reader, at a place, over one code point. -/
def State.step (limits : Limits) (here : Place) (s : State) (c : CodePoint) :
    Except Fault State :=
  match s.phase with
  | .value => if isSpace c then .ok s else startValue limits here s.stack c
  | .firstItem =>
    if isSpace c then .ok s
    else if c = CodePoint.ofChar ']' then .ok ⟨s.stack, .ended (.array [])⟩
    else startValue limits here (.array [] :: s.stack) c
  | .firstName =>
    if isSpace c then .ok s
    else if c = CodePoint.closeBrace then .ok ⟨s.stack, .ended (.object [])⟩
    else if c = CodePoint.quotationMark then .ok ⟨s.stack, .string here (.name []) [] .plain⟩
    else .error (.malformed .noName here)
  | .name before =>
    if isSpace c then .ok s
    else if c = CodePoint.quotationMark then
      .ok ⟨s.stack, .string here (.name before) [] .plain⟩
    else .error (.malformed .noName here)
  | .colon before name =>
    if isSpace c then .ok s
    else if c = CodePoint.ofChar ':' then .ok ⟨.object before name :: s.stack, .value⟩
    else .error (.malformed .noColon here)
  | .ended v => afterValue here s.stack v c
  | .literal start left v => literalStep s.stack start left v c
  | .numeral start n part => numeralStep limits here s.stack start n part c
  | .string start role read part => stringStep here s.stack start role read part c

/-! ## The end of the text -/

/-- A value at the end of the text, which must not stand in a container. -/
def endWith (here : Place) (stack : List Frame) (v : Value) : Except Fault Value :=
  match stack with
  | [] => .ok v
  | _ :: _ => .error (leftover stack here)

/-- The value that is read when the text ends. -/
def State.finish (limits : Limits) (here : Place) (s : State) : Except Fault Value :=
  match s.phase with
  | .value | .firstItem => .error (.malformed .noValue here)
  | .firstName | .name _ => .error (.malformed .noName here)
  | .colon _ _ => .error (.malformed .noColon here)
  | .ended v => endWith here s.stack v
  | .literal start _ _ => .error (.malformed .noValue start)
  | .numeral start n part =>
    match part with
    | .sign => .error (.malformed .noValue start)
    | .point place | .letter place | .exponentSign place =>
      .error (numeralFault limits s.stack n place)
    | .zero | .whole | .fraction | .exponent =>
      match n.value limits with
      | .error f => .error f
      | .ok v => endWith here s.stack v
  | .string start _ _ part =>
    match part with
    | .plain | .escape _ _ => .error (.malformed .openString start)
    | .unit place | .digits place _ _ => .error (.malformed .badUnit place)

/-! ## Reading -/

/-- Reads the rest of a text, from a state on. -/
def readFrom (limits : Limits) (here : Place) (s : State) : Text → Except Fault Value
  | [] => s.finish limits here
  | c :: rest =>
    match s.step limits here c with
    | .error f => .error f
    | .ok s => readFrom limits (here.next c) s rest

/-- The byte order mark, which must not open a text. -/
def byteOrderMark : CodePoint := '\ufeff'

/-- The value of a JSON text. -/
def read (limits : Limits) (t : Text) : Except Fault Value :=
  if t.head? = some byteOrderMark then .error (.malformed .byteOrderMark .start)
  else readFrom limits .start .start t

/-- The value of a JSON text, within the limits of the program. -/
def parse (t : Text) : Except Fault Value := read .standard t

end Lectern.Json
