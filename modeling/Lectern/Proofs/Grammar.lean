-- The grammar of JSON, apart from any reader. A text is a spelling of a tree,
-- with white space between the parts and with escapes in the strings as they
-- come, and it denotes the value of that tree.
import Mathlib.Data.List.Basic
import Mathlib.Data.List.Induction
import Mathlib.Data.Nat.Digits.Defs
import Lectern.Json.Numeral

namespace Lectern.Json

open CodePoint (backslash carriageReturn closeBrace lineFeed openBrace quotationMark)

/-! ## Trees -/

/-- The values that are written as a word. -/
inductive Word
  | null
  | true
  | false
  | nan
  | infinity
  | negativeInfinity
deriving DecidableEq

namespace Word

/-- How a word is written. -/
def text : Word → Text
  | .null => Text.ofString "null"
  | .true => Text.ofString "true"
  | .false => Text.ofString "false"
  | .nan => Text.ofString "NaN"
  | .infinity => Text.ofString "Infinity"
  | .negativeInfinity => Text.ofString "-Infinity"

/-- What a word stands for. -/
def value : Word → Value
  | .null => .null
  | .true => .bool Bool.true
  | .false => .bool Bool.false
  | .nan => .float Binary64.nan
  | .infinity => .float Binary64.infinity
  | .negativeInfinity => .float Binary64.negativeInfinity

end Word

/-- What a JSON text says, with every number as it is written and every member
of an object, whether its name comes again or not. -/
inductive Tree
  | word (w : Word)
  | number (n : Numeral)
  | string (t : Text)
  | array (items : List Tree)
  | object (members : List (Text × Tree))

/-! ### Values -/

/-- The value of a number. Without a fraction and an exponent it is whole. -/
def Numeral.denoted (n : Numeral) : Value :=
  if n.fraction.count = 0 ∧ n.exponent.count = 0 then
    .int (if n.negative then -(n.whole.value : Int) else n.whole.value)
  else .float n.decimal.nearest

/-- How many digits a whole number has. -/
def Numeral.digits (n : Numeral) : Nat :=
  if n.fraction.count = 0 ∧ n.exponent.count = 0 then n.whole.count else 0

/-- A name with what is found under it. -/
def field? (find : Text → Option Value) (name : Text) : Option (Text × Value) :=
  (find name).map (Prod.mk name)

/-- The fields that the members of an object make: every name once, at its
first place, with its last value. -/
def gather (members : Fields) : Fields :=
  (members.map Prod.fst).eraseDups.filterMap (field? fun name => members.reverse.lookup name)

mutual

/-- The value of a tree. -/
def Tree.value : Tree → Value
  | .word w => w.value
  | .number n => n.denoted
  | .string t => .string t
  | .array items => .array (itemValues items)
  | .object members => .object (gather (memberValues members))

/-- The values of the items of an array. -/
def itemValues : List Tree → List Value
  | [] => []
  | tree :: items => tree.value :: itemValues items

/-- The values of the members of an object, with their names. -/
def memberValues : List (Text × Tree) → Fields
  | [] => []
  | member :: members => (member.1, member.2.value) :: memberValues members

end

/-! ### Sizes -/

mutual

/-- How many arrays and objects stand inside each other. -/
def Tree.depth : Tree → Nat
  | .word _ | .number _ | .string _ => 0
  | .array items => itemsDepth items + 1
  | .object members => membersDepth members + 1

/-- How many arrays and objects stand inside each other in an array. -/
def itemsDepth : List Tree → Nat
  | [] => 0
  | tree :: items => max tree.depth (itemsDepth items)

/-- How many arrays and objects stand inside each other in an object. -/
def membersDepth : List (Text × Tree) → Nat
  | [] => 0
  | member :: members => max member.2.depth (membersDepth members)

end

mutual

/-- How many digits the longest whole number has. -/
def Tree.digits : Tree → Nat
  | .word _ | .string _ => 0
  | .number n => n.digits
  | .array items => itemsDigits items
  | .object members => membersDigits members

/-- How many digits the longest whole number in an array has. -/
def itemsDigits : List Tree → Nat
  | [] => 0
  | tree :: items => max tree.digits (itemsDigits items)

/-- How many digits the longest whole number in an object has. -/
def membersDigits : List (Text × Tree) → Nat
  | [] => 0
  | member :: members => max member.2.digits (membersDigits members)

end

/-! ## Spellings of numbers -/

/-- The digits in a row, the highest first, and at least one. -/
inductive Row : Digits → Text → Prop
  | mk {t : Text} {ds : List Nat} (ht : t ≠ []) (h : t.map CodePoint.digit? = ds.map some) :
    Row ⟨Nat.ofDigits 10 ds.reverse, ds.length⟩ t

/-- The sign of a number. -/
inductive Sign : Bool → Text → Prop
  | none : Sign false []
  | minus : Sign true [CodePoint.ofChar '-']

/-- The digits before the point, with no zero in front. -/
inductive WholePart : Digits → Text → Prop
  | zero : WholePart ⟨0, 1⟩ [CodePoint.ofChar '0']
  | row {d : Digits} {t : Text} (h : Row d t) (hzero : t.head? ≠ some (CodePoint.ofChar '0')) :
    WholePart d t

/-- The point with the digits behind it, or neither. -/
inductive FractionPart : Digits → Text → Prop
  | none : FractionPart .none []
  | row {d : Digits} {t : Text} (h : Row d t) : FractionPart d (CodePoint.ofChar '.' :: t)

/-- The sign of an exponent. -/
inductive ExponentSign : Bool → Text → Prop
  | none : ExponentSign false []
  | plus : ExponentSign false [CodePoint.ofChar '+']
  | minus : ExponentSign true [CodePoint.ofChar '-']

/-- The exponent with its letter, or neither. -/
inductive ExponentPart : Bool → Digits → Text → Prop
  | none : ExponentPart false .none []
  | row {negative : Bool} {d : Digits} {letter : CodePoint} {sign t : Text}
    (hletter : letter = CodePoint.ofChar 'e' ∨ letter = CodePoint.ofChar 'E')
    (hsign : ExponentSign negative sign) (h : Row d t) :
    ExponentPart negative d (letter :: (sign ++ t))

/-- The text is a spelling of the number. -/
inductive Numeral.Spells : Numeral → Text → Prop
  | mk {negative exponentNegative : Bool} {whole fraction exponent : Digits} {sign w f e : Text}
    (hsign : Sign negative sign) (hw : WholePart whole w) (hf : FractionPart fraction f)
    (he : ExponentPart exponentNegative exponent e) :
    Numeral.Spells ⟨negative, whole, fraction, exponentNegative, exponent⟩
      (sign ++ (w ++ (f ++ e)))

/-! ## Spellings of strings -/

/-- The letters that may stand behind a backslash, each with the code point
that is meant. -/
def escapeLetters : List (CodePoint × CodePoint) := [
    (quotationMark, quotationMark), (backslash, backslash),
    (CodePoint.ofChar '/', CodePoint.ofChar '/'), (CodePoint.ofChar 'b', CodePoint.ofNat 0x08),
    (CodePoint.ofChar 'f', CodePoint.ofNat 0x0C), (CodePoint.ofChar 'n', lineFeed),
    (CodePoint.ofChar 'r', carriageReturn), (CodePoint.ofChar 't', CodePoint.ofNat 0x09)]

/-- The text is an escape by which the unit is meant, with its four digits of
base sixteen. -/
inductive UnitEscape : Text → CodePoint → Prop
  | mk {a b c d : CodePoint} {i j k l : Nat} (ha : a.hexDigit? = some i)
    (hb : b.hexDigit? = some j) (hc : c.hexDigit? = some k) (hd : d.hexDigit? = some l) :
    UnitEscape [backslash, CodePoint.ofChar 'u', a, b, c, d]
      (CodePoint.ofNat (((i * 16 + j) * 16 + k) * 16 + l))

/-- The text begins with an escape by which the second half of a pair is
meant. -/
def BeginsLow (t : Text) : Prop :=
  ∃ escape low rest, t = escape ++ rest ∧ UnitEscape escape low ∧ low.isLowSurrogate

/-- What may be written between quotation marks, and what is meant by it. Two
escapes are one code point where they are the halves of a pair, and every
other escape is the unit that it names. -/
inductive StringBody : Text → Text → Prop
  | nil : StringBody [] []
  | plain {c : CodePoint} {t u : Text} (hquote : c ≠ quotationMark) (hslash : c ≠ backslash)
    (hcontrol : 0x20 ≤ c.val) (h : StringBody t u) : StringBody (c :: t) (c :: u)
  | letter {c d : CodePoint} {t u : Text} (hc : (c, d) ∈ escapeLetters) (h : StringBody t u) :
    StringBody (backslash :: c :: t) (d :: u)
  | unit {escape t u : Text} {unit : CodePoint} (hunit : UnitEscape escape unit)
    (alone : ¬ (unit.isHighSurrogate ∧ BeginsLow t)) (h : StringBody t u) :
    StringBody (escape ++ t) (unit :: u)
  | pair {escape escape' t u : Text} {high low : CodePoint} (hhigh : UnitEscape escape high)
    (hlow : UnitEscape escape' low) (isHigh : high.isHighSurrogate) (isLow : low.isLowSurrogate)
    (h : StringBody t u) :
    StringBody (escape ++ (escape' ++ t)) (CodePoint.ofSurrogates high low :: u)

/-- The text is a spelling of the string, with its quotation marks. -/
inductive StringSpells : Text → Text → Prop
  | mk {t u : Text} (h : StringBody t u) : StringSpells u (quotationMark :: (t ++ [quotationMark]))

/-! ## Spellings of trees -/

/-- White space, or nothing. -/
def Spaces (t : Text) : Prop :=
  ∀ c ∈ t, c = CodePoint.ofChar ' ' ∨ c = CodePoint.ofChar '\t' ∨ c = lineFeed ∨ c = carriageReturn

/-- The name of a member, up to the colon. -/
inductive NameSpells : Text → Text → Prop
  | mk {name before t behind : Text} (hbefore : Spaces before) (h : StringSpells name t)
    (hbehind : Spaces behind) :
    NameSpells name (before ++ (t ++ (behind ++ [CodePoint.ofChar ':'])))

/-- The parts of a text. An element is a value with the white space around it. -/
inductive Phrase
  | value (tree : Tree)
  | element (tree : Tree)
  | items (trees : List Tree)
  | members (fields : List (Text × Tree))

/-- The text is a spelling of the phrase. -/
inductive Spells : Phrase → Text → Prop
  | word (w : Word) : Spells (.value (.word w)) w.text
  | number {n : Numeral} {t : Text} (h : n.Spells t) : Spells (.value (.number n)) t
  | string {u t : Text} (h : StringSpells u t) : Spells (.value (.string u)) t
  | noItems {t : Text} (h : Spaces t) :
    Spells (.value (.array [])) (CodePoint.ofChar '[' :: (t ++ [CodePoint.ofChar ']']))
  | array {trees : List Tree} {t : Text} (h : Spells (.items trees) t) :
    Spells (.value (.array trees)) (CodePoint.ofChar '[' :: (t ++ [CodePoint.ofChar ']']))
  | noMembers {t : Text} (h : Spaces t) :
    Spells (.value (.object [])) (openBrace :: (t ++ [closeBrace]))
  | object {members : List (Text × Tree)} {t : Text} (h : Spells (.members members) t) :
    Spells (.value (.object members)) (openBrace :: (t ++ [closeBrace]))
  | element {tree : Tree} {before t behind : Text} (hbefore : Spaces before)
    (h : Spells (.value tree) t) (hbehind : Spaces behind) :
    Spells (.element tree) (before ++ (t ++ behind))
  | lastItem {tree : Tree} {t : Text} (h : Spells (.element tree) t) : Spells (.items [tree]) t
  | item {tree : Tree} {trees : List Tree} {t more : Text} (h : Spells (.element tree) t)
    (hmore : Spells (.items trees) more) :
    Spells (.items (tree :: trees)) (t ++ CodePoint.ofChar ',' :: more)
  | lastMember {name : Text} {tree : Tree} {t u : Text} (hname : NameSpells name u)
    (h : Spells (.element tree) t) : Spells (.members [(name, tree)]) (u ++ t)
  | member {name : Text} {tree : Tree} {members : List (Text × Tree)} {t u more : Text}
    (hname : NameSpells name u) (h : Spells (.element tree) t)
    (hmore : Spells (.members members) more) :
    Spells (.members ((name, tree) :: members)) (u ++ (t ++ CodePoint.ofChar ',' :: more))

/-! ## What a text denotes -/

/-- The text denotes the value: it is a spelling of a tree with that value. -/
def Denotes (t : Text) (v : Value) : Prop := ∃ tree, Spells (.element tree) t ∧ tree.value = v

/-- The text denotes the value within the limits. -/
def DenotesWithin (limits : Limits) (t : Text) (v : Value) : Prop :=
  ∃ tree, Spells (.element tree) t ∧ tree.depth ≤ limits.depth ∧ tree.digits ≤ limits.digits ∧
    tree.value = v

/-- No more arrays and objects than this stand inside each other in the text. A
text that is no spelling of a tree has none to count. -/
def NestedWithin (depth : Nat) (t : Text) : Prop :=
  ∀ tree, Spells (.element tree) t → tree.depth ≤ depth

/-! ## Fields and digits, one at a time -/

theorem field?_update (find : Text → Option Value) {name other : Text} (v : Value)
    (h : other ≠ name) : field? (fun n => if n = name then some v else find n) other =
      field? find other := by
  simp [field?, h]

/-- Setting one name of a list of names that has each of them once. -/
theorem put_filterMap_field? {names : List Text} (hnodup : names.Nodup)
    {find : Text → Option Value} (hfind : ∀ n ∈ names, (find n).isSome) (name : Text) (v : Value) :
    Fields.put (names.filterMap (field? find)) name v =
      (if name ∈ names then names else names ++ [name]).filterMap
        (field? fun n => if n = name then some v else find n) := by
  induction names with
  | nil => simp [Fields.put, field?]
  | cons n names ih =>
    obtain ⟨hn, hnames⟩ := List.nodup_cons.mp hnodup
    obtain ⟨w, hw⟩ := Option.isSome_iff_exists.mp (hfind n List.mem_cons_self)
    have hentry : field? find n = some (n, w) := by simp [field?, hw]
    rw [List.filterMap_cons_some hentry, Fields.put]
    by_cases h : n = name
    · subst h
      have hsame : names.filterMap (field? fun m => if m = n then some v else find m) =
          names.filterMap (field? find) :=
        List.filterMap_congr fun m hm => field?_update find v fun h => hn (h ▸ hm)
      have hset : field? (fun m => if m = n then some v else find m) n = some (n, v) := by
        simp [field?]
      rw [if_pos rfl, if_pos List.mem_cons_self, List.filterMap_cons_some hset, hsame]
    · have hkeep : field? (fun m => if m = name then some v else find m) n = some (n, w) := by
        rw [field?_update find v h, hentry]
      rw [if_neg h, ih hnames fun m hm => hfind m (List.mem_cons_of_mem n hm)]
      by_cases hmem : name ∈ names
      · rw [if_pos hmem, if_pos (List.mem_cons_of_mem n hmem), List.filterMap_cons_some hkeep]
      · have hcons : name ∉ n :: names := by
          simp [hmem, Ne.symm h]
        rw [if_neg hmem, if_neg hcons, List.cons_append, List.filterMap_cons_some hkeep]

/-- A name that comes behind others is kept if it is a new one. -/
theorem eraseDups_snoc (names : List Text) (name : Text) :
    (names ++ [name]).eraseDups =
      if name ∈ names.eraseDups then names.eraseDups else names.eraseDups ++ [name] := by
  rw [List.eraseDups_append]
  by_cases h : name ∈ names <;> simp [List.removeAll, List.eraseDups_cons, h]

theorem nodup_eraseDups (names : List Text) : names.eraseDups.Nodup := by
  induction names using List.reverseRecOn with
  | nil => simp
  | append_singleton names name ih =>
    rw [eraseDups_snoc]
    split
    · exact ih
    · rename_i h
      exact List.nodup_append.mpr ⟨ih, by simp, by grind⟩

/-- One more member sets its field. -/
theorem gather_snoc (members : Fields) (name : Text) (v : Value) :
    gather (members ++ [(name, v)]) = Fields.put (gather members) name v := by
  have hfind : ∀ n ∈ (members.map Prod.fst).eraseDups, (members.reverse.lookup n).isSome := by
    intro n hn
    obtain ⟨m, hm, rfl⟩ := List.mem_map.mp (List.mem_eraseDups.mp hn)
    exact List.lookup_isSome_iff.mpr ⟨m, List.mem_reverse.mpr hm, by simp⟩
  have hlookup : ∀ n, (members ++ [(name, v)]).reverse.lookup n =
      if n = name then some v else members.reverse.lookup n := by
    intro n
    rw [List.reverse_append, List.reverse_singleton, List.singleton_append, List.lookup_cons]
    by_cases h : n = name
    · simp [h]
    · have hne : (n == name) = false := by simpa using h
      rw [hne, if_neg h]
  rw [gather, gather, put_filterMap_field? (nodup_eraseDups _) hfind, List.map_append,
    List.map_singleton, eraseDups_snoc]
  simp only [hlookup]

/-- The fields with those of more members set, one after the other. -/
def Fields.putAll (fields members : Fields) : Fields :=
  members.foldl (fun fields m => fields.put m.1 m.2) fields

/-- The members of an object make its fields when they are set one by one. -/
theorem putAll_nil (members : Fields) : Fields.putAll [] members = gather members := by
  unfold Fields.putAll
  induction members using List.reverseRecOn with
  | nil => rfl
  | append_singleton members m ih =>
    rw [List.foldl_append, ih, List.foldl_cons, List.foldl_nil, gather_snoc]

/-- Digits that are read one after the other are a number in base ten. -/
theorem foldl_push (ds : List Nat) :
    ds.foldl Digits.push .none = ⟨Nat.ofDigits 10 ds.reverse, ds.length⟩ := by
  induction ds using List.reverseRecOn with
  | nil => rfl
  | append_singleton ds d ih =>
    rw [List.foldl_append, ih]
    simp [Digits.push, Nat.ofDigits_cons, Nat.mul_comm, Nat.add_comm]

end Lectern.Json
