-- JSON values. The fields of an object keep the order in which their names
-- came first.
import Lectern.Number.Binary64

namespace Lectern.Json

/-- A JSON value. Whole numbers and numbers with a point or an exponent are
kept apart. -/
inductive Value
  | null
  | bool (b : Bool)
  | int (n : Int)
  | float (x : Binary64)
  | string (t : Text)
  | array (items : List Value)
  | object (fields : List (Text × Value))

/-- The fields of an object, in order. -/
abbrev Fields := List (Text × Value)

namespace Fields

/-- The value of a field. -/
def get? (fields : Fields) (name : Text) : Option Value := fields.lookup name

/-- What is found under a name is smaller than the list it is found in. -/
theorem sizeOf_lookup {α : Type} [SizeOf α] {fields : List (Text × α)} {name : Text} {a : α}
    (h : fields.lookup name = some a) : sizeOf a < sizeOf fields := by
  induction fields with
  | nil => simp at h
  | cons field fields ih =>
    obtain ⟨key, b⟩ := field
    rw [List.lookup_cons] at h
    split at h
    · cases h
      simp only [List.cons.sizeOf_spec, Prod.mk.sizeOf_spec]
      omega
    · have := ih h
      simp only [List.cons.sizeOf_spec]
      omega

/-- Sets a field. A name that is there keeps its place and gets the new
value, and a new name comes last. -/
def put : Fields → Text → Value → Fields
  | [], name, v => [(name, v)]
  | (n, w) :: rest, name, v =>
    if n = name then (n, v) :: rest else (n, w) :: put rest name v

theorem get?_put_self (fields : Fields) (name : Text) (v : Value) :
    get? (put fields name v) name = some v := by
  unfold get?
  induction fields with
  | nil => simp [put]
  | cons field fields ih =>
    obtain ⟨n, w⟩ := field
    by_cases hn : n = name
    · simp [put, hn]
    · have hne : (name == n) = false := by simpa using fun h => hn h.symm
      rw [put, if_neg hn, List.lookup_cons, hne]
      exact ih

theorem get?_put_other (fields : Fields) {name other : Text} (v : Value) (h : other ≠ name) :
    get? (put fields name v) other = get? fields other := by
  unfold get?
  have hother : (other == name) = false := by simpa using h
  induction fields with
  | nil => simp [put, List.lookup_cons, hother]
  | cons field fields ih =>
    obtain ⟨n, w⟩ := field
    by_cases hn : n = name
    · subst hn
      rw [put, if_pos rfl, List.lookup_cons, List.lookup_cons, hother]
    · rw [put, if_neg hn, List.lookup_cons, List.lookup_cons, ih]

end Fields

/-- The kind of a value, by the name that messages use. -/
def Value.kindName : Value → Text
  | .null => Text.ofString "NoneType"
  | .bool _ => Text.ofString "bool"
  | .int _ => Text.ofString "int"
  | .float _ => Text.ofString "float"
  | .string _ => Text.ofString "str"
  | .array _ => Text.ofString "list"
  | .object _ => Text.ofString "dict"

end Lectern.Json
