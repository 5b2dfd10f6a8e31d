import TradeFramework.Data.Json

/-!
# Python values

A validator is also handed what is no strict JSON: floats that are not finite, dicts with keys that
are no strings, and objects of any other type.
-/

namespace TradeFramework

/-- A key of a dict. -/
inductive DictKey
  | text (name : String)
  | other (identity : ℕ)
deriving DecidableEq, Repr

/-- A Python value as a validator meets it. The floats that are not finite are named as Python prints
them, and an object of another type by its identity. -/
inductive PythonValue
  | null
  | bool (b : Bool)
  | int (n : Int)
  | float (q : Rat)
  | nonFinite (name : String)
  | str (s : String)
  | list (xs : List PythonValue)
  | dict (entries : List (DictKey × PythonValue))
  | object (identity : ℕ)
deriving Repr, Inhabited

namespace PythonValue

/-- `json_type` of a value whose floats are finite; `none` stands for "non-json" and for the floats
that are not finite, which every validator rejects with it. -/
def runtimeType : PythonValue → Option JsonType
  | null => some .null
  | bool _ => some .boolean
  | int _ => some .integer
  | float _ => some .number
  | str _ => some .string
  | list _ => some .array
  | dict _ => some .object
  | nonFinite _ | object _ => none

lemma sizeOf_lt_list {xs : List PythonValue} {x : PythonValue} (h : x ∈ xs) :
    sizeOf x < sizeOf (list xs) := by
  have hmem := List.sizeOf_lt_of_mem h
  simp only [list.sizeOf_spec]
  omega

lemma sizeOf_lt_dict {entries : List (DictKey × PythonValue)} {e : DictKey × PythonValue}
    (h : e ∈ Dict.items entries) : sizeOf e.2 < sizeOf (dict entries) := by
  have hmem := Dict.sizeOf_mem_lt (Dict.items_subset entries h)
  simp only [dict.sizeOf_spec]
  omega

/-- Induction over the visible members of a value. -/
theorem visibleInduction {motive : PythonValue → Prop}
    (scalar : ∀ v, (∀ xs, v ≠ list xs) → (∀ d, v ≠ dict d) → motive v)
    (list : ∀ xs, (∀ x ∈ xs, motive x) → motive (list xs))
    (dict : ∀ d, (∀ e ∈ Dict.items d, motive e.2) → motive (dict d)) (v : PythonValue) :
    motive v := by
  induction h : sizeOf v using Nat.strong_induction_on generalizing v with
  | _ n ih =>
    subst h
    cases v with
    | list xs => exact list xs fun x hx => ih _ (sizeOf_lt_list hx) x rfl
    | dict d => exact dict d fun e he => ih _ (sizeOf_lt_dict he) e.2 rfl
    | _ => exact scalar _ (by simp) (by simp)

/-- `json_values_equal`. -/
def valuesEqual : PythonValue → PythonValue → Bool
  | null, null => true
  | bool a, bool b => a == b
  | int a, int b => a == b
  | float a, float b => a == b
  | nonFinite a, nonFinite b => a == b && a != "nan"
  | str a, str b => a == b
  | object a, object b => a == b
  | list xs, list ys =>
    xs.length == ys.length && (xs.attach.zip ys).all fun p => valuesEqual p.1.1 p.2
  | dict left, dict right =>
    Dict.sameKeys left right && (Dict.items left).attach.all fun e =>
      match right.lookup e.1.1 with
      | some other => valuesEqual e.1.2 other
      | none => false
  | _, _ => false
termination_by value => sizeOf value
decreasing_by
  · exact sizeOf_lt_list p.1.2
  · exact sizeOf_lt_dict e.2

/-- `json_value_in`. -/
def valueIn (value : PythonValue) (candidates : List PythonValue) : Bool :=
  candidates.any (valuesEqual value)

/-- `isolate_json_value`. Strings, numbers and `None` are shared, and other objects are copied. -/
def isolateJsonValue : PythonValue → PythonValue
  | dict entries => dict ((Dict.items entries).attach.map fun e => (e.1.1, isolateJsonValue e.1.2))
  | list xs => list (xs.attach.map fun x => isolateJsonValue x.1)
  | value => value
termination_by value => sizeOf value
decreasing_by
  · exact sizeOf_lt_dict e.2
  · exact sizeOf_lt_list x.2

end PythonValue

/-- A strict JSON value as the Python value it is. -/
def Json.toPython : Json → PythonValue
  | .null => .null
  | .bool b => .bool b
  | .int n => .int n
  | .num q => .float q
  | .str s => .str s
  | .arr xs => .list (xs.attach.map fun x => x.1.toPython)
  | .obj d => .dict ((Dict.items d).attach.map fun e => (.text e.1.1, e.1.2.toPython))
termination_by value => sizeOf value
decreasing_by
  · exact Json.sizeOf_lt_arr x.2
  · exact Json.sizeOf_lt_obj e.2

namespace PythonValue

end PythonValue

end TradeFramework
