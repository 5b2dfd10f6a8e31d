import TradeFramework.Data.Json

/-!
# Python equality

`==` on JSON values, which compares numbers across their types.
-/

namespace TradeFramework

/-- The number a value stands for: booleans count as integers. -/
def numericValue : Json → Option ℚ
  | .bool b => some (if b then 1 else 0)
  | .int n => some n
  | .num q => some q
  | _ => none

/-- `==`. -/
def pythonEqual : Json → Json → Bool
  | .arr xs, .arr ys => xs.length == ys.length && (xs.attach.zip ys).all fun p => pythonEqual p.1.1 p.2
  | .obj left, .obj right =>
    Dict.sameKeys left right && (Dict.items left).attach.all fun e =>
      match right.lookup e.1.1 with
      | some other => pythonEqual e.1.2 other
      | none => false
  | left, right =>
    match numericValue left, numericValue right with
    | some a, some b => a == b
    | none, none => jsonValuesEqual left right
    | _, _ => false
termination_by value => sizeOf value
decreasing_by
  · exact Json.sizeOf_lt_arr p.1.2
  · exact Json.sizeOf_lt_obj e.2

end TradeFramework
