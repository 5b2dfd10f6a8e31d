import TradeFramework.Data.CompiledValidation
import TradeFramework.Data.Encoding
import Mathlib.Data.List.Sort
import Mathlib.Data.String.Basic

/-!
# Schema normalization

`normalize_schema` reads a JSON document into a canonical schema or rejects it.
-/

namespace TradeFramework

open Raising (raiseIf)

/-- `_SCHEMA_KEYS`. -/
def schemaKeys : List String :=
  ["type", "properties", "required", "additionalProperties", "items", "enum", "const", "anyOf",
    "oneOf", "allOf", "title", "description", "default"]

/-- Python's `sorted` on strings. -/
def sortedStrings (names : List String) : List String := names.insertionSort (· ≤ ·)

/-- One entry of a `type` list: `none` when it names no JSON type. -/
def readTypeName : Json → Except PyError (Option JsonType)
  | .str name => pure (JsonType.ofName name)
  | .arr _ => throw (.typeError "unhashable type: 'list'")
  | .obj _ => throw (.typeError "unhashable type: 'dict'")
  | _ => pure none

/-- A list keyword whose value is not a list. -/
def asEntries (malformed : PyError) : Json → Except PyError (List Json)
  | .arr entries => pure entries
  | _ => throw malformed

def typeMalformed : PyError := .valueError <| "JSON Schema 'type' must contain only: " ++
  ", ".intercalate (JsonType.alphabetical.map JsonType.name)

/-- A scalar `type` is a list of one. -/
def listedTypes : Json → Json
  | .str name => .arr [.str name]
  | raw => raw

/-- The `type` keyword. -/
def readTypes (raw : Json) : Except PyError (List JsonType) := do
  let entries ← asEntries typeMalformed (listedTypes raw)
  raiseIf (entries.isEmpty) typeMalformed
  let types ← entries.mapM fun entry => do
    (← readTypeName entry).elim (throw typeMalformed) pure
  raiseIf (¬types.Nodup) (.valueError "JSON Schema 'type' contains duplicate entries.")
  pure types

def requiredMalformed : PyError :=
  .valueError "JSON Schema 'required' must be an array of property names."

def asName : Json → Except PyError String
  | .str name => pure name
  | _ => throw requiredMalformed

/-- The `required` keyword. -/
def readRequired (raw : Json) : Except PyError (List String) := do
  let entries ← asEntries requiredMalformed raw
  let names ← entries.mapM asName
  raiseIf (¬names.Nodup) (.valueError "JSON Schema 'required' contains duplicate property names.")
  pure names

/-- The `enum` keyword; its values are compared with the earlier ones. -/
def readEnum (raw : Json) : Except PyError (List Json) := do
  let malformed : PyError := .valueError "JSON Schema 'enum' must be a non-empty array."
  let values ← asEntries malformed raw
  raiseIf values.isEmpty malformed
  raiseIf (¬values.Pairwise fun prior value => ¬jsonValuesEqual value prior = true)
    (.valueError "JSON Schema 'enum' values must be unique.")
  pure values

/-- Every literal of a schema object must conform to the object. -/
def checkLiterals (kw : Keywords Schema) : Except PyError Unit :=
  [("const", kw.const.toList), ("enum", kw.enum.getD [])].forM fun entry =>
    entry.2.forM fun literal =>
      raiseIf (compiledValidationFailure literal
          (compileValidationPlan (.object kw) false)).isSome
        (.valueError s!"JSON Schema '{entry.1}' contains a value outside its declared schema.")

/-- The JSON values smaller than `n`, the documents a recursion of depth `n` can read. -/
abbrev JsonBelow (n : ℕ) := {v : Json // sizeOf v < n}

def readMember (members : List (String × Json)) (keyword : String) :
    Option (JsonBelow (sizeOf (Json.obj members))) :=
  match h : members.lookup keyword with
  | none => none
  | some v => some ⟨v, Json.sizeOf_lt_lookup h⟩

lemma readMember_map_val (members : List (String × Json)) (keyword : String) :
    (readMember members keyword).map Subtype.val = members.lookup keyword := by
  unfold readMember
  split
  case h_1 h => simp [h]
  case h_2 v h => simp [h]

section Readers

variable {n : ℕ} (normalize : JsonBelow n → Except PyError Schema)

/-- The `properties` keyword. -/
def readProperties (declared : Finset JsonType) (raw : JsonBelow n) :
    Except PyError (List (String × Schema)) :=
  match raw with
  | ⟨.obj properties, h⟩ => do
    let children ← (Dict.items properties).attach.mapM fun e => do
      pure (e.1.1, ← normalize ⟨e.1.2, (Json.sizeOf_lt_obj e.2).trans h⟩)
    raiseIf (declared ≠ ∅ ∧ .object ∉ declared)
      (.valueError "A schema with 'properties' must allow the object type.")
    pure children
  | _ => throw (.valueError "JSON Schema 'properties' must be an object.")

/-- The `additionalProperties` keyword, where `True` stays `True`. -/
def readAdditional (raw : JsonBelow n) : Except PyError (Option Schema) :=
  match raw.1 with
  | .bool true => pure none
  | _ => some <$> normalize raw

/-- The `items` keyword. -/
def readItems (declared : Finset JsonType) (raw : JsonBelow n) : Except PyError Schema := do
  let item ← normalize raw
  raiseIf (declared ≠ ∅ ∧ .array ∉ declared)
    (.valueError "A schema with 'items' must allow the array type.")
  pure item

/-- One of the composition keywords. -/
def readBranches (keyword : String) (raw : JsonBelow n) : Except PyError (List Schema) :=
  match raw with
  | ⟨.arr (b :: bs), h⟩ =>
    (b :: bs).attach.mapM fun branch => normalize ⟨branch.1, (Json.sizeOf_lt_arr branch.2).trans h⟩
  | _ => throw (.valueError s!"JSON Schema '{keyword}' must be a non-empty array.")

end Readers

/-- `normalize_schema`. -/
def normalizeSchema (value : Json) : Except PyError Schema :=
  match value with
  | .bool true => pure .wildcard
  | .bool false => pure .never
  | .obj members => do
    let unknown := (Dict.keys members).filter fun keyword => keyword ∉ schemaKeys
    raiseIf (unknown ≠ []) (.valueError <|
      "Unsupported JSON Schema keyword(s): " ++ ", ".intercalate (sortedStrings unknown))
    let normalize := fun v : JsonBelow (sizeOf (Json.obj members)) => normalizeSchema v.1
    let types ← (members.lookup "type").mapM readTypes
    let declared := (types.getD []).toFinset
    let properties ← (readMember members "properties").mapM (readProperties normalize declared)
    let required ← (members.lookup "required").mapM readRequired
    let additional ← (readMember members "additionalProperties").mapM (readAdditional normalize)
    let items ← (readMember members "items").mapM (readItems normalize declared)
    let anyOf ← (readMember members "anyOf").mapM (readBranches normalize "anyOf")
    let oneOf ← (readMember members "oneOf").mapM (readBranches normalize "oneOf")
    let allOf ← (readMember members "allOf").mapM (readBranches normalize "allOf")
    let enum ← (members.lookup "enum").mapM readEnum
    let kw : Keywords Schema := {
      type := types
      properties := properties
      required := required
      additionalProperties := additional
      items := items
      enum := enum
      const := members.lookup "const"
      anyOf := anyOf
      oneOf := oneOf
      allOf := allOf
      title := members.lookup "title"
      description := members.lookup "description"
      default := members.lookup "default" }
    checkLiterals kw
    pure (.object kw)
  | _ => throw (.valueError <| "A data contract must be a JSON Schema object; " ++
      "string type aliases are forbidden.")
termination_by sizeOf value
decreasing_by exact v.2

end TradeFramework
