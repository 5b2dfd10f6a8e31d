import TradeFramework.Data.NormalForm

/-!
# DataKey contracts

Runtime DataKey values exclude JSON arrays and open objects: `normalize_data_key_schema`
accepts the schemas that close every object and name a concrete runtime type.
-/

namespace TradeFramework

open Raising (raiseIf)

/-- `_contains_runtime_array`. -/
def containsRuntimeArray : Json → Bool
  | .arr _ => true
  | .obj d => (Dict.items d).attach.any fun e => containsRuntimeArray e.1.2
  | _ => false
termination_by value => sizeOf value
decreasing_by exact Json.sizeOf_lt_obj e.2

/-- `_validate_data_key_schema`. -/
def validateDataKeySchema (schema : Schema) (path : String) : Except PyError Unit :=
  match schema with
  | .never => pure ()
  | .object kw => do
    raiseIf kw.isEmpty
      (.valueError s!"DataKey contract '{path}' may not use the wildcard schema \x7b\x7d.")
    [("anyOf", kw.attach.anyOf), ("oneOf", kw.attach.oneOf), ("allOf", kw.attach.allOf)].forM
      fun entry => (entry.2.getD []).zipIdx.forM fun branch =>
        validateDataKeySchema branch.1.1 s!"{path}.{entry.1}[{branch.2}]"
    raiseIf (.array ∈ kw.declaredTypes ∨ kw.items.isSome) (.valueError <|
      s!"DataKey contract '{path}' may not contain the array runtime type; " ++
        "use a typed object map.")
    raiseIf (kw.declaredTypes = ∅ ∧ kw.anyOf = none ∧ kw.oneOf = none ∧ kw.allOf = none ∧
        kw.const.isNone ∧ kw.enum.isNone)
      (.valueError s!"DataKey contract '{path}' must declare a concrete runtime type.")
    [("const", kw.const.toList), ("enum", kw.enum.getD [])].forM fun entry =>
      raiseIf (entry.2.any containsRuntimeArray)
        (.valueError s!"DataKey contract '{path}.{entry.1}' may not contain array values.")
    if .object ∈ kw.declaredTypes ∨ kw.properties.isSome then
      raiseIf (kw.extra.isNone) (.valueError <|
        s!"DataKey object contract '{path}' must close additionalProperties " ++
          "or declare a concrete value schema.")
      (Dict.items kw.attach.propertyMap).forM fun e => validateDataKeySchema e.2.1 s!"{path}.{e.1}"
      kw.attach.extra.toList.forM fun s => validateDataKeySchema s.1 s!"{path}.*"
    else pure ()
termination_by sizeOf schema
decreasing_by
  · exact Schema.sizeOf_lt_object branch.1.2
  · exact Schema.sizeOf_lt_object e.2.2
  · exact Schema.sizeOf_lt_object s.2

/-- `normalize_data_key_schema`. -/
def normalizeDataKeySchema (value : Json) (path : String) : Except PyError Schema := do
  let schema ← normalizeSchema value
  validateDataKeySchema schema path
  pure schema

lemma normalizeDataKeySchema_eq_ok {value : Json} {path : String} {s : Schema} :
    normalizeDataKeySchema value path = .ok s ↔
      normalizeSchema value = .ok s ∧ validateDataKeySchema s path = .ok () := by
  simp only [normalizeDataKeySchema, Raising.bind_eq_ok, Raising.pure_eq_ok]
  constructor
  · rintro ⟨t, ht, ⟨⟩, hvalid, rfl⟩
    exact ⟨ht, hvalid⟩
  · rintro ⟨hs, hvalid⟩
    exact ⟨s, hs, (), hvalid, rfl⟩

lemma accepts_of_normalizeDataKeySchema {s t : Schema} {path : String}
    (h : normalizeDataKeySchema s.toJson path = .ok t) (v : Json) : s.Accepts v ↔ t.Accepts v :=
  accepts_of_normalizeSchema_toJson (normalizeDataKeySchema_eq_ok.mp h).1 v

/-- A DataKey schema names a concrete runtime type. -/
lemma validateDataKeySchema_concrete {kw : Keywords Schema} {path : String}
    (h : validateDataKeySchema (.object kw) path = .ok ()) :
    ¬(kw.declaredTypes = ∅ ∧ kw.anyOf = none ∧ kw.oneOf = none ∧ kw.allOf = none ∧
      kw.const.isNone ∧ kw.enum.isNone) := by
  rw [validateDataKeySchema] at h
  obtain ⟨⟨⟩, -, h⟩ := Raising.bind_eq_ok.mp h
  obtain ⟨⟨⟩, -, h⟩ := Raising.bind_eq_ok.mp h
  obtain ⟨⟨⟩, -, h⟩ := Raising.bind_eq_ok.mp h
  obtain ⟨⟨⟩, hconcrete, -⟩ := Raising.bind_eq_ok.mp h
  exact Raising.raiseIf_eq_ok.mp hconcrete

end TradeFramework
