import TradeFramework.Contracts.Expansion

/-!
# Conforming Data Dicts

A contract state is a contract map with the set of the roots that must exist. A Data Dict
conforms when every root it holds is declared and validates, and every required root is there.
-/

namespace TradeFramework

/-- `validate_json_value`. -/
def validateJsonValue (value schema : Json) (path : String) : Except PyError Unit := do
  let schema ← normalizeSchema schema
  validateNormalizedJsonValue false value schema path

/-- The validator accepts every present root, and every required root is present. -/
structure Conforms (contracts : Contracts) (requiredRoots : List String) (data : DataDict) :
    Prop where
  roots : ∀ root value, data.lookup root = some value → isPathSegment root = true ∧
    ∃ schema, contracts.lookup root = some schema ∧
      validateNormalizedJsonValue false value schema root = .ok ()
  required : ∀ root ∈ requiredRoots, Dict.has data root = true

lemma conforms_iff {contracts : Contracts} {requiredRoots : List String} {data : DataDict} :
    Conforms contracts requiredRoots data ↔
      (∀ root value, data.lookup root = some value → isPathSegment root = true ∧
        ∃ schema, contracts.lookup root = some schema ∧ schema.Accepts value) ∧
      ∀ root ∈ requiredRoots, Dict.has data root = true := by
  constructor
  · intro h
    refine ⟨fun root value hvalue => ?_, h.required⟩
    obtain ⟨hsegment, schema, hschema, hvalid⟩ := h.roots root value hvalue
    exact ⟨hsegment, schema, hschema, validateNormalizedJsonValue_eq_ok.mp hvalid⟩
  · rintro ⟨hroots, hrequired⟩
    refine ⟨fun root value hvalue => ?_, hrequired⟩
    obtain ⟨hsegment, schema, hschema, haccepts⟩ := hroots root value hvalue
    exact ⟨hsegment, schema, hschema, validateNormalizedJsonValue_eq_ok.mpr haccepts⟩

end TradeFramework
