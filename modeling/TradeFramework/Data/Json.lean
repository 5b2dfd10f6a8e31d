import TradeFramework.Library.Dictionary
import TradeFramework.Library.Related
import Mathlib.Data.Rat.Defs

/-!
# Strict JSON values

A Data Dict holds strict JSON: finite numbers only, and objects whose keys are strings.
Python integers and floats are different runtime types, so `1` and `1.0` are the
different values `int 1` and `num 1`; both carry exact numbers.
-/

namespace TradeFramework

/-- A strict JSON value as the engine holds it at run time. -/
inductive Json
  | null
  | bool (b : Bool)
  | int (n : Int)
  | num (q : Rat)
  | str (s : String)
  | arr (xs : List Json)
  | obj (fields : List (String × Json))
deriving Repr, Inhabited

/-- The runtime type names of the contract language. -/
inductive JsonType
  | null | boolean | object | array | number | integer | string
deriving DecidableEq, Repr

namespace JsonType

def name : JsonType → String
  | null => "null"
  | boolean => "boolean"
  | object => "object"
  | array => "array"
  | number => "number"
  | integer => "integer"
  | string => "string"

/-- The type names in alphabetical order, as `sorted` lists them. -/
def alphabetical : List JsonType := [array, boolean, integer, null, number, object, string]

def ofName (text : String) : Option JsonType := alphabetical.find? fun t => t.name == text

def sorted (types : Finset JsonType) : List JsonType := alphabetical.filter (· ∈ types)

@[simp] lemma ofName_name (t : JsonType) : ofName t.name = some t := by
  cases t <;> decide

end JsonType

/-- `JSON_TYPES`. -/
def jsonTypes : Finset JsonType := {.null, .boolean, .object, .array, .number, .integer, .string}

@[simp] lemma mem_jsonTypes (t : JsonType) : t ∈ jsonTypes := by
  cases t <;> decide

/-- `json_type` on strict JSON. -/
def jsonType : Json → JsonType
  | .null => .null
  | .bool _ => .boolean
  | .int _ => .integer
  | .num _ => .number
  | .str _ => .string
  | .arr _ => .array
  | .obj _ => .object

lemma Json.sizeOf_lt_arr {xs : List Json} {x : Json} (h : x ∈ xs) : sizeOf x < sizeOf (Json.arr xs) := by
  have hmem := List.sizeOf_lt_of_mem h
  simp only [Json.arr.sizeOf_spec]
  omega

lemma Json.sizeOf_lt_obj {d : List (String × Json)} {e : String × Json} (h : e ∈ Dict.items d) :
    sizeOf e.2 < sizeOf (Json.obj d) := by
  have hmem := Dict.sizeOf_mem_lt (Dict.items_subset d h)
  simp only [Json.obj.sizeOf_spec]
  omega

lemma Json.sizeOf_lt_lookup {d : List (String × Json)} {k : String} {x : Json}
    (h : d.lookup k = some x) : sizeOf x < sizeOf (Json.obj d) :=
  Json.sizeOf_lt_obj (e := (k, x)) (Dict.mem_items.mpr h)

/-- `json_values_equal`: equality of literals without numeric coercion. The order of
object members does not matter. -/
def jsonValuesEqual : Json → Json → Bool
  | .null, .null => true
  | .bool a, .bool b => a == b
  | .int a, .int b => a == b
  | .num a, .num b => a == b
  | .str a, .str b => a == b
  | .arr xs, .arr ys =>
    xs.length == ys.length && (xs.attach.zip ys).all fun p => jsonValuesEqual p.1.1 p.2
  | .obj left, .obj right =>
    Dict.sameKeys left right && (Dict.items left).attach.all fun e =>
      match right.lookup e.1.1 with
      | some other => jsonValuesEqual e.1.2 other
      | none => false
  | _, _ => false
termination_by value => sizeOf value
decreasing_by
  · exact Json.sizeOf_lt_arr p.1.2
  · exact Json.sizeOf_lt_obj e.2

/-- `json_value_in`. -/
def jsonValueIn (value : Json) (candidates : List Json) : Bool :=
  candidates.any (jsonValuesEqual value)

/-- Induction over the visible members of a value. -/
theorem Json.visibleInduction {motive : Json → Prop}
    (scalar : ∀ v, (∀ xs, v ≠ .arr xs) → (∀ d, v ≠ .obj d) → motive v)
    (arr : ∀ xs, (∀ x ∈ xs, motive x) → motive (.arr xs))
    (obj : ∀ d, (∀ k x, d.lookup k = some x → motive x) → motive (.obj d)) (v : Json) :
    motive v := by
  induction h : sizeOf v using Nat.strong_induction_on generalizing v with
  | _ n ih =>
    subst h
    cases v with
    | arr xs => exact arr xs fun x hx => ih _ (Json.sizeOf_lt_arr hx) x rfl
    | obj d => exact obj d fun k x hx => ih _ (Json.sizeOf_lt_obj (Dict.mem_items.mpr hx)) x rfl
    | _ => exact scalar _ (by simp) (by simp)

section Equality

lemma jsonValuesEqual_arr {xs ys : List Json} :
    jsonValuesEqual (.arr xs) (.arr ys) = true ↔
      List.Forall₂ (fun a b => jsonValuesEqual a b = true) xs ys := by
  rw [jsonValuesEqual, List.forall₂_iff_zip]
  simp only [Bool.and_eq_true, beq_iff_eq, List.all_eq_true]
  refine and_congr_right fun _ => ?_
  have hmap : xs.zip ys = (xs.attach.zip ys).map (fun p => (p.1.1, p.2)) := by
    rw [show (fun p : {x // x ∈ xs} × Json => (p.1.1, p.2)) = Prod.map Subtype.val id from rfl,
      ← List.zip_map, List.attach_map_subtype_val, List.map_id]
  rw [hmap]
  constructor
  · intro h a b hab
    obtain ⟨p, hp, heq⟩ := List.mem_map.mp hab
    cases heq
    exact h p hp
  · intro h p hp
    exact h (List.mem_map.mpr ⟨p, hp, rfl⟩)

lemma jsonValuesEqual_obj {left right : List (String × Json)} :
    jsonValuesEqual (.obj left) (.obj right) = true ↔
      ∀ k, Option.Rel (fun a b => jsonValuesEqual a b = true) (left.lookup k) (right.lookup k) := by
  rw [jsonValuesEqual, Bool.and_eq_true, Dict.sameKeys_iff, List.all_eq_true]
  constructor
  · rintro ⟨hkeys, hvalues⟩ k
    have hk := hkeys k
    cases hl : left.lookup k with
    | none =>
      rw [hl] at hk
      have hr : right.lookup k = none := by simpa using hk.symm
      rw [hr]
      exact .none
    | some a =>
      rw [hl] at hk
      obtain ⟨b, hb⟩ := Option.isSome_iff_exists.mp hk.symm
      have hab := hvalues ⟨(k, a), Dict.mem_items.mpr hl⟩ (List.mem_attach _ _)
      simp only [hb] at hab
      rw [hb]
      exact .some hab
  · intro h
    constructor
    · intro k
      have hk := h k
      revert hk
      generalize left.lookup k = l
      generalize right.lookup k = r
      rintro (_ | _) <;> rfl
    · rintro ⟨⟨k, a⟩, hmem⟩ -
      have hk := h k
      rw [Dict.mem_items.mp hmem] at hk
      cases hr : right.lookup k with
      | none => rw [hr] at hk; cases hk
      | some b =>
        rw [hr] at hk
        cases hk with
        | some hab => exact hab

lemma jsonType_eq_of_equal {a b : Json} (h : jsonValuesEqual a b = true) :
    jsonType a = jsonType b := by
  cases a <;> cases b <;> simp_all [jsonValuesEqual, jsonType]

/-- A value equal to an array is an array. -/
lemma eq_arr_of_equal {xs : List Json} {b : Json} (h : jsonValuesEqual (.arr xs) b = true) :
    ∃ ys, b = .arr ys := by
  cases b <;> simp_all [jsonValuesEqual]

/-- A value equal to an object is an object. -/
lemma eq_obj_of_equal {d : List (String × Json)} {b : Json}
    (h : jsonValuesEqual (.obj d) b = true) : ∃ e, b = .obj e := by
  cases b <;> simp_all [jsonValuesEqual]

/-- Off arrays and objects, equal values are the same value. -/
lemma eq_of_equal_scalar {a b : Json} (harr : ∀ xs, a ≠ .arr xs) (hobj : ∀ d, a ≠ .obj d)
    (h : jsonValuesEqual a b = true) : a = b := by
  cases a <;> cases b <;> simp_all [jsonValuesEqual]

@[simp] lemma jsonValuesEqual_refl (a : Json) : jsonValuesEqual a a = true := by
  induction a using Json.visibleInduction with
  | scalar v harr hobj => cases v <;> simp_all [jsonValuesEqual]
  | arr xs ih => exact jsonValuesEqual_arr.mpr (List.forall₂_same.mpr ih)
  | obj d ih =>
    refine jsonValuesEqual_obj.mpr fun k => ?_
    cases hk : d.lookup k with
    | none => exact .none
    | some x => exact .some (ih k x hk)

lemma jsonValuesEqual_symm {a b : Json} (h : jsonValuesEqual a b = true) :
    jsonValuesEqual b a = true := by
  induction a using Json.visibleInduction generalizing b with
  | scalar v harr hobj => rw [← eq_of_equal_scalar harr hobj h, jsonValuesEqual_refl]
  | arr xs ih =>
    obtain ⟨ys, rfl⟩ := eq_arr_of_equal h
    have hall := jsonValuesEqual_arr.mp h
    refine jsonValuesEqual_arr.mpr (List.Forall₂.flip ?_)
    clear h
    induction hall with
    | nil => exact .nil
    | cons hab _ ihrest =>
      exact .cons (ih _ (by simp) hab) (ihrest fun x hx => ih x (by simp [hx]))
  | obj d ih =>
    obtain ⟨e, rfl⟩ := eq_obj_of_equal h
    refine jsonValuesEqual_obj.mpr fun k => ?_
    have hk := jsonValuesEqual_obj.mp h k
    cases hd : d.lookup k with
    | none =>
      rw [hd] at hk
      generalize e.lookup k = o at hk
      cases hk
      exact .none
    | some x =>
      rw [hd] at hk
      generalize e.lookup k = o at hk
      cases hk with
      | some hxy => exact .some (ih k x hd hxy)

lemma jsonValuesEqual_trans {a b c : Json} (hab : jsonValuesEqual a b = true)
    (hbc : jsonValuesEqual b c = true) : jsonValuesEqual a c = true := by
  induction a using Json.visibleInduction generalizing b c with
  | scalar v harr hobj => rwa [eq_of_equal_scalar harr hobj hab]
  | arr xs ih =>
    obtain ⟨ys, rfl⟩ := eq_arr_of_equal hab
    obtain ⟨zs, rfl⟩ := eq_arr_of_equal hbc
    have hxy := jsonValuesEqual_arr.mp hab
    have hyz := jsonValuesEqual_arr.mp hbc
    refine jsonValuesEqual_arr.mpr ?_
    clear hab hbc
    induction hxy generalizing zs with
    | nil => exact hyz
    | cons hx _ ihrest =>
      cases hyz with
      | cons hy hrest =>
        exact .cons (ih _ (by simp) hx hy) (ihrest (fun x hx => ih x (by simp [hx])) _ hrest)
  | obj d ih =>
    obtain ⟨e, rfl⟩ := eq_obj_of_equal hab
    obtain ⟨f, rfl⟩ := eq_obj_of_equal hbc
    refine jsonValuesEqual_obj.mpr fun k => ?_
    have hde := jsonValuesEqual_obj.mp hab k
    have hef := jsonValuesEqual_obj.mp hbc k
    cases hd : d.lookup k with
    | none =>
      rw [hd] at hde
      generalize e.lookup k = o at hde hef
      cases hde
      exact hef
    | some x =>
      rw [hd] at hde
      generalize e.lookup k = o at hde hef
      cases hde with
      | some hxy =>
        generalize f.lookup k = p at hef
        cases hef with
        | some hyz => exact .some (ih k x hd hxy hyz)

lemma jsonValuesEqual_comm (a b : Json) : jsonValuesEqual a b = jsonValuesEqual b a :=
  Bool.eq_iff_iff.mpr ⟨jsonValuesEqual_symm, jsonValuesEqual_symm⟩

/-- Equal values are interchangeable on the left of a comparison. -/
lemma jsonValuesEqual_congr_left {a b : Json} (h : jsonValuesEqual a b = true) (c : Json) :
    jsonValuesEqual a c = jsonValuesEqual b c :=
  Bool.eq_iff_iff.mpr
    ⟨jsonValuesEqual_trans (jsonValuesEqual_symm h), jsonValuesEqual_trans h⟩

lemma jsonValueIn_iff {value : Json} {candidates : List Json} :
    jsonValueIn value candidates = true ↔ ∃ c ∈ candidates, jsonValuesEqual value c = true := by
  simp [jsonValueIn]

lemma jsonValueIn_congr {a b : Json} (h : jsonValuesEqual a b = true) (candidates : List Json) :
    jsonValueIn a candidates = jsonValueIn b candidates := by
  simp only [jsonValueIn, funext (jsonValuesEqual_congr_left h)]

example : jsonValuesEqual (.obj [("a", .int 1), ("b", .null)])
    (.obj [("b", .null), ("a", .int 1)]) = true := by
  decide +kernel

end Equality

end TradeFramework
