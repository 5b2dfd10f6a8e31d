import TradeFramework.Contracts.Nesting
import TradeFramework.Data.DataPath
import Mathlib.Algebra.GroupWithZero.Nat

/-!
# Contract expansion

`expand_contracts` rebuilds the object tree of a contract map from its dotted paths, merges
every declared descendant into its declared ancestors and lists every named child of the
result again under its own path.
-/

namespace TradeFramework

open Raising (raiseIf)

/-- A contract map from DataKeys to schemas. -/
abbrev Contracts := List (String × Schema)

section Merge

/-- `normalize_schema` on a normalized schema, which deepens nothing. -/
def renormalizeSchema (s : Schema) : Except PyError {t : Schema // t.nesting ≤ s.nesting} :=
  match h : normalizeSchema s.toJson with
  | .ok t => pure ⟨t, nesting_normalizeSchema_le h⟩
  | .error e => throw e

/-- The keywords that `merge_object_schemas` copies, in sorted order. -/
def copiedKeywords : List String :=
  ["allOf", "anyOf", "const", "default", "description", "enum", "items", "oneOf", "title"]

/-- Two keyword values that are both present and differ. -/
def keywordsConflict (left right : Keywords Schema) (keyword : String) : Bool :=
  match left.members.lookup keyword, right.members.lookup keyword with
  | some a, some b => !jsonValuesEqual a b
  | _, _ => false

/-- The comparison of two schemas both ways. -/
def equivalentSchemas (left right : Schema) : Except PyError Bool :=
  normalizedSchemasCompatible left right <&&> normalizedSchemasCompatible right left

/-- Whether a schema admits objects by its type. -/
def admitsObjects (s : Schema) : Bool := decide (.object ∈ normalizedSchemaTypes s)

/-- A typed map must agree with every property the other side names. -/
def checkTypedMap (path : String) (properties : List (String × Schema)) (extra : Option Schema) :
    Except PyError Unit :=
  match extra with
  | some (.object kw) => (Dict.items properties).forM fun e => do
      let agree ← equivalentSchemas e.2 (.object kw)
      raiseIf (¬agree) (.valueError s!"DataKey '{path}.{e.1}' has conflicting schemas.")
  | _ => pure ()

lemma mem_descents_of_lookup {kw : Keywords Schema} {name : String} {s : Schema}
    (h : kw.propertyMap.lookup name = some s) : s ∈ kw.descents := by
  have hmem := List.mem_map_of_mem (f := Prod.snd) (Dict.lookup_mem h)
  simp [Keywords.descents, hmem]

lemma mem_descents_of_extra {kw : Keywords Schema} {s : Schema} (h : kw.extra = some s) :
    s ∈ kw.descents := by
  simp [Keywords.descents, h]

section Members

variable {n : ℕ} (merge : {s : Schema // s.nesting < n} → Schema → String → Except PyError Schema)

/-- One property of the right side, against the property of that name on the left. -/
def mergeProperty (path : String) (own : Option {s : Schema // s.nesting < n}) (child : Schema) :
    Except PyError Schema :=
  match own with
  | none => pure child
  | some own =>
    if schemaValuesEqual own.1 child then pure child
    else if admitsObjects own.1 && admitsObjects child then merge own child path
    else do
      raiseIf (¬(← equivalentSchemas own.1 child))
        (.valueError s!"DataKey '{path}' has conflicting schemas.")
      pure own.1

/-- The `additionalProperties` of both sides. -/
def mergeExtra (path : String) (left : Option {s : Schema // s.nesting < n})
    (right : Option Schema) : Except PyError (Option Schema) :=
  match left, right with
  | none, _ | _, none => pure none
  | some ⟨.never, _⟩, some right => pure (some right)
  | some left, some .never => pure (some left.1)
  | some left, some right =>
    if schemaValuesEqual left.1 right then pure (some left.1)
    else if admitsObjects left.1 && admitsObjects right then some <$> merge left right path
    else throw (.valueError s!"DataKey '{path}' has conflicting schemas.")

end Members

/-- `merge_object_schemas`. -/
def mergeObjectSchemas (left right : Schema) (path : String) : Except PyError Schema := do
  match ← renormalizeSchema left, ← renormalizeSchema right with
  | ⟨.object l, hl⟩, ⟨.object r, _⟩ =>
    raiseIf (¬l.isEmpty ∧ .object ∉ l.schemaTypes)
      (.valueError s!"DataKey parent '{path}' is not an object.")
    raiseIf (¬r.isEmpty ∧ .object ∉ r.schemaTypes)
      (.valueError s!"DataKey parent '{path}' is not an object.")
    copiedKeywords.forM fun keyword => raiseIf (keywordsConflict l r keyword)
      (.valueError s!"DataKey '{path}' has conflicting object keyword '{keyword}'.")
    let merge := fun (s : {s : Schema // s.nesting < left.nesting}) => mergeObjectSchemas s.1
    let below : ∀ s ∈ l.descents, s.nesting < left.nesting := fun s hs =>
      (Keywords.nesting_descent_lt hs).trans_le hl
    let changed ← (Dict.items r.propertyMap).mapM fun e => do
      let own := (l.propertyMap.lookup e.1).pmap Subtype.mk fun s hs =>
        below s (mem_descents_of_lookup hs)
      pure (e.1, ← mergeProperty merge s!"{path}.{e.1}" own e.2)
    checkTypedMap path l.propertyMap r.extra
    checkTypedMap path r.propertyMap l.extra
    let lextra := l.extra.pmap Subtype.mk fun s hs => below s (mem_descents_of_extra hs)
    let extra ← mergeExtra merge s!"{path}.*" lextra r.extra
    normalizeSchema (Schema.object {
      type := some (JsonType.sorted (l.schemaTypes ∪ r.schemaTypes))
      properties := some (changed.foldl (fun d e => Dict.set d e.1 e.2) (Dict.items l.propertyMap))
      required := some (sortedStrings (l.requiredNames ++ r.requiredNames).dedup)
      additionalProperties := some extra
      items := l.items.or r.items
      enum := l.enum.or r.enum
      const := l.const.or r.const
      anyOf := l.anyOf.or r.anyOf
      oneOf := l.oneOf.or r.oneOf
      allOf := l.allOf.or r.allOf
      title := l.title.or r.title
      description := l.description.or r.description
      default := l.default.or r.default }).toJson
  | _, _ => throw (.valueError s!"DataKey '{path}' has conflicting schemas.")
termination_by left.nesting
decreasing_by exact s.2

end Merge

section Tree

/-- The declarations below one child of a tree node. -/
def entriesBelow {α : Type} (entries : List (List String × α)) (name : String) :
    List (List String × α) :=
  entries.filterMap fun
    | (first :: rest, value) => if first = name then some (rest, value) else none
    | _ => none

/-- The children of a tree node, in the order of their first declaration. -/
def childNames {α : Type} (entries : List (List String × α)) : List String :=
  Dict.keys (entries.filterMap fun e => e.1.head?.map fun name => (name, ()))

/-- The number of segments declared below a tree node. -/
def treeSize {α : Type} (entries : List (List String × α)) : ℕ :=
  (entries.map fun e => e.1.length).sum

section TreeSize

variable {α : Type} {entries : List (List String × α)} {name : String}

lemma mem_childNames : name ∈ childNames entries ↔ ∃ rest value, (name :: rest, value) ∈ entries := by
  rw [childNames, Dict.mem_keys, Dict.lookup_isSome_iff]
  constructor
  · rintro ⟨⟨⟩, h⟩
    obtain ⟨⟨parts, value⟩, he, hhead⟩ := List.mem_filterMap.mp h
    cases parts with
    | nil => simp at hhead
    | cons first rest =>
      have hname : first = name := by simpa using hhead
      exact ⟨rest, value, hname ▸ he⟩
  · rintro ⟨rest, value, he⟩
    exact ⟨(), List.mem_filterMap.mpr ⟨_, he, by simp⟩⟩

lemma mem_entriesBelow {rest : List String} {value : α} :
    (rest, value) ∈ entriesBelow entries name ↔ (name :: rest, value) ∈ entries := by
  rw [entriesBelow, List.mem_filterMap]
  constructor
  · rintro ⟨⟨parts, other⟩, he, hsome⟩
    cases parts with
    | nil => simp at hsome
    | cons first tail =>
      dsimp only at hsome
      split_ifs at hsome with hfirst
      cases hsome
      exact hfirst ▸ he
  · intro he
    exact ⟨_, he, by simp⟩

lemma entriesBelow_cons (e : List String × α) (entries : List (List String × α)) (name : String) :
    treeSize (entriesBelow (e :: entries) name) ≤
        e.1.length - 1 + treeSize (entriesBelow entries name) := by
  rcases e with ⟨_ | ⟨first, rest⟩, value⟩
  · simp [entriesBelow]
  · by_cases hfirst : first = name <;> simp [entriesBelow, treeSize, hfirst]

lemma treeSize_cons (e : List String × α) (entries : List (List String × α)) :
    treeSize (e :: entries) = e.1.length + treeSize entries := by
  simp [treeSize]

/-- A child of a tree node declares fewer segments. -/
lemma treeSize_entriesBelow_lt (h : name ∈ childNames entries) :
    treeSize (entriesBelow entries name) < treeSize entries := by
  have hle : ∀ entries : List (List String × α),
      treeSize (entriesBelow entries name) ≤ treeSize entries := by
    intro entries
    induction entries with
    | nil => rfl
    | cons e entries ih =>
      have hcons := entriesBelow_cons e entries name
      rw [treeSize_cons]
      omega
  obtain ⟨rest, value, hmem⟩ := mem_childNames.mp h
  clear h
  induction entries with
  | nil => cases hmem
  | cons e entries ih =>
    have hcons := entriesBelow_cons e entries name
    have hrest := hle entries
    rw [treeSize_cons]
    rcases List.mem_cons.mp hmem with rfl | hmem
    · simp only [List.length_cons] at hcons ⊢
      omega
    · have hlt := ih hmem
      omega

end TreeSize

/-- The properties a schema lists. -/
def listedProperties (own : Option Schema) : List (String × Schema) :=
  match own with
  | some (.object kw) => kw.propertyMap
  | _ => []

/-- Whether a child of a tree node adds something to the declaration of the node. -/
def isIndependent (own : Option Schema) (path : String) (child : String × Schema) :
    Except PyError Bool :=
  if ((listedProperties own).lookup child.1).any fun s => schemaValuesEqual s child.2 then pure false
  else match own with
    | none => pure true
    | some own => do
      let resolved ← schemaChildSchema own child.1 s!"{path}.{child.1}"
      pure (!(!resolved.isNever && schemaValuesEqual resolved child.2))

/-- The declaration of a tree node with its independent children merged in. -/
def withChildren (own : Option Schema) (independent : List (String × Schema)) (path : String) :
    Except PyError Schema :=
  let childSchema := objectSchema independent
    (sortedStrings ((Dict.keys independent).filter fun name =>
      !Dict.has (listedProperties own) name)) (some .never)
  if independent = [] then pure (own.getD .wildcard)
  else match own with
    | none => pure childSchema
    | some own => mergeObjectSchemas own childSchema path

/-- `build`: the schema of a tree node, from the declarations at and below it. -/
def buildSchema (entries : List (List String × Schema)) (parts : List String) :
    Except PyError Schema := do
  let own := Dict.get entries []
  let path := joinPath parts
  let children ← (childNames entries).attach.mapM fun name => do
    pure (name.1, ← buildSchema (entriesBelow entries name.1) (parts ++ [name.1]))
  let independent ← children.filterM (isIndependent own path)
  let merged ← withChildren own independent path
  normalizeDataKeySchema merged.toJson path
termination_by treeSize entries
decreasing_by exact treeSize_entriesBelow_lt name.2

end Tree

section Expand

/-- One declaration of a contract map. -/
def declareContract (explicit : List (List String × Schema)) (entry : String × Json) :
    Except PyError (List (List String × Schema)) := do
  let path ← splitDataPath entry.1
  let normalized ← normalizeDataKeySchema entry.2 entry.1
  raiseIf ((Dict.get explicit path.parts).any fun previous => !schemaValuesEqual previous normalized)
    (.valueError s!"DataKey '{entry.1}' has duplicate conflicting schemas.")
  pure (Dict.set explicit path.parts normalized)

/-- A schema emitted for a path that was emitted before. -/
def reconcileSchema (existing : Option Schema) (normalized : Schema) (path : String) :
    Except PyError Schema :=
  match existing with
  | none => pure normalized
  | some existing =>
    if schemaValuesEqual existing normalized then pure normalized
    else if admitsObjects existing && admitsObjects normalized then
      mergeObjectSchemas existing normalized path
    else throw (.valueError s!"DataKey '{path}' has conflicting schemas.")

/-- `emit`, where `depth` bounds the depth of the recursion. -/
def emitSchema (depth : ℕ) (expanded : Contracts) (path : String) (schema : Schema) :
    Except PyError Contracts :=
  match depth with
  | 0 => throw (.recursionError "maximum recursion depth exceeded")
  | depth + 1 => do
    let normalized ← normalizeDataKeySchema schema.toJson path
    let normalized ← reconcileSchema (expanded.lookup path) normalized path
    (sortedStrings (schemaExplicitChildNames normalized).dedup).foldlM (fun expanded name => do
      let child ← schemaChildSchema normalized name path
      if child.isNever then pure expanded
      else emitSchema depth expanded s!"{path}.{name}" child) (Dict.set expanded path normalized)

/-- The longest member name in a literal. -/
def Json.longestName : Json → ℕ
  | .obj d => ((Dict.items d).attach.map fun e => max e.1.1.length (Json.longestName e.1.2)).foldr max 0
  | _ => 0
termination_by value => sizeOf value
decreasing_by exact Json.sizeOf_lt_obj e.2

/-- The longest property name in a schema. -/
def Schema.longestName : Schema → ℕ := Schema.fold 0 fun kw =>
  ((Dict.keys kw.propertyMap).map String.length ++ kw.children ++
    kw.listedLiterals.map Json.longestName).foldr max 0

/-- A bound on the depth of `emit`: every call lengthens the path, and only by names of the schema. -/
def emitDepth (schema : Schema) : ℕ := schema.nesting * (schema.longestName + 1) + 1

/-- `expand_contracts`. -/
def expandContracts (contracts : List (String × Json)) : Except PyError Contracts := do
  let explicit ← (Dict.items contracts).foldlM declareContract []
  let roots ← (childNames explicit).mapM fun name => do
    pure (name, ← buildSchema (entriesBelow explicit name) [name])
  roots.foldlM (fun expanded root => emitSchema (emitDepth root.2) expanded root.1 root.2) []

/-- The documents of a contract map, which is what a caller passes on. -/
def Contracts.toDocuments (contracts : Contracts) : List (String × Json) :=
  Dict.mapValues (fun _ s => s.toJson) contracts

end Expand

section Resolve

/-- The schema below `schema` along `segments`, with the segments already walked. -/
def resolveSegments (walked : List String) (schema : Schema) : List String → Except PyError Schema
  | [] => pure schema
  | segment :: rest => do
    let child ← schemaChildSchema schema segment (joinPath walked)
    if child.isNever then pure .never else resolveSegments (walked ++ [segment]) child rest

/-- `resolve_expanded_contract_path`; `none` is the default. -/
def resolveExpandedContractPath (expanded : Contracts) (path : String) :
    Except PyError (Option Schema) := do
  let parts ← splitDataPath path
  match expanded.lookup parts.root with
  | none => pure none
  | some schema =>
    match parts.rest with
    | [] => pure (some schema)
    | rest => do
      let resolved ← resolveSegments [parts.root] schema rest
      pure (if resolved.isNever then none else some resolved)

/-- `expanded_contract_root_paths`. -/
def expandedContractRootPaths (expanded : Contracts) : Except PyError (List String) :=
  (Dict.keys expanded).filterM fun path => do
    pure (decide ((← splitDataPath path).rest = []))

/-- `_required_path_schema`. -/
def requiredPathSchema : List String → Schema
  | [] => .wildcard
  | segment :: rest => objectSchema [(segment, requiredPathSchema rest)] [segment] none

/-- `expanded_contract_path_required`; without `required_roots` every declared root exists. -/
def expandedContractPathRequired (expanded : Contracts) (path : String)
    (requiredRoots : Option (List String)) : Except PyError Bool := do
  let parts ← splitDataPath path
  match expanded.lookup parts.root with
  | none => pure false
  | some schema => do
    let roots ← match requiredRoots with
      | none => expandedContractRootPaths expanded
      | some roots => pure roots
    if parts.root ∉ roots then pure false
    else if parts.rest = [] then pure true
    else normalizedSchemasCompatible schema (requiredPathSchema parts.rest)

end Resolve

end TradeFramework
