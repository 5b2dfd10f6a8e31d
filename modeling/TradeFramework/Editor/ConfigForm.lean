import TradeFramework.Editor.ModuleGraph
import Mathlib.Data.Rat.Defs
import TradeFramework.Library.Raising

/-!
# The configuration form

A module's configuration is edited in a form that is rendered from its schema and read back when it
is saved. A closed schema of scalar fields and required objects gets a structured form: every
property is an element of the page, which reading finds again by the property's name.
-/

namespace TradeFramework.Editor

section Values

/-- A JSON value of the page; an object is the list of its own properties. -/
inductive Plain
  | null
  | boolean (value : Bool)
  | number (value : ℚ)
  | text (value : String)
  | array (items : List Plain)
  | object (members : List (String × Plain))

/-- What `values?.[name]` gives. -/
inductive Property
  | undefined
  | own (value : Plain)
  | inherited (name : String)

def Property.isUndefined : Property → Bool
  | undefined => true
  | _ => false

def Property.isBoolean (b : Bool) : Property → Bool
  | own (.boolean value) => value = b
  | _ => false

def Property.get : Property → String → Property
  | own (.object members), name =>
    match members.lookup name with
    | some value => own value
    | none => if name ∈ inheritedNames then inherited name else undefined
  | _, _ => undefined

/-- What the page leaves to the language: the text of a value and of an inherited member, and the
number and the JSON value that a text spells. -/
structure Host where
  string : Plain → String
  native : String → String
  number : String → Option ℚ
  parse : String → Except String Plain

/-- `String(value ?? "")`. -/
def displayed (host : Host) : Property → String
  | .undefined => ""
  | .inherited name => host.native name
  | .own .null => ""
  | .own (.text value) => value
  | .own value => host.string value

end Values

section Schemas

/-- A bound is a number, as JSON Schema has it. -/
structure Bounds where
  minimum : Option ℚ
  maximum : Option ℚ
  exclusiveMinimum : Option ℚ
  exclusiveMaximum : Option ℚ

/-- The texts of a selection. -/
structure Options where
  texts : List String
  nonempty : texts ≠ []
  nonblank : "" ∉ texts
  distinct : texts.Nodup

/-- The properties of a structured form. A free text and an object are always required. -/
inductive Field
  | boolean (title : Option String) (required : Bool)
  | number (title : Option String) (required integer : Bool) (bounds : Bounds)
  | choice (title : Option String) (required : Bool) (options : Options)
  | text (title default : Option String)
  | object (title : Option String) (properties : List (String × Field))

def Field.required : Field → Bool
  | boolean _ required => required
  | number _ required _ _ => required
  | choice _ required _ => required
  | text _ _ => true
  | object _ _ => true

def Field.title : Field → Option String
  | boolean title _ => title
  | number title _ _ _ => title
  | choice title _ _ => title
  | text title _ => title
  | object title _ => title

/-- `STRUCTURED_ROOT_KEYS`. -/
def structuredRootKeys : List String :=
  ["type", "title", "description", "properties", "required", "additionalProperties"]

def annotationKeys : List String := ["type", "title", "description", "default"]

/-- `STRUCTURED_SCALAR_KEYS`. -/
def structuredScalarKeys : String → List String
  | "boolean" => annotationKeys
  | "string" => annotationKeys ++ ["enum"]
  | _ => annotationKeys ++ ["minimum", "maximum", "exclusiveMinimum", "exclusiveMaximum"]

/-- `UNSAFE_STRUCTURED_PROPERTY_NAMES`. -/
def unsafeStructuredPropertyNames : List String := ["__proto__", "constructor", "prototype"]

def hasOnlySchemaKeys (schema : List (String × Plain)) (allowed : List String) : Bool :=
  schema.all fun member => allowed.contains member.1

def textOf : Plain → Option String
  | .text value => some value
  | _ => none

/-- `spec.title`, where there is one to show. -/
def titleOf (schema : List (String × Plain)) : Option String :=
  ((schema.lookup "title").bind textOf).filter (· ≠ "")

def boundOf (schema : List (String × Plain)) (key : String) : Option ℚ :=
  match schema.lookup key with
  | some (.number bound) => some bound
  | _ => none

def boundsOf (schema : List (String × Plain)) : Bounds where
  minimum := boundOf schema "minimum"
  maximum := boundOf schema "maximum"
  exclusiveMinimum := boundOf schema "exclusiveMinimum"
  exclusiveMaximum := boundOf schema "exclusiveMaximum"

def scalarDefaultSupported (type : String) : Option Plain → Bool
  | none => true
  | some (.boolean _) => type = "boolean"
  | some (.number value) => type = "number" || type = "integer" && value.den = 1
  | some (.text _) => type = "string"
  | some _ => false

def optionsOf (items : List Plain) : Option Options :=
  (items.mapM textOf).bind fun texts =>
    if h : texts ≠ [] ∧ "" ∉ texts ∧ texts.Nodup then some ⟨texts, h.1, h.2.1, h.2.2⟩ else none

def stringField (schema : List (String × Plain)) (required : Bool) : Option Field :=
  let default := (schema.lookup "default").bind textOf
  match schema.lookup "enum" with
  | some (.array items) =>
    ((optionsOf items).filter fun options => default.all options.texts.contains).map
      (Field.choice (titleOf schema) required)
  | some _ => none
  -- A blank optional text input currently means "not set".
  | none => if required then some (.text (titleOf schema) default) else none

/-- The scalar branches of `structuredPropertySchemaSupported`, with the field they accept. -/
def scalarField (schema : List (String × Plain)) (type : String) (required : Bool) : Option Field :=
  if hasOnlySchemaKeys schema (structuredScalarKeys type) &&
      scalarDefaultSupported type (schema.lookup "default") then
    match type with
    | "boolean" => some (.boolean (titleOf schema) required)
    | "integer" => some (.number (titleOf schema) required true (boundsOf schema))
    | "number" => some (.number (titleOf schema) required false (boundsOf schema))
    | "string" => stringField schema required
    | _ => none
  else none

def propertiesOf (schema : List (String × Plain)) : Option (List (String × Plain)) :=
  match schema.lookup "properties" with
  | none => some []
  | some (.object properties) => some properties
  | some _ => none

def requiredOf (schema : List (String × Plain)) : Option (List String) :=
  match schema.lookup "required" with
  | none => some []
  | some (.array items) => (items.mapM textOf).filter fun names => names.Nodup
  | some _ => none

/-- The checks of `structuredObjectSchemaSupported` on the schema itself, and what it declares. -/
def declarations (schema : List (String × Plain)) : Option (List (String × Plain) × List String) :=
  match schema.lookup "type", schema.lookup "additionalProperties", propertiesOf schema,
      requiredOf schema with
  | some (.text "object"), some (.boolean false), some properties, some required =>
    if hasOnlySchemaKeys schema structuredRootKeys &&
        required.all (fun name => (properties.lookup name).isSome) &&
        properties.all (fun entry => !unsafeStructuredPropertyNames.contains entry.1) then
      some (properties, required)
    else none
  | _, _, _, _ => none

lemma Plain.sizeOf_lt_object {members : List (String × Plain)} {e : String × Plain}
    (h : e ∈ Dict.items members) : sizeOf e.2 < sizeOf (Plain.object members) := by
  have hmem := Dict.sizeOf_mem_lt (Dict.items_subset members h)
  simp only [Plain.object.sizeOf_spec]
  omega

lemma propertiesOf_of_declarations {schema : List (String × Plain)}
    {declared : List (String × Plain) × List String} (h : declarations schema = some declared) :
    propertiesOf schema = some declared.1 := by
  unfold declarations at h
  split at h
  · rename_i properties required _ _ hproperties _
    split at h
    · cases h
      exact hproperties
    · cases h
  · cases h

lemma sizeOf_declared {schema : List (String × Plain)}
    {declared : List (String × Plain) × List String} (h : declarations schema = some declared)
    {e : String × Plain} (he : e ∈ Dict.items declared.1) :
    sizeOf e.2 < sizeOf (Plain.object schema) := by
  have hproperties := propertiesOf_of_declarations h
  unfold propertiesOf at hproperties
  split at hproperties
  · rw [← Option.some.inj hproperties] at he
    cases he
  · rename_i found hfound
    rw [← Option.some.inj hproperties] at he
    exact (Plain.sizeOf_lt_object he).trans
      (Plain.sizeOf_lt_object (e := ("properties", .object found)) (Dict.mem_items.mpr hfound))
  · cases hproperties

/-- `structuredObjectSchemaSupported`, with the fields it accepts. An optional empty object cannot be
told from an omitted one, so an object field is required. -/
def structuredFields : Plain → Option (List (String × Field))
  | .object schema =>
    match _h : declarations schema with
    | some declared =>
      (Dict.items declared.1).attach.mapM fun e =>
        let required := declared.2.contains e.1.1
        (match _hspec : e.1.2 with
        | .object spec =>
          match spec.lookup "type" with
          | some (.text "object") =>
            if required then (structuredFields (.object spec)).map (Field.object (titleOf spec))
            else none
          | some (.text type) => scalarField spec type required
          | _ => none
        | _ => none).map (e.1.1, ·)
    | none => none
  | _ => none
termination_by schema => sizeOf schema
decreasing_by
  have hlt := sizeOf_declared _h e.2
  rw [_hspec] at hlt
  exact hlt

def structuredSchemaSupported (schema : Plain) : Bool := (structuredFields schema).isSome

end Schemas

section Names

def isWordChar (c : Char) : Bool := c.isAlphanum || c = '_'

/-- `/([a-z0-9])([A-Z])/g` replaced by `$1 $2`. -/
def spaceCapitals : List Char → List Char
  | a :: b :: rest =>
    if (a.isLower || a.isDigit) && b.isUpper then a :: ' ' :: spaceCapitals (b :: rest)
    else a :: spaceCapitals (b :: rest)
  | chars => chars

def collapseSpaces : Bool → List Char → List Char
  | _, [] => []
  | spaced, c :: rest =>
    if isTrimmed c then
      if spaced then collapseSpaces true rest else ' ' :: collapseSpaces true rest
    else c :: collapseSpaces false rest

def capitalizeWords : Bool → List Char → List Char
  | _, [] => []
  | inWord, c :: rest =>
    (if !inWord && isWordChar c then c.toUpper else c) :: capitalizeWords (isWordChar c) rest

def humanizeName (value : String) : String :=
  let spaced := spaceCapitals (value.toList.map fun c => if c = '.' || c = '_' then ' ' else c)
  let trimmed := trim (String.ofList (collapseSpaces false spaced))
  String.ofList (capitalizeWords false trimmed.toList)

/-- `spec.title || humanizeName(name)`. -/
def Field.label (field : Field) (name : String) : String := field.title.getD (humanizeName name)

end Names

section Validation

variable (host : Host)

def numberError (path : String) (integer : Bool) (bounds : Bounds) (value : ℚ) : Option String :=
  let text := fun bound : ℚ => host.string (.number bound)
  if integer && value.den ≠ 1 then some s!"{path} must be integer"
  else if let some bound := bounds.minimum.filter (value < ·) then
    some (s!"{path} must be at least " ++ text bound)
  else if let some bound := bounds.maximum.filter (· < value) then
    some (s!"{path} must be at most " ++ text bound)
  else if let some bound := bounds.exclusiveMinimum.filter (value ≤ ·) then
    some (s!"{path} must be greater than " ++ text bound)
  else if let some bound := bounds.exclusiveMaximum.filter (· ≤ value) then
    some (s!"{path} must be less than " ++ text bound)
  else none

def missingError (path : String) (properties : List (String × Field))
    (members : List (String × Plain)) : Option String :=
  (properties.find? fun p => p.2.required && (members.lookup p.1).isNone).map fun p =>
    s!"{path}." ++ p.1 ++ " is required"

def raiseIf : Option String → Except String Unit
  | some message => .error message
  | none => .ok ()

mutual

/-- `validateSchemaValue` on the schemas of a structured form. -/
def validateSchemaValue : Plain → Field → String → Except String Unit
  | .boolean _, .boolean _ _, _ => .ok ()
  | _, .boolean _ _, path => .error s!"{path} must be boolean"
  | .number value, .number _ _ integer bounds, path => raiseIf (numberError host path integer bounds value)
  | _, .number _ _ integer _, path =>
    .error (s!"{path} must be " ++ if integer then "integer" else "number")
  | .text value, .choice _ _ options, path =>
    if options.texts.contains value then .ok ()
    else .error s!"{path} must be one of the declared values"
  | _, .choice _ _ _, path => .error s!"{path} must be one of the declared values"
  | .text _, .text _ _, _ => .ok ()
  | _, .text _ _, path => .error s!"{path} must be string"
  | .object members, .object _ properties, path => do
    raiseIf (missingError path properties members)
    validateMembers members properties path
  | _, .object _ _, path => .error s!"{path} must be object"

def validateMembers : List (String × Plain) → List (String × Field) → String → Except String Unit
  | [], _, _ => .ok ()
  | (name, child) :: rest, properties, path => do
    match properties.lookup name with
    | some field => validateSchemaValue child field (s!"{path}." ++ name)
    -- What the object of properties inherits is taken for the schema of the member.
    | none =>
      if name ∈ inheritedNames then .ok () else .error (s!"{path}." ++ name ++ " is not allowed")
    validateMembers rest properties path

end

end Validation

section Pages

/-- The value of an input. -/
inductive Control
  | boolean (value : String)
  | number (value : Option ℚ)
  | choice (value : String)
  | text (value : String)
  | color (value : String)

/-- The elements of a form, each with the name of its property. -/
inductive Element
  | control (name : String) (required : Bool) (control : Control)
  | group (name : String) (children : List Element)

def Element.name : Element → String
  | control name _ _ => name
  | group name _ => name

mutual

def Element.querySelector (name : String) : Element → Option Element
  | .control found required control =>
    if found = name then some (.control found required control) else none
  | .group found children =>
    if found = name then some (.group found children) else querySelector name children

/-- The first element with the name, in document order. -/
def querySelector (name : String) : List Element → Option Element
  | [] => none
  | element :: rest => (element.querySelector name).or (querySelector name rest)

end

/-- The value of a selection: its last selected option, else its first option. -/
def selectValue (options : List (String × Bool)) : String :=
  (((options.filter Prod.snd).getLast?.or options.head?).map Prod.fst).getD ""

/-- What a text input holds of a value. -/
def withoutLineBreaks (value : String) : String :=
  String.ofList (value.toList.filter fun c => c ≠ '\n' && c ≠ '\r')

def isHexDigit (c : Char) : Bool :=
  c.isDigit || 'a' ≤ c && c ≤ 'f' || 'A' ≤ c && c ≤ 'F'

/-- `/^#([0-9a-f]{3}|[0-9a-f]{6})$/i`, the braces being those of the expression. -/
def isHexColor (value : String) : Bool :=
  match value.toList with
  | '#' :: digits => (digits.length = 3 || digits.length = 6) && digits.all isHexDigit
  | _ => false

end Pages

section Rendering

variable (host : Host)

def isColorField (name : String) (value : Property) (title default : Option String) : Bool :=
  let text := if name = "" then title.getD "" else name
  let candidate :=
    match value with
    | .undefined => default.getD ""
    | .own .null => default.getD ""
    | value => displayed host value
  decide ("color".toList <:+: text.toLower.toList) || isHexColor (trim candidate)

/-- The first option of a selection that may be left open. -/
def openOption (required : Bool) (value : Property) : List (String × Bool) :=
  if !required || value.isUndefined then [("", value.isUndefined)] else []

def numberValue : Property → Option ℚ
  | .own (.number value) => some value
  | _ => none

mutual

def renderSchemaField (name : String) : Field → Property → Element
  | .boolean _ required, value =>
    .control name required (.boolean (selectValue (openOption required value ++
      [("true", value.isBoolean true), ("false", value.isBoolean false)])))
  | .choice _ required options, value =>
    .control name required (.choice (selectValue (openOption required value ++
      options.texts.map fun item => (item, decide (item = displayed host value)))))
  | .number _ required _ _, value => .control name required (.number (numberValue value))
  | .text title default, value =>
    -- The input of a color editor says neither that it is required nor what it holds.
    if isColorField host name value title default then
      .control name false (.color (withoutLineBreaks (displayed host value)))
    else .control name true (.text (withoutLineBreaks (displayed host value)))
  | .object _ properties, value => .group name (renderEntries properties value)

def renderEntries : List (String × Field) → Property → List Element
  | [], _ => []
  | (name, field) :: rest, values =>
    renderSchemaField name field (values.get name) :: renderEntries rest values

end

end Rendering

section Reading

variable (host : Host)

/-- A text that is empty and not required is left out. -/
def keptText (required : Bool) (value : String) : Option Plain :=
  if !required && value = "" then none else some (.text value)

def booleanOf (value : String) : Option Plain :=
  if value = "" then none else some (.boolean (value = "true"))

/-- The value of an input; an input that does not say what it holds is read by its property. -/
def readControl (path : String) (field : Field) (required : Bool) :
    Control → Except String (Option Plain)
  | .boolean value => .ok (booleanOf value)
  | .number value => .ok (value.map .number)
  | .choice value => .ok (keptText required value)
  | .text value => .ok (keptText required value)
  | .color value =>
    match field with
    | .boolean _ _ => .ok (booleanOf value)
    | .number _ _ integer _ =>
      if value = "" then .ok none
      else match host.number value with
        | some number => .ok (some (.number number))
        | none => .error (s!"{path} must be " ++ if integer then "integer" else "a finite number")
    | .choice _ _ _ => .ok (keptText required value)
    | .text _ _ => .ok (keptText required value)
    | .object _ _ =>
      if trim value = "" then .ok (some (.object [])) else (host.parse value).map some

def needsEditor : String := "Configuration requires the full JSON object editor"

def readInput (name : String) (field : Field) (required : Bool) (control : Control) :
    Except String (Option Plain) := do
  match ← readControl host (field.label name) field required control with
  | none => .ok none
  | some value => do
    validateSchemaValue host value field (field.label name)
    .ok (some value)

mutual

/-- What reading makes of one property. -/
def readSchemaField (container : List Element) (name : String) :
    Field → Except String (Option Plain)
  | .object title properties =>
    match querySelector name container with
    | none => .ok none
    | some (.control _ required control) =>
      readInput host name (.object title properties) required control
    | some (.group _ children) => do
      let members ← readEntries children properties
      let value := Plain.object members
      validateSchemaValue host value (.object title properties) (title.getD "Configuration")
      validateSchemaValue host value (.object title properties) (title.getD (humanizeName name))
      .ok (some value)
  | field =>
    match querySelector name container with
    | none => .ok none
    | some (.control _ required control) => readInput host name field required control
    | some (.group _ _) => .error needsEditor

def readEntries (container : List Element) :
    List (String × Field) → Except String (List (String × Plain))
  | [] => .ok []
  | (name, field) :: rest => do
    let value ← readSchemaField container name field
    let members ← readEntries container rest
    .ok (value.toList.map (name, ·) ++ members)

end

end Reading

section Forms

variable (host : Host)

/-- The fields of a supported schema. -/
def fieldsOf (schema : Plain) : List (String × Field) := (structuredFields schema).getD []

def schemaTitle : Plain → Option String
  | .object schema => titleOf schema
  | _ => none

/-- `renderSchemaFields` for a supported schema. -/
def renderSchemaFields (schema values : Plain) : List Element :=
  renderEntries host (fieldsOf schema) (.own values)

def readSchemaFields (container : List Element) (schema : Plain) : Except String Plain :=
  if structuredSchemaSupported schema then do
    let members ← readEntries host container (fieldsOf schema)
    validateSchemaValue host (.object members) (.object (schemaTitle schema) (fieldsOf schema))
      ((schemaTitle schema).getD "Configuration")
    .ok (.object members)
  else .error needsEditor

end Forms

end TradeFramework.Editor
