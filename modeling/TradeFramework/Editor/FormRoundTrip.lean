import TradeFramework.Editor.ConfigForm
import Mathlib.Algebra.Order.Ring.Rat

/-!
# Reading a form back

What a form is read as, next to the configuration it was rendered from. A name that is declared
again inside an earlier object is read from that object; otherwise the configuration comes back but
for its line breaks, the empty texts of color editors and the selections that an inherited member
makes.
-/

namespace TradeFramework.Editor

section Statements

variable (host : Host)

/-- The same JSON value: the order of members does not matter. -/
inductive Same : Plain → Plain → Prop
  | refl (value : Plain) : Same value value
  | object {left right : List (String × Plain)}
      (absent : ∀ name, left.lookup name = none ↔ right.lookup name = none)
      (present : ∀ name v w, left.lookup name = some v → right.lookup name = some w → Same v w) :
      Same (.object left) (.object right)

structure Bounds.Hold (bounds : Bounds) (value : ℚ) : Prop where
  minimum : ∀ bound ∈ bounds.minimum, bound ≤ value
  maximum : ∀ bound ∈ bounds.maximum, value ≤ bound
  exclusiveMinimum : ∀ bound ∈ bounds.exclusiveMinimum, bound < value
  exclusiveMaximum : ∀ bound ∈ bounds.exclusiveMaximum, value < bound

mutual

/-- A value is valid under the schema of a field. -/
def Plain.Valid : Plain → Field → Prop
  | .boolean _, .boolean _ _ => True
  | .number value, .number _ _ integer bounds => (integer = true → value.den = 1) ∧ bounds.Hold value
  | .text value, .choice _ _ options => value ∈ options.texts
  | .text _, .text _ _ => True
  | .object members, .object _ properties =>
    (∀ p ∈ properties, p.2.required = true → members.lookup p.1 ≠ none) ∧
      MembersValid members properties
  | _, _ => False

def MembersValid : List (String × Plain) → List (String × Field) → Prop
  | [], _ => True
  | (name, child) :: rest, properties =>
    (match properties.lookup name with
      | some field => child.Valid field
      | none => False) ∧ MembersValid rest properties

end

mutual

def fieldNames : Field → List String
  | .object _ properties => entryNames properties
  | _ => []

/-- The names that fields declare, at every depth. -/
def entryNames : List (String × Field) → List String
  | [] => []
  | (name, field) :: rest => name :: (fieldNames field ++ entryNames rest)

end

mutual

def Field.Unshadowed : Field → Prop
  | .object _ properties => Unshadowed properties
  | _ => True

/-- No property has a name that is declared before it, be it inside another property. -/
def Unshadowed : List (String × Field) → Prop
  | [] => True
  | (name, field) :: rest =>
    (∀ p ∈ rest, p.1 ≠ name ∧ p.1 ∉ fieldNames field) ∧ field.Unshadowed ∧ Unshadowed rest

end

/-- An absent selection does not offer the text of what its name inherits. -/
def Field.LeftOut (name : String) : Field → Prop
  | .choice _ _ options => name ∈ inheritedNames → host.native name ∉ options.texts
  | _ => True

mutual

/-- What a form can hold: texts without line breaks, that are not empty in a color editor. -/
def Field.Kept (name : String) : Field → Plain → Prop
  | .text title default, .text value =>
    (∀ c ∈ value.toList, c ≠ '\n' ∧ c ≠ '\r') ∧
      (isColorField host name (.own (.text value)) title default = true → value ≠ "")
  | .object _ properties, .object members => EntriesKept properties members
  | _, _ => True

def EntriesKept : List (String × Field) → List (String × Plain) → Prop
  | [], _ => True
  | (name, field) :: rest, members =>
    (match members.lookup name with
      | some value => field.Kept name value
      | none => field.LeftOut host name) ∧ EntriesKept rest members

end

end Statements

section Validation

variable {host : Host} {path : String}

lemma numberError_eq_none {integer : Bool} {bounds : Bounds} {value : ℚ}
    (hinteger : integer = true → value.den = 1) (h : bounds.Hold value) :
    numberError host path integer bounds value = none := by
  have hden : (integer && decide (value.den ≠ 1)) = false := by
    cases integer with
    | false => rfl
    | true => simp [hinteger rfl]
  have hmin : bounds.minimum.filter (value < ·) = none := by
    simpa [Option.filter_eq_none_iff] using h.minimum
  have hmax : bounds.maximum.filter (· < value) = none := by
    simpa [Option.filter_eq_none_iff] using h.maximum
  have hexMin : bounds.exclusiveMinimum.filter (value ≤ ·) = none := by
    simpa [Option.filter_eq_none_iff] using h.exclusiveMinimum
  have hexMax : bounds.exclusiveMaximum.filter (· ≤ value) = none := by
    simpa [Option.filter_eq_none_iff] using h.exclusiveMaximum
  unfold numberError
  rw [hden, hmin, hmax, hexMin, hexMax]
  rfl

lemma missingError_eq_none {properties : List (String × Field)} {members : List (String × Plain)}
    (h : ∀ p ∈ properties, p.2.required = true → members.lookup p.1 ≠ none) :
    missingError path properties members = none := by
  unfold missingError
  rw [Option.map_eq_none_iff, List.find?_eq_none]
  intro p hp
  simpa [Option.isSome_iff_ne_none] using h p hp

lemma membersValid_iff {members : List (String × Plain)} {properties : List (String × Field)} :
    MembersValid members properties ↔
      ∀ e ∈ members, ∃ field, properties.lookup e.1 = some field ∧ e.2.Valid field := by
  induction members with
  | nil => simp [MembersValid]
  | cons e rest ih =>
    obtain ⟨name, child⟩ := e
    rw [MembersValid, ih, List.forall_mem_cons]
    apply and_congr_left
    intro
    cases properties.lookup name <;> simp

section Inversion

variable {value : Plain} {title default : Option String} {required integer : Bool} {bounds : Bounds}
  {options : Options} {properties : List (String × Field)}

lemma Plain.Valid.of_boolean (h : value.Valid (.boolean title required)) :
    ∃ b, value = .boolean b := by
  cases value with
  | boolean b => exact ⟨b, rfl⟩
  | _ => exact absurd h (by simp [Plain.Valid])

lemma Plain.Valid.of_number (h : value.Valid (.number title required integer bounds)) :
    ∃ q : ℚ, value = .number q ∧ (integer = true → q.den = 1) ∧ bounds.Hold q := by
  cases value with
  | number q => exact ⟨q, rfl, by simpa only [Plain.Valid] using h⟩
  | _ => exact absurd h (by simp [Plain.Valid])

lemma Plain.Valid.of_choice (h : value.Valid (.choice title required options)) :
    ∃ text, value = .text text ∧ text ∈ options.texts := by
  cases value with
  | text text => exact ⟨text, rfl, by simpa only [Plain.Valid] using h⟩
  | _ => exact absurd h (by simp [Plain.Valid])

lemma Plain.Valid.of_text (h : value.Valid (.text title default)) : ∃ text, value = .text text := by
  cases value with
  | text text => exact ⟨text, rfl⟩
  | _ => exact absurd h (by simp [Plain.Valid])

lemma Plain.Valid.of_object (h : value.Valid (.object title properties)) :
    ∃ members, value = .object members ∧
      (∀ p ∈ properties, p.2.required = true → members.lookup p.1 ≠ none) ∧
      MembersValid members properties := by
  cases value with
  | object members => exact ⟨members, rfl, by simpa only [Plain.Valid] using h⟩
  | _ => exact absurd h (by simp [Plain.Valid])

end Inversion

lemma MembersValid.accepted {members : List (String × Plain)} {properties : List (String × Field)}
    (hvalid : MembersValid members properties)
    (h : ∀ e ∈ members, ∀ field path, e.2.Valid field →
      validateSchemaValue host e.2 field path = .ok ()) :
    validateMembers host members properties path = .ok () := by
  induction members with
  | nil => rw [validateMembers]
  | cons e rest ih =>
    obtain ⟨name, child⟩ := e
    obtain ⟨field, hfield, hchild⟩ := membersValid_iff.mp hvalid (name, child) List.mem_cons_self
    rw [MembersValid] at hvalid
    rw [validateMembers, hfield]
    dsimp only
    rw [h (name, child) List.mem_cons_self field _ hchild]
    exact ih hvalid.2 fun e he => h e (List.mem_cons_of_mem _ he)

/-- A valid value passes the form's validation. -/
theorem Plain.Valid.accepted {value : Plain} {field : Field} (h : value.Valid field) :
    validateSchemaValue host value field path = .ok () := by
  induction hn : sizeOf value using Nat.strong_induction_on generalizing value field path with
  | _ n ih =>
    subst hn
    cases field with
    | boolean title required =>
      obtain ⟨b, rfl⟩ := h.of_boolean
      rw [validateSchemaValue]
    | number title required integer bounds =>
      obtain ⟨q, rfl, hinteger, hbounds⟩ := h.of_number
      rw [validateSchemaValue, numberError_eq_none hinteger hbounds]
      rfl
    | choice title required options =>
      obtain ⟨text, rfl, htext⟩ := h.of_choice
      rw [validateSchemaValue, if_pos (List.contains_iff_mem.mpr htext)]
    | text title default =>
      obtain ⟨text, rfl⟩ := h.of_text
      rw [validateSchemaValue]
    | object title properties =>
      obtain ⟨members, rfl, hrequired, hmembers⟩ := h.of_object
      rw [validateSchemaValue, missingError_eq_none hrequired]
      apply hmembers.accepted
      intro e he field path hchild
      have hlt : sizeOf e.2 < sizeOf (Plain.object members) := by
        have hmem := Dict.sizeOf_mem_lt he
        simp only [Plain.object.sizeOf_spec]
        omega
      exact ih _ hlt hchild rfl

end Validation

section Pages

variable {host : Host}

lemma querySelector_self (name : String) (field : Field) (value : Property) :
    (renderSchemaField host name field value).querySelector name =
      some (renderSchemaField host name field value) := by
  cases field with
  | text title default =>
    rw [renderSchemaField]
    split <;> simp [Element.querySelector]
  | _ => simp [renderSchemaField, Element.querySelector]

mutual

lemma querySelector_field : ∀ (field : Field) (name : String) (value : Property) (other : String),
    other ≠ name → other ∉ fieldNames field →
    (renderSchemaField host name field value).querySelector other = none
  | .object _ properties, name, value, other, hne, hother => by
    rw [fieldNames] at hother
    rw [renderSchemaField, Element.querySelector, if_neg (Ne.symm hne)]
    exact querySelector_entries properties value other hother
  | .boolean _ _, name, value, other, hne, _ => by
    rw [renderSchemaField, Element.querySelector, if_neg (Ne.symm hne)]
  | .number _ _ _ _, name, value, other, hne, _ => by
    rw [renderSchemaField, Element.querySelector, if_neg (Ne.symm hne)]
  | .choice _ _ _, name, value, other, hne, _ => by
    rw [renderSchemaField, Element.querySelector, if_neg (Ne.symm hne)]
  | .text _ _, name, value, other, hne, _ => by
    rw [renderSchemaField]
    split <;> rw [Element.querySelector, if_neg (Ne.symm hne)]

lemma querySelector_entries : ∀ (properties : List (String × Field)) (values : Property)
    (other : String), other ∉ entryNames properties →
    querySelector other (renderEntries host properties values) = none
  | [], _, _, _ => by rw [renderEntries, querySelector]
  | (name, field) :: rest, values, other, hother => by
    rw [entryNames, List.mem_cons, List.mem_append, not_or, not_or] at hother
    rw [renderEntries, querySelector, querySelector_field field name _ other hother.1 hother.2.1,
      querySelector_entries rest values other hother.2.2]
    rfl

end

/-- Every property is found where it is rendered. -/
lemma querySelector_rendered {properties : List (String × Field)} (h : Unshadowed properties)
    (values : Property) {p : String × Field} (hp : p ∈ properties) :
    querySelector p.1 (renderEntries host properties values) =
      some (renderSchemaField host p.1 p.2 (values.get p.1)) := by
  induction properties with
  | nil => cases hp
  | cons q rest ih =>
    obtain ⟨name, field⟩ := q
    rw [Unshadowed] at h
    rw [renderEntries, querySelector]
    rcases List.mem_cons.mp hp with heq | hrest
    · rw [heq, querySelector_self]
      rfl
    · have hother := h.1 p hrest
      rw [querySelector_field field name _ p.1 hother.1 hother.2, ih h.2.2 hrest]
      rfl

end Pages

section Inputs

variable {host : Host} {name : String} {field : Field} {container : List Element}

lemma selectValue_eq {options : List (String × Bool)} {value : String}
    (hall : ∀ option ∈ options, option.2 = true → option.1 = value)
    (hsome : ∃ option ∈ options, option.2 = true) : selectValue options = value := by
  obtain ⟨option, hoption, hselected⟩ := hsome
  have hne : options.filter Prod.snd ≠ [] :=
    List.ne_nil_of_mem (List.mem_filter.mpr ⟨hoption, hselected⟩)
  have hlast := List.mem_filter.mp (List.getLast_mem hne)
  unfold selectValue
  rw [List.getLast?_eq_some_getLast hne]
  exact hall _ hlast.1 hlast.2

lemma selectValue_first {option : String × Bool} {rest : List (String × Bool)}
    (h : ∀ other ∈ option :: rest, other.2 = false) : selectValue (option :: rest) = option.1 := by
  have hnil : (option :: rest).filter Prod.snd = [] := by
    rw [List.filter_eq_nil_iff]
    intro other hother
    rw [h other hother]
    exact Bool.false_ne_true
  unfold selectValue
  rw [hnil]
  rfl

lemma withoutLineBreaks_eq_self {value : String} :
    withoutLineBreaks value = value ↔ ∀ c ∈ value.toList, c ≠ '\n' ∧ c ≠ '\r' := by
  unfold withoutLineBreaks
  rw [← String.toList_inj, String.toList_ofList, List.filter_eq_self]
  simp

lemma readSchemaField_control {found : String} {required : Bool} {control : Control}
    (h : querySelector name container = some (.control found required control)) :
    readSchemaField host container name field = readInput host name field required control := by
  cases field <;> rw [readSchemaField, h] <;> nofun

lemma readInput_valid {required : Bool} {control : Control} {value : Plain}
    (h : readControl host (field.label name) field required control = .ok (some value))
    (hvalid : value.Valid field) :
    readInput host name field required control = .ok (some value) := by
  unfold readInput
  rw [h, Raising.ok_bind]
  dsimp only
  rw [hvalid.accepted]
  rfl

lemma readInput_absent {required : Bool} {control : Control}
    (h : readControl host (field.label name) field required control = .ok none) :
    readInput host name field required control = .ok none := by
  unfold readInput
  rw [h]
  rfl

/-- A validated value is the one that was read. -/
lemma readInput_eq {required : Bool} {control : Control} {read value : Plain}
    (h : readControl host (field.label name) field required control = .ok (some read))
    (hresult : readInput host name field required control = .ok (some value)) : read = value := by
  unfold readInput at hresult
  rw [h, Raising.ok_bind] at hresult
  dsimp only at hresult
  rw [Raising.seq_eq_ok] at hresult
  exact Option.some.inj (Except.ok.inj hresult.2)

end Inputs

section Absent

variable {host : Host} {container : List Element} {name : String}

/-- What a configuration without the name gives. -/
def absent (name : String) : Property :=
  if name ∈ inheritedNames then .inherited name else .undefined

lemma absent_get {members : List (String × Plain)} (h : members.lookup name = none) :
    (Property.own (.object members)).get name = absent name := by
  rw [Property.get, h]
  rfl

lemma own_get {members : List (String × Plain)} {value : Plain} (h : members.lookup name = some value) :
    (Property.own (.object members)).get name = .own value := by
  rw [Property.get, h]

lemma selectValue_absent_choice (options : Options) :
    selectValue (openOption false (absent name) ++
      options.texts.map fun item => (item, decide (item = displayed host (absent name)))) =
      if name ∈ inheritedNames ∧ host.native name ∈ options.texts then host.native name else "" := by
  unfold absent
  split
  case isTrue h =>
    by_cases hnative : host.native name ∈ options.texts
    · rw [if_pos ⟨h, hnative⟩]
      apply selectValue_eq
      · simp [openOption, Property.isUndefined, displayed]
        exact fun item _ => of_decide_eq_true
      · exact ⟨(host.native name, true), by simp [displayed, hnative], rfl⟩
    · rw [if_neg fun hboth => hnative hboth.2]
      change selectValue (("", false) :: options.texts.map fun item =>
        (item, decide (item = host.native name))) = ""
      apply selectValue_first
      simp only [List.mem_cons, List.mem_map]
      rintro other (rfl | ⟨item, hitem, rfl⟩)
      · rfl
      · exact decide_eq_false fun heq => hnative (heq ▸ hitem)
  case isFalse h =>
    rw [if_neg fun hboth => h hboth.1]
    apply selectValue_eq
    · simp only [openOption, Property.isUndefined, displayed, Bool.or_true, if_true]
      simp only [List.singleton_append, List.mem_cons, List.mem_map]
      rintro other (rfl | ⟨item, hitem, rfl⟩) hselected
      · rfl
      · exact of_decide_eq_true hselected
    · exact ⟨("", true), by simp [openOption, Property.isUndefined], rfl⟩

/-- An absent property is read as absent, unless an inherited member selects an option. -/
lemma readSchemaField_absent {field : Field} (hrequired : field.required = false)
    (hfind : querySelector name container = some (renderSchemaField host name field (absent name))) :
    readSchemaField host container name field = .ok none ↔ field.LeftOut host name := by
  cases field with
  | boolean title required =>
    cases hrequired
    rw [renderSchemaField] at hfind
    have hvalue : selectValue (openOption false (absent name) ++
        [("true", (absent name).isBoolean true), ("false", (absent name).isBoolean false)]) = "" := by
      unfold absent
      split <;> rfl
    rw [hvalue] at hfind
    rw [readSchemaField_control hfind, readInput_absent rfl]
    exact iff_of_true rfl trivial
  | number title required integer bounds =>
    cases hrequired
    have hvalue : numberValue (absent name) = none := by
      unfold absent
      split <;> rfl
    rw [renderSchemaField, hvalue] at hfind
    rw [readSchemaField_control hfind, readInput_absent rfl]
    exact iff_of_true rfl trivial
  | choice title required options =>
    cases hrequired
    rw [renderSchemaField, selectValue_absent_choice] at hfind
    rw [readSchemaField_control hfind]
    by_cases hclash : name ∈ inheritedNames ∧ host.native name ∈ options.texts
    · rw [if_pos hclash]
      have hne : host.native name ≠ "" := fun heq => options.nonblank (heq ▸ hclash.2)
      have hread : readControl host (Field.label (.choice title false options) name)
          (.choice title false options) false (.choice (host.native name)) =
          .ok (some (.text (host.native name))) := by
        simp [readControl, keptText, hne]
      rw [readInput_valid hread (by simpa only [Plain.Valid] using hclash.2)]
      exact iff_of_false (by simp) fun hleft => hleft hclash.1 hclash.2
    · rw [if_neg hclash, readInput_absent (by simp [readControl, keptText])]
      exact iff_of_true rfl fun hin hnative => hclash ⟨hin, hnative⟩
  | text title default => cases hrequired
  | object title properties => cases hrequired

end Absent

section Present

variable {host : Host} {name : String}

lemma Same.of_text {text : String} {value : Plain} (h : Same (.text text) value) :
    value = .text text := by
  cases h
  rfl

lemma Same.of_number {number : ℚ} {value : Plain} (h : Same (.number number) value) :
    value = .number number := by
  cases h
  rfl

/-- A rendered value is read back as it is exactly when the form can hold it. -/
def ReadsBack (host : Host) (name : String) (field : Field) (value : Plain) : Prop :=
  ∀ container, querySelector name container = some (renderSchemaField host name field (.own value)) →
    (field.Kept host name value → ∃ read,
      readSchemaField host container name field = .ok (some read) ∧ Same value read ∧ read.Valid field) ∧
    ∀ read, readSchemaField host container name field = .ok (some read) → Same value read →
      field.Kept host name value

lemma readsBack_of_control {field : Field} {value : Plain} {found : String} {required : Bool}
    {control : Control} (hvalid : value.Valid field) (hkept : field.Kept host name value)
    (hrender : renderSchemaField host name field (.own value) = .control found required control)
    (hread : readControl host (field.label name) field required control = .ok (some value)) :
    ReadsBack host name field value := by
  intro container hfind
  rw [hrender] at hfind
  rw [readSchemaField_control hfind, readInput_valid hread hvalid]
  exact ⟨fun _ => ⟨value, rfl, .refl value, hvalid⟩, fun _ _ _ => hkept⟩

lemma readsBack_boolean {title : Option String} {required b : Bool} :
    ReadsBack host name (.boolean title required) (.boolean b) := by
  apply readsBack_of_control (by rw [Plain.Valid]; trivial) (by simp [Field.Kept])
    (by rw [renderSchemaField])
  cases required <;> cases b <;> rfl

lemma readsBack_choice {title : Option String} {required : Bool} {options : Options} {text : String}
    (htext : text ∈ options.texts) : ReadsBack host name (.choice title required options) (.text text) := by
  have hopen : ∀ option ∈ openOption required (.own (.text text)), option.2 = false := by
    intro option hoption
    cases required with
    | true => cases hoption
    | false =>
      rw [List.mem_singleton.mp hoption]
      rfl
  have hselect : selectValue (openOption required (.own (.text text)) ++
      options.texts.map fun item => (item, decide (item = displayed host (.own (.text text))))) =
      text := by
    apply selectValue_eq
    · intro option hoption hselected
      rcases List.mem_append.mp hoption with hleft | hright
      · rw [hopen option hleft] at hselected
        cases hselected
      · obtain ⟨item, -, rfl⟩ := List.mem_map.mp hright
        exact of_decide_eq_true hselected
    · exact ⟨(text, true),
        List.mem_append_right _ (List.mem_map.mpr ⟨text, htext, by simp [displayed]⟩), rfl⟩
  have hne : text ≠ "" := fun heq => options.nonblank (heq ▸ htext)
  apply readsBack_of_control (by rw [Plain.Valid]; exact htext) (by simp [Field.Kept])
    (by rw [renderSchemaField, hselect])
  simp [readControl, keptText, hne]

lemma readsBack_text {title default : Option String} {text : String} :
    ReadsBack host name (.text title default) (.text text) := by
  intro container hfind
  rw [renderSchemaField] at hfind
  rw [Field.Kept, ← withoutLineBreaks_eq_self]
  by_cases hcolor : isColorField host name (.own (.text text)) title default = true
  · rw [if_pos hcolor] at hfind
    rw [readSchemaField_control hfind]
    change _ ∧ ∀ read, readInput _ _ _ _ (.color (withoutLineBreaks text)) = _ → _
    constructor
    · rintro ⟨hsame, hne⟩
      refine ⟨.text text, readInput_valid ?_ (by simp [Plain.Valid]), .refl _, by simp [Plain.Valid]⟩
      rw [displayed, hsame]
      simp [readControl, keptText, hne hcolor]
    · intro read hread hsame
      rw [hsame.of_text] at hread
      by_cases hempty : withoutLineBreaks text = ""
      · rw [hempty, readInput_absent (by simp [readControl, keptText])] at hread
        cases hread
      · have hcontrol : readControl host (Field.label (.text title default) name)
            (.text title default) false (.color (withoutLineBreaks text)) =
            .ok (some (.text (withoutLineBreaks text))) := by
          simp [readControl, keptText, hempty]
        have heq := readInput_eq hcontrol hread
        rw [Plain.text.injEq] at heq
        exact ⟨heq, fun _ hnil => hempty (heq.trans hnil)⟩
  · rw [if_neg hcolor] at hfind
    rw [readSchemaField_control hfind]
    have hread : readInput host name (.text title default) true
        (.text (withoutLineBreaks (displayed host (.own (.text text))))) =
        .ok (some (.text (withoutLineBreaks text))) :=
      readInput_valid rfl (by simp [Plain.Valid])
    rw [hread]
    constructor
    · rintro ⟨hsame, -⟩
      rw [hsame]
      exact ⟨_, rfl, .refl _, by simp [Plain.Valid]⟩
    · intro read heq hsame
      rw [hsame.of_text] at heq
      simp only [Except.ok.injEq, Option.some.injEq, Plain.text.injEq] at heq
      exact ⟨heq, fun hyes => absurd hyes hcolor⟩

end Present

section Entries

variable {host : Host} {container : List Element}

/-- A property is absent from both objects or has the same value in both. -/
def SameProperty (left right : Option Plain) : Prop :=
  (left = none ↔ right = none) ∧ ∀ v w, left = some v → right = some w → Same v w

/-- Two objects have the same values under the names of the fields. -/
def Agree (properties : List (String × Field)) (members result : List (String × Plain)) : Prop :=
  ∀ p ∈ properties, SameProperty (members.lookup p.1) (result.lookup p.1)

lemma readEntries_cons {name : String} {field : Field} {rest : List (String × Field)}
    {result : List (String × Plain)} :
    readEntries host container ((name, field) :: rest) = .ok result ↔
      ∃ value members, readSchemaField host container name field = .ok value ∧
        readEntries host container rest = .ok members ∧
        result = value.toList.map (name, ·) ++ members := by
  rw [readEntries]
  cases readSchemaField host container name field with
  | error message => exact iff_of_false (by rintro ⟨⟩) (by rintro ⟨_, _, ⟨⟩, _⟩)
  | ok value =>
    cases readEntries host container rest with
    | error message => exact iff_of_false (by rintro ⟨⟩) (by rintro ⟨_, _, _, ⟨⟩, _⟩)
    | ok members =>
      constructor
      · intro h
        exact ⟨value, members, rfl, rfl, (Except.ok.inj h).symm⟩
      · rintro ⟨_, _, ⟨⟩, ⟨⟩, rfl⟩
        rfl

lemma keys_readEntries {properties : List (String × Field)} {result : List (String × Plain)}
    (h : readEntries host container properties = .ok result) :
    ∀ e ∈ result, ∃ p ∈ properties, p.1 = e.1 := by
  induction properties generalizing result with
  | nil =>
    rw [readEntries] at h
    cases h
    intro e he
    cases he
  | cons p rest ih =>
    obtain ⟨value, members, -, hmembers, rfl⟩ := readEntries_cons.mp h
    intro e he
    rcases List.mem_append.mp he with hhead | htail
    · obtain ⟨v, -, rfl⟩ := List.mem_map.mp hhead
      exact ⟨p, List.mem_cons_self, rfl⟩
    · obtain ⟨q, hq, heq⟩ := ih hmembers e htail
      exact ⟨q, List.mem_cons_of_mem _ hq, heq⟩

/-- The head of what is read is the head's value, the rest what is read of the rest. -/
lemma lookup_read {name : String} {rest : List (String × Field)}
    (hrest : ∀ p ∈ rest, p.1 ≠ name) {value : Option Plain} {members : List (String × Plain)}
    (hmembers : readEntries host container rest = .ok members) :
    (value.toList.map (name, ·) ++ members).lookup name = value ∧
      ∀ p ∈ rest, (value.toList.map (name, ·) ++ members).lookup p.1 = members.lookup p.1 := by
  have hnone : members.lookup name = none := by
    rw [Dict.lookup_eq_none_iff]
    intro v hv
    obtain ⟨p, hp, heq⟩ := keys_readEntries hmembers _ hv
    exact hrest p hp heq
  cases value with
  | none => exact ⟨hnone, fun _ _ => rfl⟩
  | some v =>
    refine ⟨by simp, fun p hp => ?_⟩
    simp [hrest p hp]

/-- What a form holds of the property of one name. -/
def PropertyKept (host : Host) (name : String) (field : Field) : Option Plain → Prop
  | some value => field.Kept host name value
  | none => field.LeftOut host name

lemma entriesKept_cons {name : String} {field : Field} {rest : List (String × Field)}
    {members : List (String × Plain)} : EntriesKept host ((name, field) :: rest) members ↔
      PropertyKept host name field (members.lookup name) ∧ EntriesKept host rest members := by
  rw [EntriesKept]
  cases members.lookup name <;> rfl

lemma readSchemaField_kept {name : String} {field : Field} {members : List (String × Plain)}
    (hfind : querySelector name container = some (renderSchemaField host name field
      ((Property.own (.object members)).get name)))
    (hrequired : field.required = true → members.lookup name ≠ none)
    (hback : ∀ v, members.lookup name = some v → ReadsBack host name field v) :
    (PropertyKept host name field (members.lookup name) → ∃ read,
      readSchemaField host container name field = .ok read ∧
      SameProperty (members.lookup name) read ∧ ∀ w ∈ read, w.Valid field) ∧
    ∀ read, readSchemaField host container name field = .ok read →
      SameProperty (members.lookup name) read → PropertyKept host name field (members.lookup name) := by
  cases hlookup : members.lookup name with
  | none =>
    have hoptional : field.required = false := by
      by_contra hreq
      exact hrequired (Bool.eq_true_of_not_eq_false hreq) hlookup
    rw [absent_get hlookup] at hfind
    have habsent := readSchemaField_absent hoptional hfind
    constructor
    · intro hkept
      exact ⟨none, habsent.mpr hkept, ⟨Iff.rfl, nofun⟩, nofun⟩
    · intro read hread hsame
      rw [hsame.1.mp rfl] at hread
      exact habsent.mp hread
  | some value =>
    rw [own_get hlookup] at hfind
    obtain ⟨hforward, hback⟩ := hback value hlookup container hfind
    constructor
    · intro hkept
      obtain ⟨read, hread, hsame, hvalid⟩ := hforward hkept
      refine ⟨some read, hread, ⟨by simp, ?_⟩, ?_⟩
      · rintro v w ⟨⟩ ⟨⟩
        exact hsame
      · rintro w ⟨⟩
        exact hvalid
    · intro read hread hsame
      cases read with
      | none => cases hsame.1.mpr rfl
      | some w => exact hback w hread (hsame.2 value w rfl rfl)

/-- An object is read back as it is exactly when the form can hold each of its properties. -/
lemma readEntries_kept {properties : List (String × Field)} {members : List (String × Plain)}
    (hunshadowed : Unshadowed properties)
    (hfind : ∀ p ∈ properties, querySelector p.1 container = some (renderSchemaField host p.1 p.2
      ((Property.own (.object members)).get p.1)))
    (hrequired : ∀ p ∈ properties, p.2.required = true → members.lookup p.1 ≠ none)
    (hback : ∀ p ∈ properties, ∀ v, members.lookup p.1 = some v → ReadsBack host p.1 p.2 v) :
    (EntriesKept host properties members → ∃ result,
      readEntries host container properties = .ok result ∧ Agree properties members result ∧
        ∀ e ∈ result, ∃ p ∈ properties, p.1 = e.1 ∧ e.2.Valid p.2) ∧
    ∀ result, readEntries host container properties = .ok result →
      Agree properties members result → EntriesKept host properties members := by
  induction properties with
  | nil =>
    rw [readEntries]
    exact ⟨fun _ => ⟨[], rfl, nofun, nofun⟩, fun _ _ _ => by rw [EntriesKept]; trivial⟩
  | cons p rest ih =>
    obtain ⟨name, field⟩ := p
    rw [Unshadowed] at hunshadowed
    have hnames : ∀ p ∈ rest, p.1 ≠ name := fun p hp => (hunshadowed.1 p hp).1
    obtain ⟨hhead, hheadBack⟩ := readSchemaField_kept (hfind _ List.mem_cons_self)
      (hrequired _ List.mem_cons_self) (hback _ List.mem_cons_self)
    obtain ⟨htail, htailBack⟩ := ih hunshadowed.2.2
      (fun p hp => hfind p (List.mem_cons_of_mem _ hp))
      (fun p hp => hrequired p (List.mem_cons_of_mem _ hp))
      (fun p hp => hback p (List.mem_cons_of_mem _ hp))
    rw [entriesKept_cons]
    constructor
    · rintro ⟨hkept, hrest⟩
      obtain ⟨read, hread, hsame, hvalid⟩ := hhead hkept
      obtain ⟨result, hresult, hagree, hresultValid⟩ := htail hrest
      obtain ⟨hlookup, hlookups⟩ := @lookup_read _ _ _ _ hnames read _ hresult
      have hcons := readEntries_cons.mpr ⟨read, result, hread, hresult, rfl⟩
      refine ⟨_, hcons, fun p hp => ?_, ?_⟩
      · rcases List.mem_cons.mp hp with rfl | hp
        · rw [hlookup]
          exact hsame
        · rw [hlookups p hp]
          exact hagree p hp
      · intro e he
        rcases List.mem_append.mp he with hfirst | hother
        · obtain ⟨w, hw, rfl⟩ := List.mem_map.mp hfirst
          exact ⟨_, List.mem_cons_self, rfl, hvalid w (Option.mem_toList.mp hw)⟩
        · obtain ⟨q, hq, heq, hqvalid⟩ := hresultValid e hother
          exact ⟨q, List.mem_cons_of_mem _ hq, heq, hqvalid⟩
    · intro result hresult hagree
      obtain ⟨read, more, hread, hmore, rfl⟩ := readEntries_cons.mp hresult
      obtain ⟨hlookup, hlookups⟩ := @lookup_read _ _ _ _ hnames read _ hmore
      have hfirst := hagree _ List.mem_cons_self
      rw [hlookup] at hfirst
      refine ⟨hheadBack read hread hfirst, htailBack more hmore fun p hp => ?_⟩
      rw [← hlookups p hp]
      exact hagree p (List.mem_cons_of_mem _ hp)

end Entries

section Objects

variable {host : Host}

lemma lookup_properties {properties : List (String × Field)} (h : Unshadowed properties)
    {p : String × Field} (hp : p ∈ properties) : properties.lookup p.1 = some p.2 := by
  induction properties with
  | nil => cases hp
  | cons q rest ih =>
    obtain ⟨name, field⟩ := q
    rw [Unshadowed] at h
    rcases List.mem_cons.mp hp with rfl | hrest
    · simp
    · rw [Dict.lookup_cons, if_neg (h.1 p hrest).1]
      exact ih h.2.2 hrest

lemma field_unshadowed {properties : List (String × Field)} (h : Unshadowed properties)
    {p : String × Field} (hp : p ∈ properties) : p.2.Unshadowed := by
  induction properties with
  | nil => cases hp
  | cons q rest ih =>
    obtain ⟨name, field⟩ := q
    rw [Unshadowed] at h
    rcases List.mem_cons.mp hp with rfl | hrest
    · exact h.2.1
    · exact ih h.2.2 hrest

lemma lookup_undeclared {properties : List (String × Field)} {members : List (String × Plain)}
    (h : ∀ e ∈ members, ∃ p ∈ properties, p.1 = e.1) {name : String}
    (hname : ∀ p ∈ properties, p.1 ≠ name) : members.lookup name = none := by
  rw [Dict.lookup_eq_none_iff]
  intro v hv
  obtain ⟨p, hp, heq⟩ := h _ hv
  exact hname p hp heq

/-- Objects of declared members that agree on the declarations are the same. -/
lemma Agree.same {properties : List (String × Field)} {members result : List (String × Plain)}
    (h : Agree properties members result)
    (hmembers : ∀ e ∈ members, ∃ p ∈ properties, p.1 = e.1)
    (hresult : ∀ e ∈ result, ∃ p ∈ properties, p.1 = e.1) : Same (.object members) (.object result) := by
  have hproperty : ∀ name, SameProperty (members.lookup name) (result.lookup name) := by
    intro name
    by_cases hname : ∃ p ∈ properties, p.1 = name
    · obtain ⟨p, hp, rfl⟩ := hname
      exact h p hp
    · have hundeclared : ∀ p ∈ properties, p.1 ≠ name := fun p hp heq => hname ⟨p, hp, heq⟩
      rw [lookup_undeclared hmembers hundeclared, lookup_undeclared hresult hundeclared]
      exact ⟨Iff.rfl, nofun⟩
  exact .object (fun name => (hproperty name).1) fun name => (hproperty name).2

lemma Same.agree {members result : List (String × Plain)}
    (h : Same (.object members) (.object result)) (properties : List (String × Field)) :
    Agree properties members result := by
  cases h with
  | refl =>
    intro p _
    refine ⟨Iff.rfl, fun v w hv hw => ?_⟩
    rw [hv] at hw
    cases hw
    exact .refl v
  | object absent present => exact fun p _ => ⟨absent p.1, present p.1⟩

/-- The members that are read are valid under the schema when what they are read from is. -/
lemma Agree.valid {title : Option String} {properties : List (String × Field)}
    {members result : List (String × Plain)} (h : Agree properties members result)
    (hunshadowed : Unshadowed properties)
    (hrequired : ∀ p ∈ properties, p.2.required = true → members.lookup p.1 ≠ none)
    (hresult : ∀ e ∈ result, ∃ p ∈ properties, p.1 = e.1 ∧ e.2.Valid p.2) :
    (Plain.object result).Valid (.object title properties) := by
  rw [Plain.Valid]
  constructor
  · intro p hp hreq hnone
    exact hrequired p hp hreq ((h p hp).1.mpr hnone)
  · rw [membersValid_iff]
    intro e he
    obtain ⟨p, hp, heq, hvalid⟩ := hresult e he
    exact ⟨p.2, heq ▸ lookup_properties hunshadowed hp, hvalid⟩

lemma MembersValid.declared {properties : List (String × Field)} {members : List (String × Plain)}
    (h : MembersValid members properties) : ∀ e ∈ members, ∃ p ∈ properties, p.1 = e.1 := by
  intro e he
  obtain ⟨field, hfield, -⟩ := membersValid_iff.mp h e he
  exact ⟨(e.1, field), Dict.lookup_mem hfield, rfl⟩

lemma MembersValid.valid_of_lookup {properties : List (String × Field)}
    {members : List (String × Plain)} (h : MembersValid members properties)
    (hunshadowed : Unshadowed properties) {p : String × Field} (hp : p ∈ properties) {value : Plain}
    (hvalue : members.lookup p.1 = some value) : value.Valid p.2 := by
  obtain ⟨field, hfield, hvalid⟩ := membersValid_iff.mp h _ (Dict.lookup_mem hvalue)
  rw [lookup_properties hunshadowed hp, Option.some.injEq] at hfield
  rw [hfield]
  exact hvalid

/-- The elements of an object's form are read back as the object exactly when the form can hold it. -/
lemma readEntries_object {title : Option String} {properties : List (String × Field)}
    {members : List (String × Plain)} (hunshadowed : Unshadowed properties)
    (hrequired : ∀ p ∈ properties, p.2.required = true → members.lookup p.1 ≠ none)
    (hmembers : MembersValid members properties)
    (hback : ∀ p ∈ properties, ∀ v, members.lookup p.1 = some v → ReadsBack host p.1 p.2 v) :
    (EntriesKept host properties members → ∃ result,
      readEntries host (renderEntries host properties (.own (.object members))) properties = .ok result ∧
        Same (.object members) (.object result) ∧ (Plain.object result).Valid (.object title properties)) ∧
    ∀ result,
      readEntries host (renderEntries host properties (.own (.object members))) properties = .ok result →
        Same (.object members) (.object result) → EntriesKept host properties members := by
  obtain ⟨hforward, hbackward⟩ := readEntries_kept hunshadowed
    (fun p hp => querySelector_rendered hunshadowed (.own (.object members)) hp) hrequired hback
  constructor
  · intro hkept
    obtain ⟨result, hresult, hagree, hvalid⟩ := hforward hkept
    refine ⟨result, hresult, hagree.same hmembers.declared ?_, hagree.valid hunshadowed hrequired hvalid⟩
    intro e he
    obtain ⟨p, hp, heq, -⟩ := hvalid e he
    exact ⟨p, hp, heq⟩
  · intro result hresult hsame
    exact hbackward result hresult (hsame.agree _)

lemma readSchemaField_group {container children : List Element} {name found : String}
    {title : Option String} {properties : List (String × Field)}
    (hfind : querySelector name container = some (.group found children)) {value : Plain} :
    readSchemaField host container name (.object title properties) = .ok (some value) ↔
      ∃ members, readEntries host children properties = .ok members ∧
        validateSchemaValue host (.object members) (.object title properties)
          (title.getD "Configuration") = .ok () ∧
        validateSchemaValue host (.object members) (.object title properties)
          (title.getD (humanizeName name)) = .ok () ∧ value = .object members := by
  rw [readSchemaField, hfind]
  dsimp only
  rw [Raising.bind_eq_ok]
  apply exists_congr
  intro members
  rw [Raising.seq_eq_ok, Raising.seq_eq_ok, Except.ok.injEq, Option.some.injEq, @eq_comm _ value]

/-- Every valid value of an unshadowed field is read back exactly when the form can hold it. -/
theorem readsBack {field : Field} {value : Plain} (hvalid : value.Valid field)
    (hunshadowed : field.Unshadowed) (name : String) : ReadsBack host name field value := by
  induction hn : sizeOf field using Nat.strong_induction_on generalizing field value name with
  | _ n ih =>
    subst hn
    cases field with
    | boolean title required =>
      obtain ⟨b, rfl⟩ := hvalid.of_boolean
      exact readsBack_boolean
    | number title required integer bounds =>
      obtain ⟨q, rfl, -⟩ := hvalid.of_number
      exact readsBack_of_control hvalid (by simp [Field.Kept]) (by rw [renderSchemaField]) rfl
    | choice title required options =>
      obtain ⟨text, rfl, htext⟩ := hvalid.of_choice
      exact readsBack_choice htext
    | text title default =>
      obtain ⟨text, rfl⟩ := hvalid.of_text
      exact readsBack_text
    | object title properties =>
      obtain ⟨members, rfl, hrequired, hmembers⟩ := hvalid.of_object
      rw [Field.Unshadowed] at hunshadowed
      have hback : ∀ p ∈ properties, ∀ v, members.lookup p.1 = some v → ReadsBack host p.1 p.2 v := by
        intro p hp v hv
        have hlt : sizeOf p.2 < sizeOf (Field.object title properties) := by
          have hmem := Dict.sizeOf_mem_lt hp
          simp only [Field.object.sizeOf_spec]
          omega
        exact ih _ hlt (hmembers.valid_of_lookup hunshadowed hp hv) (field_unshadowed hunshadowed hp)
          p.1 rfl
      obtain ⟨hforward, hbackward⟩ := @readEntries_object host title _ _ hunshadowed hrequired
        hmembers hback
      intro container hfind
      rw [renderSchemaField] at hfind
      rw [Field.Kept]
      constructor
      · intro hkept
        obtain ⟨result, hresult, hsame, hresultValid⟩ := hforward hkept
        refine ⟨_, ?_, hsame, hresultValid⟩
        exact (readSchemaField_group hfind).mpr
          ⟨result, hresult, hresultValid.accepted, hresultValid.accepted, rfl⟩
      · intro read hread hsame
        obtain ⟨result, hresult, -, -, rfl⟩ := (readSchemaField_group hfind).mp hread
        exact hbackward result hresult hsame

end Objects

section Forms

variable (host : Host) {schema values : Plain}

/-- A configuration that is valid under a schema. -/
def ValidUnder (schema values : Plain) : Prop :=
  values.Valid (.object (schemaTitle schema) (fieldsOf schema))

/-- What a form can hold of a configuration. -/
def ConfigKept (schema values : Plain) : Prop :=
  Field.Kept host "" (.object (schemaTitle schema) (fieldsOf schema)) values

/-- The form of a configuration is read back as the configuration. -/
def RoundTrips (schema values : Plain) : Prop :=
  ∃ result, readSchemaFields host (renderSchemaFields host schema values) schema = .ok result ∧
    Same values result

lemma readSchemaFields_eq_ok {container : List Element} {result : Plain}
    (hsupported : structuredSchemaSupported schema = true) :
    readSchemaFields host container schema = .ok result ↔
      ∃ members, readEntries host container (fieldsOf schema) = .ok members ∧
        validateSchemaValue host (.object members) (.object (schemaTitle schema) (fieldsOf schema))
          ((schemaTitle schema).getD "Configuration") = .ok () ∧ result = .object members := by
  rw [readSchemaFields, if_pos hsupported, Raising.bind_eq_ok]
  apply exists_congr
  intro members
  rw [Raising.seq_eq_ok, Except.ok.injEq, @eq_comm _ result]

/-- Where no name is declared again inside an earlier object, a valid configuration comes back
exactly when its texts have no line breaks, those of color editors are not empty, and no inherited
member is an option of a selection that is left out. -/
theorem roundTrips_iff (hsupported : structuredSchemaSupported schema = true)
    (hunshadowed : Unshadowed (fieldsOf schema)) (hvalid : ValidUnder schema values) :
    RoundTrips host schema values ↔ ConfigKept host schema values := by
  obtain ⟨members, rfl, hrequired, hmembers⟩ := hvalid.of_object
  obtain ⟨hforward, hbackward⟩ := @readEntries_object host (schemaTitle schema) _ _ hunshadowed hrequired
    hmembers (fun p hp v hv => readsBack (hmembers.valid_of_lookup hunshadowed hp hv)
      (field_unshadowed hunshadowed hp) p.1)
  unfold RoundTrips ConfigKept renderSchemaFields
  rw [Field.Kept]
  constructor
  · rintro ⟨result, hresult, hsame⟩
    obtain ⟨read, hread, -, rfl⟩ := (readSchemaFields_eq_ok host hsupported).mp hresult
    exact hbackward read hread hsame
  · intro hkept
    obtain ⟨read, hread, hsame, hreadValid⟩ := hforward hkept
    exact ⟨_, (readSchemaFields_eq_ok host hsupported).mpr ⟨read, hread, hreadValid.accepted, rfl⟩, hsame⟩

end Forms

section Examples

def browser : Host where
  string _ := ""
  native name := "function " ++ name ++ "() { [native code] }"
  number text := text.toInt?.map Int.cast
  parse _ := .error "JSON.parse"

def closedSchema (properties : List (String × Plain)) (required : List String) : Plain :=
  .object [("type", .text "object"), ("properties", .object properties),
    ("required", .array (required.map .text)), ("additionalProperties", .boolean false)]

def textSchema : Plain := .object [("type", .text "string")]

/-- A color below an object, and a selection that is left out under an inherited name. -/
def lineSchema : Plain :=
  closedSchema [("symbol", textSchema),
    ("toString", .object [("type", .text "string"), ("enum", .array [.text "short", .text "long"])]),
    ("line", closedSchema [("color", textSchema)] ["color"])] ["symbol", "line"]

def line : Plain := .object [("line", .object [("color", .text "#a0b1c2")]), ("symbol", .text "AAPL")]

theorem roundTrips_line : structuredSchemaSupported lineSchema = true ∧
    RoundTrips browser lineSchema line := by
  have hsupported : structuredSchemaSupported lineSchema = true := by with_unfolding_all decide
  have hfields : fieldsOf lineSchema = [("symbol", .text none none),
      ("toString", .choice none false ⟨["short", "long"], by decide, by decide, by decide⟩),
      ("line", .object none [("color", .text none none)])] := by
    with_unfolding_all rfl
  refine ⟨hsupported, (roundTrips_iff browser hsupported ?_ ?_).mpr ?_⟩
  · rw [hfields]
    simp [Unshadowed, Field.Unshadowed, fieldNames, entryNames]
  · rw [ValidUnder, hfields]
    simp [line, Plain.Valid, MembersValid, Field.required]
  · rw [ConfigKept, hfields]
    simp [line, Field.Kept, EntriesKept, Field.LeftOut, browser]

def windowSchema : Plain := .object [("type", .text "integer")]

/-- A window of the exit rule, declared before the window of the strategy. -/
def windowsSchema : Plain :=
  closedSchema [("exit", closedSchema [("window", windowSchema)] ["window"]),
    ("window", windowSchema)] ["exit", "window"]

def windows (exit window : ℚ) : Plain :=
  .object [("exit", .object [("window", .number exit)]), ("window", .number window)]

/-- The window of the strategy is read from the exit rule. -/
theorem windows_not_roundTrips : structuredSchemaSupported windowsSchema = true ∧
    ValidUnder windowsSchema (windows 5 20) ∧ ¬RoundTrips browser windowsSchema (windows 5 20) := by
  have hfields : fieldsOf windowsSchema =
      [("exit", .object none [("window", .number none true true ⟨none, none, none, none⟩)]),
        ("window", .number none true true ⟨none, none, none, none⟩)] := by
    with_unfolding_all rfl
  have hread : readSchemaFields browser (renderSchemaFields browser windowsSchema (windows 5 20))
      windowsSchema = .ok (windows 5 5) := by
    with_unfolding_all rfl
  refine ⟨by with_unfolding_all decide, ?_, ?_⟩
  · have hbounds : ∀ q, (Bounds.mk none none none none).Hold q := fun _ => ⟨nofun, nofun, nofun, nofun⟩
    rw [ValidUnder, hfields]
    simp [windows, Plain.Valid, MembersValid, Field.required, hbounds]
  · rintro ⟨result, hresult, hsame⟩
    rw [hread] at hresult
    cases hresult
    have hagree := hsame.agree (fieldsOf windowsSchema)
    rw [hfields] at hagree
    have hwindow := (hagree _ (List.mem_cons_of_mem _ List.mem_cons_self)).2 (.number 20) (.number 5) rfl rfl
    have hnumber := hwindow.of_number
    rw [Plain.number.injEq] at hnumber
    exact absurd hnumber (by decide)

end Examples

end TradeFramework.Editor
