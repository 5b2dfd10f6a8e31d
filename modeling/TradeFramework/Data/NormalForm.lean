import TradeFramework.Data.Normalize

/-!
# Normal forms

The image of `normalize_schema`. `ReadAs` says what a successful normalization has read
from a document; a schema in normal form is read back from its own document unchanged, so
normalization is idempotent.
-/

namespace TradeFramework

/-- What normalization reads from an object document. -/
structure ReadAs (members : List (String × Json)) (kw : Keywords Schema) : Prop where
  known : ∀ keyword, (members.lookup keyword).isSome → keyword ∈ schemaKeys
  type : Option.Rel (fun raw types => readTypes raw = .ok types) (members.lookup "type") kw.type
  properties : Option.Rel (fun raw properties => ∃ d, raw = .obj d ∧
      List.Forall₂ (fun e p => p.1 = e.1 ∧ normalizeSchema e.2 = .ok p.2) (Dict.items d) properties)
    (members.lookup "properties") kw.properties
  objectType : kw.properties.isSome → kw.declaredTypes ≠ ∅ → .object ∈ kw.declaredTypes
  required : Option.Rel (fun raw names => readRequired raw = .ok names)
    (members.lookup "required") kw.required
  additional : Option.Rel (fun raw extra => (raw = .bool true ∧ extra = none) ∨
      (raw ≠ .bool true ∧ ∃ s, normalizeSchema raw = .ok s ∧ extra = some s))
    (members.lookup "additionalProperties") kw.additionalProperties
  items : Option.Rel (fun raw item => normalizeSchema raw = .ok item)
    (members.lookup "items") kw.items
  arrayType : kw.items.isSome → kw.declaredTypes ≠ ∅ → .array ∈ kw.declaredTypes
  branches : ∀ entry ∈ [("anyOf", kw.anyOf), ("oneOf", kw.oneOf), ("allOf", kw.allOf)],
    Option.Rel (fun raw branches => ∃ bs, raw = .arr bs ∧ bs ≠ [] ∧
      List.Forall₂ (fun b s => normalizeSchema b = .ok s) bs branches)
    (members.lookup entry.1) entry.2
  enum : Option.Rel (fun raw values => readEnum raw = .ok values) (members.lookup "enum") kw.enum
  const : members.lookup "const" = kw.const
  title : members.lookup "title" = kw.title
  description : members.lookup "description" = kw.description
  default : members.lookup "default" = kw.default
  literals : checkLiterals kw = .ok ()

section Readers

variable {n : ℕ} {raw : JsonBelow n} {declared : Finset JsonType}

lemma mapM_attach_eq_ok {α β : Type} (f : α → Except PyError β) (xs : List α) {ys : List β} :
    xs.attach.mapM (fun x => f x.1) = .ok ys ↔ List.Forall₂ (fun x y => f x = .ok y) xs ys := by
  have hmap : xs.attach.mapM (fun x => f x.1) = (xs.attach.map Subtype.val).mapM f := by
    rw [List.mapM_map]
    rfl
  rw [hmap, List.attach_map_subtype_val, Raising.mapM_eq_ok]

lemma readProperties_eq_ok {properties : List (String × Schema)} :
    readProperties (fun v : JsonBelow n => normalizeSchema v.1) declared raw = .ok properties ↔
      (∃ d, raw.1 = .obj d ∧
        List.Forall₂ (fun e p => p.1 = e.1 ∧ normalizeSchema e.2 = .ok p.2) (Dict.items d)
          properties) ∧ (declared ≠ ∅ → .object ∈ declared) := by
  rcases raw with ⟨raw, hraw⟩
  cases raw with
  | obj d =>
    have hentry : ∀ ps, (Dict.items d).attach.mapM (fun e => do
        pure (e.1.1, ← normalizeSchema e.1.2)) = .ok ps ↔
          List.Forall₂ (fun e p => p.1 = e.1 ∧ normalizeSchema e.2 = .ok p.2) (Dict.items d) ps := by
      intro ps
      rw [mapM_attach_eq_ok (fun e : String × Json => do
        pure (e.1, ← normalizeSchema e.2)) (Dict.items d)]
      have hrel : (fun (e : String × Json) (p : String × Schema) =>
          (do pure (e.1, ← normalizeSchema e.2) : Except PyError (String × Schema)) = .ok p) =
            fun e p => p.1 = e.1 ∧ normalizeSchema e.2 = .ok p.2 := by
        funext e p
        rcases p with ⟨name, s⟩
        rw [eq_iff_iff, Raising.bind_eq_ok]
        constructor
        · rintro ⟨t, ht, heq⟩
          cases heq
          exact ⟨rfl, ht⟩
        · rintro ⟨rfl, hs⟩
          exact ⟨s, hs, rfl⟩
      rw [hrel]
    simp only [readProperties, Raising.bind_eq_ok, Raising.raiseIf_eq_ok, Raising.pure_eq_ok,
      Json.obj.injEq, exists_eq_left', not_and, not_not]
    constructor
    · rintro ⟨ps, hps, -, hdeclared, rfl⟩
      exact ⟨(hentry ps).mp hps, hdeclared⟩
    · rintro ⟨hps, hdeclared⟩
      exact ⟨properties, (hentry properties).mpr hps, (), hdeclared, rfl⟩
  | _ => simp [readProperties]

lemma readAdditional_eq_ok {extra : Option Schema} :
    readAdditional (fun v : JsonBelow n => normalizeSchema v.1) raw = .ok extra ↔
      (raw.1 = .bool true ∧ extra = none) ∨
        (raw.1 ≠ .bool true ∧ ∃ s, normalizeSchema raw.1 = .ok s ∧ extra = some s) := by
  rcases raw with ⟨raw, hraw⟩
  unfold readAdditional
  split
  case h_1 heq =>
    dsimp only at heq
    subst heq
    rw [Raising.pure_eq_ok]
    simp [eq_comm]
  case h_2 hne =>
    simp only [Raising.map_eq_ok]
    constructor
    · rintro ⟨s, hs, rfl⟩
      exact Or.inr ⟨hne, s, hs, rfl⟩
    · rintro (⟨heq, -⟩ | ⟨-, s, hs, rfl⟩)
      · exact absurd heq hne
      · exact ⟨s, hs, rfl⟩

lemma readItems_eq_ok {item : Schema} :
    readItems (fun v : JsonBelow n => normalizeSchema v.1) declared raw = .ok item ↔
      normalizeSchema raw.1 = .ok item ∧ (declared ≠ ∅ → .array ∈ declared) := by
  simp only [readItems, Raising.bind_eq_ok, Raising.raiseIf_eq_ok, Raising.pure_eq_ok, not_and,
    not_not]
  constructor
  · rintro ⟨s, hs, -, hdeclared, rfl⟩
    exact ⟨hs, hdeclared⟩
  · rintro ⟨hs, hdeclared⟩
    exact ⟨item, hs, (), hdeclared, rfl⟩

lemma readBranches_eq_ok {keyword : String} {branches : List Schema} :
    readBranches (fun v : JsonBelow n => normalizeSchema v.1) keyword raw = .ok branches ↔
      ∃ bs, raw.1 = .arr bs ∧ bs ≠ [] ∧
        List.Forall₂ (fun b s => normalizeSchema b = .ok s) bs branches := by
  rcases raw with ⟨raw, hraw⟩
  cases raw with
  | arr bs =>
    cases bs with
    | nil => simp [readBranches]
    | cons b bs =>
      simp only [readBranches, mapM_attach_eq_ok normalizeSchema, Json.arr.injEq, exists_eq_left', ne_eq,
        List.cons_ne_nil, not_false_iff, true_and]
  | _ => simp [readBranches]

/-- Reading an optional member is reading its document. -/
lemma rel_readMember {α : Type} {members : List (String × Json)} {keyword : String}
    {r : Json → α → Prop} {o : Option α} :
    Option.Rel (fun raw a => r raw.1 a) (readMember members keyword) o ↔
      Option.Rel r (members.lookup keyword) o := by
  rw [← readMember_map_val]
  have hmap := Related.rel_map (r := r) (f := Subtype.val) (g := id) (o := readMember members keyword)
    (p := o)
  rw [Option.map_id, id_eq] at hmap
  exact hmap.symm

lemma rel_and_const {α β : Type} {r : α → β → Prop} {c : Prop} {o : Option α} {p : Option β} :
    Option.Rel (fun a b => r a b ∧ c) o p ↔ Option.Rel r o p ∧ (p.isSome → c) := by
  constructor
  · intro h
    cases h with
    | none => exact ⟨.none, by simp⟩
    | some h => exact ⟨.some h.1, fun _ => h.2⟩
  · rintro ⟨h, hc⟩
    cases h with
    | none => exact .none
    | some h => exact .some ⟨h, hc rfl⟩

end Readers

/-- The specification of `normalize_schema` on object documents. -/
theorem normalizeSchema_obj_eq_ok {members : List (String × Json)} {s : Schema} :
    normalizeSchema (.obj members) = .ok s ↔ ∃ kw, s = .object kw ∧ ReadAs members kw := by
  rw [normalizeSchema.eq_def]
  simp only [Raising.bind_eq_ok, Raising.raiseIf_eq_ok, Raising.pure_eq_ok, not_not,
    Raising.option_mapM_eq_ok, readProperties_eq_ok, readAdditional_eq_ok, readItems_eq_ok,
    readBranches_eq_ok, rel_and_const]
  constructor
  · rintro ⟨-, hknown, types, htypes, properties, ⟨hproperties, hobject⟩, required, hrequired,
      additional, hadditional, items, ⟨hitems, harray⟩, anyOf, hany, oneOf, hone, allOf, hall, enum,
      henum, ⟨⟩, hliterals, rfl⟩
    refine ⟨_, rfl, ?_, htypes, rel_readMember.mp hproperties, hobject, hrequired,
      rel_readMember.mp hadditional, rel_readMember.mp hitems, harray, ?_, henum, rfl, rfl, rfl, rfl,
      hliterals⟩
    · intro keyword hkeyword
      have hkey := List.filter_eq_nil_iff.mp hknown keyword (Dict.mem_keys.mpr hkeyword)
      simpa using hkey
    · simp only [List.forall_mem_cons, List.not_mem_nil, false_imp_iff, implies_true, and_true]
      exact ⟨rel_readMember.mp hany, rel_readMember.mp hone, rel_readMember.mp hall⟩
  · rintro ⟨kw, rfl, h⟩
    have hbranches := h.branches
    simp only [List.forall_mem_cons, List.not_mem_nil, false_imp_iff, implies_true, and_true]
      at hbranches
    refine ⟨(), ?_, kw.type, h.type, kw.properties, ⟨rel_readMember.mpr h.properties, h.objectType⟩,
      kw.required, h.required, kw.additionalProperties, rel_readMember.mpr h.additional, kw.items,
      ⟨rel_readMember.mpr h.items, h.arrayType⟩, kw.anyOf, rel_readMember.mpr hbranches.1, kw.oneOf,
      rel_readMember.mpr hbranches.2.1, kw.allOf, rel_readMember.mpr hbranches.2.2, kw.enum, h.enum,
      (), ?_, ?_⟩
    · refine List.filter_eq_nil_iff.mpr fun keyword hkeyword => ?_
      simpa using h.known keyword (Dict.mem_keys.mp hkeyword)
    · rw [h.const, h.title, h.description, h.default]
      exact h.literals
    · rw [h.const, h.title, h.description, h.default]

section Documents

lemma readTypes_encodeTypes {types other : List JsonType} :
    readTypes (encodeTypes types) = .ok other ↔ other = types ∧ types ≠ [] ∧ types.Nodup := by
  have hentries : listedTypes (encodeTypes types) = Json.arr (types.map fun t => .str t.name) := by
    rcases types with _ | ⟨t, _ | ⟨u, ts⟩⟩ <;> rfl
  have hnames : (types.map fun t => Json.str t.name).mapM (fun entry => do
      (← readTypeName entry).elim (throw typeMalformed) pure) = .ok types := by
    rw [Raising.mapM_eq_ok, List.forall₂_map_left_iff, List.forall₂_same]
    intro t _
    simp [readTypeName, pure, Except.pure]
  rw [readTypes, hentries]
  simp only [asEntries, Raising.bind_eq_ok, Raising.raiseIf_eq_ok, Raising.pure_eq_ok,
    exists_eq_left', hnames, Except.ok.injEq, List.isEmpty_iff, List.map_eq_nil_iff, not_not]
  constructor
  · rintro ⟨-, hne, -, hnodup, rfl⟩
    exact ⟨rfl, hne, hnodup⟩
  · rintro ⟨rfl, hne, hnodup⟩
    exact ⟨(), hne, (), hnodup, rfl⟩

lemma readRequired_encode {names other : List String} :
    readRequired (.arr (names.map .str)) = .ok other ↔ other = names ∧ names.Nodup := by
  have hnames : (names.map Json.str).mapM asName = .ok names := by
    rw [Raising.mapM_eq_ok, List.forall₂_map_left_iff, List.forall₂_same]
    intro name _
    rfl
  simp only [readRequired, asEntries, Raising.bind_eq_ok, Raising.raiseIf_eq_ok,
    Raising.pure_eq_ok, exists_eq_left', hnames, Except.ok.injEq, not_not]
  constructor
  · rintro ⟨-, hnodup, rfl⟩
    exact ⟨rfl, hnodup⟩
  · rintro ⟨rfl, hnodup⟩
    exact ⟨(), hnodup, rfl⟩

lemma readEnum_encode {values other : List Json} :
    readEnum (.arr values) = .ok other ↔ other = values ∧ values ≠ [] ∧
      values.Pairwise fun prior value => ¬jsonValuesEqual value prior = true := by
  simp only [readEnum, asEntries, Raising.bind_eq_ok, Raising.raiseIf_eq_ok, Raising.pure_eq_ok,
    exists_eq_left', List.isEmpty_iff, not_not]
  constructor
  · rintro ⟨-, hne, -, hunique, rfl⟩
    exact ⟨rfl, hne, hunique⟩
  · rintro ⟨rfl, hne, hunique⟩
    exact ⟨(), hne, (), hunique, rfl⟩

lemma readTypes_ok {raw : Json} {types : List JsonType} (h : readTypes raw = .ok types) :
    types ≠ [] ∧ types.Nodup := by
  simp only [readTypes, Raising.bind_eq_ok, Raising.raiseIf_eq_ok, Raising.pure_eq_ok,
    not_not] at h
  obtain ⟨entries, -, -, hne, names, hnames, -, hnodup, rfl⟩ := h
  refine ⟨?_, hnodup⟩
  rintro rfl
  have hlength := (Raising.mapM_eq_ok.mp hnames).length_eq
  exact hne (List.isEmpty_iff.mpr (List.eq_nil_of_length_eq_zero hlength))

lemma readRequired_ok {raw : Json} {names : List String} (h : readRequired raw = .ok names) :
    names.Nodup := by
  simp only [readRequired, Raising.bind_eq_ok, Raising.raiseIf_eq_ok, Raising.pure_eq_ok,
    not_not] at h
  obtain ⟨entries, -, names, -, -, hnodup, rfl⟩ := h
  exact hnodup

lemma readEnum_ok {raw : Json} {values : List Json} (h : readEnum raw = .ok values) :
    raw = .arr values := by
  simp only [readEnum, Raising.bind_eq_ok, Raising.raiseIf_eq_ok, Raising.pure_eq_ok] at h
  obtain ⟨entries, hentries, -, -, -, -, rfl⟩ := h
  cases raw <;> simp_all [asEntries]

end Documents

section NormalForm

/-- A schema object a normalization can return, up to its children. -/
structure Keywords.WellFormed (kw : Keywords Schema) : Prop where
  type : ∀ types, kw.type = some types → types ≠ [] ∧ types.Nodup
  properties : ∀ d, kw.properties = some d → Dict.items d = d
  objectType : kw.properties.isSome → kw.declaredTypes ≠ ∅ → .object ∈ kw.declaredTypes
  required : ∀ names, kw.required = some names → names.Nodup
  arrayType : kw.items.isSome → kw.declaredTypes ≠ ∅ → .array ∈ kw.declaredTypes
  branches : ∀ branches ∈ [kw.anyOf, kw.oneOf, kw.allOf], branches ≠ some []
  enum : ∀ values, kw.enum = some values → values ≠ [] ∧
    values.Pairwise fun prior value => ¬jsonValuesEqual value prior = true
  literals : checkLiterals kw = .ok ()

/-- Every schema object below is well formed. -/
def Schema.Normal : Schema → Prop
  | .never => True
  | .object kw => kw.WellFormed ∧ ∀ s : {s // s ∈ kw.children}, s.1.Normal
termination_by s => sizeOf s
decreasing_by exact Schema.sizeOf_lt_object s.2

lemma Schema.normal_never : Schema.never.Normal := by
  rw [Normal]
  trivial

lemma Schema.normal_object {kw : Keywords Schema} :
    (Schema.object kw).Normal ↔ kw.WellFormed ∧ ∀ s ∈ kw.children, s.Normal := by
  rw [Normal, Subtype.forall]

lemma wildcard_normal : Schema.wildcard.Normal := by
  refine Schema.normal_object.mpr ⟨⟨?_, ?_, ?_, ?_, ?_, ?_, ?_, rfl⟩, ?_⟩
  all_goals simp [Keywords.children, Keywords.propertyMap, Keywords.extra]

/-- Related entries have the same keys. -/
lemma map_fst_of_forall₂ {α β : Type} {r : String × α → String × β → Prop}
    {d : List (String × α)} {e : List (String × β)}
    (h : List.Forall₂ (fun a b => b.1 = a.1 ∧ r a b) d e) : e.map Prod.fst = d.map Prod.fst := by
  induction h with
  | nil => rfl
  | cons hab _ ih => rw [List.map_cons, List.map_cons, hab.1, ih]

lemma ReadAs.wellFormed {members : List (String × Json)} {kw : Keywords Schema}
    (h : ReadAs members kw) : kw.WellFormed := by
  refine ⟨?_, ?_, h.objectType, ?_, h.arrayType, ?_, ?_, h.literals⟩
  · intro types htypes
    have hrel := h.type
    rw [htypes] at hrel
    obtain ⟨raw, -, hread⟩ := Related.exists_of_rel_some hrel
    exact readTypes_ok hread
  · intro d hd
    have hrel := h.properties
    rw [hd] at hrel
    obtain ⟨raw, -, e, rfl, hread⟩ := Related.exists_of_rel_some hrel
    refine Dict.items_of_nodup ?_
    rw [map_fst_of_forall₂ hread]
    exact Dict.nodup_keys e
  · intro names hnames
    have hrel := h.required
    rw [hnames] at hrel
    obtain ⟨raw, -, hread⟩ := Related.exists_of_rel_some hrel
    exact readRequired_ok hread
  · intro branches hbranches hempty
    obtain ⟨entry, hentry, rfl⟩ : ∃ entry ∈ [("anyOf", kw.anyOf), ("oneOf", kw.oneOf),
        ("allOf", kw.allOf)], entry.2 = branches := by
      simpa [eq_comm] using hbranches
    have hrel := h.branches entry hentry
    rw [hempty] at hrel
    obtain ⟨raw, -, bs, -, hne, hread⟩ := Related.exists_of_rel_some hrel
    exact hne (List.eq_nil_of_length_eq_zero hread.length_eq)
  · intro values hvalues
    have hrel := h.enum
    rw [hvalues] at hrel
    obtain ⟨raw, -, hread⟩ := Related.exists_of_rel_some hrel
    rw [readEnum_ok hread] at hread
    exact (readEnum_encode.mp hread).2

/-- Every child of a schema object was read from a smaller document. -/
lemma ReadAs.exists_document {members : List (String × Json)} {kw : Keywords Schema}
    (h : ReadAs members kw) : ∀ s ∈ kw.children, ∃ raw,
      sizeOf raw < sizeOf (Json.obj members) ∧ normalizeSchema raw = .ok s := by
  refine Keywords.forall_children ?_ ?_ ?_ ?_
  · intro d hd p hp
    have hrel := h.properties
    rw [hd] at hrel
    obtain ⟨raw, hraw, e, rfl, hread⟩ := Related.exists_of_rel_some hrel
    obtain ⟨entry, hentry, -, hnormal⟩ := Related.exists_mem_left hread hp
    exact ⟨entry.2, (Json.sizeOf_lt_obj hentry).trans (Json.sizeOf_lt_lookup hraw), hnormal⟩
  · intro s hs
    have hrel := h.additional
    rw [hs] at hrel
    obtain ⟨raw, hraw, ⟨-, habsurd⟩ | ⟨-, t, hread, heq⟩⟩ := Related.exists_of_rel_some hrel
    · cases habsurd
    · cases heq
      exact ⟨raw, Json.sizeOf_lt_lookup hraw, hread⟩
  · intro s hs
    have hrel := h.items
    rw [hs] at hrel
    obtain ⟨raw, hraw, hread⟩ := Related.exists_of_rel_some hrel
    exact ⟨raw, Json.sizeOf_lt_lookup hraw, hread⟩
  · intro branches hbranches bs hbs s hs
    obtain ⟨entry, hentry, rfl⟩ : ∃ entry ∈ [("anyOf", kw.anyOf), ("oneOf", kw.oneOf),
        ("allOf", kw.allOf)], entry.2 = branches := by
      simpa [eq_comm] using hbranches
    have hrel := h.branches entry hentry
    rw [hbs] at hrel
    obtain ⟨raw, hraw, docs, rfl, -, hread⟩ := Related.exists_of_rel_some hrel
    obtain ⟨doc, hdoc, hnormal⟩ := Related.exists_mem_left hread hs
    exact ⟨doc, (Json.sizeOf_lt_arr hdoc).trans (Json.sizeOf_lt_lookup hraw), hnormal⟩

/-- Normalization only returns normal forms. -/
theorem normalizeSchema_normal {value : Json} {s : Schema} (h : normalizeSchema value = .ok s) :
    s.Normal := by
  induction hn : sizeOf value using Nat.strong_induction_on generalizing value s with
  | _ n ih =>
    subst hn
    cases value with
    | bool b =>
      cases b with
      | true =>
        have hs : Schema.wildcard = s := by simpa [normalizeSchema] using h
        exact hs ▸ wildcard_normal
      | false =>
        have hs : Schema.never = s := by simpa [normalizeSchema] using h
        exact hs ▸ Schema.normal_never
    | obj members =>
      obtain ⟨kw, rfl, hread⟩ := normalizeSchema_obj_eq_ok.mp h
      refine Schema.normal_object.mpr ⟨hread.wellFormed, fun s hs => ?_⟩
      obtain ⟨raw, hlt, hraw⟩ := hread.exists_document s hs
      exact ih _ hlt hraw rfl
    | _ => simp [normalizeSchema] at h

lemma Keywords.known_members {kw : Keywords Schema} {keyword : String}
    (h : (kw.members.lookup keyword).isSome) : keyword ∈ schemaKeys := by
  rw [lookup_members] at h
  have hsome : ((kw.map Schema.toJson).spellings.lookup keyword).isSome := by
    cases hl : (kw.map Schema.toJson).spellings.lookup keyword with
    | none => simp [hl] at h
    | some _ => rfl
  obtain ⟨v, hv⟩ := Dict.lookup_isSome_iff.mp hsome
  have hmem : keyword ∈ (kw.map Schema.toJson).spellings.map Prod.fst :=
    List.mem_map.mpr ⟨_, hv, rfl⟩
  simpa [spellings, schemaKeys] using hmem

lemma Schema.toJson_eq_true_iff (s : Schema) : s.toJson ≠ .bool true := by
  intro h
  have hne := s.toJson_ne_true
  simp [h] at hne

lemma rel_map_left {α β γ : Type} {r : β → γ → Prop} {f : α → β} {o : Option α} {p : Option γ} :
    Option.Rel r (o.map f) p ↔ Option.Rel (fun a c => r (f a) c) o p := by
  have hmap := Related.rel_map (r := r) (f := f) (g := id) (o := o) (p := p)
  rwa [Option.map_id, id_eq] at hmap

lemma rel_self {α : Type} {r : α → α → Prop} {o : Option α} (h : ∀ a, o = some a → r a a) :
    Option.Rel r o o := by
  cases o with
  | none => exact .none
  | some a => exact .some (h a rfl)

/-- A schema in normal form is read back from its own document. -/
theorem normalizeSchema_toJson {s : Schema} (h : s.Normal) : normalizeSchema s.toJson = .ok s := by
  induction s using Schema.childInduction with
  | never => rw [Schema.toJson_never, normalizeSchema]; rfl
  | object kw ih =>
    obtain ⟨hwell, hchildren⟩ := Schema.normal_object.mp h
    have hread : ∀ s ∈ kw.children, normalizeSchema s.toJson = .ok s :=
      fun s hs => ih s hs (hchildren s hs)
    rw [Schema.toJson_object]
    refine normalizeSchema_obj_eq_ok.mpr ⟨kw, rfl, ?_⟩
    obtain ⟨hconst, htitle, hdescription, hdefault⟩ := kw.members_annotations
    refine ⟨fun _ => Keywords.known_members, ?_, ?_, hwell.objectType, ?_, ?_, ?_, hwell.arrayType,
      ?_, ?_, hconst, htitle, hdescription, hdefault, hwell.literals⟩
    · rw [Keywords.members_type, rel_map_left]
      exact rel_self fun types htypes => readTypes_encodeTypes.mpr ⟨rfl, hwell.type types htypes⟩
    · rw [Keywords.members_properties, rel_map_left]
      refine rel_self fun d hd => ⟨_, rfl, ?_⟩
      rw [Dict.items_mapValues, hwell.properties d hd, Dict.mapValues, List.forall₂_map_left_iff,
        List.forall₂_same]
      exact fun e he => ⟨rfl, hread e.2 (Keywords.mem_children_property hd he)⟩
    · rw [Keywords.members_required, rel_map_left]
      exact rel_self fun names hnames => readRequired_encode.mpr ⟨rfl, hwell.required names hnames⟩
    · rw [Keywords.members_additionalProperties, rel_map_left]
      refine rel_self fun extra hextra => ?_
      cases extra with
      | none => exact Or.inl ⟨rfl, rfl⟩
      | some s =>
        have hs := hread s (Keywords.mem_children_additional hextra)
        exact Or.inr ⟨s.toJson_eq_true_iff, s, hs, rfl⟩
    · rw [Keywords.members_items, rel_map_left]
      exact rel_self fun s hs => hread s (Keywords.mem_children_items hs)
    · intro entry hentry
      rw [kw.members_branches entry hentry, rel_map_left]
      have hmem : entry.2 ∈ [kw.anyOf, kw.oneOf, kw.allOf] :=
        List.mem_map_of_mem (f := Prod.snd) hentry
      refine rel_self fun bs hbs => ⟨_, rfl, ?_, ?_⟩
      · intro hnil
        rw [List.map_eq_nil_iff] at hnil
        subst hnil
        exact hwell.branches entry.2 hmem hbs
      · rw [List.forall₂_map_left_iff, List.forall₂_same]
        exact fun s hs => hread s (Keywords.mem_children_branches hmem hbs hs)
    · rw [Keywords.members_enum, rel_map_left]
      exact rel_self fun values hvalues => readEnum_encode.mpr ⟨rfl, hwell.enum values hvalues⟩

/-- What is read back from a schema document corresponds to the schema, keyword by keyword. -/
lemma ReadAs.matches {kw other : Keywords Schema} (h : ReadAs kw.members other) :
    kw.Matches (fun s t => normalizeSchema s.toJson = .ok t) other := by
  have hbranches : ∀ {keyword : String} {bs cs : Option (List Schema)},
      kw.members.lookup keyword = bs.map (fun b => .arr (b.map Schema.toJson)) →
      Option.Rel (fun raw branches => ∃ bs, raw = .arr bs ∧ bs ≠ [] ∧
        List.Forall₂ (fun b s => normalizeSchema b = .ok s) bs branches)
          (kw.members.lookup keyword) cs →
      Option.Rel (List.Forall₂ fun s t => normalizeSchema s.toJson = .ok t) bs cs := by
    intro keyword bs cs hspelled hread
    rw [hspelled, rel_map_left] at hread
    refine Related.rel_mono (fun b c hbc => ?_) hread
    obtain ⟨docs, heq, -, hdocs⟩ := hbc
    cases heq
    rwa [List.forall₂_map_left_iff] at hdocs
  have hspelled := kw.members_branches
  have hread := h.branches
  simp only [List.forall_mem_cons, List.not_mem_nil, false_imp_iff, implies_true, and_true]
    at hspelled hread
  have hany := hbranches hspelled.1 hread.1
  have hone := hbranches hspelled.2.1 hread.2.1
  have hall := hbranches hspelled.2.2 hread.2.2
  refine ⟨?_, ?_, ?_, ?_, ?_, ?_, ?_, ?_, hall⟩
  · have htype := h.type
    rw [Keywords.members_type, rel_map_left] at htype
    exact Related.eq_of_rel_eq
      (Related.rel_mono (fun a b hab => (readTypes_encodeTypes.mp hab).1.symm) htype)
  · have hrequired := h.required
    rw [Keywords.members_required, rel_map_left] at hrequired
    exact Related.eq_of_rel_eq
      (Related.rel_mono (fun a b hab => (readRequired_encode.mp hab).1.symm) hrequired)
  · have hproperties := h.properties
    rw [Keywords.members_properties, rel_map_left] at hproperties
    refine Related.rel_mono (fun d e hde name => ?_) hproperties
    obtain ⟨doc, heq, hentries⟩ := hde
    cases heq
    rw [Dict.items_mapValues, Dict.mapValues, List.forall₂_map_left_iff] at hentries
    rw [← Dict.lookup_items d]
    exact Dict.rel_lookup (r := fun (s t : Schema) => normalizeSchema s.toJson = .ok t) hentries name
  · have hadditional := h.additional
    rw [Keywords.members_additionalProperties, rel_map_left] at hadditional
    unfold Keywords.extra
    generalize kw.additionalProperties = left at hadditional
    generalize other.additionalProperties = right at hadditional
    cases hadditional with
    | none => exact .none
    | @some left right hlr =>
      cases left with
      | none =>
        rcases hlr with ⟨-, rfl⟩ | ⟨hne, -⟩
        · exact .none
        · exact absurd rfl hne
      | some s =>
        rcases hlr with ⟨htrue, -⟩ | ⟨-, t, hst, rfl⟩
        · exact absurd htrue s.toJson_eq_true_iff
        · exact .some hst
  · have hitems := h.items
    rwa [Keywords.members_items, rel_map_left] at hitems
  · have henum := h.enum
    rw [Keywords.members_enum, rel_map_left] at henum
    refine Related.rel_mono (fun a b hab => ?_) henum
    rw [(readEnum_encode.mp hab).1, List.forall₂_same]
    exact fun v _ => jsonValuesEqual_refl v
  · rw [← h.const, kw.members_annotations.1]
    exact rel_self fun v _ => jsonValuesEqual_refl v
  · rintro (_ | _)
    · exact hany
    · exact hone

/-- Normalizing a schema again keeps its meaning. -/
theorem accepts_of_normalizeSchema_toJson {s t : Schema} (h : normalizeSchema s.toJson = .ok t)
    (v : Json) : s.Accepts v ↔ t.Accepts v := by
  induction s using Schema.childInduction generalizing t v with
  | never =>
    rw [Schema.toJson_never, normalizeSchema] at h
    cases h
    rfl
  | object kw ih =>
    rw [Schema.toJson_object] at h
    obtain ⟨other, rfl, hread⟩ := normalizeSchema_obj_eq_ok.mp h
    rw [Schema.accepts_object, Schema.accepts_object]
    constructor
    · exact hread.matches.admits fun s hs t _ hst w => ih s hs hst w
    · exact hread.matches.symm.admits fun t _ s hs hst w => (ih s hs hst w).symm

end NormalForm

end TradeFramework
