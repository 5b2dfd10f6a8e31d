import TradeFramework.Data.CompatibilityRaises

/-!
# Schemas that always compare

A comparison answers if every required member has a schema on both sides and no branch of the required
schema is `False`: both are read off the two schemas, and every comparison that theirs comes to keeps them.
-/

namespace TradeFramework

section Conditions

/-- A property of all schema objects of a schema. -/
inductive Schema.Throughout (p : Keywords Schema → Prop) : Schema → Prop
  | never : Throughout p .never
  | object {kw : Keywords Schema} (here : p kw) (below : ∀ s ∈ kw.children, Throughout p s) :
      Throughout p (.object kw)

/-- Every required member is listed, or the additional members are closed or have a schema. -/
def Keywords.MembersTyped (kw : Keywords Schema) : Prop :=
  ∀ name ∈ kw.requiredNames, (kw.child name).isSome

/-- No branch of a composition keyword is `False`. -/
def Keywords.BranchesLive (kw : Keywords Schema) : Prop :=
  Schema.never ∉ kw.allOf.getD [] ∧ ∀ u ∈ kw.unions, Schema.never ∉ u.2

/-- Fit to be provided: every required member has a schema. -/
abbrev Schema.Provided (s : Schema) : Prop := s.Throughout Keywords.MembersTyped

/-- Fit to be required: every required member has a schema, and no branch is `False`. -/
abbrev Schema.Required (s : Schema) : Prop :=
  s.Throughout fun kw => kw.MembersTyped ∧ kw.BranchesLive

variable {p : Keywords Schema → Prop} {kw : Keywords Schema}

lemma Schema.throughout_object :
    (Schema.object kw).Throughout p ↔ p kw ∧ ∀ s ∈ kw.children, s.Throughout p := by
  constructor
  · intro h
    cases h with
    | object here below => exact ⟨here, below⟩
  · rintro ⟨here, below⟩
    exact .object here below

/-- What holds of the atoms of a context and of the branches of its unions. -/
structure SchemaContext.Holds (q : Schema → Prop) (ctx : SchemaContext) : Prop where
  atoms : ∀ a ∈ ctx.atoms, q a
  unions : ∀ u ∈ ctx.unions, ∀ b ∈ u.2, q b

/-- What a schema object passes on to its base and its branches holds of its context. -/
lemma SchemaContext.holds_flatten {own : Keywords Schema → SchemaContext} {q : Schema → Prop}
    (hbase : ∀ kw, q (.object kw) → (own kw.base).Holds q)
    (hallOf : ∀ kw, q (.object kw) → ∀ b ∈ kw.allOf.getD [], q b)
    (hunions : ∀ kw, q (.object kw) → ∀ u ∈ kw.unions, ∀ b ∈ u.2, q b) {s : Schema} (h : q s) :
    (flatten own s).Holds q := by
  induction s using Schema.childInduction with
  | never =>
    rw [flatten_never]
    exact ⟨by simpa using h, by simp⟩
  | object kw ih =>
    have hbranch : ∀ c ∈ (kw.allOf.getD []).map (flatten own), c.Holds q := by
      intro c hc
      obtain ⟨b, hb, rfl⟩ := List.mem_map.mp hc
      exact ih b (Keywords.mem_children_getD_allOf hb) (hallOf kw h b hb)
    rw [flatten_object]
    refine ⟨fun a ha => ?_, fun u hu => ?_⟩
    · rcases List.mem_append.mp ha with ha | ha
      · exact (hbase kw h).atoms a ha
      · obtain ⟨c, hc, ha⟩ := List.mem_flatMap.mp ha
        exact (hbranch c hc).atoms a ha
    · rcases List.mem_append.mp hu with hu | hu
      · rcases List.mem_append.mp hu with hu | hu
        · exact (hbase kw h).unions u hu
        · obtain ⟨c, hc, hu⟩ := List.mem_flatMap.mp hu
          exact (hbranch c hc).unions u hu
      · exact hunions kw h u hu

lemma Keywords.mem_children_of_unions {u : UnionKeyword × List Schema} (hu : u ∈ kw.unions) {b : Schema}
    (hb : b ∈ u.2) : b ∈ kw.children :=
  mem_children_union (Keywords.mem_unions.mp hu) hb

/-- The children of a base are those that no composition keyword lists. -/
lemma Keywords.children_base_subset : kw.base.children ⊆ kw.children := by
  intro s hs
  have hparts : kw.base.children = kw.propertyMap.map Prod.snd ++ kw.extra.toList ++ kw.items.toList := by
    simp [children, base, propertyMap, extra]
  rw [hparts] at hs
  simp only [children, List.mem_append] at hs ⊢
  tauto

/-- The source context of a schema that is fit to be provided. -/
lemma Schema.Provided.sourceContext {s : Schema} (h : s.Provided) :
    (sourceContext s).Holds Schema.Provided := by
  refine SchemaContext.holds_flatten (fun kw h => ?_) (fun kw h b hb => ?_) (fun kw h u hu b hb => ?_) h
  · obtain ⟨here, below⟩ := Schema.throughout_object.mp h
    have hbase : ∀ types, (Schema.object { kw.base with type := types }).Provided :=
      fun types => .object here fun s hs => below s (Keywords.children_base_subset hs)
    unfold SchemaContext.ofSource
    split
    · refine ⟨?_, ?_⟩
      · have hwildcard : Schema.wildcard.Provided := .object (by simp [Keywords.MembersTyped,
          Keywords.requiredNames]) (by simp [Keywords.children, Keywords.propertyMap, Keywords.extra])
        simpa using hwildcard
      · simp only [List.mem_singleton, forall_eq, List.mem_map]
        rintro b ⟨t, -, rfl⟩
        exact hbase _
    · exact ⟨by simpa using hbase kw.base.type, by simp⟩
  · exact (Schema.throughout_object.mp h).2 b (Keywords.mem_children_getD_allOf hb)
  · exact (Schema.throughout_object.mp h).2 b (Keywords.mem_children_of_unions hu hb)

/-- The target context of a schema that is fit to be required, and not `False`. -/
lemma Schema.Required.targetContext {s : Schema} (h : s.Required) (hlive : s ≠ .never) :
    (targetContext s).Holds fun s => s.Required ∧ s ≠ .never := by
  refine SchemaContext.holds_flatten (fun kw h => ?_) (fun kw h b hb => ?_) (fun kw h u hu b hb => ?_)
    ⟨h, hlive⟩
  · obtain ⟨⟨htyped, -⟩, below⟩ := Schema.throughout_object.mp h.1
    have hbase : (Schema.object kw.base).Required :=
      .object ⟨htyped, by simp [Keywords.base], by simp [Keywords.unions, Keywords.union, Keywords.base]⟩
        fun s hs => below s (Keywords.children_base_subset hs)
    exact ⟨by simpa [SchemaContext.ofTarget] using hbase, by simp [SchemaContext.ofTarget]⟩
  · obtain ⟨⟨-, hbranches⟩, below⟩ := Schema.throughout_object.mp h.1
    exact ⟨below b (Keywords.mem_children_getD_allOf hb), fun hnever => hbranches.1 (hnever ▸ hb)⟩
  · obtain ⟨⟨-, hbranches⟩, below⟩ := Schema.throughout_object.mp h.1
    exact ⟨below b (Keywords.mem_children_of_unions hu hb), fun hnever => hbranches.2 u hu (hnever ▸ hb)⟩

lemma SchemaContext.Holds.withBranch {ctx : SchemaContext} (h : ctx.Holds Schema.Provided) {b : Schema}
    (hb : b.Provided) : (ctx.withBranch b).Holds Schema.Provided := by
  refine ⟨fun a ha => ?_, hb.sourceContext.unions⟩
  rcases List.mem_append.mp ha with ha | ha
  · exact h.atoms a ha
  · exact hb.sourceContext.atoms a ha

lemma SplitsTo.holds {value : SchemaContext → Except PyError Bool} {ctx : SchemaContext} {b : Schema}
    (h : SplitsTo value ctx b) (hctx : ctx.Holds Schema.Provided) :
    (ctx.withBranch b).Holds Schema.Provided := by
  obtain ⟨u, hu, hb⟩ := h
  exact hctx.withBranch (hctx.unions u hu.mem b hb.mem)

end Conditions

section Answers

/-- Both sides of a comparison are fit for it, and a `False` stands only where it is looked for. -/
def Comparison.Fit : Comparison → Prop
  | .schemas source target => source.Provided ∧ target.Required
  | .bare source target =>
    (∃ s, source = some s ∧ s.Provided) ∧ ∃ t, target = some t ∧ t.Required
  | .schema ctx target => ctx.Holds Schema.Provided ∧ target.Required ∧ target ≠ .never
  | .union ctx _ branches => ctx.Holds Schema.Provided ∧ ∀ b ∈ branches, b.Required ∧ b ≠ .never
  | .atom ctx target => ctx.Holds Schema.Provided ∧ target.Required ∧ target ≠ .never
  | .plain source target => source.Provided ∧ target.Required

lemma Comparison.Fit.not_fails {c : Comparison} (h : c.Fit) : ¬c.Fails := by
  intro hfails
  cases c with
  | bare source target =>
    obtain ⟨⟨s, rfl, -⟩, t, rfl, -⟩ := h
    cases s <;> exact hfails
  | atom ctx target =>
    cases target with
    | never => exact h.2.2 rfl
    | object kw => exact hfails
  | _ => exact hfails

variable {s t : Keywords Schema}

lemma fit_child {name : String} (hs : (Schema.object s).Provided) (ht : (Schema.object t).Required)
    (hprovided : name ∈ s.requiredNames) (hrequired : name ∈ t.requiredNames) :
    (Comparison.bare (s.child name) (t.child name)).Fit := by
  obtain ⟨htyped, hbelow⟩ := Schema.throughout_object.mp hs
  obtain ⟨⟨htyped', -⟩, hbelow'⟩ := Schema.throughout_object.mp ht
  obtain ⟨source, hsource⟩ := Option.isSome_iff_exists.mp (htyped name hprovided)
  obtain ⟨target, htarget⟩ := Option.isSome_iff_exists.mp (htyped' name hrequired)
  exact ⟨⟨source, hsource, hbelow _ (Keywords.mem_children_child hsource)⟩,
    target, htarget, hbelow' _ (Keywords.mem_children_child htarget)⟩

/-- Every comparison that a fit one comes to is fit. -/
lemma Comparison.Fit.comes {c next : Comparison} (h : c.Fit) (hcomes : Comes c next) : next.Fit := by
  cases hcomes with
  | context => exact ⟨h.1.sourceContext, h.2, by simp⟩
  | targetAtom ha => exact ⟨h.1, (h.2.1.targetContext h.2.2).atoms _ ha.mem⟩
  | targetUnion hatoms hu => exact ⟨h.1, (h.2.1.targetContext h.2.2).unions _ hu.mem⟩
  | anyOf hliterals hb => exact ⟨h.1, h.2 _ hb.mem⟩
  | oneOf hliterals hb => exact ⟨h.1, h.2 _ (List.fst_mem_of_mem_zipIdx hb.mem)⟩
  | splitUnion hundecided hsplits => exact ⟨hsplits.holds h.1, h.2⟩
  | sourceAtom hinhabited hliterals ha => exact ⟨h.1.atoms _ ha.mem, h.2.1⟩
  | splitAtom hundecided hsplits => exact ⟨hsplits.holds h.1, h.2⟩
  | required hcompares hobjects hname hprovided => exact fit_child h.1 h.2 hprovided hname.mem
  | listed hcompares hobjects hrequired he htarget =>
    exact ⟨(Schema.throughout_object.mp h.1).2 _ (Keywords.mem_children_item he.mem),
      (Schema.throughout_object.mp h.2).2 _ (Keywords.mem_children_child htarget)⟩
  | unlisted hcompares hobjects hrequired hlisted hsource he hhidden =>
    exact ⟨(Schema.throughout_object.mp h.1).2 _ (Keywords.mem_children_extra hsource),
      (Schema.throughout_object.mp h.2).2 _ (Keywords.mem_children_item he.mem)⟩
  | extra hcompares hobjects hrequired hlisted hunlisted hsource htarget =>
    exact ⟨(Schema.throughout_object.mp h.1).2 _ (Keywords.mem_children_extra hsource),
      (Schema.throughout_object.mp h.2).2 _ (Keywords.mem_children_extra htarget)⟩
  | items hcompares hmembers harrays hsource htarget =>
    exact ⟨(Schema.throughout_object.mp h.1).2 _ (Keywords.mem_children_items hsource),
      (Schema.throughout_object.mp h.2).2 _ (Keywords.mem_children_items htarget)⟩
  | bare =>
    obtain ⟨⟨s, hs, hsource⟩, t, ht, htarget⟩ := h
    cases hs
    cases ht
    exact ⟨hsource, htarget⟩

lemma Comparison.Fit.reaches {c reached : Comparison} (h : c.Fit)
    (hreached : Relation.ReflTransGen Comes c reached) : reached.Fit := by
  induction hreached with
  | refl => exact h
  | tail _ hcomes ih => exact ih.comes hcomes

/-- `schemas_compatible` answers on two schemas whose required members all have schemas, where no branch
of the required schema is `False`. -/
theorem schemasCompatible_answers {provided required : Json} {source target : Schema}
    (hsource : normalizeSchema provided = .ok source) (htarget : normalizeSchema required = .ok target)
    (hprovided : source.Provided) (hrequired : target.Required) :
    ∃ answer, schemasCompatible provided required = .ok answer := by
  have hfit : (Comparison.schemas source target).Fit := ⟨hprovided, hrequired⟩
  have hvalue : schemasCompatible provided required = (Comparison.schemas source target).run := by
    rw [schemasCompatible, hsource, htarget]
    rfl
  rw [hvalue, ← Raising.not_raises_iff, raises_iff_reaches]
  rintro ⟨reached, hreached, hfails⟩
  exact (hfit.reaches hreached).not_fails hfails

end Answers

end TradeFramework
