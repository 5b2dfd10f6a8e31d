import TradeFramework.Contracts.ReducerSound
import TradeFramework.Contracts.SegmentNames

/-!
# Writes name nothing new

A write of the reducer names members by the segments of its path, the names of the written schema and
those of the schema it replaces. So as long as the schemas that are declared and written name members by
DataKey segments, every map the reducer materializes lists only such members.
-/

namespace TradeFramework

section Schemas

variable {path : String} {t : Schema}

lemma segmentNamed_optionalSchemaUnion {left : Option Schema} {right : Schema}
    (h : optionalSchemaUnion left right path = .ok t) (hleft : ∀ s, left = some s → s.SegmentNamed)
    (hright : right.SegmentNamed) : t.SegmentNamed := by
  cases left with
  | none =>
    cases h
    exact hright
  | some left =>
    unfold optionalSchemaUnion at h
    dsimp only at h
    split_ifs at h with hequal
    · cases h
      exact hright
    · simp only [Raising.bind_eq_ok] at h
      obtain ⟨l, hl, r, hr, forward, -, h⟩ := h
      have hlnamed := segmentNamed_normalizeDataKeySchema hl (hleft left rfl)
      have hrnamed := segmentNamed_normalizeDataKeySchema hr hright
      split_ifs at h
      · cases h
        exact hrnamed
      · obtain ⟨backward, -, h⟩ := Raising.bind_eq_ok.mp h
        split_ifs at h
        · cases h
          exact hlnamed
        · have hboth : ∀ s ∈ [l, r], s.SegmentNamed := by simp [hlnamed, hrnamed]
          exact segmentNamed_normalizeDataKeySchema h (segmentNamed_composition hboth (by simp))

lemma segmentNamed_createdPathSchema {parts : List String} {value : Schema}
    (h : createdPathSchema parts value path = .ok t)
    (hparts : ∀ part ∈ parts, isPathSegment part = true) (hvalue : value.SegmentNamed) : t.SegmentNamed := by
  induction parts generalizing path t with
  | nil =>
    cases h
    exact hvalue
  | cons name rest ih =>
    obtain ⟨child, hchild, h⟩ := Raising.bind_eq_ok.mp h
    obtain ⟨hname, hrest⟩ := List.forall_mem_cons.mp hparts
    refine segmentNamed_normalizeDataKeySchema h (segmentNamed_objectSchema ?_ ?_)
    · intro e he
      rw [List.mem_singleton.mp he]
      exact ⟨hname, ih hchild hrest⟩
    · rintro s ⟨⟩
      exact Schema.segmentNamed_never

end Schemas

section Levels

variable {descend : Schema → String → Except PyError Schema} {name path : String} {rest : List String}
  {value t : Schema} {required : Bool} {kw : Keywords Schema}

lemma segmentNamed_oldChild {old : Schema} (hkw : (Schema.object kw).SegmentNamed)
    (h : kw.oldChild name = some old) : old.SegmentNamed := by
  unfold Keywords.oldChild at h
  split at h
  case h_1 s hs =>
    cases h
    exact (hkw.property hs).2
  case h_2 =>
    split at h
    case h_1 =>
      cases h
      exact Schema.segmentNamed_wildcard
    case h_2 => cases h
    case h_3 s _ hs =>
      cases h
      exact hkw.extra hs

/-- What a write needs so that it names nothing new. -/
structure NamedWrite (descend : Schema → String → Except PyError Schema) (name : String)
    (rest : List String) (value : Schema) : Prop where
  segment : isPathSegment name = true
  below : ∀ part ∈ rest, isPathSegment part = true
  value : value.SegmentNamed
  descend : rest ≠ [] → ∀ old new path, descend old path = .ok new → old.SegmentNamed → new.SegmentNamed

lemma segmentNamed_writtenChild (hwrite : NamedWrite descend name rest value)
    (hkw : (Schema.object kw).SegmentNamed)
    (h : writtenChild descend kw name rest value required path = .ok t) : t.SegmentNamed := by
  have hold : ∀ old, kw.oldChild name = some old → old.SegmentNamed := fun _ => segmentNamed_oldChild hkw
  unfold writtenChild at h
  split at h
  case h_1 =>
    split_ifs at h
    · cases h
      exact hwrite.value
    · exact segmentNamed_optionalSchemaUnion h (by simp) hwrite.value
  case h_2 old hname =>
    obtain ⟨-, -, h⟩ := Raising.bind_eq_ok.mp h
    split_ifs at h
    · cases h
      exact hwrite.value
    · refine segmentNamed_optionalSchemaUnion h (fun s hs => ?_) hwrite.value
      exact hold s (hname.trans hs)
  case h_3 => exact segmentNamed_createdPathSchema h hwrite.below hwrite.value
  case h_4 old hne hname =>
    simp only [Raising.bind_eq_ok] at h
    obtain ⟨created, hcreated, updated, hupdated, h⟩ := h
    have hnew := hwrite.descend (fun h => hne h) old updated path hupdated (hold old hname)
    split_ifs at h
    · cases h
      exact hnew
    · refine segmentNamed_optionalSchemaUnion h ?_ ?_
      · rintro s ⟨⟩
        exact hnew
      · exact segmentNamed_createdPathSchema hcreated hwrite.below hwrite.value

lemma segmentNamed_writeObject (hwrite : NamedWrite descend name rest value)
    (hkw : (Schema.object kw).SegmentNamed)
    (h : writeObject descend kw name rest value required path = .ok t) : t.SegmentNamed := by
  unfold writeObject at h
  split_ifs at h
  · exact segmentNamed_normalizeDataKeySchema h hkw
  · obtain ⟨child, hchild, h⟩ := Raising.bind_eq_ok.mp h
    have hnamed := segmentNamed_writtenChild hwrite hkw hchild
    refine segmentNamed_normalizeDataKeySchema h (Schema.segmentNamed_of_keywords ?_ ?_ ?_ ?_)
    · intro k s hs
      by_cases hk : k = name
      · subst hk
        have hsame : child = s := by simpa [Keywords.withProperty, Keywords.propertyMap] using hs
        exact ⟨hwrite.segment, hsame ▸ hnamed⟩
      · refine hkw.property ?_
        have hlookup : (Dict.set kw.propertyMap name child).lookup k = some s := hs
        rwa [Dict.lookup_set_ne _ _ hk] at hlookup
    · exact fun s hs => hkw.extra hs
    · exact (Schema.segmentNamed_object.mp hkw).2.1
    · exact fun s hs => hkw.branch hs

lemma segmentNamed_literalAlternatives {literals : List Json} (h : ∀ c ∈ literals, c.SegmentKeys) :
    (literalAlternatives literals).SegmentNamed := by
  have hschemas : ∀ s ∈ literals.map literalDataKeySchema, s.SegmentNamed :=
    List.forall_mem_map.mpr fun c hc => segmentNamed_literal (h c hc)
  unfold literalAlternatives
  split
  case h_1 s hs => exact hschemas s (by simp [hs])
  case h_2 => exact segmentNamed_composition hschemas (by simp)

/-- A write at one level names nothing new. -/
lemma segmentNamed_writeLevel (hwrite : NamedWrite descend name rest value) {old : Schema}
    (hold : old.SegmentNamed) (h : writeLevel descend name rest value required path old = .ok t) :
    t.SegmentNamed := by
  induction hn : old.compositionRank using Nat.strong_induction_on generalizing old t with
  | _ n ih =>
    subst hn
    rw [writeLevel.eq_def, Raising.bind_eq_ok] at h
    obtain ⟨⟨s, hs⟩, hrenormalized, h⟩ := h
    have hnormalized := renormalizeDataKeySchema_eq_ok hrenormalized
    have hnamed := segmentNamed_normalizeDataKeySchema hnormalized hold
    have hempty : (Schema.object (objectKeywords [] [] (some .never))).SegmentNamed :=
      segmentNamed_objectSchema (by simp) fun s hs => by
        cases hs
        exact Schema.segmentNamed_never
    cases s with
    | never => exact segmentNamed_writeObject hwrite hempty h
    | object kw =>
      dsimp only at h
      split_ifs at h with htypes hobject
      · exact segmentNamed_writeObject hwrite hempty h
      · split at h
        case h_1 literals hliterals =>
          have hrank := (compositionRank_literals_lt hliterals hobject).trans_le hs
          refine ih _ hrank (segmentNamed_literalAlternatives ?_) h rfl
          intro c hc
          refine (Schema.segmentNamed_object.mp hnamed).2.1 c ?_
          unfold Keywords.literals at hliterals
          unfold Keywords.listedLiterals
          cases hconst : kw.const with
          | some literal =>
            rw [hconst] at hliterals
            cases hliterals
            simp [List.mem_singleton.mp hc]
          | none =>
            rw [hconst] at hliterals
            simpa [hliterals] using hc
        case h_2 hliterals =>
          obtain ⟨allOf, hall, h⟩ := Raising.bind_eq_ok.mp h
          obtain ⟨anyOf, hany, h⟩ := Raising.bind_eq_ok.mp h
          obtain ⟨oneOf, hone, h⟩ := Raising.bind_eq_ok.mp h
          have hbranches : ∀ {branches results : Option (List Schema)},
              branches ∈ [kw.anyOf, kw.oneOf, kw.allOf] →
              (branches.attach.mapM fun bs => bs.1.attach.mapM fun b =>
                writeLevel descend name rest value required path b.1) = .ok results →
              ∀ r ∈ results.getD [], r.SegmentNamed := by
            intro branches results hmem hresults r hr
            have hrel := mapM_branches_eq_ok hresults
            cases hrel with
            | none => simp at hr
            | @some bs rs hbs =>
              obtain ⟨b, hb, hbr⟩ := Related.exists_mem_left hbs hr
              have hlt := compositionRank_branch_lt (Keywords.mem_branches hmem rfl hb)
              exact ih _ (hlt.trans_le hs) (hnamed.branch (Keywords.mem_branches hmem rfl hb)) hbr rfl
          refine segmentNamed_writeObject hwrite (Schema.segmentNamed_of_keywords ?_ ?_ ?_ ?_) h
          · exact fun k s hs => hnamed.property hs
          · exact fun s hs => hnamed.extra hs
          · simp [Keywords.listedLiterals, Keywords.written]
          · intro s hs
            simp only [Keywords.branches, Keywords.written, Option.getD_none, List.append_nil,
              List.mem_append] at hs
            rcases hs with hs | hs
            · cases oneOf with
              | none => exact hbranches (by simp) hany s hs
              | some transformed =>
                rcases List.mem_append.mp hs with hs | hs
                · exact hbranches (by simp) hany s hs
                · exact hbranches (by simp) hone s hs
            · exact hbranches (by simp) hall s hs

/-- A nested write names nothing new. -/
lemma segmentNamed_writeNestedSchema {parts : List String} {old : Schema}
    (h : writeNestedSchema value required parts old path = .ok t)
    (hparts : ∀ part ∈ parts, isPathSegment part = true) (hvalue : value.SegmentNamed)
    (hold : old.SegmentNamed) : t.SegmentNamed := by
  induction parts generalizing old path t with
  | nil =>
    cases h
    exact hold
  | cons name rest ih =>
    obtain ⟨hname, hrest⟩ := List.forall_mem_cons.mp hparts
    have hwrite : NamedWrite (writeNestedSchema value required rest) name rest value :=
      ⟨hname, hrest, hvalue, fun _ old new path hnew hold => ih hnew hrest hold⟩
    exact segmentNamed_writeLevel hwrite hold h

end Levels

section Reducer

open ExpandedContractWriteReducer

variable {reducer reducer' : ExpandedContractWriteReducer}

/-- The roots of a contract map name members by DataKey segments. -/
def NamedRoots (contracts : Contracts) : Prop :=
  ∀ root schema, contracts.lookup root = some schema → schema.SegmentNamed

lemma segmentNamed_updatedRoot {path : DataPath} {value updated : Schema} {required : Bool}
    (h : reducer.updatedRoot path value required = .ok updated) (hroots : NamedRoots reducer.rootSchemas)
    (hvalue : value.SegmentNamed) : updated.SegmentNamed := by
  have hrest : ∀ part ∈ path.rest, isPathSegment part = true :=
    fun part hpart => path.valid part (List.mem_cons_of_mem _ hpart)
  unfold updatedRoot at h
  split at h
  case h_1 =>
    cases h
    exact hvalue
  case h_2 schema _ hsome =>
    obtain ⟨-, -, h⟩ := Raising.bind_eq_ok.mp h
    split_ifs at h
    · cases h
      exact hvalue
    · refine segmentNamed_optionalSchemaUnion h (fun s hs => ?_) hvalue
      exact hroots path.root s (hsome.trans hs)
  case h_3 => exact segmentNamed_createdPathSchema h hrest hvalue
  case h_4 schema hsome _ =>
    obtain ⟨written, hwritten, h⟩ := Raising.bind_eq_ok.mp h
    have hnamed := segmentNamed_writeNestedSchema hwritten hrest hvalue (hroots path.root schema hsome)
    split_ifs at h
    · cases h
      exact hnamed
    · obtain ⟨created, hcreated, h⟩ := Raising.bind_eq_ok.mp h
      refine segmentNamed_optionalSchemaUnion h ?_ (segmentNamed_createdPathSchema hcreated hrest hvalue)
      rintro s ⟨⟩
      exact hnamed

/-- A write of a named schema keeps the roots named. -/
lemma apply_namedRoots {write : ContractWrite} (h : reducer.apply write = .ok reducer')
    (hroots : NamedRoots reducer.rootSchemas)
    (hschema : ∀ s, normalizeSchema write.schema = .ok s → s.SegmentNamed) :
    NamedRoots reducer'.rootSchemas := by
  simp only [apply, Raising.bind_eq_ok, Raising.pure_eq_ok] at h
  obtain ⟨path, -, value, hvalue, updated, hupdated, rfl⟩ := h
  have hnamed := segmentNamed_updatedRoot hupdated hroots (hschema value (normalizeDataKeySchema_eq_ok.mp hvalue).1)
  intro root schema hlookup
  dsimp only at hlookup
  rw [lookup_rewritten] at hlookup
  split_ifs at hlookup
  · cases hlookup
    exact hnamed
  · exact hroots root schema hlookup

/-- The roots of an expanded map name members by DataKey segments. -/
def NamedMap (contracts : Contracts) : Prop :=
  ∀ root schema, isPathSegment root = true → contracts.lookup root = some schema → schema.SegmentNamed

lemma NamedMap.rootsNamedBy {contracts : Contracts} (h : NamedMap contracts) :
    RootsNamedBy (fun name => isPathSegment name = true) contracts :=
  fun root schema hsegment hschema => (h root schema hsegment hschema).namedBySegments

/-- A named state is materialized as a named map. -/
theorem materialize_named {contracts : Contracts} {requiredRoots : List String}
    (h : reducer.materialize = .ok (contracts, requiredRoots)) (hroots : NamedRoots reducer.rootSchemas) :
    NamedMap contracts := by
  obtain ⟨expanded, hexpanded, h⟩ := Raising.bind_eq_ok.mp h
  cases h
  intro root schema hsegment hschema
  refine segmentNamed_expandContracts hexpanded (fun e he s hs => ?_) hsegment hschema
  rw [Contracts.toDocuments, Dict.items_mapValues] at he
  obtain ⟨⟨root, schema⟩, hmem, rfl⟩ := List.mem_map.mp he
  exact segmentNamed_normalizeSchema hs (hroots root schema (Dict.mem_items.mp hmem))

end Reducer

end TradeFramework
