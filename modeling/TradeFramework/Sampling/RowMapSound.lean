import TradeFramework.Contracts.Resolution
import TradeFramework.Sampling.WrittenState

/-!
# Soundness of the row mapping

Every sealed record that holds the fields the mapping reads is mapped without an error, and what it is
mapped to passes the validator of the compiled contract.
-/

namespace TradeFramework.RowMap

open Raising (raiseIf report)
open Results (DataJsonValidator compileDataJsonValidator requireDataSegments)

section Validator

variable {state : Contracts × List String} {data : DataDict}

lemma exists_paths (hagain : expandContracts state.1.toDocuments = .ok state.1) :
    ∀ e ∈ Dict.items state.1, ∃ path, splitDataPath e.1 = .ok path := by
  obtain ⟨explicit, hexplicit, -⟩ := Raising.bind_eq_ok.mp hagain
  intro e he
  have hdocument : (e.1, e.2.toJson) ∈ Dict.items state.1.toDocuments := by
    rw [Contracts.toDocuments, Dict.items_mapValues]
    exact List.mem_map_of_mem (f := fun e : String × Schema => (e.1, e.2.toJson)) he
  obtain ⟨path, -, -, hpath, -⟩ := declareContract_declared hexplicit _ hdocument
  exact ⟨path, hpath⟩

/-- The root paths of a written state. -/
lemma exists_contractRootPaths (hagain : expandContracts state.1.toDocuments = .ok state.1) :
    ∃ roots, contractRootPaths state.1 = .ok roots ∧ ∀ root ∈ roots, ∃ schema,
      state.1.lookup root = some schema ∧ isPathSegment root = true := by
  have htest : ∀ key ∈ Dict.keys state.1, ∃ path, splitDataPath key = .ok path := by
    intro key hkey
    obtain ⟨e, he, rfl⟩ := List.mem_map.mp hkey
    exact exists_paths hagain e he
  let test : String → Except PyError Bool := fun key => do
    pure (decide ((← splitDataPath key).rest = []))
  have hroots : expandedContractRootPaths state.1 =
      .ok ((Dict.keys state.1).filter (Raising.passes test)) := by
    refine Raising.filterM_eq_ok.mpr ⟨fun key hkey => ?_, rfl⟩
    obtain ⟨path, hpath⟩ := htest key hkey
    simp only [Raising.passes, hpath, Raising.ok_bind]
    rfl
  refine ⟨(Dict.keys state.1).filter (Raising.passes test), ?_, ?_⟩
  · unfold contractRootPaths
    rw [hagain, Raising.ok_bind]
    exact hroots
  · intro root hroot
    obtain ⟨hkey, hpasses⟩ := List.mem_filter.mp hroot
    obtain ⟨path, hpath⟩ := htest root hkey
    obtain ⟨schema, hschema⟩ := Option.isSome_iff_exists.mp (Dict.mem_keys.mp hkey)
    have hrest : path.rest = [] := by
      simpa [Raising.passes, test, hpath, Raising.ok_bind, Raising.pure_eq_ok, pure, Except.pure] using hpasses
    exact ⟨schema, hschema, (isPathSegment_of_root hagain hschema hpath hrest).1⟩

/-- Entries that are zipped, filtered and mapped keep different keys. -/
lemma nodup_zipped {α β γ : Type} {entries : List (String × α)} {others : List β}
    (hlength : entries.length ≤ others.length) (hnodup : (entries.map Prod.fst).Nodup)
    (p : (String × α) × β → Bool) (f : α → γ) :
    ((((entries.zip others).filter p).map fun e => (e.1.1, f e.1.2)).map Prod.fst).Nodup := by
  rw [← List.map_fst_zip hlength, List.map_map] at hnodup
  rw [List.map_map]
  exact hnodup.sublist (List.filter_sublist.map _)

/-- The plan of a root is the plan of its schema. -/
lemma rootPlans_lookup {roots : List String} {validator : DataJsonValidator}
    (h : compileDataJsonValidator state.1 roots = .ok validator) {root : String} {schema : Schema}
    (hroot : isPathSegment root = true) (hschema : state.1.lookup root = some schema) :
    validator.rootPlans.lookup root = some (compileValidationPlan schema false) := by
  obtain ⟨paths, hpaths, h⟩ := Raising.bind_eq_ok.mp h
  obtain ⟨required, -, h⟩ := Raising.bind_eq_ok.mp h
  have hread := Raising.mapM_eq_ok.mp hpaths
  have hmem : (root, schema) ∈ ((Dict.items state.1).zip paths).map Prod.fst := by
    rw [List.map_fst_zip hread.length_eq.le]
    exact Dict.mem_items.mpr hschema
  obtain ⟨⟨entry, path⟩, hzip, hentry⟩ := List.mem_map.mp hmem
  have hsame : entry = (root, schema) := hentry
  subst hsame
  have hsplit := List.forall₂_zip hread hzip
  dsimp only at hsplit
  rw [splitDataPath_segment hroot] at hsplit
  have hrest : path.rest.isEmpty = true := by rw [← Except.ok.inj hsplit]; rfl
  have hnodup := nodup_zipped hread.length_eq.le (Dict.nodup_keys state.1) (fun e => e.2.rest.isEmpty)
    fun schema => compileValidationPlan schema false
  rw [Raising.pure_eq_ok] at h
  subst h
  rw [← Dict.mem_items, Dict.items_of_nodup hnodup]
  exact List.mem_map.mpr ⟨_, List.mem_filter.mpr ⟨hzip, hrest⟩, rfl⟩

/-- A state that its expansion does not change has an output validator. -/
lemma exists_outputValidator (hagain : expandContracts state.1.toDocuments = .ok state.1) :
    ∃ roots validator, contractRootPaths state.1 = .ok roots ∧
      compileDataJsonValidator state.1 roots = .ok validator := by
  obtain ⟨roots, hroots, hdeclared⟩ := exists_contractRootPaths hagain
  obtain ⟨paths, hpaths, -⟩ := Raising.exists_mapM (P := fun _ => True) fun e he => by
    obtain ⟨path, hpath⟩ := exists_paths hagain e he
    exact ⟨path, hpath, trivial⟩
  obtain ⟨required, hrequired, -⟩ := Raising.exists_mapM (P := fun _ => True) fun root hroot => by
    obtain ⟨schema, -, hsegment⟩ := hdeclared root hroot
    exact ⟨_, splitDataPath_segment hsegment, trivial⟩
  have hvalidator : ∃ validator, compileDataJsonValidator state.1 roots = .ok validator := by
    unfold compileDataJsonValidator
    rw [hpaths, Raising.ok_bind, hrequired, Raising.ok_bind]
    exact ⟨_, rfl⟩
  obtain ⟨validator, hvalidator⟩ := hvalidator
  exact ⟨roots, validator, hroots, hvalidator⟩

/-- The Data Dict that was written in step passes the output validator of a written state. -/
theorem validateOutput_of_written (hdata : Written state data) {roots : List String}
    {validator : DataJsonValidator} (hroots : contractRootPaths state.1 = .ok roots)
    (hvalidator : compileDataJsonValidator state.1 roots = .ok validator) :
    validator.validate (.obj data) = .ok () := by
  obtain ⟨found, hfound, hdeclared⟩ := exists_contractRootPaths hdata.again
  rw [hroots] at hfound
  cases hfound
  have hplan : ∃ required, roots.mapM splitDataPath = .ok required ∧
      validator.requiredPlan = roots.zip required := by
    obtain ⟨_, -, h⟩ := Raising.bind_eq_ok.mp hvalidator
    obtain ⟨required, hrequired, h⟩ := Raising.bind_eq_ok.mp h
    rw [Raising.pure_eq_ok] at h
    subst h
    exact ⟨required, hrequired, rfl⟩
  obtain ⟨required, hrequired, hplan⟩ := hplan
  obtain ⟨hvalues, hpresent⟩ := conforms_iff.mp hdata.conforms
  unfold DataJsonValidator.validate
  rw [Raising.seq_eq_ok, Raising.forM_eq_ok, Raising.forM_eq_ok, hplan]
  constructor
  · intro e he
    obtain ⟨hsegment, schema, hschema, haccepts⟩ := hvalues e.1 e.2 (Dict.mem_items.mp he)
    have hnormal := (expandContracts_root_valid hdata.again hsegment hschema).1
    unfold DataJsonValidator.validateRoot
    rw [rootPlans_lookup hvalidator hsegment hschema]
    exact Raising.report_eq_ok.mpr ((compiledValidationFailure_eq_none hnormal e.2).mpr haccepts)
  · rintro ⟨root, path⟩ hmem
    have hsplit := List.forall₂_zip (Raising.mapM_eq_ok.mp hrequired) hmem
    obtain ⟨schema, hschema, hsegment⟩ := hdeclared root (List.of_mem_zip hmem).1
    rw [splitDataPath_segment hsegment] at hsplit
    have hin := hdata.required root schema hsegment hschema
    obtain ⟨value, hvalue⟩ := Dict.has_eq_true_iff.mp (hpresent root hin)
    have hparts : path.parts = [root] := by rw [← Except.ok.inj hsplit]; rfl
    simp [requireDataSegments, hparts, getDataSegments, hvalue]

end Validator

section Records

variable {codec : BasicWorkflow.TextCodec} {descriptor : RecordsDescriptor}

lemma valueSchema_normal (descriptor : RecordsDescriptor) : descriptor.valueSchema.Normal := by
  refine Schema.normal_object.mpr ⟨⟨?_, ?_, ?_, ?_, ?_, ?_, ?_, rfl⟩, ?_⟩
  · rintro _ ⟨⟩
    simp
  · rintro _ ⟨⟩
    exact Dict.items_of_nodup descriptor.nodup
  · simp [Keywords.declaredTypes]
  · simp
  · simp
  · simp
  · simp
  · intro s hs
    simp only [Keywords.children, Keywords.propertyMap, Keywords.extra, Option.getD_some, Option.getD_none,
      Option.toList_none, List.append_nil, List.mem_append, List.mem_map, Option.mem_toList] at hs
    rcases hs with ⟨e, he, rfl⟩ | hs
    · exact descriptor.normal e he
    · cases hs
      exact Schema.normal_never

/-- A value that the archive admits as the values of a record. -/
structure Admitted (descriptor : RecordsDescriptor) (values : List (String × Json)) : Prop where
  declared : ∀ name value, values.lookup name = some value → ∃ schema,
    descriptor.fields.lookup name = some schema ∧ schema.Accepts value

lemma admitted_of_accepts {value : Json} (h : descriptor.valueSchema.Accepts value) :
    ∃ values, value = .obj values ∧ Admitted descriptor values := by
  have hadmits := Schema.accepts_object.mp h
  obtain ⟨values, rfl⟩ : ∃ values, value = .obj values := by
    have htype := hadmits.type
    cases value with
    | obj values => exact ⟨values, rfl⟩
    | _ => simp [Keywords.schemaTypes, Keywords.declaredTypes, TypeAllowed, jsonType] at htype
  refine ⟨values, rfl, ⟨fun name x hx => ?_⟩⟩
  have hmember := hadmits.member values rfl name x hx
  cases hfield : descriptor.fields.lookup name with
  | some schema =>
    refine ⟨schema, rfl, hmember schema ?_⟩
    simp [Keywords.child, Keywords.propertyMap, hfield]
  | none =>
    have hclosed := hmember .never (by simp [Keywords.child, Keywords.propertyMap, Keywords.extra, hfield])
    exact absurd hclosed (Schema.accepts_never x)

/-- The values of every line that the archive verified are admitted. -/
lemma admitted_of_verified {lines : List (Except PyError Json)}
    (h : verifyRecordsCapability codec descriptor lines = .ok ()) {line : List (String × Json)}
    (hline : .ok (.obj line) ∈ lines) : Admitted descriptor (descriptor.record line).values := by
  obtain ⟨count, hcount, -⟩ := Raising.bind_eq_ok.mp h
  have hverified : ∀ line ∈ lines, ∃ before after, verifyRecord codec descriptor before line = .ok after := by
    clear h hline
    generalize 0 = start at hcount
    induction lines generalizing start with
    | nil => simp
    | cons line lines ih =>
      rw [List.foldlM_cons, Raising.bind_eq_ok] at hcount
      obtain ⟨after, hstep, hcount⟩ := hcount
      exact List.forall_mem_cons.mpr ⟨⟨start, after, hstep⟩, ih _ hcount⟩
  obtain ⟨before, after, hstep⟩ := hverified _ hline
  obtain ⟨value, hvalue, hstep⟩ := Raising.bind_eq_ok.mp hstep
  have hsame : Json.obj line = value := Except.ok.inj hvalue
  subst hsame
  obtain ⟨members, hmembers, hstep⟩ := Raising.bind_eq_ok.mp hstep
  have hsame : line = members := Except.ok.inj hmembers
  subst hsame
  simp only [Raising.bind_eq_ok] at hstep
  obtain ⟨_, -, _, -, _, -, _, hvalues, -⟩ := hstep
  have hnone := Raising.report_eq_ok.mp hvalues
  obtain ⟨values, hvalue, hadmitted⟩ :=
    admitted_of_accepts ((compiledValidationFailure_eq_none (valueSchema_normal descriptor) _).mp hnone)
  unfold RecordsDescriptor.record
  rw [hvalue]
  exact hadmitted

end Records

section Compilation

variable {definition : Json} {fieldSchemas : Json} {compiled : CompiledRowMap}

/-- The members of the output schema of a definition. -/
def outputSchema (definition : Json) : List (String × Json) :=
  Results.membersOf (Results.field (Results.membersOf definition) "outputSchema")

/-- What a compilation has established. -/
structure Compilation (definition fieldSchemas : Json) (compiled : CompiledRowMap)
    (declared : List (String × Schema)) (mapped written : Contracts × List String) : Prop where
  sorted : compiled.config.mapping.Pairwise fun a b => a.1 ≤ b.1
  nodup : (compiled.config.mapping.map Prod.fst).Nodup
  source : readSourceSchema fieldSchemas = .ok compiled.sourceSchema
  normalized : List.Forall₂ (fun e d => d.1 = e.1 ∧
    normalizeDataKeySchema (Results.field (outputSchema definition) e.1) e.1 = .ok d.2)
      compiled.config.mapping declared
  checked : requireSourceFields true compiled.sourceSchema declared compiled.config.mapping = .ok ()
  mappedFields : declared.foldlM writeField ([], []) = .ok mapped
  unmappedFields : writeUnmappedFields compiled.config compiled.sourceSchema mapped = .ok written
  contracts : compiled.declaredOutputContracts = written.1

lemma requireMapping_eq_ok {value : Json} {message : String} {members : List (String × Json)}
    (h : requireMapping value message = .ok members) : Results.membersOf value = members := by
  cases value with
  | obj d => exact Except.ok.inj h
  | _ => cases h

/-- The mapping is read entry by entry. -/
lemma readMapping_keys {members : List (String × Json)} {mapping : List (String × String)}
    (h : readMapping members = some mapping) : mapping.map Prod.fst = members.map Prod.fst := by
  induction members generalizing mapping with
  | nil =>
    cases h
    rfl
  | cons e members ih =>
    unfold readMapping at h
    rw [List.mapM_cons] at h
    obtain ⟨entry, hentry, h⟩ := Option.bind_eq_some_iff.mp h
    obtain ⟨rest, hrest, h⟩ := Option.bind_eq_some_iff.mp h
    cases h
    have hkey : entry.1 = e.1 := by
      split at hentry
      case h_1 =>
        split_ifs at hentry
        cases hentry
        rfl
      case h_2 => cases hentry
    rw [List.map_cons, List.map_cons, hkey, ih hrest]

lemma configMapping_sorted {value : Json} {mapping : List (String × String)}
    (h : configMapping value = .ok mapping) :
    (mapping.Pairwise fun a b => a.1 ≤ b.1) ∧ (mapping.map Prod.fst).Nodup := by
  obtain ⟨_, -, h⟩ := Raising.bind_eq_ok.mp h
  split at h
  case h_1 => cases h
  case h_2 entries hentries =>
    rw [Raising.pure_eq_ok] at h
    subst h
    have htotal : Std.Total fun a b : String × String => a.1 ≤ b.1 := ⟨fun a b => le_total a.1 b.1⟩
    have htrans : IsTrans (String × String) fun a b => a.1 ≤ b.1 := ⟨fun a b c => le_trans⟩
    have hnodup : (entries.map Prod.fst).Nodup := by
      rw [readMapping_keys hentries]
      exact Dict.nodup_keys _
    refine ⟨List.pairwise_insertionSort _ _, ?_⟩
    exact ((List.perm_insertionSort _ entries).map Prod.fst).nodup_iff.mpr hnodup

lemma compilation (h : compileRowMapContract definition (some fieldSchemas) = .ok compiled) :
    ∃ declared mapped written, Compilation definition fieldSchemas compiled declared mapped written := by
  obtain ⟨members, hmembers, h⟩ := Raising.bind_eq_ok.mp h
  obtain ⟨_, -, h⟩ := Raising.bind_eq_ok.mp h
  obtain ⟨config, hconfig, h⟩ := Raising.bind_eq_ok.mp h
  obtain ⟨source, hsource, h⟩ := Raising.bind_eq_ok.mp h
  obtain ⟨output, houtput, h⟩ := Raising.bind_eq_ok.mp h
  obtain ⟨_, -, h⟩ := Raising.bind_eq_ok.mp h
  obtain ⟨declared, hdeclared, h⟩ := Raising.bind_eq_ok.mp h
  obtain ⟨_, hchecked, h⟩ := Raising.bind_eq_ok.mp h
  obtain ⟨_, -, h⟩ := Raising.bind_eq_ok.mp h
  obtain ⟨mapped, hmapped, h⟩ := Raising.bind_eq_ok.mp h
  obtain ⟨written, hwritten, h⟩ := Raising.bind_eq_ok.mp h
  rw [Raising.pure_eq_ok] at h
  subst h
  have hmapping : (config.mapping.Pairwise fun a b => a.1 ≤ b.1) ∧ (config.mapping.map Prod.fst).Nodup := by
    obtain ⟨_, -, hconfig⟩ := Raising.bind_eq_ok.mp hconfig
    obtain ⟨_, -, hconfig⟩ := Raising.bind_eq_ok.mp hconfig
    obtain ⟨mapping, hmapping, hconfig⟩ := Raising.bind_eq_ok.mp hconfig
    obtain ⟨flag, -, hconfig⟩ := Raising.bind_eq_ok.mp hconfig
    obtain ⟨text, -, hconfig⟩ := Raising.bind_eq_ok.mp hconfig
    rw [Raising.pure_eq_ok] at hconfig
    subst hconfig
    exact configMapping_sorted hmapping
  refine ⟨declared, mapped, written, hmapping.1, hmapping.2, hsource, ?_, hchecked, hmapped, hwritten, rfl⟩
  · have hfields : outputSchema definition = output := by
      unfold outputSchema
      rw [requireMapping_eq_ok hmembers]
      exact requireMapping_eq_ok houtput
    rw [hfields]
    refine (Raising.mapM_eq_ok.mp hdeclared).imp fun e d hd => ?_
    obtain ⟨schema, hschema, rfl⟩ := Raising.map_eq_ok.mp (by simpa using hd)
    exact ⟨rfl, hschema⟩

end Compilation

section Lockstep

variable {record : DatasetRecord} {state state' : Contracts × List String}
  {mapped : DataDict × List (String × Provenance)}

/-- A write of the compiler and the field it is filled from at run time. -/
structure Filled (record : DatasetRecord) (write : String × Schema) (entry : String × String) : Prop where
  key : write.1 = entry.1
  unpadded : Unpadded entry.1
  normal : write.2.Normal
  accepts : write.2.Accepts (Results.field record.values entry.2)

/-- One field that is mapped keeps the state written in step. -/
lemma mapField_step {write : String × Schema} {entry : String × String} (hdata : Written state mapped.1)
    (hfilled : Filled record write entry) (hlisted : ListsSegments state')
    (h : writeField state write = .ok state') :
    ∃ mapped', mapField record mapped entry = .ok mapped' ∧ Written state' mapped'.1 := by
  rcases write with ⟨key, schema⟩
  have hkey : key = entry.1 := hfilled.key
  subst hkey
  obtain ⟨data', hset, hwritten⟩ :=
    writeField_step hdata hfilled.unpadded hfilled.normal hfilled.accepts hlisted h
  unfold mapField
  dsimp only
  rw [hset, Raising.ok_bind]
  exact ⟨_, rfl, hwritten⟩

/-- The fields are mapped in step with the writes of the compiler. -/
lemma mapFields_run {writes : List (String × Schema)} {entries : List (String × String)}
    (hdata : Written state mapped.1) (hfilled : List.Forall₂ (Filled record) writes entries)
    (hlisted : ListedWrites writeField state writes) (h : writes.foldlM writeField state = .ok state') :
    ∃ mapped', entries.foldlM (mapField record) mapped = .ok mapped' ∧ Written state' mapped'.1 := by
  induction hfilled generalizing state mapped with
  | nil =>
    rw [List.foldlM_nil, Raising.pure_eq_ok] at h
    subst h
    exact ⟨mapped, rfl, hdata⟩
  | cons hhead _ ih =>
    rw [List.foldlM_cons, Raising.bind_eq_ok] at h
    obtain ⟨middle, hstep, hrest⟩ := h
    have hmiddle := hlisted.tail hstep
    obtain ⟨mapped', hmapped', hwritten⟩ := mapField_step hdata hhead hmiddle.start hstep
    obtain ⟨final, hfinal, hdone⟩ := ih hwritten hmiddle hrest
    refine ⟨final, ?_, hdone⟩
    rw [List.foldlM_cons, hmapped', Raising.ok_bind]
    exact hfinal

/-- The writes of unmapped fields are writes of their normalized schemas. -/
lemma writeUnmapped_fold {writes : List (String × Schema)} (hnormal : ∀ e ∈ writes, e.2.Normal)
    (h : writes.foldlM writeUnmappedField state = .ok state') : writes.foldlM writeField state = .ok state' := by
  induction writes generalizing state with
  | nil => exact h
  | cons e writes ih =>
    rw [List.foldlM_cons, Raising.bind_eq_ok] at h ⊢
    obtain ⟨middle, hstep, hrest⟩ := h
    obtain ⟨schema, hschema, hstep⟩ := Raising.bind_eq_ok.mp hstep
    have hsame := (normalizeDataKeySchema_toJson (hnormal e (by simp)) hschema).1
    subst hsame
    exact ⟨middle, hstep, ih (fun e he => hnormal e (by simp [he])) hrest⟩

end Lockstep

section Soundness

variable {codec : BasicWorkflow.TextCodec} {descriptor : RecordsDescriptor} {definition : Json}
  {compiled : CompiledRowMap}

/-- The required writes of a compiled mapping: its DataKeys with the schemas that the definition declares for
them, and then those of the unmapped fields. -/
def contractFields (definition : Json) (config : RowMapConfig) (source : List (String × Schema)) :
    Except PyError (List (String × Schema)) := do
  let declared ← config.mapping.mapM fun e => do
    pure (e.1, ← normalizeDataKeySchema (Results.field (outputSchema definition) e.1) e.1)
  pure (declared ++ if config.includeUnmappedFields then unmappedFields config source else [])

/-- The DataKeys of a mapping are written without blanks around them, and the contract map after every one
of its writes lists only members named by DataKey segments. -/
structure PlainNames (descriptor : RecordsDescriptor) (definition : Json) (compiled : CompiledRowMap) : Prop where
  mapped : ∀ e ∈ compiled.config.mapping, Unpadded e.1
  unmapped : compiled.config.includeUnmappedFields = true → ∀ e ∈ descriptor.fields,
    e.1 ∉ compiled.config.mapping.map Prod.snd → Unpadded (compiled.config.unmappedPrefix ++ e.1)
  listed : ∀ fields, contractFields definition compiled.config compiled.sourceSchema = .ok fields →
    ListedWrites writeField ([], []) fields

/-- A record holds every field that is mapped, and every field at all when unmapped ones are included. -/
structure Complete (descriptor : RecordsDescriptor) (config : RowMapConfig) (record : DatasetRecord) : Prop where
  mapped : ∀ e ∈ config.mapping, Dict.has record.values e.2 = true
  unmapped : config.includeUnmappedFields = true → ∀ e ∈ descriptor.fields, Dict.has record.values e.1 = true

/-- The field schemas that were read, in the order of their names. -/
structure ReadFields (descriptor : RecordsDescriptor) (source : List (String × Schema)) : Prop where
  sorted : (source.map Prod.fst).Pairwise (· ≤ ·)
  mem : ∀ name, name ∈ source.map Prod.fst ↔ name ∈ descriptor.fields.map Prod.fst
  lookup : ∀ name schema, descriptor.fields.lookup name = some schema → source.lookup name = some schema
  field : ∀ e ∈ source, e ∈ descriptor.fields

lemma readFields {source : List (String × Schema)}
    (h : readSourceSchema descriptor.fieldSchemas = .ok source) : ReadFields descriptor source := by
  obtain ⟨fields, hfields, h⟩ := Raising.bind_eq_ok.mp h
  have hsame : Contracts.toDocuments descriptor.fields = fields := Except.ok.inj hfields
  subst hsame
  obtain ⟨_, -, h⟩ := Raising.bind_eq_ok.mp h
  have hitems : Dict.items (Contracts.toDocuments descriptor.fields) =
      Contracts.toDocuments descriptor.fields := by
    apply Dict.items_of_nodup
    simpa [Contracts.toDocuments, Dict.mapValues, Function.comp_def] using descriptor.nodup
  have hkeys : Dict.keys (Contracts.toDocuments descriptor.fields) = descriptor.fields.map Prod.fst := by
    rw [Dict.keys, hitems]
    simp [Contracts.toDocuments, Dict.mapValues, Function.comp_def]
  rw [hkeys] at h
  have hread : List.Forall₂ (fun name e => e.1 = name ∧ e ∈ descriptor.fields)
      (sortedStrings (descriptor.fields.map Prod.fst)) source := by
    have hall := Raising.mapM_eq_ok.mp h
    have hmem : ∀ name ∈ sortedStrings (descriptor.fields.map Prod.fst), name ∈ descriptor.fields.map Prod.fst :=
      fun name hname => mem_sortedStrings.mp hname
    refine Related.forall₂_mono (fun name hname e _ he => ?_) hall
    obtain ⟨schema, hschema, rfl⟩ := Raising.map_eq_ok.mp (by simpa using he)
    obtain ⟨⟨key, declared⟩, hdeclared, rfl⟩ := List.mem_map.mp (hmem name hname)
    have hlookup : descriptor.fields.lookup key = some declared := by
      rw [← Dict.mem_items, Dict.items_of_nodup descriptor.nodup]
      exact hdeclared
    have hfield : Results.field (Contracts.toDocuments descriptor.fields) key = declared.toJson := by
      rw [Results.field, Contracts.toDocuments, Dict.lookup_mapValues, hlookup]
      rfl
    dsimp only at hschema
    rw [hfield, normalizeSchema_toJson (descriptor.normal _ hdeclared)] at hschema
    have hsame : declared = schema := Except.ok.inj hschema
    exact ⟨rfl, hsame ▸ hdeclared⟩
  have hnames : source.map Prod.fst = sortedStrings (descriptor.fields.map Prod.fst) := by
    refine List.forall₂_eq_eq_eq ▸ ?_
    rw [List.forall₂_map_left_iff]
    exact hread.flip.imp fun _ _ he => he.1
  have hnodup : (source.map Prod.fst).Nodup := hnames ▸ nodup_sortedStrings descriptor.nodup
  have hfield : ∀ e ∈ source, e ∈ descriptor.fields := by
    intro e he
    obtain ⟨name, -, -, hmem⟩ := Related.exists_mem_left hread he
    exact hmem
  refine ⟨?_, ?_, ?_, hfield⟩
  · rw [hnames]
    exact List.pairwise_insertionSort _ _
  · intro name
    rw [hnames, mem_sortedStrings]
  · intro name schema hschema
    have hname : name ∈ source.map Prod.fst := by
      rw [hnames, mem_sortedStrings]
      exact List.mem_map_of_mem (f := Prod.fst) (Dict.lookup_mem hschema)
    obtain ⟨⟨key, found⟩, hfound, rfl⟩ := List.mem_map.mp hname
    have hlookup : descriptor.fields.lookup key = some found := by
      rw [← Dict.mem_items, Dict.items_of_nodup descriptor.nodup]
      exact hfield _ hfound
    dsimp only at hschema ⊢
    rw [← Dict.mem_items, Dict.items_of_nodup hnodup]
    rw [hlookup] at hschema
    cases hschema
    exact hfound

/-- A field that a record holds has an admitted value. -/
lemma Admitted.field {values : List (String × Json)} (h : Admitted descriptor values) {name : String}
    (hhas : Dict.has values name = true) : ∃ schema, descriptor.fields.lookup name = some schema ∧
      schema.Accepts (Results.field values name) := by
  obtain ⟨value, hvalue⟩ := Dict.has_eq_true_iff.mp hhas
  obtain ⟨schema, hschema, haccepts⟩ := h.declared name value hvalue
  refine ⟨schema, hschema, ?_⟩
  rw [Results.field, hvalue]
  exact haccepts

/-- A mapped field is compatible with what the definition declares for its DataKey. -/
lemma compatible_of_checked {source declared : List (String × Schema)} {mapping : List (String × String)}
    (h : requireSourceFields true source declared mapping = .ok ()) {e : String × String} (he : e ∈ mapping)
    {provided required : Schema} (hprovided : source.lookup e.2 = some provided)
    (hrequired : declared.lookup e.1 = some required) (hpn : provided.Normal) (hrn : required.Normal) :
    provided.Within required := by
  unfold requireSourceFields at h
  rw [if_neg (by simp)] at h
  obtain ⟨_, -, h⟩ := Raising.bind_eq_ok.mp h
  obtain ⟨incompatible, hincompatible, h⟩ := Raising.bind_eq_ok.mp h
  rw [Raising.raiseIf_eq_ok, not_not] at h
  subst h
  have htest := Raising.filterM_eq_nil.mp hincompatible e he
  rw [hprovided, hrequired] at htest
  obtain ⟨compatible, hcompatible, hpass⟩ := Raising.bind_eq_ok.mp htest
  have htrue : compatible = true := by simpa using hpass
  subst htrue
  simp only [Option.getD_some, schemasCompatible, normalizeSchema_toJson hpn, normalizeSchema_toJson hrn,
    Raising.ok_bind] at hcompatible
  exact normalizedSchemasCompatible_sound hcompatible

variable {declared : List (String × Schema)} {mapped written : Contracts × List String}
  {record : DatasetRecord}

lemma mappedFields_filled
    (hcompiled : Compilation definition descriptor.fieldSchemas compiled declared mapped written)
    (hnames : PlainNames descriptor definition compiled) (hadmitted : Admitted descriptor record.values)
    (hcomplete : Complete descriptor compiled.config record) :
    List.Forall₂ (Filled record) declared compiled.config.mapping := by
  have hread := readFields hcompiled.source
  have hkeys : declared.map Prod.fst = compiled.config.mapping.map Prod.fst := by
    refine List.forall₂_eq_eq_eq ▸ ?_
    rw [List.forall₂_map_left_iff, List.forall₂_map_right_iff]
    exact hcompiled.normalized.flip.imp fun _ _ h => h.1
  have hnodup : (declared.map Prod.fst).Nodup := hkeys ▸ hcompiled.nodup
  refine Related.forall₂_mono (fun d hd e he hde => ?_) hcompiled.normalized.flip
  obtain ⟨hkey, hschema⟩ := hde
  have hnormal := normalizeDataKeySchema_normal hschema
  obtain ⟨provided, hprovided, haccepts⟩ := hadmitted.field (hcomplete.mapped e he)
  have hlookup : declared.lookup e.1 = some d.2 := by
    rw [← hkey, ← Dict.mem_items, Dict.items_of_nodup hnodup]
    exact hd
  have hfield := hread.lookup _ _ hprovided
  have hpn := descriptor.normal _ (Dict.lookup_mem hprovided)
  have hwithin := compatible_of_checked hcompiled.checked he hfield hlookup hpn hnormal
  exact ⟨hkey, hnames.mapped e he, hnormal, hwithin _ haccepts⟩

lemma unmappedFields_filled
    (hcompiled : Compilation definition descriptor.fieldSchemas compiled declared mapped written)
    (hnames : PlainNames descriptor definition compiled) (hadmitted : Admitted descriptor record.values)
    (hcomplete : Complete descriptor compiled.config record)
    (hinclude : compiled.config.includeUnmappedFields = true) :
    List.Forall₂ (Filled record) (unmappedFields compiled.config compiled.sourceSchema)
      (copiedFields compiled.config (compiled.sourceSchema.map Prod.fst) record.values) := by
  have hread := readFields hcompiled.source
  have hfilter : (sortedStrings (compiled.sourceSchema.map Prod.fst)).filter (fun name =>
      name ∉ compiled.config.mapping.map Prod.snd ∧ Dict.has record.values name) =
        (compiled.sourceSchema.filter fun e => e.1 ∉ compiled.config.mapping.map Prod.snd).map Prod.fst := by
    rw [sortedStrings, hread.sorted.insertionSort_eq, List.filter_map]
    congr 1
    apply List.filter_congr
    intro e he
    have hhas := hcomplete.unmapped hinclude e (hread.field e he)
    simp [hhas]
  unfold unmappedFields copiedFields
  rw [hfilter, List.map_map, List.forall₂_map_left_iff, List.forall₂_map_right_iff, List.forall₂_same]
  intro e he
  obtain ⟨hsource, hunmapped⟩ := List.mem_filter.mp he
  have hfield := hread.field e hsource
  have hunpadded := hnames.unmapped hinclude e hfield (by simpa using hunmapped)
  obtain ⟨schema, hschema, haccepts⟩ := hadmitted.field (hcomplete.unmapped hinclude e hfield)
  have hsame : descriptor.fields.lookup e.1 = some e.2 := by
    rw [← Dict.mem_items, Dict.items_of_nodup descriptor.nodup]
    exact hfield
  rw [hsame] at hschema
  cases hschema
  exact ⟨rfl, hunpadded, descriptor.normal e hfield, haccepts⟩

lemma contractFields_of_compilation
    (hcompiled : Compilation definition descriptor.fieldSchemas compiled declared mapped written) :
    contractFields definition compiled.config compiled.sourceSchema = .ok (declared ++
      if compiled.config.includeUnmappedFields then unmappedFields compiled.config compiled.sourceSchema
      else []) := by
  have hdeclared : compiled.config.mapping.mapM (fun e => do
      pure (e.1, ← normalizeDataKeySchema (Results.field (outputSchema definition) e.1) e.1)) =
        (Except.ok declared : Except PyError (List (String × Schema))) := by
    rw [Raising.mapM_eq_ok]
    refine hcompiled.normalized.imp fun e d hd => ?_
    rw [hd.2, Raising.ok_bind, ← hd.1]
    rfl
  rw [contractFields, hdeclared]
  rfl

/-- The compiled contract is what the writes make of the empty one. -/
lemma contractFields_run
    (hcompiled : Compilation definition descriptor.fieldSchemas compiled declared mapped written) :
    (declared ++ if compiled.config.includeUnmappedFields then
      unmappedFields compiled.config compiled.sourceSchema else []).foldlM writeField ([], []) = .ok written := by
  have hread := readFields hcompiled.source
  have hunmapped := hcompiled.unmappedFields
  unfold writeUnmappedFields at hunmapped
  rw [List.foldlM_append, hcompiled.mappedFields, Raising.ok_bind]
  split_ifs at hunmapped ⊢
  · refine writeUnmapped_fold (fun e he => ?_) hunmapped
    obtain ⟨field, hfield, rfl⟩ := List.mem_map.mp he
    exact descriptor.normal field (hread.field field (List.mem_of_mem_filter hfield))
  · exact hunmapped

/-- A compiled mapping maps a complete record, in step with the contract it was compiled to. -/
lemma mapRecord_written
    (hcompiled : Compilation definition descriptor.fieldSchemas compiled declared mapped written)
    (hnames : PlainNames descriptor definition compiled) (hadmitted : Admitted descriptor record.values)
    (hcomplete : Complete descriptor compiled.config record) :
    ∃ output, mapRecord record compiled.config (compiled.sourceSchema.map Prod.fst) = .ok output ∧
      Written written output.1 := by
  have hread := readFields hcompiled.source
  have hmissing : missingNames (compiled.config.mapping.map Prod.snd).dedup (Dict.keys record.values) = [] := by
    have hnone : (compiled.config.mapping.map Prod.snd).dedup.filter
        (fun name => name ∉ Dict.keys record.values) = [] := by
      refine List.filter_eq_nil_iff.mpr fun name hname => ?_
      obtain ⟨e, he, rfl⟩ := List.mem_map.mp (List.mem_dedup.mp hname)
      have hhas := hcomplete.mapped e he
      obtain ⟨value, hvalue⟩ := Dict.has_eq_true_iff.mp hhas
      simp [Dict.mem_keys, hvalue]
    rw [missingNames, hnone]
    rfl
  have hlisted := hnames.listed _ (contractFields_of_compilation hcompiled)
  obtain ⟨hlistedMapped, hlistedUnmapped⟩ := hlisted.append hcompiled.mappedFields
  have hmapped : ∃ middle, compiled.config.mapping.foldlM (mapField record) ([], []) = .ok middle ∧
      Written mapped middle.1 :=
    mapFields_run written_nil (mappedFields_filled hcompiled hnames hadmitted hcomplete) hlistedMapped
      hcompiled.mappedFields
  obtain ⟨middle, hmiddle, hwritten⟩ := hmapped
  have hunmapped := hcompiled.unmappedFields
  unfold writeUnmappedFields at hunmapped
  have hpass : ∀ e : PyError, raiseIf (([] : List String) ≠ []) e = pure () := fun e => rfl
  unfold mapRecord
  rw [hmissing, hcompiled.sorted.insertionSort_eq, hmiddle]
  by_cases hinclude : compiled.config.includeUnmappedFields = true
  · rw [if_pos hinclude] at hunmapped hlistedUnmapped
    have hunknown : missingNames (Dict.keys record.values) (compiled.sourceSchema.map Prod.fst) = [] := by
      have hnone : (Dict.keys record.values).filter
          (fun name => name ∉ compiled.sourceSchema.map Prod.fst) = [] := by
        refine List.filter_eq_nil_iff.mpr fun name hname => ?_
        obtain ⟨value, hvalue⟩ := Option.isSome_iff_exists.mp (Dict.mem_keys.mp hname)
        obtain ⟨schema, hschema, -⟩ := hadmitted.declared name value hvalue
        have hsource := Dict.lookup_mem (hread.lookup name schema hschema)
        simp only [decide_eq_true_eq, not_not]
        exact List.mem_map_of_mem (f := Prod.fst) hsource
      rw [missingNames, hnone]
      rfl
    have hnormal : ∀ e ∈ unmappedFields compiled.config compiled.sourceSchema, e.2.Normal := by
      intro e he
      obtain ⟨field, hfield, rfl⟩ := List.mem_map.mp he
      exact descriptor.normal field (hread.field field (List.mem_of_mem_filter hfield))
    obtain ⟨output, houtput, hdone⟩ := mapFields_run hwritten
      (unmappedFields_filled hcompiled hnames hadmitted hcomplete hinclude) hlistedUnmapped
      (writeUnmapped_fold hnormal hunmapped)
    refine ⟨output, ?_, hdone⟩
    simp only [hpass, pure_bind, Raising.ok_bind, if_pos hinclude, hunknown]
    exact houtput
  · rw [if_neg hinclude, Raising.pure_eq_ok] at hunmapped
    subst hunmapped
    refine ⟨middle, ?_, hwritten⟩
    simp only [hpass, pure_bind, Raising.ok_bind, if_neg hinclude]
    rfl

/-- The contract that a mapping is compiled to expands to itself. -/
lemma again_of_compilation
    (hcompiled : Compilation definition descriptor.fieldSchemas compiled declared mapped written)
    (hnames : PlainNames descriptor definition compiled) :
    expandContracts written.1.toDocuments = .ok written.1 := by
  have hlisted := hnames.listed _ (contractFields_of_compilation hcompiled)
  have hwritten := contractFields_run hcompiled
  generalize hfields : (declared ++ if compiled.config.includeUnmappedFields then
    unmappedFields compiled.config compiled.sourceSchema else []) = fields at hlisted hwritten
  clear hfields
  have hstart : expandContracts (Contracts.toDocuments ([] : Contracts)) = .ok [] := rfl
  generalize hstate : (([], []) : Contracts × List String) = state at hlisted hwritten
  replace hstart : expandContracts state.1.toDocuments = .ok state.1 := hstate ▸ hstart
  clear hstate
  induction fields generalizing state with
  | nil =>
    rw [List.foldlM_nil, Raising.pure_eq_ok] at hwritten
    exact hwritten ▸ hstart
  | cons field fields ih =>
    rw [List.foldlM_cons, Raising.bind_eq_ok] at hwritten
    obtain ⟨middle, hstep, hwritten⟩ := hwritten
    obtain ⟨_, _, _, _, -, -, -, hmaterialize, -⟩ := writeContractState_eq_ok hstep
    have hmiddle := hlisted.tail hstep
    exact ih middle hmiddle hwritten (again_of_materialize hmaterialize hmiddle.start)

/-- A record without a mapped field is refused. -/
lemma mapRecord_missing {config : RowMapConfig} {sourceFields : List String} {e : String × String}
    (he : e ∈ config.mapping) (hmissing : Dict.has record.values e.2 = false) :
    ∃ missing, e.2 ∈ missing ∧
      (∀ name, name ∈ missing ↔ name ∈ config.mapping.map Prod.snd ∧ Dict.has record.values name = false) ∧
      mapRecord record config sourceFields = .error (.valueError
        ("Dataset record is missing Sampler field(s): " ++ ", ".intercalate missing)) := by
  have hmem : ∀ name, name ∈ missingNames (config.mapping.map Prod.snd).dedup (Dict.keys record.values) ↔
      name ∈ config.mapping.map Prod.snd ∧ Dict.has record.values name = false := by
    intro name
    rw [missingNames, mem_sortedStrings, List.mem_filter, List.mem_dedup, decide_eq_true_eq, Dict.mem_keys,
      Dict.has, Bool.not_eq_true]
  have hself := (hmem e.2).mpr ⟨List.mem_map_of_mem (f := Prod.snd) he, hmissing⟩
  refine ⟨_, hself, hmem, ?_⟩
  unfold mapRecord
  have hraise : raiseIf (missingNames (config.mapping.map Prod.snd).dedup (Dict.keys record.values) ≠ [])
      (.valueError ("Dataset record is missing Sampler field(s): " ++
        ", ".intercalate (missingNames (config.mapping.map Prod.snd).dedup (Dict.keys record.values)))) =
      (.error (.valueError ("Dataset record is missing Sampler field(s): " ++
        ", ".intercalate (missingNames (config.mapping.map Prod.snd).dedup (Dict.keys record.values)))) :
          Except PyError Unit) := by
    rw [raiseIf, if_pos (List.ne_nil_of_mem hself)]
    rfl
  dsimp only
  rw [hraise]
  rfl

/-- The sampler of plain names can be built, and it maps every sealed record that is complete to a Data Dict
that passes the output validator; a record without a mapped field is refused. -/
theorem sealedRecords_mapped {lines : List (Except PyError Json)}
    (hsealed : verifyRecordsCapability codec descriptor lines = .ok ())
    (hcompiled : compileRowMapContract definition (some descriptor.fieldSchemas) = .ok compiled) :
    (PlainNames descriptor definition compiled → ∃ sampler,
      RowMappingSampler.initialized definition (some descriptor.fieldSchemas) = .ok sampler ∧
      sampler.compiled = compiled ∧
      ∀ line, .ok (.obj line) ∈ lines → Complete descriptor compiled.config (descriptor.record line) →
        ∃ data provenance,
          mapRecord (descriptor.record line) compiled.config (compiled.sourceSchema.map Prod.fst) =
            .ok (data, provenance) ∧
          sampler.validateOutput.validate (.obj data) = .ok ()) ∧
    ∀ line, .ok (.obj line) ∈ lines → ∀ e ∈ compiled.config.mapping,
      Dict.has (descriptor.record line).values e.2 = false → ∃ missing, e.2 ∈ missing ∧
        (∀ name, name ∈ missing ↔ name ∈ compiled.config.mapping.map Prod.snd ∧
          Dict.has (descriptor.record line).values name = false) ∧
        mapRecord (descriptor.record line) compiled.config (compiled.sourceSchema.map Prod.fst) =
          .error (.valueError ("Dataset record is missing Sampler field(s): " ++ ", ".intercalate missing)) := by
  obtain ⟨declared, mapped, written, hcompilation⟩ := compilation hcompiled
  refine ⟨fun hnames => ?_, fun line _ e he hmissing => mapRecord_missing he hmissing⟩
  have hagain := again_of_compilation hcompilation hnames
  obtain ⟨roots, validator, hroots, hvalidator⟩ := exists_outputValidator hagain
  refine ⟨⟨compiled, validator⟩, ?_, rfl, fun line hline hcomplete => ?_⟩
  · unfold RowMappingSampler.initialized
    rw [hcompiled, Raising.ok_bind, hcompilation.contracts, hagain, Raising.ok_bind, hroots, Raising.ok_bind,
      hvalidator]
    rfl
  · have hadmitted := admitted_of_verified hsealed hline
    obtain ⟨⟨data, provenance⟩, houtput, hwritten⟩ := mapRecord_written hcompilation hnames hadmitted hcomplete
    exact ⟨data, provenance, houtput, validateOutput_of_written hwritten hroots hvalidator⟩

/-- DataKeys without blanks around them, with schemas that name members by DataKey segments, are plain. -/
lemma plainNames_of_named
    (hcompiled : compileRowMapContract definition (some descriptor.fieldSchemas) = .ok compiled)
    (hmapped : ∀ e ∈ compiled.config.mapping, Unpadded e.1 ∧ ∀ schema,
      normalizeSchema (Results.field (outputSchema definition) e.1) = .ok schema → schema.SegmentNamed)
    (hunmapped : compiled.config.includeUnmappedFields = true → ∀ e ∈ descriptor.fields,
      e.1 ∉ compiled.config.mapping.map Prod.snd →
        Unpadded (compiled.config.unmappedPrefix ++ e.1) ∧ e.2.SegmentNamed) :
    PlainNames descriptor definition compiled where
  mapped e he := (hmapped e he).1
  unmapped hinclude e he hfree := (hunmapped hinclude e he hfree).1
  listed fields hfields := by
    obtain ⟨_, _, _, hcompilation⟩ := compilation hcompiled
    have hread := readFields hcompilation.source
    obtain ⟨declared, hdeclared, hfields⟩ := Raising.bind_eq_ok.mp hfields
    rw [Raising.pure_eq_ok] at hfields
    subst hfields
    have hwrites : ∀ write ∈ declared ++ (if compiled.config.includeUnmappedFields then
        unmappedFields compiled.config compiled.sourceSchema else []),
          write.2.Normal ∧ write.2.SegmentNamed := by
      intro write hwrite
      rcases List.mem_append.mp hwrite with hwrite | hwrite
      · obtain ⟨e, he, hentry⟩ := Related.exists_mem_left (Raising.mapM_eq_ok.mp hdeclared) hwrite
        obtain ⟨schema, hschema, hentry⟩ := Raising.bind_eq_ok.mp hentry
        rw [Raising.pure_eq_ok] at hentry
        subst hentry
        exact ⟨normalizeDataKeySchema_normal hschema,
          (hmapped e he).2 schema (normalizeDataKeySchema_eq_ok.mp hschema).1⟩
      · split_ifs at hwrite with hinclude
        · obtain ⟨field, hfield, rfl⟩ := List.mem_map.mp hwrite
          obtain ⟨hsource, hfree⟩ := List.mem_filter.mp hfield
          have hdescribed := hread.field field hsource
          exact ⟨descriptor.normal field hdescribed,
            (hunmapped hinclude field hdescribed (by simpa using hfree)).2⟩
        · cases hwrite
    refine listedWrites_of_named ⟨rfl, by simp [NamedMap]⟩ fun write hwrite before after hbefore hstep => ?_
    obtain ⟨hnormal, hnamed⟩ := hwrites write hwrite
    exact writeContractState_named hbefore hnormal hnamed hstep

end Soundness

section Bars

def integerSchema : Schema := .object { type := some [.integer] }

lemma integerSchema_normal : integerSchema.Normal := by
  refine Schema.normal_object.mpr ⟨⟨?_, ?_, ?_, ?_, ?_, ?_, ?_, rfl⟩, ?_⟩
  all_goals simp [Keywords.children, Keywords.propertyMap, Keywords.extra]

lemma integerSchema_named : integerSchema.SegmentNamed := by
  apply Schema.segmentNamed_of_keywords
  all_goals simp [Keywords.propertyMap, Keywords.listedLiterals, Keywords.branches, Keywords.extra]

/-- A data set of two fields. -/
def barsDescriptor : RecordsDescriptor where
  recordCount := 2
  eventTimeField := "at"
  availableTimeField := "available"
  fields := [("close", integerSchema), ("volume", integerSchema)]
  nodup := by decide
  normal := by simp [integerSchema_normal]

/-- A line of its records file. -/
def barsLine (sequence : Int) (values : List (String × Json)) : List (String × Json) :=
  [("sequence", .int sequence), ("at", .str "2026-01-01"), ("available", .str "2026-01-01"),
    ("values", .obj values)]

/-- A complete record, and one without fields. -/
def barsLines : List (Except PyError Json) :=
  [.ok (.obj (barsLine 0 [("volume", .int 7), ("close", .int 3)])), .ok (.obj (barsLine 1 []))]

def barsCodec : BasicWorkflow.TextCodec where
  fromisoformat text := if text = "2026-01-01T00:00:00+00:00" then some (.aware 0) else none
  isoformat _ := "2026-01-01T00:00:00+00:00"
  isoformat_ne _ := by decide
  float _ := none

/-- The mapping of the closing prices, with the other fields included. -/
def barsDefinition : Json := .obj
  [("config", .obj [("mapping", .obj [("price.close", .str "close")]), ("includeUnmappedFields", .bool true),
      ("unmappedPrefix", .str "raw.")]),
    ("outputSchema", .obj [("price.close", .obj [("type", .str "number")])])]

theorem sealedRecords_mapped_bars : ∃ compiled sampler data provenance missing,
    compileRowMapContract barsDefinition (some barsDescriptor.fieldSchemas) = .ok compiled ∧
    RowMappingSampler.initialized barsDefinition (some barsDescriptor.fieldSchemas) = .ok sampler ∧
    sampler.compiled = compiled ∧
    mapRecord (barsDescriptor.record (barsLine 0 [("volume", .int 7), ("close", .int 3)])) compiled.config
      (compiled.sourceSchema.map Prod.fst) = .ok (data, provenance) ∧
    sampler.validateOutput.validate (.obj data) = .ok () ∧ "close" ∈ missing ∧
    mapRecord (barsDescriptor.record (barsLine 1 [])) compiled.config (compiled.sourceSchema.map Prod.fst) =
      .error (.valueError ("Dataset record is missing Sampler field(s): " ++ ", ".intercalate missing)) := by
  obtain ⟨compiled, hcompiled⟩ := Raising.exists_ok_of_toBool
    (x := compileRowMapContract barsDefinition (some barsDescriptor.fieldSchemas))
    (by with_unfolding_all decide)
  have hconfig : (match compileRowMapContract barsDefinition (some barsDescriptor.fieldSchemas) with
      | .ok compiled => decide (compiled.config = ⟨[("price.close", "close")], true, "raw."⟩)
      | .error _ => false) = true := by with_unfolding_all decide
  rw [hcompiled, decide_eq_true_eq] at hconfig
  have hsealed : verifyRecordsCapability barsCodec barsDescriptor barsLines = .ok () :=
    Raising.toBool_eq_true.mp (by with_unfolding_all decide)
  have hnumber : ∀ schema, normalizeSchema (.obj [("type", .str "number")]) = .ok schema →
      schema.SegmentNamed := by
    intro schema hschema
    have hdocument : (Schema.object { type := some [.number] }).toJson = .obj [("type", .str "number")] := by
      rw [Schema.toJson_object]
      rfl
    rw [← hdocument] at hschema
    apply segmentNamed_normalizeSchema hschema
    apply Schema.segmentNamed_of_keywords
    all_goals simp [Keywords.propertyMap, Keywords.listedLiterals, Keywords.branches, Keywords.extra]
  have hnames : PlainNames barsDescriptor barsDefinition compiled := by
    apply plainNames_of_named hcompiled
    · rw [hconfig]
      simp only [List.forall_mem_singleton]
      exact ⟨(by decide : stripText "price.close".toList = "price.close".toList), hnumber⟩
    · rw [hconfig]
      intro _ e he _
      rcases List.mem_pair.mp he with rfl | rfl
      · exact ⟨(by decide : stripText "raw.close".toList = "raw.close".toList), integerSchema_named⟩
      · exact ⟨(by decide : stripText "raw.volume".toList = "raw.volume".toList), integerSchema_named⟩
  have hcomplete : Complete barsDescriptor compiled.config
      (barsDescriptor.record (barsLine 0 [("volume", .int 7), ("close", .int 3)])) := by
    rw [hconfig]
    constructor
    · simp only [List.forall_mem_singleton]
      with_unfolding_all decide
    · intro _ e he
      rcases List.mem_pair.mp he with rfl | rfl
      · with_unfolding_all decide
      · with_unfolding_all decide
  obtain ⟨hmaps, hrefuses⟩ := sealedRecords_mapped hsealed hcompiled
  obtain ⟨sampler, hsampler, hsame, hmapped⟩ := hmaps hnames
  obtain ⟨data, provenance, houtput, hvalid⟩ := hmapped _ List.mem_cons_self hcomplete
  obtain ⟨missing, hmissing, -, hrefused⟩ := hrefuses (barsLine 1 []) (by simp [barsLines]) ("price.close", "close")
    (by simp [hconfig]) (by with_unfolding_all decide)
  exact ⟨compiled, sampler, data, provenance, missing, hcompiled, hsampler, hsame, houtput, hvalid, hmissing,
    hrefused⟩

/-- A record without a mapped field passes the archive's check, and the mapping refuses it. -/
theorem sealedRecords_missingField :
    ¬∀ (codec : BasicWorkflow.TextCodec) (descriptor : RecordsDescriptor) (lines : List (Except PyError Json))
      (definition : Json) (compiled : CompiledRowMap),
      verifyRecordsCapability codec descriptor lines = .ok () →
      compileRowMapContract definition (some descriptor.fieldSchemas) = .ok compiled →
      ∀ line, .ok (.obj line) ∈ lines → ∃ sampler data provenance,
        RowMappingSampler.initialized definition (some descriptor.fieldSchemas) = .ok sampler ∧
        mapRecord (descriptor.record line) compiled.config (compiled.sourceSchema.map Prod.fst) =
          .ok (data, provenance) ∧
        sampler.validateOutput.validate (.obj data) = .ok () := by
  intro h
  obtain ⟨compiled, hcompiled⟩ := Raising.exists_ok_of_toBool
    (x := compileRowMapContract barsDefinition (some barsDescriptor.fieldSchemas))
    (by with_unfolding_all decide)
  obtain ⟨sampler, data, provenance, -, houtput, -⟩ := h barsCodec barsDescriptor barsLines barsDefinition
    compiled (Raising.toBool_eq_true.mp (by with_unfolding_all decide)) hcompiled (barsLine 1 [])
    (by simp [barsLines])
  have hmissing : (match compileRowMapContract barsDefinition (some barsDescriptor.fieldSchemas) with
      | .ok compiled => (mapRecord (barsDescriptor.record (barsLine 1 [])) compiled.config
          (compiled.sourceSchema.map Prod.fst)).toBool
      | .error _ => true) = false := by with_unfolding_all decide
  rw [hcompiled] at hmissing
  dsimp only at hmissing
  rw [houtput] at hmissing
  cases hmissing

end Bars

end TradeFramework.RowMap
