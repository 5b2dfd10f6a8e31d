import TradeFramework.Contracts.Conformance

/-!
# The roots of an expanded contract map

Expansion emits descendants only under dotted paths, so the entry of a root key is the schema
that was built for the root, and a map of roots keeps its meaning.
-/

namespace TradeFramework

section Emission

variable {depth : ℕ} {expanded expanded' : Contracts} {path : String} {schema : Schema}

/-- Emitting a schema leaves the other roots alone. -/
lemma emitSchema_lookup_root {k : String} (hk : '.' ∉ k.toList) (hne : k ≠ path)
    (h : emitSchema depth expanded path schema = .ok expanded') :
    expanded'.lookup k = expanded.lookup k := by
  induction depth generalizing expanded expanded' path schema with
  | zero => simp [emitSchema] at h
  | succ depth ih =>
    simp only [emitSchema, Raising.bind_eq_ok] at h
    obtain ⟨normalized, -, reconciled, -, h⟩ := h
    refine Raising.foldlM_invariant (fun e => e.lookup k = expanded.lookup k) ?_ ?_ h
    · intro e e' name _ he hstep
      obtain ⟨child, -, hstep⟩ := Raising.bind_eq_ok.mp hstep
      split_ifs at hstep with hnever
      · cases hstep
        exact he
      · have hchild : k ≠ s!"{path}.{name}" := by
          rintro rfl
          exact hk (dot_mem_childPath path name)
        exact (ih hchild hstep).trans he
    · exact Dict.lookup_set_ne _ _ hne

/-- The entry of an emitted root is its normalized schema. -/
lemma emitSchema_lookup_self (hpath : '.' ∉ path.toList) (hnew : expanded.lookup path = none)
    (h : emitSchema depth expanded path schema = .ok expanded') :
    ∃ normalized, normalizeDataKeySchema schema.toJson path = .ok normalized ∧
      expanded'.lookup path = some normalized := by
  cases depth with
  | zero => simp [emitSchema] at h
  | succ depth =>
    simp only [emitSchema, Raising.bind_eq_ok, hnew, reconcileSchema, Raising.pure_eq_ok] at h
    obtain ⟨normalized, hnormalized, _, rfl, h⟩ := h
    refine ⟨normalized, hnormalized, ?_⟩
    refine Raising.foldlM_invariant (fun e => e.lookup path = some normalized) ?_ ?_ h
    · intro e e' name _ he hstep
      obtain ⟨child, -, hstep⟩ := Raising.bind_eq_ok.mp hstep
      split_ifs at hstep with hnever
      · cases hstep
        exact he
      · have hchild : path ≠ s!"{path}.{name}" := by
          intro heq
          exact hpath (heq ▸ dot_mem_childPath path name)
        exact (emitSchema_lookup_root hpath hchild hstep).trans he
    · exact Dict.lookup_set_self _ _ _

end Emission

section Roots

lemma get_entriesBelow {α : Type} (entries : List (List String × α)) (name : String)
    (rest : List String) :
    Dict.get (entriesBelow entries name) rest = Dict.get entries (name :: rest) := by
  induction entries with
  | nil => rfl
  | cons e entries ih =>
    rcases e with ⟨_ | ⟨first, tail⟩, value⟩
    · simpa [entriesBelow] using ih
    · by_cases hfirst : first = name
      · subst hfirst
        by_cases htail : rest = tail
        · simp [entriesBelow, htail]
        · simpa [entriesBelow, htail] using ih
      · have hne : name ≠ first := fun h => hfirst h.symm
        simpa [entriesBelow, hfirst, hne] using ih

/-- A tree node without children is its own declaration. -/
lemma buildSchema_leaf {entries : List (List String × Schema)} {parts : List String}
    (h : childNames entries = []) : buildSchema entries parts =
      normalizeDataKeySchema ((Dict.get entries []).getD .wildcard).toJson (joinPath parts) := by
  rw [buildSchema, h]
  rfl

/-- The dotless entries after the roots of a contract map were emitted. -/
lemma emitRoots_lookup {roots : List (String × Schema)} {expanded expanded' : Contracts}
    (hdot : ∀ root ∈ roots, '.' ∉ root.1.toList) (hnodup : (roots.map Prod.fst).Nodup)
    (hnew : ∀ root ∈ roots, expanded.lookup root.1 = none)
    (h : roots.foldlM (fun expanded root => emitSchema (emitDepth root.2) expanded root.1 root.2)
      expanded = .ok expanded') :
    (∀ root ∈ roots, ∃ schema, normalizeDataKeySchema root.2.toJson root.1 = .ok schema ∧
      expanded'.lookup root.1 = some schema) ∧
    ∀ k, '.' ∉ k.toList → k ∉ roots.map Prod.fst → expanded'.lookup k = expanded.lookup k := by
  induction roots generalizing expanded with
  | nil =>
    have heq : expanded = expanded' := by simpa using h
    simp [heq]
  | cons root roots ih =>
    rw [List.foldlM_cons, Raising.bind_eq_ok] at h
    obtain ⟨middle, hemit, h⟩ := h
    rw [List.map_cons, List.nodup_cons] at hnodup
    have hother : ∀ k, '.' ∉ k.toList → k ≠ root.1 → middle.lookup k = expanded.lookup k :=
      fun k hk hne => emitSchema_lookup_root hk hne hemit
    have hrest := ih (fun r hr => hdot r (by simp [hr])) hnodup.2 ?_ h
    · refine ⟨List.forall_mem_cons.mpr ⟨?_, hrest.1⟩, fun k hk hnot => ?_⟩
      · obtain ⟨schema, hschema, hlookup⟩ :=
          emitSchema_lookup_self (hdot root (by simp)) (hnew root (by simp)) hemit
        refine ⟨schema, hschema, ?_⟩
        rw [hrest.2 root.1 (hdot root (by simp)) hnodup.1, hlookup]
      · rw [List.map_cons, List.mem_cons, not_or] at hnot
        rw [hrest.2 k hk hnot.2, hother k hk hnot.1]
    · intro r hr
      have hne : r.1 ≠ root.1 := fun heq => hnodup.1 (heq ▸ List.mem_map_of_mem hr)
      rw [hother r.1 (hdot r (by simp [hr])) hne]
      exact hnew r (by simp [hr])

/-- The parts of every declaration of an expansion are the segments of a valid path. -/
lemma declareContract_segments {contracts : List (String × Json)}
    {explicit : List (List String × Schema)}
    (h : (Dict.items contracts).foldlM declareContract [] = .ok explicit) :
    ∀ e ∈ explicit, ∃ path : DataPath, e.1 = path.parts := by
  refine Raising.foldlM_invariant (fun explicit : List (List String × Schema) =>
    ∀ e ∈ explicit, ∃ path : DataPath, e.1 = path.parts) ?_ (by simp) h
  intro before after entry _ hbefore hstep e he
  simp only [declareContract, Raising.bind_eq_ok, Raising.pure_eq_ok] at hstep
  obtain ⟨path, -, normalized, -, ⟨⟩, -, rfl⟩ := hstep
  rcases Dict.mem_set he with rfl | he
  · exact ⟨path, rfl⟩
  · exact hbefore e he

lemma isPathSegment_of_mem_childNames {contracts : List (String × Json)}
    {explicit : List (List String × Schema)}
    (h : (Dict.items contracts).foldlM declareContract [] = .ok explicit) {name : String}
    (hname : name ∈ childNames explicit) : isPathSegment name = true := by
  obtain ⟨rest, value, hmem⟩ := mem_childNames.mp hname
  obtain ⟨path, hparts⟩ := declareContract_segments h _ hmem
  refine path.valid name ?_
  have hin : name ∈ path.parts := hparts ▸ List.mem_cons_self
  exact hin

/-- The root entries of an expansion: one for every declared root, with the schema built for it. -/
theorem expandContracts_roots {contracts : List (String × Json)} {expanded : Contracts}
    (h : expandContracts contracts = .ok expanded) :
    ∃ explicit, (Dict.items contracts).foldlM declareContract [] = .ok explicit ∧
      (∀ name ∈ childNames explicit, ∃ built schema,
        buildSchema (entriesBelow explicit name) [name] = .ok built ∧
        normalizeDataKeySchema built.toJson name = .ok schema ∧
        expanded.lookup name = some schema) ∧
      ∀ k, '.' ∉ k.toList → k ∉ childNames explicit → expanded.lookup k = none := by
  obtain ⟨explicit, hexplicit, h⟩ := Raising.bind_eq_ok.mp h
  obtain ⟨roots, hroots, h⟩ := Raising.bind_eq_ok.mp h
  have hbuilt : List.Forall₂ (fun name root => root.1 = name ∧
      buildSchema (entriesBelow explicit name) [name] = .ok root.2) (childNames explicit) roots := by
    refine (Raising.mapM_eq_ok.mp hroots).imp fun name root hroot => ?_
    obtain ⟨built, hbuilt, rfl⟩ := Raising.map_eq_ok.mp (by simpa using hroot)
    exact ⟨rfl, hbuilt⟩
  have hkeys : roots.map Prod.fst = childNames explicit := by
    refine List.forall₂_eq_eq_eq ▸ ?_
    rw [List.forall₂_map_left_iff]
    exact hbuilt.flip.imp fun _ _ h => h.1
  have hdot : ∀ root ∈ roots, '.' ∉ root.1.toList := by
    intro root hroot
    have hname : root.1 ∈ childNames explicit := hkeys ▸ List.mem_map_of_mem hroot
    exact dot_notMem_of_isPathSegment (isPathSegment_of_mem_childNames hexplicit hname)
  have hnodup : (roots.map Prod.fst).Nodup := hkeys ▸ Dict.nodup_keys _
  obtain ⟨hself, hother⟩ := emitRoots_lookup hdot hnodup (by simp) h
  refine ⟨explicit, hexplicit, fun name hname => ?_, fun k hk hnot => ?_⟩
  · obtain ⟨root, hroot, rfl, hbuild⟩ := Related.exists_mem_left hbuilt.flip hname
    obtain ⟨schema, hschema, hlookup⟩ := hself root hroot
    exact ⟨root.2, schema, hbuild, hschema, hlookup⟩
  · simpa using hother k hk (hkeys ▸ hnot)

/-- Every declaration is recorded under its segments, up to schemas with the same values. -/
lemma declareContract_declared {contracts : List (String × Json)}
    {explicit : List (List String × Schema)}
    (h : (Dict.items contracts).foldlM declareContract [] = .ok explicit) :
    ∀ entry ∈ Dict.items contracts, ∃ path declared recorded, splitDataPath entry.1 = .ok path ∧
      normalizeSchema entry.2 = .ok declared ∧ Dict.get explicit path.parts = some recorded ∧
      ∀ v, declared.Accepts v ↔ recorded.Accepts v := by
  have hseen := Raising.foldlM_relation
    (fun (seen : List (String × Json)) (explicit : List (List String × Schema)) =>
      ∀ entry ∈ seen, ∃ path declared recorded, splitDataPath entry.1 = .ok path ∧
        normalizeSchema entry.2 = .ok declared ∧ Dict.get explicit path.parts = some recorded ∧
        ∀ v, declared.Accepts v ↔ recorded.Accepts v) ?_ [] (by simp) h
  · simpa using hseen
  intro seen before after entry hbefore hstep e he
  simp only [declareContract, Raising.bind_eq_ok, Raising.pure_eq_ok, Raising.raiseIf_eq_ok]
    at hstep
  obtain ⟨path, hpath, normalized, hnormalized, ⟨⟩, hsame, rfl⟩ := hstep
  rcases List.mem_append.mp he with he | he
  · obtain ⟨p, declared, recorded, hp, hdeclared, hget, haccepts⟩ := hbefore e he
    by_cases hparts : p.parts = path.parts
    · rw [hparts] at hget
      have hequal : schemaValuesEqual recorded normalized = true := by simpa [hget] using hsame
      refine ⟨p, declared, normalized, hp, hdeclared, by rw [Dict.get_set, if_pos hparts], fun v => ?_⟩
      rw [haccepts v, accepts_of_schemaValuesEqual hequal v]
    · exact ⟨p, declared, recorded, hp, hdeclared, by rw [Dict.get_set, if_neg hparts, hget],
        haccepts⟩
  · rw [List.mem_singleton.mp he]
    exact ⟨path, normalized, normalized, hpath, (normalizeDataKeySchema_eq_ok.mp hnormalized).1,
      by rw [Dict.get_set, if_pos rfl], fun _ => Iff.rfl⟩

/-- A contract map of roots keeps its meaning under expansion. -/
theorem expandContracts_rootMap {contracts : List (String × Json)} {expanded : Contracts}
    (hroots : ∀ entry ∈ Dict.items contracts, ∀ path, splitDataPath entry.1 = .ok path →
      path.rest = [])
    (h : expandContracts contracts = .ok expanded) {name : String} {raw : Json}
    (hname : isPathSegment name = true) (hraw : contracts.lookup name = some raw) :
    ∃ declared schema, normalizeSchema raw = .ok declared ∧ expanded.lookup name = some schema ∧
      ∀ v, declared.Accepts v ↔ schema.Accepts v := by
  obtain ⟨explicit, hexplicit, hbuilt, -⟩ := expandContracts_roots h
  have hflat : ∀ e ∈ explicit, ∃ root, e.1 = [root] := by
    refine Raising.foldlM_invariant (fun explicit : List (List String × Schema) =>
      ∀ e ∈ explicit, ∃ root, e.1 = [root]) ?_ (by simp) hexplicit
    intro before after entry hentry hbefore hstep e he
    simp only [declareContract, Raising.bind_eq_ok, Raising.pure_eq_ok] at hstep
    obtain ⟨path, hpath, normalized, -, ⟨⟩, -, rfl⟩ := hstep
    rcases Dict.mem_set he with rfl | he
    · exact ⟨path.root, by rw [DataPath.parts, hroots entry hentry path hpath]⟩
    · exact hbefore e he
  obtain ⟨path, declared, recorded, hpath, hdeclared, hget, haccepts⟩ :=
    declareContract_declared hexplicit (name, raw) (Dict.mem_items.mpr hraw)
  rw [splitDataPath_segment hname] at hpath
  cases hpath
  have hleaf : childNames (entriesBelow explicit name) = [] := by
    refine List.eq_nil_iff_forall_not_mem.mpr fun child hchild => ?_
    obtain ⟨rest, value, hmem⟩ := mem_childNames.mp hchild
    obtain ⟨root, hroot⟩ := hflat _ (mem_entriesBelow.mp hmem)
    simp at hroot
  have hchild : name ∈ childNames explicit := by
    have hmem := Dict.lookup_mem hget
    exact mem_childNames.mpr ⟨[], recorded, hmem⟩
  obtain ⟨built, schema, hbuild, hschema, hlookup⟩ := hbuilt name hchild
  have hown : Dict.get (entriesBelow explicit name) [] = some recorded := by
    rw [get_entriesBelow]
    exact hget
  rw [buildSchema_leaf hleaf, hown, Option.getD_some] at hbuild
  refine ⟨declared, schema, hdeclared, hlookup, fun v => ?_⟩
  rw [haccepts v, accepts_of_normalizeDataKeySchema hbuild v,
    accepts_of_normalizeDataKeySchema hschema v]

end Roots

end TradeFramework
