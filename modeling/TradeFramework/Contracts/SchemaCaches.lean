import TradeFramework.Contracts.ChildNormal
import TradeFramework.Contracts.Expansion
import TradeFramework.Library.JsonText
import TradeFramework.Library.LruCache
import TradeFramework.Library.Transitions

/-!
# Schema caches

Within one cache scope, the expansion of contracts and the normalization of a schema are memoized by
the encoded text of their argument. A cache holds texts, never the values it gave out, so what a
caller does to a value changes no entry.
-/

namespace TradeFramework.SchemaCaches

/-- `sort_keys`: every object with its members in the order of their names. -/
def sortKeys : Json → Json
  | .arr xs => .arr (xs.attach.map fun x => sortKeys x.1)
  | .obj d => .obj (((Dict.items d).attach.map fun e => (e.1.1, sortKeys e.1.2)).insertionSort
      fun a b => a.1 ≤ b.1)
  | value => value
termination_by value => sizeOf value
decreasing_by
  · exact Json.sizeOf_lt_arr x.2
  · exact Json.sizeOf_lt_obj e.2

/-- An encoder, which may refuse a value, and the decoder of its texts. -/
structure Codec (τ : Type) where
  dumps : Json → Option τ
  loads : τ → Json
  loads_dumps : ∀ {value text}, dumps value = some text → loads text = value

/-- What an argument holds: strict JSON, or any other object. -/
inductive Material
  | json (value : Json)
  | other (isMapping : Bool) (identity : ℕ)

def Material.isMapping : Material → Bool
  | .json (.obj _) => true
  | .json _ => false
  | .other isMapping _ => isMapping

/-- `exact` holds of built-in containers that nothing shares, within the depth the fast checks walk,
and of text without lone surrogates: what an encoding gives back unchanged. -/
structure Argument where
  material : Material
  exact : Bool

/-- The object a cache takes its key from. -/
def Argument.document (argument : Argument) : Option Json :=
  match argument with
  | ⟨.json (.obj d), true⟩ => some (.obj d)
  | _ => none

abbrev Answer := Except PyError Json

/-- A computation that normalizes schemas on its way. -/
inductive Expansion
  | answer (result : Answer)
  | normalize (value : Material) (path : String) (next : Answer → Expansion)

/-- The compiler without its caches. The path of a schema shows up in errors only. -/
structure Compiler where
  normalizeUncached : Material → String → Answer
  normalizeUncached_path : ∀ {value path normalized}, normalizeUncached value path = .ok normalized →
    ∀ other, normalizeUncached value other = .ok normalized
  expandMapping : Material → Expansion

/-- The compiler with its encoders; `orjson` may not be installed. -/
structure Engine (τ : Type) extends Compiler where
  strictJson : Codec τ
  orjson : Option (Codec τ)

structure Caches (τ : Type) where
  expansions : List (τ × τ)
  schemas : List (τ × τ)

def expandContractCacheMaxEntries : ℕ := 32

def normalizedDataKeySchemaCacheMaxEntries : ℕ := 256

section Uncached

variable (compiler : Compiler)

def notMapping : PyError :=
  .valueError "DataKey contracts must be an object mapping paths to JSON Schemas."

/-- The answer of a computation whose schemas are normalized without a cache. -/
def Expansion.result : Expansion → Answer
  | .answer result => result
  | .normalize value path next => (next (compiler.normalizeUncached value path)).result

/-- `_expand_contracts_uncached`. -/
def expandContractsUncached (contracts : Material) : Expansion :=
  if contracts.isMapping then compiler.expandMapping contracts else .answer (.error notMapping)

end Uncached

section Cached

variable {τ : Type} [DecidableEq τ] (engine : Engine τ)

/-- `normalize_data_key_schema`, with the answer of its cache and what it leaves there. -/
def normalizeDataKeySchema (cache : List (τ × τ)) (value : Argument) (path : String) :
    Answer × List (τ × τ) :=
  match engine.orjson, value.document with
  | some orjson, some document =>
    match orjson.dumps document with
    | none => (engine.normalizeUncached value.material path, cache)
    | some key =>
      match LruCache.get cache key with
      | some cached => (.ok (orjson.loads cached), LruCache.touch cache key cached)
      | none =>
        match engine.normalizeUncached value.material path with
        | .error failure => (.error failure, cache)
        | .ok normalized =>
          match orjson.dumps normalized with
          | none => (.ok normalized, cache)
          | some encoded =>
            (.ok normalized,
              LruCache.store normalizedDataKeySchemaCacheMaxEntries cache key encoded)
  | _, _ => (engine.normalizeUncached value.material path, cache)

/-- A computation whose schemas go through the cache. Which of them are exact depends on how their
containers are shared, and is given from outside. -/
def runExpansion (cache : List (τ × τ)) (exact : ℕ → Bool) : Expansion → Answer × List (τ × τ)
  | .answer result => (result, cache)
  | .normalize value path next =>
    let found := normalizeDataKeySchema engine cache ⟨value, exact 0⟩ path
    runExpansion found.2 (fun n => exact (n + 1)) (next found.1)

/-- The uncached expansion, within the scope of the schema cache. -/
def expandWithin (caches : Caches τ) (contracts : Material) (exact : ℕ → Bool) : Answer × Caches τ :=
  let found := runExpansion engine caches.schemas exact
    (expandContractsUncached engine.toCompiler contracts)
  (found.1, { caches with schemas := found.2 })

/-- The entry of a computed expansion. -/
def rememberExpansion (caches : Caches τ) (key : τ) (expanded : Json) : Caches τ :=
  match engine.strictJson.dumps (sortKeys expanded) with
  | none => caches
  | some encoded =>
    { caches with
      expansions := LruCache.store expandContractCacheMaxEntries caches.expansions key encoded }

/-- `expand_contracts`. -/
def expandContracts (caches : Caches τ) (contracts : Argument) (exact : ℕ → Bool) :
    Answer × Caches τ :=
  if contracts.material.isMapping = false then (.error notMapping, caches)
  else
    match contracts.document.bind engine.strictJson.dumps with
    | none => expandWithin engine caches contracts.material exact
    | some key =>
      match LruCache.get caches.expansions key with
      | some cached =>
        (.ok (engine.strictJson.loads cached),
          { caches with expansions := LruCache.touch caches.expansions key cached })
      | none =>
        match expandWithin engine caches contracts.material exact with
        | (.error failure, after) => (.error failure, after)
        | (.ok expanded, after) => (.ok expanded, rememberExpansion engine after key expanded)

end Cached

section Calls

inductive Call
  | expand (contracts : Argument) (exact : ℕ → Bool)
  | normalize (value : Argument) (path : String)

variable {τ : Type} [DecidableEq τ] (engine : Engine τ)

def Caches.empty : Caches τ := ⟨[], []⟩

def answer (caches : Caches τ) : Call → Answer × Caches τ
  | .expand contracts exact => expandContracts engine caches contracts exact
  | .normalize value path =>
    let found := normalizeDataKeySchema engine caches.schemas value path
    (found.1, { caches with schemas := found.2 })

/-- What the uncached functions return. -/
def uncachedAnswer : Call → Answer
  | .expand contracts _ =>
    (expandContractsUncached engine.toCompiler contracts.material).result engine.toCompiler
  | .normalize value path => engine.normalizeUncached value.material path

def step (caches : Caches τ) (call : Call) : Caches τ := (answer engine caches call).2

end Calls

section Faithfulness

variable {τ : Type} [DecidableEq τ] {engine : Engine τ}

/-- A schema entry holds what the uncached function returns for the schema its key encodes. -/
def SchemasFaithful (engine : Engine τ) (cache : List (τ × τ)) : Prop :=
  ∀ entry ∈ cache, ∀ orjson, engine.orjson = some orjson →
    ∃ value normalized, orjson.dumps value = some entry.1 ∧
      (∀ path, engine.normalizeUncached (.json value) path = .ok normalized) ∧
      orjson.dumps normalized = some entry.2

/-- Every entry holds what the uncached function returns for the argument its key encodes; an
expansion is encoded with its keys sorted. -/
structure Faithful (engine : Engine τ) (caches : Caches τ) : Prop where
  schemas : SchemasFaithful engine caches.schemas
  expansions : ∀ entry ∈ caches.expansions, ∃ value expanded,
    engine.strictJson.dumps value = some entry.1 ∧
    (expandContractsUncached engine.toCompiler (.json value)).result engine.toCompiler =
      .ok expanded ∧
    engine.strictJson.dumps (sortKeys expanded) = some entry.2

omit [DecidableEq τ] in
lemma Codec.dumps_inj {codec : Codec τ} {v w : Json} {text : τ} (hv : codec.dumps v = some text)
    (hw : codec.dumps w = some text) : v = w := by
  rw [← codec.loads_dumps hv, ← codec.loads_dumps hw]

lemma Argument.material_of_document {argument : Argument} {document : Json}
    (h : argument.document = some document) : argument.material = .json document := by
  unfold Argument.document at h
  split at h
  · cases h
    rfl
  · cases h

omit [DecidableEq τ] in
lemma faithful_empty : Faithful engine Caches.empty where
  schemas := by
    intro entry hentry
    exact absurd hentry List.not_mem_nil
  expansions := by
    intro entry hentry
    exact absurd hentry List.not_mem_nil

lemma schemasFaithful_store (bound : ℕ) {cache : List (τ × τ)} (h : SchemasFaithful engine cache)
    {orjson : Codec τ} (horjson : engine.orjson = some orjson) {document normalized : Json}
    {path : String} {key encoded : τ} (hkey : orjson.dumps document = some key)
    (hresult : engine.normalizeUncached (.json document) path = .ok normalized)
    (hencoded : orjson.dumps normalized = some encoded) :
    SchemasFaithful engine (LruCache.store bound cache key encoded) := by
  intro entry hentry orjson' horjson'
  rw [horjson, Option.some.injEq] at horjson'
  subst horjson'
  rcases LruCache.mem_store hentry with hold | rfl
  · exact h entry hold orjson horjson
  · exact ⟨document, normalized, hkey, engine.normalizeUncached_path hresult, hencoded⟩

/-- The schema cache is transparent. -/
lemma normalizeDataKeySchema_transparent {cache : List (τ × τ)} (h : SchemasFaithful engine cache)
    (value : Argument) (path : String) :
    (normalizeDataKeySchema engine cache value path).1 =
        engine.normalizeUncached value.material path ∧
      SchemasFaithful engine (normalizeDataKeySchema engine cache value path).2 := by
  unfold normalizeDataKeySchema
  cases horjson : engine.orjson with
  | none => exact ⟨rfl, h⟩
  | some orjson =>
    cases hdocument : value.document with
    | none => exact ⟨rfl, h⟩
    | some document =>
      have hmaterial := Argument.material_of_document hdocument
      dsimp only
      cases hkey : orjson.dumps document with
      | none => exact ⟨rfl, h⟩
      | some key =>
        dsimp only
        cases hget : LruCache.get cache key with
        | some cached =>
          obtain ⟨v, normalized, hv, hnormalized, hcached⟩ :=
            h _ (LruCache.mem_of_get hget) orjson horjson
          have hsame : v = document := Codec.dumps_inj hv hkey
          subst hsame
          dsimp only at hcached ⊢
          constructor
          · rw [hmaterial, hnormalized path, orjson.loads_dumps hcached]
          · intro entry hentry
            rcases LruCache.mem_touch hentry with hold | rfl
            · exact h entry hold
            · exact h _ (LruCache.mem_of_get hget)
        | none =>
          dsimp only
          cases hresult : engine.normalizeUncached value.material path with
          | error failure => exact ⟨rfl, h⟩
          | ok normalized =>
            dsimp only
            cases hencoded : orjson.dumps normalized with
            | none => exact ⟨rfl, h⟩
            | some encoded =>
              rw [hmaterial] at hresult
              refine ⟨rfl, ?_⟩
              dsimp only
              exact schemasFaithful_store _ h horjson hkey hresult hencoded

lemma runExpansion_transparent {cache : List (τ × τ)} (h : SchemasFaithful engine cache)
    (exact : ℕ → Bool) (expansion : Expansion) :
    (runExpansion engine cache exact expansion).1 = expansion.result engine.toCompiler ∧
      SchemasFaithful engine (runExpansion engine cache exact expansion).2 := by
  induction expansion generalizing cache exact with
  | answer result => exact ⟨rfl, h⟩
  | normalize value path next ih =>
    obtain ⟨hanswer, hcache⟩ :=
      normalizeDataKeySchema_transparent h ⟨value, exact 0⟩ path
    have hrest := ih (normalizeDataKeySchema engine cache ⟨value, exact 0⟩ path).1 hcache
      (fun n => exact (n + 1))
    unfold runExpansion Expansion.result
    dsimp only at hanswer ⊢
    rw [← hanswer]
    exact hrest

/-- The argument has an entry in the cache of expansions. -/
def Hits (engine : Engine τ) (caches : Caches τ) (contracts : Argument) : Prop :=
  ∃ key cached, contracts.document.bind engine.strictJson.dumps = some key ∧
    LruCache.get caches.expansions key = some cached

lemma Hits.isMapping {caches : Caches τ} {contracts : Argument} (h : Hits engine caches contracts) :
    contracts.material.isMapping = true := by
  obtain ⟨key, -, hkey, -⟩ := h
  obtain ⟨document, hdocument, -⟩ := Option.bind_eq_some_iff.mp hkey
  unfold Argument.document at hdocument
  split at hdocument
  · rfl
  · cases hdocument

/-- On a hit the answer has its keys sorted. -/
lemma expandContracts_hit {caches : Caches τ} (h : Faithful engine caches) {contracts : Argument}
    (hhits : Hits engine caches contracts) (exact : ℕ → Bool) : ∃ expanded,
    (expandContractsUncached engine.toCompiler contracts.material).result engine.toCompiler =
      .ok expanded ∧
    (expandContracts engine caches contracts exact).1 = .ok (sortKeys expanded) ∧
    Faithful engine (expandContracts engine caches contracts exact).2 := by
  have hmapping := hhits.isMapping
  obtain ⟨key, cached, hkey, hget⟩ := hhits
  obtain ⟨document, hdocument, hdumps⟩ := Option.bind_eq_some_iff.mp hkey
  obtain ⟨v, expanded, hv, hexpanded, hcached⟩ := h.expansions _ (LruCache.mem_of_get hget)
  have hsame : v = document := Codec.dumps_inj hv hdumps
  subst hsame
  refine ⟨expanded, ?_, ?_, ?_⟩
  · rw [Argument.material_of_document hdocument]
    exact hexpanded
  · unfold expandContracts
    rw [hmapping, if_neg (by simp), hkey]
    dsimp only
    rw [hget]
    dsimp only
    rw [engine.strictJson.loads_dumps hcached]
  · unfold expandContracts
    rw [hmapping, if_neg (by simp), hkey]
    dsimp only
    rw [hget]
    refine ⟨h.schemas, ?_⟩
    intro entry hentry
    rcases LruCache.mem_touch hentry with hold | rfl
    · exact h.expansions entry hold
    · exact h.expansions _ (LruCache.mem_of_get hget)

lemma faithful_rememberExpansion {caches : Caches τ} (h : Faithful engine caches) {key : τ}
    {document expanded : Json} (hkey : engine.strictJson.dumps document = some key)
    (hexpanded : (expandContractsUncached engine.toCompiler (.json document)).result
      engine.toCompiler = .ok expanded) :
    Faithful engine (rememberExpansion engine caches key expanded) := by
  unfold rememberExpansion
  cases hencoded : engine.strictJson.dumps (sortKeys expanded) with
  | none => exact h
  | some encoded =>
    refine ⟨h.schemas, ?_⟩
    intro entry hentry
    rcases LruCache.mem_store hentry with hold | rfl
    · exact h.expansions entry hold
    · exact ⟨document, expanded, hkey, hexpanded, hencoded⟩

lemma expandWithin_transparent {caches : Caches τ} (h : Faithful engine caches) (contracts : Material)
    (exact : ℕ → Bool) :
    (expandWithin engine caches contracts exact).1 =
        (expandContractsUncached engine.toCompiler contracts).result engine.toCompiler ∧
      Faithful engine (expandWithin engine caches contracts exact).2 := by
  obtain ⟨hanswer, hcache⟩ := runExpansion_transparent h.schemas exact
    (expandContractsUncached engine.toCompiler contracts)
  exact ⟨hanswer, hcache, h.expansions⟩

/-- Without a hit the expansion is computed as it is without the cache. -/
lemma expandContracts_miss {caches : Caches τ} (h : Faithful engine caches) {contracts : Argument}
    (hmiss : ¬ Hits engine caches contracts) (exact : ℕ → Bool) :
    (expandContracts engine caches contracts exact).1 =
      (expandContractsUncached engine.toCompiler contracts.material).result engine.toCompiler ∧
    Faithful engine (expandContracts engine caches contracts exact).2 := by
  unfold expandContracts
  split_ifs with hmapping
  · refine ⟨?_, h⟩
    unfold expandContractsUncached
    rw [hmapping, if_neg (by simp)]
    rfl
  · obtain ⟨hanswer, hafter⟩ := expandWithin_transparent h contracts.material exact
    cases hkey : contracts.document.bind engine.strictJson.dumps with
    | none => exact ⟨hanswer, hafter⟩
    | some key =>
      dsimp only
      cases hget : LruCache.get caches.expansions key with
      | some cached => exact absurd ⟨key, cached, hkey, hget⟩ hmiss
      | none =>
        dsimp only
        obtain ⟨document, hdocument, hdumps⟩ := Option.bind_eq_some_iff.mp hkey
        have hmaterial := Argument.material_of_document hdocument
        generalize expandWithin engine caches contracts.material exact = found at hanswer hafter
        obtain ⟨result, after⟩ := found
        cases result with
        | error failure => exact ⟨hanswer, hafter⟩
        | ok expanded =>
          refine ⟨hanswer, faithful_rememberExpansion hafter hdumps ?_⟩
          rw [← hmaterial]
          exact hanswer.symm

/-- A call that expands contracts whose expansion is already cached needs every object of that
expansion to have its members in the order of their names. -/
def Ordered (engine : Engine τ) (caches : Caches τ) : Call → Prop
  | .expand contracts _ => Hits engine caches contracts → ∀ expanded,
      (expandContractsUncached engine.toCompiler contracts.material).result engine.toCompiler =
        .ok expanded → sortKeys expanded = expanded
  | .normalize _ _ => True

lemma answer_spec {caches : Caches τ} (h : Faithful engine caches) (call : Call) :
    ((answer engine caches call).1 = uncachedAnswer engine call ↔ Ordered engine caches call) ∧
      Faithful engine (step engine caches call) := by
  cases call with
  | expand contracts exact =>
    by_cases hhits : Hits engine caches contracts
    · obtain ⟨expanded, huncached, hanswer, hafter⟩ := expandContracts_hit h hhits exact
      refine ⟨?_, hafter⟩
      change (expandContracts engine caches contracts exact).1 =
        (expandContractsUncached engine.toCompiler contracts.material).result engine.toCompiler ↔ _
      rw [hanswer, huncached, Except.ok.injEq]
      constructor
      · intro hsorted _ expanded' hexpanded'
        rw [huncached, Except.ok.injEq] at hexpanded'
        rw [← hexpanded']
        exact hsorted
      · intro hordered
        exact hordered hhits expanded huncached
    · obtain ⟨hanswer, hafter⟩ := expandContracts_miss h hhits exact
      refine ⟨?_, hafter⟩
      constructor
      · intro _ hhits'
        exact absurd hhits' hhits
      · intro _
        exact hanswer
  | normalize value path =>
    obtain ⟨hanswer, hafter⟩ := normalizeDataKeySchema_transparent h.schemas value path
    refine ⟨?_, hafter, h.expansions⟩
    constructor
    · intro _
      trivial
    · intro _
      exact hanswer

lemma faithful_run {caches : Caches τ} (h : Faithful engine caches) (calls : List Call) :
    Faithful engine (Transitions.run (step engine) caches calls) := by
  have hstep (before : Caches τ) (call : Call) (hbefore : Faithful engine before) (_ : True) :
      Faithful engine (step engine before call) := (answer_spec hbefore call).2
  exact Transitions.run_invariant hstep h (Transitions.along_true caches calls)

/-- Within one scope, every call returns what the uncached function returns exactly when every
expansion that is answered from the cache is one whose keys are sorted. -/
theorem transparent_iff (engine : Engine τ) (calls : List Call) :
    (∀ reached call rest, calls = reached ++ call :: rest →
      (answer engine (Transitions.run (step engine) Caches.empty reached) call).1 =
        uncachedAnswer engine call) ↔
    Transitions.Along (step engine) (Ordered engine) Caches.empty calls := by
  rw [Transitions.along_iff_steps]
  constructor
  · intro hall reached call rest hcalls
    exact (answer_spec (faithful_run faithful_empty reached) call).1.mp (hall reached call rest hcalls)
  · intro hall reached call rest hcalls
    exact (answer_spec (faithful_run faithful_empty reached) call).1.mpr (hall reached call rest hcalls)

end Faithfulness

section Bounds

variable {τ : Type} [DecidableEq τ] {engine : Engine τ}

structure Bounded (caches : Caches τ) : Prop where
  expansions : caches.expansions.length ≤ expandContractCacheMaxEntries
  schemas : caches.schemas.length ≤ normalizedDataKeySchemaCacheMaxEntries

lemma length_normalizeDataKeySchema {cache : List (τ × τ)}
    (h : cache.length ≤ normalizedDataKeySchemaCacheMaxEntries) (value : Argument) (path : String) :
    (normalizeDataKeySchema engine cache value path).2.length ≤
      normalizedDataKeySchemaCacheMaxEntries := by
  unfold normalizeDataKeySchema
  split
  · split
    · exact h
    · split
      · rename_i hget
        exact (LruCache.length_touch_le hget).trans h
      · split
        · exact h
        · split
          · exact h
          · dsimp only
            exact LruCache.length_store_le _
  · exact h

lemma length_runExpansion {cache : List (τ × τ)}
    (h : cache.length ≤ normalizedDataKeySchemaCacheMaxEntries) (exact : ℕ → Bool)
    (expansion : Expansion) : (runExpansion engine cache exact expansion).2.length ≤
      normalizedDataKeySchemaCacheMaxEntries := by
  induction expansion generalizing cache exact with
  | answer result => exact h
  | normalize value path next ih =>
    unfold runExpansion
    apply ih
    apply length_normalizeDataKeySchema h

lemma bounded_expandWithin {caches : Caches τ} (h : Bounded caches) (contracts : Material)
    (exact : ℕ → Bool) : Bounded (expandWithin engine caches contracts exact).2 where
  expansions := h.expansions
  schemas := length_runExpansion h.schemas exact _

lemma bounded_rememberExpansion {caches : Caches τ} (h : Bounded caches) (key : τ) (expanded : Json) :
    Bounded (rememberExpansion engine caches key expanded) := by
  unfold rememberExpansion
  split
  · exact h
  · exact ⟨LruCache.length_store_le _, h.schemas⟩

lemma bounded_step {caches : Caches τ} (h : Bounded caches) (call : Call) :
    Bounded (step engine caches call) := by
  cases call with
  | normalize value path => exact ⟨h.expansions, length_normalizeDataKeySchema h.schemas value path⟩
  | expand contracts exact =>
    change Bounded (expandContracts engine caches contracts exact).2
    have hwithin := @bounded_expandWithin τ _ engine caches h contracts.material exact
    unfold expandContracts
    split_ifs
    · exact h
    · split
      · exact hwithin
      · split
        · rename_i cached hget
          exact ⟨(LruCache.length_touch_le hget).trans h.expansions, h.schemas⟩
        · generalize expandWithin engine caches contracts.material exact = found at hwithin
          obtain ⟨result, after⟩ := found
          cases result with
          | error failure => exact hwithin
          | ok expanded => exact bounded_rememberExpansion hwithin _ expanded

/-- No run makes a cache hold more than its bound. -/
theorem bounded_run (engine : Engine τ) (calls : List Call) :
    Bounded (Transitions.run (step engine) Caches.empty calls) := by
  have hstep (before : Caches τ) (call : Call) (hbefore : Bounded before) (_ : True) :
      Bounded (step engine before call) := bounded_step hbefore call
  have hempty : Bounded (Caches.empty : Caches τ) := ⟨Nat.zero_le _, Nat.zero_le _⟩
  exact Transitions.run_invariant hstep hempty (Transitions.along_true _ calls)

end Bounds

section Engine

open JsonText (Value Numeral)

mutual

/-- A value without fractions, as a JSON text writes it. -/
def toValue : Json → Option Value
  | .null => some .null
  | .bool b => some (.bool b)
  | .int n => some (.num (Numeral.ofInt n))
  | .num _ => none
  | .str s => some (.str s)
  | .arr xs => (toValues xs).map .arr
  | .obj d => (toMembers d).map .obj

def toValues : List Json → Option (List Value)
  | [] => some []
  | x :: xs => (toValue x).bind fun v => (toValues xs).map (v :: ·)

def toMembers : List (String × Json) → Option (List (String × Value))
  | [] => some []
  | (name, x) :: d => (toValue x).bind fun v => (toMembers d).map ((name, v) :: ·)

end

mutual

def ofValue : Value → Json
  | .null => .null
  | .bool b => .bool b
  | .num n => (n.toInt.map Json.int).getD .null
  | .str s => .str s
  | .arr vs => .arr (ofValues vs)
  | .obj ms => .obj (ofMembers ms)

def ofValues : List Value → List Json
  | [] => []
  | v :: vs => ofValue v :: ofValues vs

def ofMembers : List (String × Value) → List (String × Json)
  | [] => []
  | (name, v) :: ms => (name, ofValue v) :: ofMembers ms

end

mutual

lemma ofValue_toValue (x : Json) {v : Value} (h : toValue x = some v) : ofValue v = x := by
  match x with
  | .null | .bool b | .str s =>
    rw [toValue, Option.some.injEq] at h
    rw [← h, ofValue]
  | .int n =>
    rw [toValue, Option.some.injEq] at h
    rw [← h, ofValue, Numeral.toInt_ofInt]
    rfl
  | .num q =>
    rw [toValue] at h
    cases h
  | .arr xs =>
    rw [toValue] at h
    obtain ⟨vs, hvs, rfl⟩ := Option.map_eq_some_iff.mp h
    rw [ofValue, ofValues_toValues xs hvs]
  | .obj d =>
    rw [toValue] at h
    obtain ⟨ms, hms, rfl⟩ := Option.map_eq_some_iff.mp h
    rw [ofValue, ofMembers_toMembers d hms]

lemma ofValues_toValues (xs : List Json) {vs : List Value} (h : toValues xs = some vs) :
    ofValues vs = xs := by
  match xs with
  | [] =>
    rw [toValues, Option.some.injEq] at h
    rw [← h, ofValues]
  | x :: xs =>
    rw [toValues] at h
    obtain ⟨v, hv, hrest⟩ := Option.bind_eq_some_iff.mp h
    obtain ⟨vs, hvs, rfl⟩ := Option.map_eq_some_iff.mp hrest
    rw [ofValues, ofValue_toValue x hv, ofValues_toValues xs hvs]

lemma ofMembers_toMembers (d : List (String × Json)) {ms : List (String × Value)}
    (h : toMembers d = some ms) : ofMembers ms = d := by
  match d with
  | [] =>
    rw [toMembers, Option.some.injEq] at h
    rw [← h, ofMembers]
  | (name, x) :: d =>
    rw [toMembers] at h
    obtain ⟨v, hv, hrest⟩ := Option.bind_eq_some_iff.mp h
    obtain ⟨ms, hms, rfl⟩ := Option.map_eq_some_iff.mp hrest
    rw [ofMembers, ofValue_toValue x hv, ofMembers_toMembers d hms]

end

/-- An encoder that refuses fractions. -/
def wholeCodec : Codec (List Char) where
  dumps value := (toValue value).map (JsonText.stringify 0)
  loads text := ((JsonText.parse text).map ofValue).getD .null
  loads_dumps := by
    intro value text h
    obtain ⟨v, hv, rfl⟩ := Option.map_eq_some_iff.mp h
    rw [JsonText.parse_stringify, Option.map_some, Option.getD_some, ofValue_toValue value hv]

/-- The compiler of this development, with that encoder. -/
def wholeEngine : Engine (List Char) where
  normalizeUncached
    | .json value, path => (TradeFramework.normalizeDataKeySchema value path).map Schema.toJson
    | .other _ _, _ => .error <| .valueError
      "A data contract must be a JSON Schema object; string type aliases are forbidden."
  normalizeUncached_path := by
    intro value path normalized h other
    cases value with
    | json value =>
      obtain ⟨schema, hschema, rfl⟩ := Raising.map_eq_ok.mp h
      exact Raising.map_eq_ok.mpr ⟨schema, normalizeDataKeySchema_path hschema other, rfl⟩
    | other isMapping identity => cases h
  expandMapping
    | .json (.obj d) =>
      .answer ((TradeFramework.expandContracts d).map fun expanded => .obj expanded.toDocuments)
    | _ => .answer (.error notMapping)
  strictJson := wholeCodec
  orjson := some wholeCodec

/-- The names of an object that was returned, in order. -/
def returnedNames : Answer → List String
  | .ok (.obj d) => d.map Prod.fst
  | _ => []

/-- Two declarations, the later name first. -/
def descendingContracts : Argument where
  material := .json (.obj [("b", .obj [("type", .str "string")]), ("a", .obj [("type", .str "string")])])
  exact := true

def descendingCall : Call := .expand descendingContracts fun _ => true

theorem descendingContracts_reordered :
    ¬ ∀ reached call rest, [descendingCall, descendingCall] = reached ++ call :: rest →
      (answer wholeEngine (Transitions.run (step wholeEngine) Caches.empty reached) call).1 =
        uncachedAnswer wholeEngine call := by
  intro hall
  have hsecond := congrArg returnedNames (hall [descendingCall] descendingCall [] rfl)
  have hcached : returnedNames (answer wholeEngine (Transitions.run (step wholeEngine) Caches.empty
      [descendingCall]) descendingCall).1 = ["a", "b"] := by decide +kernel
  have huncached : returnedNames (uncachedAnswer wholeEngine descendingCall) = ["b", "a"] := by
    decide +kernel
  rw [hcached, huncached] at hsecond
  exact absurd hsecond (by decide)

end Engine

end TradeFramework.SchemaCaches
