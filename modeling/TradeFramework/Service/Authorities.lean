import TradeFramework.Service.PreparedSubmissions

/-!
# One-shot authorities

Sessions prepare, issue, cache, look up and consume in any interleaving over one store, and the service
may restart. The history lists, newest first, what the store handed out and took in.
-/

namespace TradeFramework.PreparedSubmissions

open Raising (raiseIf)
open Program (Script perform)

section Machine

variable (Request : Type)

/-- The operations of the store, and the freeze of a request. -/
inductive Op
  | getCachedBuild (session : String) (request : Request)
  | freeze (request : Request)
  | issue (session : String) (request : Request) (frozenRequest : Json)
  | cacheBuild (session : String) (request : Request) (frozenRequest : Json)
  | consume (token session : String) (request : Request)

variable {Request}

def Res : Op Request → Type
  | .getCachedBuild _ _ => Except PyError (Option (Json × ℚ))
  | .freeze _ => Except PyError Json
  | .issue _ _ _ => Except PyError Issued
  | .cacheBuild _ _ _ => Except PyError ℚ
  | .consume _ _ _ => Except PyError Json

/-- The environment gives the clock of each operation of the store, and what a freeze returns. -/
def Answer : Op Request → Type
  | .freeze _ => Except PyError Json
  | _ => ℚ

/-- What the store handed out or took in, with its expiry or the clock of the operation. -/
inductive Happening (Request : Type)
  | issued (token session : String) (request : Request) (frozenRequest : Json) (expiresAt : ℚ)
  | consumed (token session : String) (request : Request) (frozenRequest : Json) (now : ℚ)
  | built (session : String) (request : Request) (frozenRequest : Json) (expiresAt : ℚ)
  | hit (session : String) (request : Request) (frozenRequest : Json) (now : ℚ)

/-- The store, the number of tokens drawn so far, and the history. -/
structure Memory (Request : Type) where
  store : Store := ⟨[], []⟩
  drawn : ℕ := 0
  history : List (Happening Request) := []

variable {Normalized : Type} (engine : Engine Request Normalized) (limits : Limits)

def noteHit (session : String) (request : Request) (now : ℚ) (history : List (Happening Request)) :
    Except PyError (Option (Json × ℚ)) → List (Happening Request)
  | .ok (some (frozen, _)) => .hit session request frozen now :: history
  | _ => history

def noteIssue (session : String) (request : Request) (frozenRequest : Json) (now : ℚ)
    (history : List (Happening Request)) : Except PyError Issued → List (Happening Request)
  | .ok issued =>
    .issued issued.preparedSubmissionToken session request frozenRequest (now + limits.lifetimeSeconds) ::
      history
  | .error _ => history

def noteBuild (session : String) (request : Request) (frozenRequest : Json) (now : ℚ)
    (history : List (Happening Request)) : Except PyError ℚ → List (Happening Request)
  | .ok _ => .built session request frozenRequest (now + limits.buildCacheLifetimeSeconds) :: history
  | .error _ => history

def noteConsumption (token session : String) (request : Request) (now : ℚ)
    (history : List (Happening Request)) : Except PyError Json → List (Happening Request)
  | .ok frozen => .consumed token session request frozen now :: history
  | .error _ => history

def exec : (op : Op Request) → Answer op → Memory Request → Res op × Memory Request
  | .getCachedBuild session request, now, m =>
    let result := getCachedBuild engine session request now m.store
    (result.1, ⟨result.2, m.drawn, noteHit session request now m.history result.1⟩)
  | .freeze _, frozen, m => (frozen, m)
  | .issue session request frozenRequest, now, m =>
    let result := issuePreparedSubmission engine limits session request frozenRequest now m.drawn m.store
    (result.1, ⟨result.2.1, result.2.2,
      noteIssue limits session request frozenRequest now m.history result.1⟩)
  | .cacheBuild session request frozenRequest, now, m =>
    let result := cacheBuild engine limits session request frozenRequest now m.store
    (result.1, ⟨result.2, m.drawn, noteBuild limits session request frozenRequest now m.history result.1⟩)
  | .consume token session request, now, m =>
    let result := consume engine token session request now m.store
    (result.1, ⟨result.2, m.drawn, noteConsumption token session request now m.history result.1⟩)

/-- What `prepare_backtest_submission` returns. -/
structure Prepared where
  cacheHit : Bool
  buildCacheExpiresInSeconds : ℚ
  pipelineTopology : Json
  environmentTopology : Json
  analysisTopology : Json
  resultContracts : Json
  issued : Issued

/-- A member of a value that must be an object. -/
def memberOf (value : Json) (key : String) : Except PyError Json :=
  match value with
  | .obj fields =>
    match fields.lookup key with
    | some member => pure member
    | none => throw (.keyError key)
  | _ => throw (.typeError "value is not an object")

def topology (artifact : Json) (plan : String) : Except PyError Json := do
  memberOf (← memberOf artifact plan) "topology"

/-- The execution snapshot of a freeze, with its hash checked. -/
def checkedSnapshot (frozen : Json) : Except PyError Unit :=
  match frozen with
  | .obj fields =>
    match fields.lookup "executionSnapshot" with
    | some (.obj snapshot) =>
      raiseIf (!engine.snapshotHashValid snapshot)
        (.valueError "Authoritative Backtest freeze returned an invalid snapshot hash.")
    | _ => throw (.valueError "Authoritative Backtest freeze returned no execution snapshot.")
  | _ => throw (.valueError "Authoritative Backtest freeze returned no execution snapshot.")

/-- What the caller is told of a build. -/
def preparedResult (frozen : Json) (cacheHit : Bool) (expiresIn : ℚ) (issued : Issued) :
    Except PyError Prepared := do
  let snapshot ← memberOf frozen "executionSnapshot"
  let artifact ← memberOf snapshot "compositionArtifact"
  let pipeline ← topology artifact "pipelinePlan"
  let environment ← topology artifact "environmentPlan"
  let analysis ← topology artifact "analysisPlan"
  let results ← memberOf artifact "resultContracts"
  pure ⟨cacheHit, expiresIn, pipeline, environment, analysis, results, issued⟩

/-- A service call: a program over the operations that may raise. -/
abbrev ServiceCall (Request α : Type) := Script (Op Request) Res PyError α

namespace ServiceCall

def lift {α : Type} (result : Except PyError α) : ServiceCall Request α := ExceptT.mk (pure result)

def getCachedBuild (session : String) (request : Request) : ServiceCall Request (Option (Json × ℚ)) :=
  ExceptT.mk (perform (Op.getCachedBuild session request))

def freeze (request : Request) : ServiceCall Request Json := ExceptT.mk (perform (Op.freeze request))

def issue (session : String) (request : Request) (frozenRequest : Json) : ServiceCall Request Issued :=
  ExceptT.mk (perform (Op.issue session request frozenRequest))

def cacheBuild (session : String) (request : Request) (frozenRequest : Json) : ServiceCall Request ℚ :=
  ExceptT.mk (perform (Op.cacheBuild session request frozenRequest))

def consume (token session : String) (request : Request) : ServiceCall Request Json :=
  ExceptT.mk (perform (Op.consume token session request))

end ServiceCall

/-- `prepare_backtest_submission`. -/
def prepareBacktestSubmission (session : String) (request : Request) : ServiceCall Request Prepared := do
  let cached ← ServiceCall.getCachedBuild session request
  let frozen ← match cached with
    | none => ServiceCall.freeze request
    | some build => pure build.1
  ServiceCall.lift (checkedSnapshot engine frozen)
  let issued ← ServiceCall.issue session request frozen
  let expiresIn ← match cached with
    | none => ServiceCall.cacheBuild session request frozen
    | some build => pure build.2
  ServiceCall.lift (preparedResult frozen cached.isSome expiresIn issued)

/-- The calls that arrive. -/
inductive Call (Request : Type)
  | prepare (session : String) (request : Request)
  | getCachedBuild (session : String) (request : Request)
  | issue (session : String) (request : Request) (frozenRequest : Json)
  | cacheBuild (session : String) (request : Request) (frozenRequest : Json)
  | consume (token session : String) (request : Request)

def Call.program : Call Request → Program (Op Request) Res Unit
  | .prepare session request => Script.thread (prepareBacktestSubmission engine session request)
  | .getCachedBuild session request => Script.thread (ServiceCall.getCachedBuild session request)
  | .issue session request frozen => Script.thread (ServiceCall.issue session request frozen)
  | .cacheBuild session request frozen => Script.thread (ServiceCall.cacheBuild session request frozen)
  | .consume token session request => Script.thread (ServiceCall.consume token session request)

/-- The service process: any number of calls over one store. A restart loses the store. -/
def machine : Machine (Op Request) Res (Memory Request) (Call Request) where
  Answer := Answer
  exec := exec engine limits
  spawn call m := some (call.program engine, m)
  crash m := { m with store := ⟨[], []⟩ }

end Machine

section Laws

variable {Request Normalized : Type} (engine : Engine Request Normalized) (limits : Limits)

/-- Two requests with one normal form, so with one digest. -/
def SameRequest (a b : Request) : Prop :=
  ∃ normalized, engine.normalize a = .ok normalized ∧ engine.normalize b = .ok normalized

/-- An issue that a consumption spends. -/
def Authorizes (token session : String) (request : Request) (frozenRequest : Json) (now : ℚ) :
    Happening Request → Prop
  | .issued token' session' request' frozenRequest' expiresAt =>
    token' = token ∧ session' = session ∧ SameRequest engine request' request ∧ now < expiresAt ∧
      jsonValuesEqual frozenRequest' frozenRequest = true
  | _ => False

/-- A build of a session for a request. -/
def BuildFor (session : String) (request : Request) : Happening Request → Prop
  | .built session' request' _ _ => session' = session ∧ SameRequest engine request' request
  | _ => False

/-- A build that a hit returns. -/
def Serves (session : String) (request : Request) (frozenRequest : Json) (now : ℚ) :
    Happening Request → Prop
  | .built session' request' frozenRequest' expiresAt =>
    session' = session ∧ SameRequest engine request' request ∧ now < expiresAt ∧
      jsonValuesEqual frozenRequest' frozenRequest = true
  | _ => False

def IssuedToken (token : String) : Happening Request → Prop
  | .issued token' _ _ _ _ => token' = token
  | _ => False

def ConsumedToken (token : String) : Happening Request → Prop
  | .consumed token' _ _ _ _ => token' = token
  | _ => False

/-- What must have happened before: an issue draws a new token; a consumption spends an issue, once; a hit
returns the last build of the session for the request. -/
def Justified (earlier : List (Happening Request)) : Happening Request → Prop
  | .issued token _ _ _ _ => ∀ h ∈ earlier, ¬IssuedToken token h
  | .consumed token session request frozenRequest now =>
    (∀ h ∈ earlier, ¬ConsumedToken token h) ∧
      ∃ h ∈ earlier, Authorizes engine token session request frozenRequest now h
  | .built _ _ _ _ => True
  | .hit session request frozenRequest now =>
    ∃ later h before, earlier = later ++ h :: before ∧
      (∀ between ∈ later, ¬BuildFor engine session request between) ∧
      Serves engine session request frozenRequest now h

/-- Every happening of a history is justified by those before it. -/
def Lawful : List (Happening Request) → Prop
  | [] => True
  | h :: earlier => Justified engine earlier h ∧ Lawful earlier

/-- The history is lawful, and the store keeps one token for each session and stays in its bounds. -/
structure OneShot (m : Memory Request) : Prop where
  history : Lawful engine m.history
  sessions : (m.store.entries.map fun e => e.2.sessionIdentity).Nodup
  entries : m.store.entries.length ≤ limits.maxEntries
  builds : m.store.buildCache.length ≤ limits.maxEntries

end Laws

section Standing

variable {Request Normalized : Type} (engine : Engine Request Normalized) (limits : Limits)

/-- The token a happening is about. -/
def Happening.token : Happening Request → Option String
  | .issued token _ _ _ _ => some token
  | .consumed token _ _ _ _ => some token
  | _ => none

/-- The issue behind an authority of the store. -/
def Backed (history : List (Happening Request)) (token : String) (authority : Submission) : Prop :=
  ∃ request frozen, .issued token authority.sessionIdentity request frozen authority.expiresAt ∈ history ∧
    requestDigest engine request = .ok authority.requestDigest ∧
    engine.dumps frozen = .ok authority.frozenRequestJson

/-- A build that was cached under a key. -/
def BuiltUnder (key : String) : Happening Request → Prop
  | .built session request _ _ =>
    ∃ digest, requestDigest engine request = .ok digest ∧ buildCacheKey engine session digest = key
  | _ => False

/-- A cached build is the last one that was cached under its key. -/
def LastBuild (history : List (Happening Request)) (key : String) (build : CachedBuild) : Prop :=
  ∃ later before request frozen,
    history = later ++ .built build.sessionIdentity request frozen build.expiresAt :: before ∧
    (∀ between ∈ later, ¬BuiltUnder engine key between) ∧
    requestDigest engine request = .ok build.requestDigest ∧
    engine.dumps frozen = .ok build.frozenRequestJson

/-- What every operation keeps. -/
structure Standing (m : Memory Request) : Prop where
  lawful : Lawful engine m.history
  drawn : ∀ h ∈ m.history, ∀ token, h.token = some token → ∃ n < m.drawn, engine.token n = token
  backed : ∀ e ∈ m.store.entries, Backed engine m.history e.1 e.2
  unspent : ∀ e ∈ m.store.entries, ∀ h ∈ m.history, ¬ConsumedToken e.1 h
  sessions : (m.store.entries.map fun e => e.2.sessionIdentity).Nodup
  entries : m.store.entries.length ≤ limits.maxEntries
  lastBuilds : ∀ e ∈ m.store.buildCache, LastBuild engine m.history e.1 e.2
  keys : (m.store.buildCache.map Prod.fst).Nodup
  builds : m.store.buildCache.length ≤ limits.maxEntries

variable {engine limits} {store smaller : Store} {drawn : ℕ} {history : List (Happening Request)}

lemma SameRequest.requestDigest_eq {a b : Request} (h : SameRequest engine a b) :
    requestDigest engine a = requestDigest engine b := by
  obtain ⟨normalized, ha, hb⟩ := h
  unfold requestDigest
  rw [ha, hb]

lemma nodup_map_of_subperm {α β : Type} {f : α → β} {xs ys : List α} (h : xs.Subperm ys)
    (hys : (ys.map f).Nodup) : (xs.map f).Nodup := by
  obtain ⟨zs, hperm, hsublist⟩ := h
  exact (hperm.map f).nodup_iff.mp (hys.sublist (hsublist.map f))

/-- A store that shrinks stays as it should be. -/
lemma Standing.below (h : Standing engine limits ⟨store, drawn, history⟩) (hbelow : smaller.Below store) :
    Standing engine limits ⟨smaller, drawn, history⟩ where
  lawful := h.lawful
  drawn := h.drawn
  backed e he := h.backed e (hbelow.entries.subset he)
  unspent e he := h.unspent e (hbelow.entries.subset he)
  sessions := nodup_map_of_subperm hbelow.entries h.sessions
  entries := hbelow.entries.length_le.trans h.entries
  lastBuilds e he := h.lastBuilds e (hbelow.buildCache.subset he)
  keys := nodup_map_of_subperm hbelow.buildCache h.keys
  builds := hbelow.buildCache.length_le.trans h.builds

/-- A justified happening is noted: it consumes no token and builds under no key that the store holds. -/
lemma Standing.note (h : Standing engine limits ⟨store, drawn, history⟩) {happening : Happening Request}
    {drawn' : ℕ} (hle : drawn ≤ drawn') (hjustified : Justified engine history happening)
    (htoken : ∀ token, happening.token = some token → ∃ n < drawn', engine.token n = token)
    (hunspent : ∀ e ∈ store.entries, ¬ConsumedToken e.1 happening)
    (hkeys : ∀ e ∈ store.buildCache, ¬BuiltUnder engine e.1 happening) :
    Standing engine limits ⟨store, drawn', happening :: history⟩ where
  lawful := ⟨hjustified, h.lawful⟩
  drawn other hother token hother' := by
    rcases List.mem_cons.mp hother with rfl | hother
    · exact htoken token hother'
    · obtain ⟨n, hn, hsame⟩ := h.drawn other hother token hother'
      exact ⟨n, lt_of_lt_of_le hn hle, hsame⟩
  backed e he := by
    obtain ⟨request, frozen, hmem, hrest⟩ := h.backed e he
    exact ⟨request, frozen, List.mem_cons_of_mem _ hmem, hrest⟩
  unspent e he other hother := by
    rcases List.mem_cons.mp hother with rfl | hother
    · exact hunspent e he
    · exact h.unspent e he other hother
  sessions := h.sessions
  entries := h.entries
  lastBuilds e he := by
    obtain ⟨later, before, request, frozen, hhistory, hlater, hrest⟩ := h.lastBuilds e he
    refine ⟨happening :: later, before, request, frozen, ?_, ?_, hrest⟩
    · rw [show history = _ from hhistory]
      rfl
    · intro between hbetween
      rcases List.mem_cons.mp hbetween with rfl | hbetween
      · exact hkeys e he
      · exact hlater between hbetween
  keys := h.keys
  builds := h.builds

/-- A token that was not drawn is in nothing that happened. -/
lemma Standing.fresh (h : Standing engine limits ⟨store, drawn, history⟩) {number : ℕ}
    (hle : drawn ≤ number) {happening : Happening Request} (hmem : happening ∈ history) :
    happening.token ≠ some (engine.token number) := by
  intro htoken
  obtain ⟨n, hn, hsame⟩ := h.drawn happening hmem _ htoken
  have hnumber := engine.token_injective hsame
  have hlt : n < drawn := hn
  omega

/-- An authority of a session that has none is stored. -/
lemma Standing.insert (h : Standing engine limits ⟨store, drawn, history⟩) {token : String}
    {authority : Submission} (hbacked : Backed engine history token authority)
    (hunspent : ∀ happening ∈ history, ¬ConsumedToken token happening)
    (hsession : ∀ e ∈ store.entries, e.2.sessionIdentity ≠ authority.sessionIdentity)
    (hroom : store.entries.length + 1 ≤ limits.maxEntries) :
    Standing engine limits
      ⟨{ store with entries := store.entries ++ [(token, authority)] }, drawn, history⟩ where
  lawful := h.lawful
  drawn := h.drawn
  backed e he := by
    rcases List.mem_append.mp he with he | he
    · exact h.backed e he
    · rw [List.mem_singleton.mp he]
      exact hbacked
  unspent e he := by
    rcases List.mem_append.mp he with he | he
    · exact h.unspent e he
    · rw [List.mem_singleton.mp he]
      exact hunspent
  sessions := by
    rw [List.map_append, List.nodup_append]
    refine ⟨h.sessions, by simp, ?_⟩
    intro session hmem new hnew
    obtain ⟨e, he, rfl⟩ := List.mem_map.mp hmem
    rw [List.mem_map] at hnew
    obtain ⟨e', he', rfl⟩ := hnew
    rw [List.mem_singleton.mp he']
    exact hsession e he
  entries := by
    rw [List.length_append]
    exact hroom
  lastBuilds := h.lastBuilds
  keys := h.keys
  builds := h.builds

/-- A build is cached under a key that holds none, and the oldest ones leave. -/
lemma Standing.cache (h : Standing engine limits ⟨store, drawn, history⟩) {key : String}
    {build : CachedBuild} (hbuild : LastBuild engine history key build)
    (hkey : store.buildCache.lookup key = none) :
    Standing engine limits
      ⟨Store.trim limits { store with buildCache := store.buildCache ++ [(key, build)] }, drawn, history⟩ where
  lawful := h.lawful
  drawn := h.drawn
  backed := h.backed
  unspent := h.unspent
  sessions := h.sessions
  entries := h.entries
  lastBuilds e he := by
    rcases List.mem_append.mp (List.mem_of_mem_drop he) with he | he
    · exact h.lastBuilds e he
    · rw [List.mem_singleton.mp he]
      exact hbuild
  keys := by
    have hall := Dict.nodup_append build h.keys hkey
    exact hall.sublist (List.Sublist.map _ (List.drop_sublist _ _))
  builds := by
    change (List.drop _ _).length ≤ _
    rw [List.length_drop]
    dsimp only
    omega

end Standing

section Steps

variable {Request Normalized : Type} {engine : Engine Request Normalized} {limits : Limits}
  {m : Memory Request} {session token : String} {request : Request} {frozenRequest : Json} {now : ℚ}

lemma Standing.getCachedBuild (h : Standing engine limits m) :
    Standing engine limits (exec engine limits (.getCachedBuild session request) now m).2 := by
  obtain ⟨hbelow, hhit⟩ :=
    @getCachedBuild_spec _ _ engine session request now _ h.keys
  have hsmaller := h.below hbelow
  unfold exec
  dsimp only
  unfold noteHit
  split
  · next frozen left hresult =>
    obtain ⟨digest, build, hdigest, hmem, hnow, hsession, hsame, hloads⟩ := hhit frozen left hresult
    obtain ⟨later, before, request', frozen', hhistory, hlater, hdigest', htext⟩ := h.lastBuilds _ hmem
    rw [hsame] at hdigest'
    apply hsmaller.note (le_refl _)
    · refine ⟨later, _, before, hhistory, ?_, hsession, same_request hdigest' hdigest, hnow,
        engine.loads_dumps _ _ _ htext hloads⟩
      intro between hbetween hbuild
      apply hlater between hbetween
      cases between with
      | built session'' request'' _ _ =>
        obtain ⟨hsession'', hsame''⟩ := hbuild
        refine ⟨digest, hsame''.requestDigest_eq.trans hdigest, ?_⟩
        rw [hsession'']
      | _ => exact hbuild
    · intro token htoken
      cases htoken
    · exact fun e _ hconsumed => hconsumed
    · exact fun e _ hbuilt => hbuilt
  · exact hsmaller

lemma Standing.consume (h : Standing engine limits m) :
    Standing engine limits (exec engine limits (.consume token session request) now m).2 := by
  obtain ⟨hbelow, hspent⟩ := @consume_spec _ _ engine token session request now m.store
  have hsmaller := h.below hbelow
  unfold exec
  dsimp only
  unfold noteConsumption
  split
  · next frozen hresult =>
    obtain ⟨hgone, digest, authority, hdigest, hmem, hnow, hsession, hsame, hloads⟩ := hspent frozen hresult
    obtain ⟨request', frozen', hissued, hdigest', htext⟩ := h.backed _ hmem
    rw [hsame] at hdigest'
    apply hsmaller.note (le_refl _)
    · refine ⟨h.unspent _ hmem, _, hissued, rfl, hsession, same_request hdigest' hdigest, hnow, ?_⟩
      exact engine.loads_dumps _ _ _ htext hloads
    · intro token' htoken
      cases htoken
      exact h.drawn _ hissued _ rfl
    · exact fun e he hconsumed => hgone e he hconsumed.symm
    · exact fun e _ hbuilt => hbuilt
  · exact hsmaller

lemma Standing.issue (h : Standing engine limits m) :
    Standing engine limits (exec engine limits (.issue session request frozenRequest) now m).2 := by
  unfold exec
  dsimp only
  rcases @issue_spec _ _ engine limits session request frozenRequest now m.drawn m.store with
    ⟨e, smaller, hresult, hbelow⟩ |
    ⟨digest, text, snapshotHash, number, kept, hresult, hle, hdigest, htext, hkept, hothers, hroom⟩
  · rw [hresult]
    exact h.below hbelow
  · rw [hresult]
    have hrest : Store.Below
        { m.store.purgeExpired now with entries := Dict.erase kept (engine.token number) } m.store :=
      ⟨((erase_subperm _ _).trans hkept.subperm), (m.store.purgeExpired_below now).buildCache⟩
    have hnoted : Standing engine limits ⟨{ m.store.purgeExpired now with
        entries := Dict.erase kept (engine.token number) }, number + 1, .issued (engine.token number) session
          request frozenRequest (now + limits.lifetimeSeconds) :: m.history⟩ := by
      apply (h.below hrest).note (by omega)
      · intro happening hmem hissued
        apply h.fresh hle hmem
        cases happening with
        | issued => exact congrArg some hissued
        | _ => exact hissued.elim
      · intro token htoken
        cases htoken
        exact ⟨number, by omega, rfl⟩
      · exact fun e _ hconsumed => hconsumed
      · exact fun e _ hbuilt => hbuilt
    apply hnoted.insert
    · exact ⟨request, frozenRequest, List.mem_cons_self, hdigest, htext⟩
    · intro happening hmem hconsumed
      rcases List.mem_cons.mp hmem with rfl | hmem
      · exact hconsumed
      · apply h.fresh hle hmem
        cases happening with
        | consumed => exact congrArg some hconsumed
        | _ => exact hconsumed.elim
    · exact fun e he => hothers e (List.mem_of_mem_filter he)
    · have hlength := (erase_subperm kept (engine.token number)).length_le
      have hmax := hroom h.entries
      dsimp only
      omega

lemma Standing.cacheBuild (h : Standing engine limits m) :
    Standing engine limits (exec engine limits (.cacheBuild session request frozenRequest) now m).2 := by
  unfold exec
  dsimp only
  rcases @cacheBuild_spec _ _ engine limits session request frozenRequest now m.store with
    ⟨e, hresult, hbelow⟩ | ⟨digest, text, build, hresult, hdigest, htext, hbuild⟩
  · rw [hresult]
    exact h.below hbelow
  · rw [hresult]
    let key := buildCacheKey engine session digest
    have hpurged := m.store.purgeExpired_below now
    have hrest : Store.Below
        { m.store.purgeExpired now with
          buildCache := Dict.erase (m.store.purgeExpired now).buildCache key } m.store :=
      ⟨hpurged.entries, (erase_subperm _ _).trans hpurged.buildCache⟩
    have hnoted : Standing engine limits ⟨{ m.store.purgeExpired now with
        buildCache := Dict.erase (m.store.purgeExpired now).buildCache key }, m.drawn, .built session
          request frozenRequest (now + limits.buildCacheLifetimeSeconds) :: m.history⟩ := by
      apply (h.below hrest).note (le_refl _)
      · trivial
      · intro token htoken
        cases htoken
      · exact fun e _ hconsumed => hconsumed
      · rintro e he ⟨digest', hdigest', hkey⟩
        rw [hdigest] at hdigest'
        cases hdigest'
        have hother : e.1 ≠ key := by simpa using (List.mem_filter.mp he).2
        exact hother hkey.symm
    apply hnoted.cache
    · refine ⟨[], m.history, request, frozenRequest, ?_, by simp, ?_, ?_⟩
      · rw [hbuild]
        rfl
      · rw [hbuild]
        exact hdigest
      · rw [hbuild]
        exact htext
    · dsimp only
      rw [Dict.lookup_erase, if_pos rfl]

variable (engine limits)

lemma standing_start : Standing engine limits {} where
  lawful := trivial
  drawn := by simp
  backed := by simp
  unspent := by simp
  sessions := by simp
  entries := by simp
  lastBuilds := by simp
  keys := by simp
  builds := by simp

lemma machine_keeps : (machine engine limits).Keeps (Standing engine limits) fun _ => True where
  exec op answer m _ h := by
    cases op with
    | getCachedBuild session request => exact h.getCachedBuild
    | freeze request => exact h
    | issue session request frozenRequest => exact h.issue
    | cacheBuild session request frozenRequest => exact h.cacheBuild
    | consume token session request => exact h.consume
  spawn call m program m' h hspawn := by
    cases hspawn
    exact ⟨h, Program.Safe.trivial _⟩
  crash m h := h.below ⟨List.nil_subperm, List.nil_subperm⟩

/-- In every run every consumption spends, once, a token of its own session, for the same request, before
its expiry, and gets what was frozen at its issue; every cache hit returns the last build of its session
for its request, before its expiry; and the store stays in its bounds. -/
theorem run_oneShot (events : List (machine engine limits).Event) :
    OneShot engine limits (Transitions.run (machine engine limits).step ⟨{}, []⟩ events).memory := by
  have hstart : Machine.Sound (Standing engine limits) (fun _ : Op Request => True)
      (⟨{}, []⟩ : Machine.Config (Op Request) Res (Memory Request)) :=
    ⟨standing_start engine limits, by simp⟩
  have hmemory := (hstart.run (machine_keeps engine limits) events).memory
  exact ⟨hmemory.lawful, hmemory.sessions, hmemory.entries, hmemory.builds⟩

end Steps

section Concrete

/-- The frozen form of a request that is its own normal form. -/
def plainFrozen (request : String) : Json :=
  .obj [("executionSnapshot", .obj [("executionInputs", .str request)])]

def plainDumps : Json → Except PyError String
  | .obj [("executionSnapshot", .obj [("executionInputs", .str request)])] => .ok request
  | _ => .error (.valueError "not a frozen request")

/-- Requests that are texts, and tokens that are longer and longer. -/
def plainEngine : Engine String String where
  normalize request := .ok request
  digest := id
  digest_injective := Function.injective_id
  executionInputs request := .ok (.str request)
  snapshotHashValid _ := true
  sha256 := id
  dumps := plainDumps
  loads text := .ok (plainFrozen text)
  loads_dumps value text read hdumps hloads := by
    cases hloads
    unfold plainDumps at hdumps
    split at hdumps
    · cases hdumps
      exact jsonValuesEqual_refl _
    · cases hdumps
  token n := String.ofList (List.replicate (n + 1) 'a')
  token_injective i j h := by
    have hlength := congrArg String.length h
    simpa using hlength

def plainLimits : Limits := ⟨64, 300, 1800, by decide, by decide, by decide⟩

def plainAnswers : (op : Op String) → Answer op
  | .getCachedBuild _ _ => (0 : ℚ)
  | .freeze request => .ok (plainFrozen request)
  | .issue _ _ _ => (0 : ℚ)
  | .cacheBuild _ _ _ => (0 : ℚ)
  | .consume _ _ _ => (0 : ℚ)

/-- A prepared token is consumed by its session, and not a second time. -/
example :
    let events : List (machine plainEngine plainLimits).Event :=
      [.spawn (.prepare "session" "request"), .spawn (.consume "a" "session" "request"),
        .spawn (.consume "a" "session" "request"), .advance 0 plainAnswers, .advance 0 plainAnswers,
        .advance 0 plainAnswers, .advance 1 plainAnswers, .advance 2 plainAnswers, .advance 0 plainAnswers]
    (Transitions.run (machine plainEngine plainLimits).step ⟨{}, []⟩ events).memory.history.map
      Happening.token = [none, some "a", some "a"] := by
  with_unfolding_all decide

end Concrete

end TradeFramework.PreparedSubmissions
