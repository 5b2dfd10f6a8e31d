import TradeFramework.Data.Json
import TradeFramework.Library.Program
import TradeFramework.Library.Raising
import Mathlib.Algebra.Order.Ring.Rat

/-!
# Prepared Backtest submissions

The store keeps one-shot execution authorities under opaque tokens and reusable builds under keys of a
session and a request. Each of its operations is atomic; any number of calls interleave.
-/

namespace TradeFramework.PreparedSubmissions

open Raising (raiseIf)
open Program (Script perform)

/-- What the store and its callers use of the rest of the engine and of the standard library: requests and
their digests, the strict JSON texts, and the tokens `secrets.token_urlsafe` gives one after the other. -/
structure Engine (Request Normalized : Type) where
  normalize : Request → Except PyError Normalized
  digest : Normalized → String
  digest_injective : Function.Injective digest
  executionInputs : Request → Except PyError Json
  snapshotHashValid : List (String × Json) → Bool
  sha256 : String → String
  dumps : Json → Except PyError String
  loads : String → Except PyError Json
  loads_dumps : ∀ value text read, dumps value = .ok text → loads text = .ok read →
    jsonValuesEqual value read = true
  token : ℕ → String
  token_injective : Function.Injective token

/-- The checked arguments of the store's constructor. -/
structure Limits where
  maxEntries : ℕ
  lifetimeSeconds : ℚ
  buildCacheLifetimeSeconds : ℚ
  maxEntries_pos : 0 < maxEntries
  lifetimeSeconds_pos : 0 < lifetimeSeconds
  buildCacheLifetimeSeconds_pos : 0 < buildCacheLifetimeSeconds

/-- `_PreparedBacktestSubmission`. -/
structure Submission where
  expiresAt : ℚ
  frozenRequestDigest : String
  frozenRequestJson : String
  requestDigest : String
  sessionIdentity : String
  tokenDigest : String
deriving DecidableEq, Repr

/-- `_CachedBacktestBuild`. -/
structure CachedBuild where
  expiresAt : ℚ
  frozenRequestDigest : String
  frozenRequestJson : String
  requestDigest : String
  sessionIdentity : String
deriving DecidableEq, Repr

/-- `PreparedBacktestSubmissionStore`: its two ordered dicts. -/
structure Store where
  entries : List (String × Submission)
  buildCache : List (String × CachedBuild)
deriving DecidableEq, Repr

/-- What an issue returns. -/
structure Issued where
  preparedSubmissionToken : String
  requestDigest : String
  snapshotHash : Json
  expiresInSeconds : ℚ
deriving Repr

section Operations

variable {Request Normalized : Type} (engine : Engine Request Normalized) (limits : Limits)

def requestDigest (request : Request) : Except PyError String := do
  let normalized ← engine.normalize request
  pure ("sha256:" ++ engine.digest normalized)

def sessionIdentity (value : String) : Except PyError String := do
  raiseIf (value = "") (.valueError "Prepared Backtest submission session identity is required.")
  pure value

/-- `secrets.compare_digest` of two strings. -/
def compareDigest (a b : String) : Except PyError Bool :=
  if a.toList.all (fun c => c.toNat < 128) ∧ b.toList.all (fun c => c.toNat < 128) then pure (a == b)
  else throw (.typeError "comparing strings with non-ASCII characters is not supported")

/-- `_purge_expired_locked`. -/
def Store.purgeExpired (now : ℚ) (store : Store) : Store where
  entries := store.entries.filter fun e => now < e.2.expiresAt
  buildCache := store.buildCache.filter fun e => now < e.2.expiresAt

def buildCacheKey (session digest : String) : String :=
  engine.sha256 (session ++ String.ofList [Char.ofNat 0] ++ digest)

/-- `move_to_end`. -/
def moveToEnd {α : Type} (d : List (String × α)) (key : String) : List (String × α) :=
  match d.lookup key with
  | some value => Dict.erase d key ++ [(key, value)]
  | none => d

/-- Whether a cached build is the one for a session and a request, and its text is unchanged. -/
def buildMatches (build : CachedBuild) (session digest : String) : Except PyError Bool := do
  if !(← compareDigest build.sessionIdentity session) then pure false
  else if !(← compareDigest build.requestDigest digest) then pure false
  else compareDigest build.frozenRequestDigest (engine.sha256 build.frozenRequestJson)

/-- `_get_cached_build`. -/
def getCachedBuild (session : String) (request : Request) (now : ℚ) (store : Store) :
    Except PyError (Option (Json × ℚ)) × Store :=
  match sessionIdentity session >>= fun _ => requestDigest engine request with
  | .error e => (.error e, store)
  | .ok digest =>
    let key := buildCacheKey engine session digest
    let store := store.purgeExpired now
    match store.buildCache.lookup key with
    | none => (.ok none, store)
    | some build =>
      match buildMatches engine build session digest with
      | .error e => (.error e, store)
      | .ok false => (.ok none, { store with buildCache := Dict.erase store.buildCache key })
      | .ok true =>
        ((engine.loads build.frozenRequestJson).map fun frozen => some (frozen, max 0 (build.expiresAt - now)),
          { store with buildCache := moveToEnd store.buildCache key })

/-- The text of a build and the digest of its request. -/
def buildMaterial (session : String) (request : Request) (frozenRequest : Json) :
    Except PyError (String × String) := do
  let _ ← sessionIdentity session
  let digest ← requestDigest engine request
  let text ← engine.dumps frozenRequest
  pure (digest, text)

/-- The oldest builds leave until no more are kept than the limit. -/
def Store.trim (store : Store) : Store :=
  { store with buildCache := store.buildCache.drop (store.buildCache.length - limits.maxEntries) }

/-- `_cache_build`. -/
def cacheBuild (session : String) (request : Request) (frozenRequest : Json) (now : ℚ) (store : Store) :
    Except PyError ℚ × Store :=
  match buildMaterial engine session request frozenRequest with
  | .error e => (.error e, store)
  | .ok (digest, text) =>
    let key := buildCacheKey engine session digest
    let build : CachedBuild :=
      ⟨now + limits.buildCacheLifetimeSeconds, engine.sha256 text, text, digest, session⟩
    let store := store.purgeExpired now
    (.ok limits.buildCacheLifetimeSeconds,
      Store.trim limits { store with buildCache := moveToEnd (Dict.set store.buildCache key build) key })

/-- The checks of a popped authority. -/
def verifyAuthority (authority : Submission) (token session digest : String) : Except PyError Json := do
  raiseIf (!(← compareDigest authority.tokenDigest (engine.sha256 token)))
    (.valueError "Prepared Backtest submission token is invalid.")
  raiseIf (!(← compareDigest authority.sessionIdentity session))
    (.permissionError "Prepared Backtest submission belongs to another session.")
  raiseIf (!(← compareDigest authority.requestDigest digest))
    (.valueError "Prepared Backtest submission does not match the exact request.")
  raiseIf (!(← compareDigest authority.frozenRequestDigest (engine.sha256 authority.frozenRequestJson)))
    (.valueError "Prepared Backtest submission material changed.")
  engine.loads authority.frozenRequestJson

/-- The checks of `consume` before it takes the lock. -/
def consumeArguments (token session : String) (request : Request) : Except PyError String := do
  let _ ← sessionIdentity session
  raiseIf (token = "") (.valueError "Prepared Backtest submission token is required.")
  requestDigest engine request

/-- `consume`. The authority is popped before it is checked. -/
def consume (token session : String) (request : Request) (now : ℚ) (store : Store) :
    Except PyError Json × Store :=
  match consumeArguments engine token session request with
  | .error e => (.error e, store)
  | .ok digest =>
    let store := store.purgeExpired now
    match store.entries.lookup token with
    | none =>
      (.error (.valueError "Prepared Backtest submission is unknown, expired, or already consumed."), store)
    | some authority =>
      (verifyAuthority engine authority token session digest,
        { store with entries := Dict.erase store.entries token })

/-- The tokens of a session. -/
def sessionTokens (session : String) : List (String × Submission) → Except PyError (List String)
  | [] => pure []
  | (token, authority) :: rest => do
    let mine ← compareDigest authority.sessionIdentity session
    let others ← sessionTokens session rest
    pure (if mine then token :: others else others)

/-- The first token from a number on that is not in use, among one more than there are entries. -/
def mint (entries : List (String × Submission)) : ℕ → ℕ → ℕ
  | 0, next => next
  | tries + 1, next => if Dict.has entries (engine.token next) then mint entries tries (next + 1) else next

/-- The frozen snapshot of a request, checked against the request. -/
def frozenSnapshot (request : Request) (frozenRequest : Json) : Except PyError (List (String × Json)) :=
  match frozenRequest with
  | .obj frozen =>
    match frozen.lookup "executionSnapshot" with
    | some (.obj snapshot) => do
      let inputs ← engine.executionInputs request
      raiseIf (!jsonValuesEqual ((snapshot.lookup "executionInputs").getD .null) inputs)
        (.valueError "Prepared Backtest request does not match its frozen snapshot.")
      pure snapshot
    | _ => throw (.valueError "Prepared Backtest submission requires a frozen request.")
  | _ => throw (.valueError "Prepared Backtest submission requires a frozen request.")

/-- What an issue computes before it takes the lock: the request's digest, the snapshot and the text. -/
def issueMaterial (session : String) (request : Request) (frozenRequest : Json) :
    Except PyError (String × List (String × Json) × String) := do
  let _ ← sessionIdentity session
  let digest ← requestDigest engine request
  let snapshot ← frozenSnapshot engine request frozenRequest
  let text ← engine.dumps frozenRequest
  pure (digest, snapshot, text)

/-- `_issue_prepared_submission`, with the number of tokens drawn. -/
def issuePreparedSubmission (session : String) (request : Request) (frozenRequest : Json) (now : ℚ)
    (drawn : ℕ) (store : Store) : Except PyError Issued × Store × ℕ :=
  match issueMaterial engine session request frozenRequest with
  | .error e => (.error e, store, drawn)
  | .ok (digest, snapshot, text) =>
    let store := store.purgeExpired now
    match sessionTokens session store.entries with
    | .error e => (.error e, store, drawn)
    | .ok tokens =>
      if tokens = [] ∧ limits.maxEntries ≤ store.entries.length then
        (.error (.runtimeError "Prepared Backtest submission capacity is full."), store, drawn)
      else
        let number := mint engine store.entries store.entries.length drawn
        let token := engine.token number
        let authority : Submission :=
          ⟨now + limits.lifetimeSeconds, engine.sha256 text, text, digest, session, engine.sha256 token⟩
        let kept := tokens.foldl Dict.erase store.entries
        (.ok ⟨token, digest, (snapshot.lookup "snapshotHash").getD .null, limits.lifetimeSeconds⟩,
          { store with entries := moveToEnd (Dict.set kept token authority) token }, number + 1)

end Operations

section Shrinking

/-- A store that holds nothing but what the other holds, in any order. -/
structure Store.Below (s t : Store) : Prop where
  entries : s.entries.Subperm t.entries
  buildCache : s.buildCache.Subperm t.buildCache

lemma Store.Below.refl (s : Store) : s.Below s := ⟨List.Subperm.refl _, List.Subperm.refl _⟩

lemma Store.Below.trans {s t u : Store} (hst : s.Below t) (htu : t.Below u) : s.Below u :=
  ⟨hst.entries.trans htu.entries, hst.buildCache.trans htu.buildCache⟩

lemma Store.purgeExpired_below (now : ℚ) (s : Store) : (s.purgeExpired now).Below s :=
  ⟨List.filter_sublist.subperm, List.filter_sublist.subperm⟩

lemma erase_subperm {α : Type} (d : List (String × α)) (key : String) : (Dict.erase d key).Subperm d :=
  List.filter_sublist.subperm

lemma moveToEnd_set {α : Type} (d : List (String × α)) (key : String) (value : α) :
    moveToEnd (Dict.set d key value) key = Dict.erase d key ++ [(key, value)] := by
  unfold moveToEnd
  rw [Dict.lookup_set_self]
  dsimp only
  rw [Dict.erase_set]

lemma moveToEnd_subperm {α : Type} {d : List (String × α)} (hd : (d.map Prod.fst).Nodup) (key : String) :
    (moveToEnd d key).Subperm d := by
  unfold moveToEnd
  split
  · next value hvalue =>
    have hmem : (key, value) ∈ d := Dict.lookup_mem hvalue
    apply List.subperm_of_subset
    · apply List.Nodup.of_map Prod.fst
      apply Dict.nodup_append
      · exact hd.sublist (List.Sublist.map _ List.filter_sublist)
      · rw [Dict.lookup_erase, if_pos rfl]
    · intro e he
      rcases List.mem_append.mp he with he | he
      · exact List.mem_of_mem_filter he
      · rw [List.mem_singleton.mp he]
        exact hmem
  · exact List.Subperm.refl _

end Shrinking

section Specifications

variable {Request Normalized : Type} {engine : Engine Request Normalized} {limits : Limits}

lemma compareDigest_eq_true {a b : String} (h : compareDigest a b = .ok true) : a = b := by
  unfold compareDigest at h
  split_ifs at h
  · simpa using h

lemma compareDigest_eq_false {a b : String} (h : compareDigest a b = .ok false) : a ≠ b := by
  unfold compareDigest at h
  split_ifs at h
  · simpa using h

/-- Requests with one digest have one normal form. -/
lemma requestDigest_eq_ok {request : Request} {digest : String}
    (h : requestDigest engine request = .ok digest) :
    ∃ normalized, engine.normalize request = .ok normalized ∧
      digest = "sha256:" ++ engine.digest normalized := by
  obtain ⟨normalized, hnormalized, hdigest⟩ := Raising.bind_eq_ok.mp h
  exact ⟨normalized, hnormalized, (Raising.pure_eq_ok.mp hdigest).symm⟩

lemma same_request {a b : Request} {digest : String} (ha : requestDigest engine a = .ok digest)
    (hb : requestDigest engine b = .ok digest) :
    ∃ normalized, engine.normalize a = .ok normalized ∧ engine.normalize b = .ok normalized := by
  obtain ⟨left, hleft, hdigest⟩ := requestDigest_eq_ok ha
  obtain ⟨right, hright, hsame⟩ := requestDigest_eq_ok hb
  have htext : engine.digest left = engine.digest right := by
    rw [hdigest] at hsame
    exact String.append_right_inj _ |>.mp hsame
  rw [engine.digest_injective htext] at hleft
  exact ⟨right, hleft, hright⟩

lemma buildMatches_eq_true {build : CachedBuild} {session digest : String}
    (h : buildMatches engine build session digest = .ok true) :
    build.sessionIdentity = session ∧ build.requestDigest = digest := by
  obtain ⟨mine, hmine, h⟩ := Raising.bind_eq_ok.mp h
  cases mine with
  | false => simp at h
  | true =>
    obtain ⟨same, hsame, h⟩ := Raising.bind_eq_ok.mp h
    cases same with
    | false => simp at h
    | true => exact ⟨compareDigest_eq_true hmine, compareDigest_eq_true hsame⟩

/-- A check that two texts are one, and what follows it. -/
lemma checkDigest_eq_ok {α : Type} {a b : String} {e : PyError} {rest : Except PyError α} {result : α}
    (h : (compareDigest a b >>= fun same => raiseIf (!same) e >>= fun _ => rest) = .ok result) :
    a = b ∧ rest = .ok result := by
  obtain ⟨same, hsame, h⟩ := Raising.bind_eq_ok.mp h
  obtain ⟨_, hcheck, hrest⟩ := Raising.bind_eq_ok.mp h
  have htrue : same = true := by simpa using hcheck
  rw [htrue] at hsame
  exact ⟨compareDigest_eq_true hsame, hrest⟩

lemma verifyAuthority_eq_ok {authority : Submission} {token session digest : String} {frozen : Json}
    (h : verifyAuthority engine authority token session digest = .ok frozen) :
    authority.sessionIdentity = session ∧ authority.requestDigest = digest ∧
      engine.loads authority.frozenRequestJson = .ok frozen := by
  obtain ⟨_, h⟩ := checkDigest_eq_ok h
  obtain ⟨hsession, h⟩ := checkDigest_eq_ok h
  obtain ⟨hdigest, h⟩ := checkDigest_eq_ok h
  obtain ⟨_, hloads⟩ := checkDigest_eq_ok h
  exact ⟨hsession, hdigest, hloads⟩

/-- An expired entry does not outlive a purge. -/
lemma lookup_purged {α : Type} {expiresAt : α → ℚ} {d : List (String × α)} {now : ℚ} {key : String}
    {value : α} (h : (d.filter fun e => now < expiresAt e.2).lookup key = some value) :
    (key, value) ∈ d ∧ now < expiresAt value := by
  obtain ⟨hmem, hnow⟩ := List.mem_filter.mp (Dict.lookup_mem h)
  exact ⟨hmem, by simpa using hnow⟩

/-- What a lookup does: the store only shrinks, and a build it finds is the session's for the request. -/
lemma getCachedBuild_spec {session : String} {request : Request} {now : ℚ} {store : Store}
    (hkeys : (store.buildCache.map Prod.fst).Nodup) :
    (getCachedBuild engine session request now store).2.Below store ∧
      ∀ frozen left, (getCachedBuild engine session request now store).1 = .ok (some (frozen, left)) →
        ∃ digest build, requestDigest engine request = .ok digest ∧
          (buildCacheKey engine session digest, build) ∈ store.buildCache ∧ now < build.expiresAt ∧
          build.sessionIdentity = session ∧ build.requestDigest = digest ∧
          engine.loads build.frozenRequestJson = .ok frozen := by
  have hpurged := store.purgeExpired_below now
  unfold getCachedBuild
  split
  · exact ⟨Store.Below.refl _, by simp⟩
  · next digest hdigest =>
    obtain ⟨_, _, hdigest⟩ := Raising.bind_eq_ok.mp hdigest
    dsimp only
    split
    · exact ⟨hpurged, by simp⟩
    · next build hbuild =>
      split
      · exact ⟨hpurged, by simp⟩
      · exact ⟨⟨hpurged.entries, (erase_subperm _ _).trans hpurged.buildCache⟩, by simp⟩
      · next hmatches =>
        have hpurgedKeys : ((store.purgeExpired now).buildCache.map Prod.fst).Nodup :=
          hkeys.sublist (List.Sublist.map _ List.filter_sublist)
        refine ⟨⟨hpurged.entries, (moveToEnd_subperm hpurgedKeys _).trans hpurged.buildCache⟩, ?_⟩
        intro frozen left hresult
        obtain ⟨hmem, hnow⟩ := @lookup_purged _ CachedBuild.expiresAt _ _ _ _ hbuild
        obtain ⟨hsession, hsame⟩ := buildMatches_eq_true hmatches
        obtain ⟨read, hread, hpair⟩ := Raising.map_eq_ok.mp hresult
        have hfrozen : read = frozen := by simpa using congrArg (Option.map Prod.fst) hpair
        exact ⟨digest, build, hdigest, hmem, hnow, hsession, hsame, hfrozen ▸ hread⟩

/-- What a consumption does: the store only shrinks, and an authority that passes is gone, was the
session's for the request, and had not expired. -/
lemma consume_spec {token session : String} {request : Request} {now : ℚ} {store : Store} :
    (consume engine token session request now store).2.Below store ∧
      ∀ frozen, (consume engine token session request now store).1 = .ok frozen →
        (∀ e ∈ (consume engine token session request now store).2.entries, e.1 ≠ token) ∧
        ∃ digest authority, requestDigest engine request = .ok digest ∧
          (token, authority) ∈ store.entries ∧ now < authority.expiresAt ∧
          authority.sessionIdentity = session ∧ authority.requestDigest = digest ∧
          engine.loads authority.frozenRequestJson = .ok frozen := by
  have hpurged := store.purgeExpired_below now
  unfold consume
  split
  · exact ⟨Store.Below.refl _, by simp⟩
  · next digest harguments =>
    obtain ⟨_, _, harguments⟩ := Raising.bind_eq_ok.mp harguments
    obtain ⟨_, _, hdigest⟩ := Raising.bind_eq_ok.mp harguments
    dsimp only
    split
    · exact ⟨hpurged, by simp⟩
    · next authority hauthority =>
      refine ⟨⟨(erase_subperm _ _).trans hpurged.entries, hpurged.buildCache⟩, ?_⟩
      intro frozen hfrozen
      obtain ⟨hmem, hnow⟩ := @lookup_purged _ Submission.expiresAt _ _ _ _ hauthority
      obtain ⟨hsession, hsame, hloads⟩ := verifyAuthority_eq_ok hfrozen
      refine ⟨?_, digest, authority, hdigest, hmem, hnow, hsession, hsame, hloads⟩
      intro e he
      simpa using (List.mem_filter.mp he).2

/-- What caching a build does: the store only shrinks, or it takes the build in place of an earlier one
and keeps no more than the limit. -/
lemma cacheBuild_spec {session : String} {request : Request} {frozen : Json} {now : ℚ} {store : Store} :
    (∃ e, (cacheBuild engine limits session request frozen now store).1 = .error e ∧
      (cacheBuild engine limits session request frozen now store).2.Below store) ∨
    ∃ digest text build, cacheBuild engine limits session request frozen now store =
        (.ok limits.buildCacheLifetimeSeconds, Store.trim limits
          { store.purgeExpired now with
            buildCache := Dict.erase (store.purgeExpired now).buildCache
              (buildCacheKey engine session digest) ++ [(buildCacheKey engine session digest, build)] }) ∧
      requestDigest engine request = .ok digest ∧ engine.dumps frozen = .ok text ∧
      build = ⟨now + limits.buildCacheLifetimeSeconds, engine.sha256 text, text, digest, session⟩ := by
  unfold cacheBuild
  split
  · next e _ => exact Or.inl ⟨e, rfl, Store.Below.refl _⟩
  · next digest text hmaterial =>
    obtain ⟨_, _, hmaterial⟩ := Raising.bind_eq_ok.mp hmaterial
    obtain ⟨_, hdigest, hmaterial⟩ := Raising.bind_eq_ok.mp hmaterial
    obtain ⟨_, htext, hmaterial⟩ := Raising.bind_eq_ok.mp hmaterial
    cases hmaterial
    refine Or.inr ⟨digest, text, _, ?_, hdigest, htext, rfl⟩
    dsimp only
    rw [moveToEnd_set]

lemma sessionTokens_eq_ok {session : String} {entries : List (String × Submission)} {tokens : List String}
    (h : sessionTokens session entries = .ok tokens) (token : String) :
    token ∈ tokens ↔ ∃ authority, (token, authority) ∈ entries ∧ authority.sessionIdentity = session := by
  induction entries generalizing tokens with
  | nil =>
    cases h
    simp
  | cons e rest ih =>
    obtain ⟨key, first⟩ := e
    obtain ⟨mine, hmine, h⟩ := Raising.bind_eq_ok.mp h
    obtain ⟨others, hothers, h⟩ := Raising.bind_eq_ok.mp h
    cases h
    have hrest := ih hothers
    cases mine with
    | true =>
      have hsession := compareDigest_eq_true hmine
      simp only [if_true, List.mem_cons, hrest, Prod.mk.injEq]
      constructor
      · rintro (rfl | ⟨authority, hmem, hsame⟩)
        · exact ⟨first, Or.inl ⟨rfl, rfl⟩, hsession⟩
        · exact ⟨authority, Or.inr hmem, hsame⟩
      · rintro ⟨authority, ⟨rfl, rfl⟩ | hmem, hsame⟩
        · exact Or.inl rfl
        · exact Or.inr ⟨authority, hmem, hsame⟩
    | false =>
      have hsession := compareDigest_eq_false hmine
      simp only [Bool.false_eq_true, if_false, List.mem_cons, hrest, Prod.mk.injEq]
      constructor
      · rintro ⟨authority, hmem, hsame⟩
        exact ⟨authority, Or.inr hmem, hsame⟩
      · rintro ⟨authority, ⟨rfl, rfl⟩ | hmem, hsame⟩
        · exact absurd hsame hsession
        · exact ⟨authority, hmem, hsame⟩

lemma mem_foldl_erase {α : Type} {keys : List String} {d : List (String × α)} {e : String × α} :
    e ∈ keys.foldl Dict.erase d ↔ e ∈ d ∧ e.1 ∉ keys := by
  induction keys generalizing d with
  | nil => simp
  | cons key keys ih =>
    rw [List.foldl_cons, ih, Dict.erase, List.mem_filter]
    simp [and_assoc]

lemma foldl_erase_sublist {α : Type} (keys : List String) (d : List (String × α)) :
    (keys.foldl Dict.erase d).Sublist d := by
  induction keys generalizing d with
  | nil => exact List.Sublist.refl d
  | cons key keys ih => exact (ih _).trans List.filter_sublist

lemma le_mint (entries : List (String × Submission)) (tries next : ℕ) :
    next ≤ mint engine entries tries next := by
  induction tries generalizing next with
  | zero => exact le_refl _
  | succ tries ih =>
    unfold mint
    split_ifs
    · have := ih (next + 1)
      omega
    · exact le_refl _

lemma mint_taken {entries : List (String × Submission)} {tries next : ℕ}
    (h : Dict.has entries (engine.token (mint engine entries tries next)) = true) :
    ∀ i ≤ tries, Dict.has entries (engine.token (next + i)) = true := by
  induction tries generalizing next with
  | zero =>
    intro i hi
    have hzero : i = 0 := by omega
    rw [hzero]
    exact h
  | succ tries ih =>
    unfold mint at h
    by_cases hnext : Dict.has entries (engine.token next) = true
    · rw [if_pos hnext] at h
      intro i hi
      cases i with
      | zero => exact hnext
      | succ i =>
        have hrest := ih h i (by omega)
        rw [show next + (i + 1) = next + 1 + i by omega]
        exact hrest
    · rw [if_neg hnext] at h
      exact absurd h hnext

/-- One draw more than there are entries is enough for a token that is not in use. -/
theorem mint_fresh (entries : List (String × Submission)) (next : ℕ) :
    Dict.has entries (engine.token (mint engine entries entries.length next)) = false := by
  rw [← Bool.not_eq_true]
  intro htaken
  have hall := mint_taken htaken
  let drawn := (List.range (entries.length + 1)).map fun i => engine.token (next + i)
  have hnodup : drawn.Nodup := by
    apply List.Nodup.map
    · intro i j hij
      have := engine.token_injective hij
      omega
    · exact List.nodup_range
  have hsubset : drawn ⊆ entries.map Prod.fst := by
    intro token htoken
    obtain ⟨i, hi, rfl⟩ := List.mem_map.mp htoken
    obtain ⟨authority, hauthority⟩ := Dict.has_eq_true_iff.mp (hall i (by simp at hi; omega))
    exact List.mem_map.mpr ⟨_, Dict.lookup_mem hauthority, rfl⟩
  have hlength := (List.subperm_of_subset hnodup hsubset).length_le
  have hdrawn : drawn.length = entries.length + 1 := by simp [drawn]
  rw [hdrawn, List.length_map] at hlength
  omega

/-- What an issue does: the store only shrinks, or it takes a fresh authority in place of the session's
earlier ones and keeps no more than the limit. -/
lemma issue_spec {session : String} {request : Request} {frozen : Json} {now : ℚ} {drawn : ℕ}
    {store : Store} :
    (∃ e below, issuePreparedSubmission engine limits session request frozen now drawn store =
      (.error e, below, drawn) ∧ below.Below store) ∨
    ∃ digest text snapshotHash number kept,
      issuePreparedSubmission engine limits session request frozen now drawn store =
        (.ok ⟨engine.token number, digest, snapshotHash, limits.lifetimeSeconds⟩,
          { store.purgeExpired now with
            entries := Dict.erase kept (engine.token number) ++ [(engine.token number,
              ⟨now + limits.lifetimeSeconds, engine.sha256 text, text, digest, session,
                engine.sha256 (engine.token number)⟩)] }, number + 1) ∧
      drawn ≤ number ∧ requestDigest engine request = .ok digest ∧ engine.dumps frozen = .ok text ∧
      kept.Sublist store.entries ∧ (∀ e ∈ kept, e.2.sessionIdentity ≠ session) ∧
      (store.entries.length ≤ limits.maxEntries → kept.length + 1 ≤ limits.maxEntries) := by
  have hpurged : (store.purgeExpired now).entries.Sublist store.entries := List.filter_sublist
  unfold issuePreparedSubmission
  split
  · next e _ => exact Or.inl ⟨e, store, rfl, Store.Below.refl _⟩
  · next digest snapshot text hmaterial =>
    obtain ⟨_, _, hmaterial⟩ := Raising.bind_eq_ok.mp hmaterial
    obtain ⟨_, hdigest, hmaterial⟩ := Raising.bind_eq_ok.mp hmaterial
    obtain ⟨_, _, hmaterial⟩ := Raising.bind_eq_ok.mp hmaterial
    obtain ⟨_, htext, hmaterial⟩ := Raising.bind_eq_ok.mp hmaterial
    cases hmaterial
    dsimp only
    split
    · next e _ => exact Or.inl ⟨e, _, rfl, store.purgeExpired_below now⟩
    · next tokens htokens =>
      split_ifs with hfull
      · exact Or.inl ⟨_, _, rfl, store.purgeExpired_below now⟩
      · refine Or.inr ⟨digest, text, (snapshot.lookup "snapshotHash").getD .null,
          mint engine (store.purgeExpired now).entries (store.purgeExpired now).entries.length drawn,
          tokens.foldl Dict.erase (store.purgeExpired now).entries, ?_, le_mint _ _ _, hdigest, htext,
          (foldl_erase_sublist _ _).trans hpurged, ?_, ?_⟩
        · rw [moveToEnd_set]
        · intro e he hsession
          obtain ⟨hmem, hkey⟩ := mem_foldl_erase.mp he
          exact hkey ((sessionTokens_eq_ok htokens e.1).mpr ⟨e.2, hmem, hsession⟩)
        · intro hlength
          have hkept := foldl_erase_sublist tokens (store.purgeExpired now).entries
          by_cases hnone : tokens = []
          · rw [hnone]
            have hroom : ¬limits.maxEntries ≤ (store.purgeExpired now).entries.length :=
              fun hle => hfull ⟨hnone, hle⟩
            change (store.purgeExpired now).entries.length + 1 ≤ limits.maxEntries
            omega
          · obtain ⟨token, htoken⟩ := List.exists_mem_of_ne_nil _ hnone
            obtain ⟨authority, hmem, -⟩ := (sessionTokens_eq_ok htokens token).mp htoken
            have hne : (tokens.foldl Dict.erase (store.purgeExpired now).entries).length ≠
                (store.purgeExpired now).entries.length := by
              intro hsame
              have heq := hkept.eq_of_length hsame
              have hgone := heq.symm ▸ hmem
              exact (mem_foldl_erase.mp hgone).2 htoken
            have hkeptLength := hkept.length_le
            have hpurgedLength := hpurged.length_le
            omega

end Specifications

end TradeFramework.PreparedSubmissions
