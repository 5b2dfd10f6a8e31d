import Mathlib.Data.List.Chain
import TradeFramework.Archive.Transaction

/-!
# Crash safety of archiving

Between any two steps of a transaction the index is a complete history of sealed archives, and the
only directory it does not name is the one of the next version.
-/

namespace TradeFramework.Archive

open Jobs (Raised)
open Program (Script runUntil)
open Program.Script (attempt)

variable {δ : Type} [DecidableEq δ] (digests : Digests δ) (isUtcTime : String → Bool)
  (resource : Resource)

section Invariant

/-- The index counts from one, every record of it has its sealed archive and another content than the
record before it; the next version is the only one that may have a directory without a record. -/
structure Repository.Sound (s : Repository δ) : Prop where
  versions : s.index.map Record.version = List.range' 1 s.index.length
  sealed_ : ∀ r ∈ s.index, r.archive.root = resource.root r.version ∧
    ∃ m, s.verifyRecord digests isUtcTime r = .ok m
  changes : (s.index.map Record.contentDigest).IsChain (· ≠ ·)
  numbered : ∀ root d, s.directories.lookup root = some d →
    ∃ v, 1 ≤ v ∧ v ≤ s.index.length + 1 ∧ root = resource.root v
  leftover : ∀ d m last, s.directories.lookup (resource.root (s.index.length + 1)) = some d →
    d.manifest = some m → s.index.getLast? = some last → m.contentDigest ≠ last.contentDigest

variable {digests isUtcTime resource} {s s' : Repository δ}

lemma Repository.Sound.of_eq (h : s.Sound digests isUtcTime resource) (hindex : s'.index = s.index)
    (hdirectories : s'.directories = s.directories) : s'.Sound digests isUtcTime resource := by
  refine ⟨?_, ?_, ?_, ?_, ?_⟩
  · rw [hindex]
    exact h.versions
  · unfold Repository.verifyRecord
    rw [hindex, hdirectories]
    exact h.sealed_
  · rw [hindex]
    exact h.changes
  · rw [hindex, hdirectories]
    exact h.numbered
  · rw [hindex, hdirectories]
    exact h.leftover

lemma Repository.Sound.version_le (h : s.Sound digests isUtcTime resource) {r : Record δ}
    (hr : r ∈ s.index) : 1 ≤ r.version ∧ r.version ≤ s.index.length := by
  have hmem : r.version ∈ List.range' 1 s.index.length :=
    h.versions ▸ List.mem_map_of_mem hr
  have hbounds := List.mem_range'_1.mp hmem
  omega

/-- Directories change at the next version only, and what is there is no copy of the last version. -/
lemma Repository.Sound.setNext (h : s.Sound digests isUtcTime resource)
    (hindex : s'.index = s.index)
    (hothers : ∀ root, root ≠ resource.root (s.index.length + 1) →
      s'.directories.lookup root = s.directories.lookup root)
    (hnext : ∀ d m last, s'.directories.lookup (resource.root (s.index.length + 1)) = some d →
      d.manifest = some m → s.index.getLast? = some last → m.contentDigest ≠ last.contentDigest) :
    s'.Sound digests isUtcTime resource := by
  refine ⟨?_, fun r hr => ?_, ?_, fun root d hd => ?_, ?_⟩
  · rw [hindex]
    exact h.versions
  · rw [hindex] at hr
    obtain ⟨hroot, m, hm⟩ := h.sealed_ r hr
    have hother : r.archive.root ≠ resource.root (s.index.length + 1) := by
      rw [hroot]
      intro heq
      have hle := (h.version_le hr).2
      have := resource.root_injective heq
      omega
    refine ⟨hroot, m, ?_⟩
    unfold Repository.verifyRecord at hm ⊢
    rw [hothers _ hother]
    exact hm
  · rw [hindex]
    exact h.changes
  · rw [hindex]
    by_cases hroot : root = resource.root (s.index.length + 1)
    · exact ⟨s.index.length + 1, by omega, le_rfl, hroot⟩
    · exact h.numbered root d (hothers root hroot ▸ hd)
  · rw [hindex]
    exact hnext

/-- A sealed archive at the next version becomes a record of the index. -/
lemma Repository.Sound.commit (h : s.Sound digests isUtcTime resource) {r : Record δ}
    (hversion : r.version = s.index.length + 1) (hroot : r.archive.root = resource.root r.version)
    (hverified : ∃ m, s.verifyRecord digests isUtcTime r = .ok m)
    (hchanged : ∀ last, s.index.getLast? = some last → r.contentDigest ≠ last.contentDigest) :
    Repository.Sound digests isUtcTime resource { s with index := s.index ++ [r] } := by
  refine ⟨?_, fun k hk => ?_, ?_, fun root d hd => ?_, fun d m last hd hm hlast => ?_⟩
  · rw [List.map_append, h.versions, List.length_append, List.length_singleton, List.range'_1_concat,
      Nat.add_comm 1]
    simp [hversion]
  · rcases List.mem_append.mp hk with hk | hk
    · exact h.sealed_ k hk
    · rw [List.mem_singleton.mp hk]
      exact ⟨hroot, hverified⟩
  · rw [List.map_append, List.isChain_append]
    refine ⟨h.changes, by simp, fun a ha b hb => ?_⟩
    simp only [List.map_cons, List.map_nil, List.head?_cons, Option.mem_def, Option.some.injEq] at hb
    rw [List.getLast?_map] at ha
    obtain ⟨last, hlast, rfl⟩ := Option.map_eq_some_iff.mp ha
    exact hb ▸ (hchanged last hlast).symm
  · obtain ⟨v, hv, hle, hroot⟩ := h.numbered root d hd
    refine ⟨v, hv, ?_, hroot⟩
    simp only [List.length_append, List.length_singleton]
    omega
  · -- there is no directory after the next version
    obtain ⟨v, -, hle, hroot⟩ := h.numbered _ d hd
    have heq := resource.root_injective hroot
    simp only [List.length_append, List.length_singleton] at heq
    omega

lemma Repository.Sound.nextVersion (h : s.Sound digests isUtcTime resource) :
    nextVersion s.index = s.index.length + 1 := by
  have hmax : ∀ n, (List.range' 1 n).foldr max 0 = n := by
    intro n
    induction n with
    | zero => rfl
    | succ n ih =>
      have hfold : ∀ (xs : List ℕ) (a : ℕ), xs.foldr max a = max (xs.foldr max 0) a := by
        intro xs a
        induction xs with
        | nil => simp
        | cons x xs ihx => simp only [List.foldr_cons, ihx, max_assoc]
      rw [List.range'_concat, List.foldr_append, hfold, ih]
      simp
      omega
  unfold Archive.nextVersion
  rw [h.versions, hmax]

/-- The latest record is the last one. -/
lemma Repository.Sound.latest (h : s.Sound digests isUtcTime resource) :
    latest s.index = s.index.getLast? := by
  unfold Archive.latest
  rw [h.nextVersion]
  rcases List.eq_nil_or_concat s.index with hempty | ⟨init, last, hindex⟩
  · rw [hempty]
    rfl
  · rw [List.concat_eq_append] at hindex
    have hversions := h.versions
    rw [hindex, List.map_append, List.length_append, List.length_singleton, List.range'_1_concat] at hversions
    obtain ⟨hinit, hlast⟩ := List.append_inj' hversions rfl
    have hlast : last.version = init.length + 1 := by
      simpa [Nat.add_comm] using hlast
    have hnone : init.find? (fun r => r.version + 1 == init.length + 1 + 1) = none := by
      rw [List.find?_eq_none]
      intro r hr
      have hmem : r.version ∈ List.range' 1 init.length := hinit ▸ List.mem_map_of_mem hr
      have hbounds := List.mem_range'_1.mp hmem
      simp
      omega
    rw [hindex, List.length_append, List.length_singleton, List.find?_append, hnone]
    simp [hlast]

end Invariant

section Scripts

variable {digests isUtcTime resource} {allowed : (op : ArchiveOp δ) → op.Answer → Prop} {α β : Type}

/-- A script that keeps the repository sound between any two steps. -/
abbrev Keeps (digests : Digests δ) (isUtcTime : String → Bool) (resource : Resource)
    (allowed : (op : ArchiveOp δ) → op.Answer → Prop) (value : α → Repository δ → Prop)
    (raised : Raised → Repository δ → Prop) (p : ArchiveScript δ α) (s : Repository δ) : Prop :=
  Script.Holds (ArchiveOp.exec digests isUtcTime resource) allowed
    (Repository.Sound digests isUtcTime resource) value raised p s

variable {s : Repository δ}

/-- A step that the environment lets happen, or makes raise without an effect. -/
lemma keeps_step {op : ArchiveOp δ} {result : Except Raised op.Result} {next : Repository δ}
    {value : op.Result → Repository δ → Prop} {raised : Raised → Repository δ → Prop}
    (hs : s.Sound digests isUtcTime resource) (hnext : next.Sound digests isUtcTime resource)
    (hexec : ∀ answer, op.exec digests isUtcTime resource answer s = (result, next) ∨
      ∃ e, op.exec digests isUtcTime resource answer s = (.error e, s))
    (hok : ∀ v, result = .ok v → value v next) (herror : ∀ e, result = .error e → raised e next)
    (hraise : ∀ e, raised e s) : Keeps digests isUtcTime resource allowed value raised (perform op) s := by
  refine ⟨hs, fun answer _ => ?_⟩
  rcases hexec answer with heq | ⟨e, heq⟩
  · rw [heq]
    refine ⟨hnext, ?_⟩
    cases hresult : result with
    | ok v => exact hok v hresult
    | error e => exact herror e hresult
  · rw [heq]
    exact ⟨hs, hraise e⟩

/-- A step that only reads. -/
lemma keeps_read {op : ArchiveOp δ} {result : Except Raised op.Result}
    (hs : s.Sound digests isUtcTime resource)
    (hexec : ∀ answer, op.exec digests isUtcTime resource answer s = (result, s) ∨
      ∃ e, op.exec digests isUtcTime resource answer s = (.error e, s)) :
    Keeps digests isUtcTime resource allowed (fun v s' => s' = s ∧ result = .ok v) (fun _ s' => s' = s)
      (perform op) s :=
  keeps_step hs hs hexec (fun _ hv => ⟨rfl, hv⟩) (fun _ _ => rfl) fun _ => rfl

lemma keeps_check {r : Except Raised α} (hs : s.Sound digests isUtcTime resource) :
    Keeps digests isUtcTime resource allowed (fun v s' => s' = s ∧ r = .ok v)
      (fun e s' => s' = s ∧ r = .error e) (check r) s := by
  refine ⟨hs, ?_⟩
  cases r with
  | ok a => exact ⟨rfl, rfl⟩
  | error e => exact ⟨rfl, rfl⟩

omit [DecidableEq δ] in
lemma orRaise_cases {α : Type} (failure : Option Raised) (s next : Repository δ) (result : Except Raised α) :
    orRaise failure s result next = (result, next) ∨ ∃ e, orRaise failure s result next = (.error e, s) := by
  cases failure with
  | none => exact .inl rfl
  | some e => exact .inr ⟨e, rfl⟩

end Scripts

section Discard

variable {digests isUtcTime resource} {allowed : (op : ArchiveOp δ) → op.Answer → Prop}
  {s s' s'' : Repository δ} {root : Option String}

/-- Only the directory `root` differs, and it has no new manifest; without a `root` only the staging
directory differs. -/
structure OnlyAt (root : Option String) (s s' : Repository δ) : Prop where
  index : s'.index = s.index
  others : ∀ path, some path ≠ root → s'.directories.lookup path = s.directories.lookup path
  manifest : ∀ path d', some path = root → s'.directories.lookup path = some d' →
    ∃ d, s.directories.lookup path = some d ∧ (d'.manifest = none ∨ d'.manifest = d.manifest)

omit [DecidableEq δ] in
lemma OnlyAt.refl (root : Option String) (s : Repository δ) : OnlyAt root s s :=
  ⟨rfl, fun _ _ => rfl, fun _ d' _ hd => ⟨d', hd, .inr rfl⟩⟩

omit [DecidableEq δ] in
lemma OnlyAt.trans (h : OnlyAt root s s') (h' : OnlyAt root s' s'') : OnlyAt root s s'' := by
  refine ⟨h'.index.trans h.index, fun path hpath => (h'.others path hpath).trans (h.others path hpath), ?_⟩
  intro path d'' hpath hd
  obtain ⟨d', hd', hmanifest'⟩ := h'.manifest path d'' hpath hd
  obtain ⟨d, hd, hmanifest⟩ := h.manifest path d' hpath hd'
  refine ⟨d, hd, ?_⟩
  rcases hmanifest' with hnone | hsame
  · exact .inl hnone
  · rcases hmanifest with hnone | hsame'
    · exact .inl (hsame.trans hnone)
    · exact .inr (hsame.trans hsame')

omit [DecidableEq δ] in
lemma OnlyAt.orRaise {α : Type} (h : OnlyAt root s s') (failure : Option Raised)
    (result : Except Raised α) : OnlyAt root s (orRaise failure s result s').2 := by
  cases failure with
  | none => exact h
  | some e => exact .refl root s

lemma Repository.Sound.onlyAt (hs : s.Sound digests isUtcTime resource)
    (hroot : root = none ∨ root = some (resource.root (s.index.length + 1)))
    (h : OnlyAt root s s') : s'.Sound digests isUtcTime resource := by
  refine hs.setNext h.index (fun path hpath => h.others path ?_) fun d m last hd hm hlast => ?_
  · rcases hroot with rfl | rfl
    · simp
    · simpa using hpath
  · rcases hroot with rfl | rfl
    · rw [h.others _ (by simp)] at hd
      exact hs.leftover d m last hd hm hlast
    · obtain ⟨old, hold, hnone | hsame⟩ := h.manifest _ d rfl hd
      · rw [hnone] at hm
        cases hm
      · exact hs.leftover old m last hold (hsame ▸ hm) hlast

omit [DecidableEq δ] in
lemma unlinkOne_manifest {d d' : Directory δ} (h : d.unlinkOne = some d') :
    d'.manifest = none ∨ d'.manifest = d.manifest := by
  unfold Directory.unlinkOne at h
  split at h
  · cases h
    exact .inr rfl
  · cases h
    exact .inr rfl
  · cases h
    exact .inl rfl
  · cases h

omit [DecidableEq δ] in
lemma onlyAt_replace {d d' : Directory δ} (htarget : s.target root = some d)
    (hmanifest : d'.manifest = none ∨ d'.manifest = d.manifest) :
    OnlyAt root s (s.replace root d') := by
  cases root with
  | none => exact ⟨rfl, fun _ _ => rfl, fun path _ hpath _ => nomatch hpath⟩
  | some root =>
    refine ⟨rfl, fun path hpath => ?_, fun path k hpath hk => ?_⟩
    · exact Dict.lookup_set_ne s.directories d' (by simpa using hpath)
    · have hpath := Option.some.inj hpath
      subst hpath
      refine ⟨d, htarget, ?_⟩
      have hset : (Dict.set s.directories path d').lookup path = some k := hk
      rw [Dict.lookup_set] at hset
      simp only [if_true, Option.some.injEq] at hset
      exact hset ▸ hmanifest

omit [DecidableEq δ] in
lemma onlyAt_remove : OnlyAt root s (s.remove root) := by
  cases root with
  | none => exact ⟨rfl, fun _ _ => rfl, fun path _ hpath _ => nomatch hpath⟩
  | some root =>
    refine ⟨rfl, fun path hpath => ?_, fun path k hpath hk => ?_⟩
    · have hne : path ≠ root := by simpa using hpath
      change (Dict.erase s.directories root).lookup path = _
      rw [Dict.lookup_erase, if_neg hne]
    · have hpath := Option.some.inj hpath
      subst hpath
      have herase : (Dict.erase s.directories path).lookup path = some k := hk
      rw [Dict.lookup_erase] at herase
      simp at herase

/-- A step of the discarding of the directory of the next version, or of the staging directory. -/
lemma keeps_discardStep {op : ArchiveOp δ} (hs : s.Sound digests isUtcTime resource)
    (hroot : root = none ∨ root = some (resource.root (s.index.length + 1)))
    (hexec : ∀ answer, OnlyAt root s (op.exec digests isUtcTime resource answer s).2) :
    Keeps digests isUtcTime resource allowed (fun _ => OnlyAt root s) (fun _ => OnlyAt root s)
      (perform op) s := by
  refine ⟨hs, fun answer _ => ⟨hs.onlyAt hroot (hexec answer), ?_⟩⟩
  have honly := hexec answer
  revert honly
  generalize op.exec digests isUtcTime resource answer s = outcome
  obtain ⟨result, next⟩ := outcome
  intro honly
  cases result with
  | ok v => exact honly
  | error e => exact honly

lemma keeps_unlinkAll (hs : s.Sound digests isUtcTime resource)
    (hroot : root = none ∨ root = some (resource.root (s.index.length + 1))) (fuel : ℕ) :
    Keeps digests isUtcTime resource allowed (fun _ => OnlyAt root s) (fun _ => OnlyAt root s)
      (unlinkAll root fuel) s := by
  induction fuel generalizing s with
  | zero => exact .pure hs (.refl root s)
  | succ fuel ih =>
    have hunlink : Keeps digests isUtcTime resource allowed (fun _ => OnlyAt root s)
        (fun _ => OnlyAt root s) (unlink root) s := by
      refine keeps_discardStep hs hroot fun answer => ?_
      unfold ArchiveOp.exec
      dsimp only
      split
      · exact (OnlyAt.refl root s).orRaise _ _
      · next d' hd' =>
        obtain ⟨d, htarget, hunlink⟩ := Option.bind_eq_some_iff.mp hd'
        exact (onlyAt_replace htarget (unlinkOne_manifest hunlink)).orRaise _ _
    refine hunlink.bind fun more s' hs' honly => ?_
    have hroot' : root = none ∨ root = some (resource.root (s'.index.length + 1)) :=
      honly.index.symm ▸ hroot
    split_ifs
    · exact (ih hs' hroot').mono (fun _ _ _ h => honly.trans h) fun _ _ _ h => honly.trans h
    · exact .pure hs' honly

lemma keeps_discardArchive (hs : s.Sound digests isUtcTime resource)
    (hroot : root = none ∨ root = some (resource.root (s.index.length + 1))) (size : ℕ) :
    Keeps digests isUtcTime resource allowed (fun _ => OnlyAt root s) (fun _ => OnlyAt root s)
      (discardArchive size root) s := by
  have hwritable : Keeps digests isUtcTime resource allowed (fun _ => OnlyAt root s)
      (fun _ => OnlyAt root s) (perform (.makeWritable root)) s := by
    refine keeps_discardStep hs hroot fun answer => ?_
    refine OnlyAt.orRaise ?_ answer (.ok ())
    cases htarget : s.target root with
    | none => exact .refl root s
    | some d => exact onlyAt_replace htarget (.inr rfl)
  refine hwritable.bind fun _ s₁ hs₁ h₁ => ?_
  have hroot₁ : root = none ∨ root = some (resource.root (s₁.index.length + 1)) := h₁.index.symm ▸ hroot
  refine Script.Holds.bind ((keeps_unlinkAll hs₁ hroot₁ size).mono
    (fun _ _ _ h => h₁.trans h) fun _ _ _ h => h₁.trans h) fun _ s₂ hs₂ h₂ => ?_
  have hroot₂ : root = none ∨ root = some (resource.root (s₂.index.length + 1)) := h₂.index.symm ▸ hroot
  have hremove : Keeps digests isUtcTime resource allowed (fun _ => OnlyAt root s₂)
      (fun _ => OnlyAt root s₂) (perform (.removeDirectory root)) s₂ := by
    refine keeps_discardStep hs₂ hroot₂ fun answer => ?_
    exact onlyAt_remove.orRaise answer (.ok ())
  exact hremove.mono (fun _ _ _ h => h₂.trans h) fun _ _ _ h => h₂.trans h

lemma keeps_discardAfterFailure (hs : s.Sound digests isUtcTime resource)
    (hroot : root = none ∨ root = some (resource.root (s.index.length + 1))) (size : ℕ) :
    Keeps digests isUtcTime resource allowed (fun _ => OnlyAt root s) (fun _ _ => False)
      (discardAfterFailure size root) s := by
  have hattempt : Keeps digests isUtcTime resource allowed (fun _ => OnlyAt root s) (fun _ _ => False)
      (attempt (discardArchive size root)) s :=
    Script.Holds.attempt (keeps_discardArchive hs hroot size)
  exact Script.Holds.bind hattempt fun _ _ hs' h => .pure hs' h

end Discard

section Commit

variable {digests isUtcTime resource} {allowed : (op : ArchiveOp δ) → op.Answer → Prop}
  {s : Repository δ} {r : Record δ}

/-- A record that may become the next entry of the index. -/
structure Committable (digests : Digests δ) (isUtcTime : String → Bool) (resource : Resource)
    (s : Repository δ) (r : Record δ) : Prop where
  version : r.version = s.index.length + 1
  root : r.archive.root = resource.root r.version
  verified : ∃ m, s.verifyRecord digests isUtcTime r = .ok m
  changed : ∀ last, s.index.getLast? = some last → r.contentDigest ≠ last.contentDigest

/-- The environment lets every commit be reconciled: `commit_record` never raises once it has
committed, or the committed record can then be read back and verified. -/
def Reconcilable (allowed : (op : ArchiveOp δ) → op.Answer → Prop) : Prop :=
  (∀ r e, ¬allowed (.commitRecord r) (.committedAndRaised e)) ∨
    ∀ r e, ¬allowed (.readCommitted r) (some e) ∧ ¬allowed (.verifyRecord r) (some e)

lemma Committable.commit (h : Committable digests isUtcTime resource s r)
    (hs : s.Sound digests isUtcTime resource) :
    Repository.Sound digests isUtcTime resource { s with index := s.index ++ [r] } :=
  hs.commit h.version h.root h.verified h.changed

/-- The version of a committable record is not in the index. -/
lemma Committable.find (h : Committable digests isUtcTime resource s r)
    (hs : s.Sound digests isUtcTime resource) :
    s.index.find? (fun k => k.version == r.version) = none ∧
      (s.index ++ [r]).find? (fun k => k.version == r.version) = some r := by
  have hnone : s.index.find? (fun k => k.version == r.version) = none := by
    rw [List.find?_eq_none]
    intro k hk
    have hle := (hs.version_le hk).2
    have hversion := h.version
    simp
    omega
  refine ⟨hnone, ?_⟩
  rw [List.find?_append, hnone]
  simp

omit [DecidableEq δ] in
lemma Record.same_refl [DecidableEq δ] (r : Record δ) : r.same r = true := by
  simp [Record.same]

/-- What holds of the outcome of an attempt. -/
def Attempted {ε α : Type} (done : α → Prop) (failed : ε → Prop) : Except ε α → Prop
  | .ok a => done a
  | .error e => failed e

/-- The commit of a record: it is the next entry, or the index is as it was, or the commit could not
be reconciled. -/
lemma keeps_commitOrReconcile (hs : s.Sound digests isUtcTime resource)
    (hr : Committable digests isUtcTime resource s r) {discard : Option String}
    (hdiscard : discard = none ∨ discard = some (resource.root (s.index.length + 1))) (size : ℕ) :
    Keeps digests isUtcTime resource allowed
      (fun committed s' => committed = r ∧ s'.index = s.index ++ [r] ∧ s'.directories = s.directories)
      (fun _ s' => s'.index = s.index ∨ (¬Reconcilable allowed ∧ s'.index = s.index ++ [r]))
      (commitOrReconcile size r discard) s := by
  obtain ⟨habsent, hpresent⟩ := hr.find hs
  have hcommitted := hr.commit hs
  -- the commit step: it took effect, or it was refused
  have hcommit : Keeps digests isUtcTime resource allowed
      (fun outcome s' => Attempted (fun _ => s' = { s with index := s.index ++ [r] })
        (fun e => s' = s ∨ (s' = { s with index := s.index ++ [r] } ∧
          allowed (.commitRecord r) (.committedAndRaised e))) outcome)
      (fun _ _ => False) (attempt (perform (.commitRecord r))) s := by
    refine Script.Holds.attempt ⟨hs, fun answer hanswer => ?_⟩
    cases answer with
    | committed => exact ⟨hcommitted, rfl⟩
    | committedAndRaised e => exact ⟨hcommitted, .inr ⟨rfl, hanswer⟩⟩
    | refused e => exact ⟨hs, .inl rfl⟩
  refine Script.Holds.bind (hcommit.mono (fun _ _ _ h => h) fun _ _ _ h => h.elim) ?_
  intro outcome s₁ hs₁ houtcome
  cases outcome with
  | ok _ =>
    cases houtcome
    exact .pure hs₁ ⟨rfl, rfl, rfl⟩
  | error commitError =>
    -- the committed record is read back
    have hread : Keeps digests isUtcTime resource allowed
        (fun outcome s' => s' = s₁ ∧
          Attempted (fun found => found = s₁.index.find? fun k => k.version == r.version)
            (fun e => allowed (.readCommitted r) (some e)) outcome)
        (fun _ _ => False) (attempt (perform (.readCommitted r))) s₁ := by
      refine Script.Holds.attempt ⟨hs₁, fun answer hanswer => ?_⟩
      cases answer with
      | none => exact ⟨hs₁, rfl, rfl⟩
      | some e => exact ⟨hs₁, rfl, hanswer⟩
    refine Script.Holds.bind (hread.mono (fun _ _ _ h => h) fun _ _ _ h => h.elim) ?_
    rintro found s₂ hs₂ ⟨rfl, hfound⟩
    cases found with
    | error readError =>
      refine .throw hs₂ ?_
      rcases houtcome with rfl | ⟨rfl, hraised⟩
      · exact .inl rfl
      · refine .inr ⟨?_, rfl⟩
        rintro (hnever | hread)
        · exact hnever r commitError hraised
        · exact (hread r readError).1 hfound
    | ok found =>
      rcases houtcome with rfl | ⟨rfl, hraised⟩
      · -- nothing was committed
        rw [hfound, habsent]
        cases discard with
        | none => exact .throw hs₂ (.inl rfl)
        | some root =>
          refine Script.Holds.bind ((keeps_discardAfterFailure hs₂ hdiscard size).mono
            (fun _ _ _ h => h) fun _ _ _ h => h.elim) fun _ s₃ hs₃ h => ?_
          exact .throw hs₃ (.inl h.index)
      · rw [hfound, hpresent]
        have hverify : Keeps digests isUtcTime resource allowed
            (fun _ s' => s' = { s with index := s.index ++ [r] })
            (fun e s' => s' = { s with index := s.index ++ [r] } ∧ allowed (.verifyRecord r) (some e))
            (perform (.verifyRecord r)) { s with index := s.index ++ [r] } := by
          refine ⟨hs₂, fun answer hanswer => ?_⟩
          cases answer with
          | none =>
            obtain ⟨m, hm⟩ := hr.verified
            have hexec : ArchiveOp.exec digests isUtcTime resource (.verifyRecord r) none
                { s with index := s.index ++ [r] } = (.ok (), { s with index := s.index ++ [r] }) := by
              change ((Repository.verifyRecord digests isUtcTime s r).map fun _ => (), _) = _
              rw [hm]
              rfl
            rw [hexec]
            exact ⟨hs₂, rfl⟩
          | some e => exact ⟨hs₂, rfl, hanswer⟩
        refine Script.Holds.bind (hverify.mono (fun _ _ _ h => h) ?_) ?_
        · rintro e s₃ - ⟨rfl, hfailed⟩
          refine .inr ⟨?_, rfl⟩
          rintro (hnever | hread)
          · exact hnever r commitError hraised
          · exact (hread r e).2 hfailed
        · rintro - s₃ hs₃ rfl
          have hsame : Raising.raiseIf (!r.same r)
              (.valueError "Archived resource index contains a different committed record.")
              = (pure () : Except Raised Unit) := by
            rw [Record.same_refl]
            rfl
          rw [hsame]
          refine Script.Holds.bind ((keeps_check hs₃).mono (fun _ _ _ h => h) ?_) ?_
          · rintro e s₄ - ⟨-, ⟨⟩⟩
          · rintro - s₄ hs₄ ⟨rfl, -⟩
            exact .pure hs₄ ⟨rfl, rfl, rfl⟩

end Commit

section Recovery

variable {digests isUtcTime resource} {allowed : (op : ArchiveOp δ) → op.Answer → Prop}
  {s : Repository δ}

lemma verifyArchive_ok {root : String} {d : Directory δ} {expected : Expected δ} {m : Manifest δ}
    (h : verifyArchive digests root d expected = .ok m) :
    d.manifest = some m ∧ ∀ digest, expected.contentDigest = some digest → m.contentDigest = digest := by
  unfold verifyArchive at h
  cases hmanifest : d.manifest with
  | none => simp [hmanifest] at h
  | some manifest =>
    simp only [hmanifest, Raising.seq_eq_ok, Raising.raiseIf_eq_ok, Raising.pure_eq_ok] at h
    obtain ⟨-, -, -, -, -, -, -, hdigest, -, rfl⟩ := h
    refine ⟨rfl, fun digest hexpected => ?_⟩
    simpa [hexpected] using hdigest

/-- The record in the unindexed archive of the next version. -/
def Repository.leftoverRecord (digests : Digests δ) (resource : Resource) (s : Repository δ) :
    Except Raised (Record δ) :=
  unindexedRecord digests resource (s.index.length + 1)
    (s.directories.lookup (resource.root (s.index.length + 1)))

lemma unindexedRecord_ok {version : ℕ} {directory : Option (Directory δ)} {r : Record δ}
    (h : unindexedRecord digests resource version directory = .ok r) :
    r.version = version ∧ r.archive.root = resource.root version ∧
      ∃ d m, directory = some d ∧ d.manifest = some m ∧ r.contentDigest = m.contentDigest := by
  unfold unindexedRecord at h
  cases directory with
  | none => simp at h
  | some d =>
    simp only [Raising.bind_eq_ok] at h
    obtain ⟨d', hd', m, hm, h⟩ := h
    cases hd'
    obtain ⟨hmanifest, -⟩ := verifyArchive_ok hm
    cases hrecord : d.record with
    | none => simp [hrecord] at h
    | some archived =>
      simp only [hrecord, Raising.seq_eq_ok, Raising.raiseIf_eq_ok, Raising.pure_eq_ok, not_or,
        Decidable.not_not] at h
      obtain ⟨harchive, ⟨-, -, hversion, -, hdigest⟩, rfl⟩ := h
      exact ⟨hversion, by rw [harchive], d, m, rfl, hmanifest, hdigest⟩

lemma keeps_loadUnindexedRecord (hs : s.Sound digests isUtcTime resource) :
    Keeps digests isUtcTime resource allowed
      (fun r s' => s' = s ∧ s.leftoverRecord digests resource = .ok r ∧
        Committable digests isUtcTime resource s r)
      (fun _ s' => s' = s) (loadUnindexedRecord digests resource (s.index.length + 1)) s := by
  have hread : Keeps digests isUtcTime resource allowed _ (fun _ s' => s' = s)
      (perform (.readArchive (resource.root (s.index.length + 1)))) s :=
    keeps_read hs fun answer => orRaise_cases answer s s (.ok _)
  refine Script.Holds.bind hread ?_
  rintro directory s₁ hs₁ ⟨rfl, ⟨⟩⟩
  refine Script.Holds.bind ((keeps_check hs).mono (fun _ _ _ h => h) fun _ _ _ h => h.1) ?_
  rintro r s₂ - ⟨rfl, hleftover⟩
  have hverify : Keeps digests isUtcTime resource allowed _ (fun _ s' => s' = s₂)
      (perform (.verifyRecord r)) s₂ :=
    keeps_read hs fun answer => orRaise_cases answer s₂ s₂ ((s₂.verifyRecord digests isUtcTime r).map fun _ => ())
  refine Script.Holds.bind hverify ?_
  rintro verified s₃ - ⟨rfl, hverified⟩
  obtain ⟨hversion, hroot, d, m, hd, hmanifest, hdigest⟩ := unindexedRecord_ok hleftover
  refine .pure hs ⟨rfl, hleftover, hversion, hversion ▸ hroot, ?_, fun last hlast => ?_⟩
  · obtain ⟨m', hm', -⟩ := Raising.map_eq_ok.mp hverified
    exact ⟨m', hm'⟩
  · exact hdigest ▸ hs.leftover d m last hd hmanifest hlast

lemma keeps_archiveExists (hs : s.Sound digests isUtcTime resource) (root : String) :
    Keeps digests isUtcTime resource allowed (fun b s' => s' = s ∧ Dict.has s.directories root = b)
      (fun _ s' => s' = s) (archiveExists root) s := by
  have hread : Keeps digests isUtcTime resource allowed _ (fun _ s' => s' = s)
      (perform (.exists_ root)) s :=
    keeps_read hs fun answer => orRaise_cases answer s s (.ok (Dict.has s.directories root))
  refine hread.mono ?_ fun _ _ _ h => h
  rintro b s' - ⟨rfl, h⟩
  exact ⟨rfl, Except.ok.inj h⟩

/-- Without a directory of the next version there is nothing to recover. -/
lemma keeps_recoverNothing (hs : s.Sound digests isUtcTime resource)
    (hnone : s.directories.lookup (resource.root (s.index.length + 1)) = none) (size fuel : ℕ) :
    Keeps digests isUtcTime resource allowed (fun records s' => s' = s ∧ records = s.index)
      (fun _ s' => s' = s) (recoverUnindexed digests resource size (fuel + 1) s.index) s := by
  unfold recoverUnindexed
  rw [hs.nextVersion]
  refine Script.Holds.bind (keeps_archiveExists hs _) ?_
  rintro found s₁ hs₁ ⟨rfl, hfound⟩
  rw [Dict.has_eq_false_iff.mpr hnone] at hfound
  rw [← hfound]
  exact .pure hs ⟨rfl, rfl⟩

/-- The index after the recovery: the leftover archive is committed. -/
inductive Recovered (digests : Digests δ) (resource : Resource) (s : Repository δ) :
    List (Record δ) → Prop
  | nothing (h : s.directories.lookup (resource.root (s.index.length + 1)) = none) :
    Recovered digests resource s s.index
  | leftover {r : Record δ} (h : s.leftoverRecord digests resource = .ok r) :
    Recovered digests resource s (s.index ++ [r])

/-- The recovery ends in its second round at the latest. -/
lemma keeps_recoverUnindexed (hs : s.Sound digests isUtcTime resource) (size fuel : ℕ) :
    Keeps digests isUtcTime resource allowed
      (fun records s' => records = s'.index ∧ Recovered digests resource s s'.index ∧
        s'.directories.lookup (resource.root (s'.index.length + 1)) = none)
      (fun _ s' => s'.index = s.index ∨ Recovered digests resource s s'.index)
      (recoverUnindexed digests resource size (fuel + 2) s.index) s := by
  cases hlookup : s.directories.lookup (resource.root (s.index.length + 1)) with
  | none =>
    refine (keeps_recoverNothing hs hlookup size (fuel + 1)).mono ?_ ?_
    · rintro records s' - ⟨rfl, rfl⟩
      exact ⟨rfl, .nothing hlookup, hlookup⟩
    · rintro e s' - rfl
      exact .inl rfl
  | some d =>
    unfold recoverUnindexed
    rw [hs.nextVersion]
    refine Script.Holds.bind ((keeps_archiveExists hs _).mono (fun _ _ _ h => h) ?_) ?_
    · rintro e s' - rfl
      exact .inl rfl
    rintro found s₁ hs₁ ⟨rfl, hfound⟩
    rw [Dict.has_eq_true_iff.mpr ⟨d, hlookup⟩] at hfound
    rw [← hfound]
    refine Script.Holds.bind ((keeps_loadUnindexedRecord hs).mono (fun _ _ _ h => h) ?_) ?_
    · rintro e s' - rfl
      exact .inl rfl
    rintro r s₂ - ⟨rfl, hleftover, hr⟩
    have hverify : Keeps digests isUtcTime resource allowed _ (fun _ s' => s' = s₂)
        (perform (.verifyRecords (s₂.index ++ [r]) false)) s₂ :=
      keeps_read hs fun answer => orRaise_cases answer s₂ s₂
        (s₂.verifyRecords digests isUtcTime resource (s₂.index ++ [r]))
    refine Script.Holds.bind (hverify.mono (fun _ _ _ h => h) ?_) ?_
    · rintro e s' - rfl
      exact .inl rfl
    rintro - s₃ - ⟨rfl, -⟩
    refine Script.Holds.bind ((keeps_commitOrReconcile hs hr (.inl rfl) size).mono
      (fun _ _ _ h => h) ?_) ?_
    · rintro e s' - (hindex | ⟨-, hindex⟩)
      · exact .inl hindex
      · exact .inr (hindex ▸ .leftover hleftover)
    -- the version after the leftover one has no directory
    rintro committed s₄ hs₄ ⟨-, hindex, hdirectories⟩
    have hnone : s₄.directories.lookup (resource.root (s₄.index.length + 1)) = none := by
      rw [hdirectories, hindex]
      cases hnext : s₃.directories.lookup (resource.root ((s₃.index ++ [r]).length + 1)) with
      | none => rfl
      | some d' =>
        obtain ⟨v, -, hle, hroot⟩ := hs.numbered _ d' hnext
        have heq := resource.root_injective hroot
        simp only [List.length_append, List.length_singleton] at heq
        omega
    rw [← hindex]
    refine (keeps_recoverNothing hs₄ hnone size fuel).mono ?_ ?_
    · rintro records s' - ⟨rfl, rfl⟩
      exact ⟨rfl, hindex ▸ .leftover hleftover, hnone⟩
    · rintro e s' - rfl
      exact .inr (hindex ▸ .leftover hleftover)

end Recovery

section Draft

variable {digests isUtcTime resource} {allowed : (op : ArchiveOp δ) → op.Answer → Prop}
  {s s' : Repository δ}

/-- A step that changes at most the staging directory. -/
lemma keeps_staging {op : ArchiveOp δ} (hs : s.Sound digests isUtcTime resource)
    (hexec : ∀ answer, (op.exec digests isUtcTime resource answer s).2.index = s.index ∧
      (op.exec digests isUtcTime resource answer s).2.directories = s.directories) :
    Keeps digests isUtcTime resource allowed (fun _ => OnlyAt none s) (fun _ => OnlyAt none s)
      (perform op) s := by
  refine keeps_discardStep hs (.inl rfl) fun answer => ?_
  obtain ⟨hindex, hdirectories⟩ := hexec answer
  refine ⟨hindex, fun path _ => ?_, fun path _ hpath _ => nomatch hpath⟩
  rw [hdirectories]

omit [DecidableEq δ] in
lemma orRaise_staging {α : Type} (failure : Option Raised) (result : Except Raised α)
    (staging : Option (Directory δ)) :
    (orRaise failure s result { s with staging := staging }).2.index = s.index ∧
      (orRaise failure s result { s with staging := staging }).2.directories = s.directories := by
  cases failure with
  | none => exact ⟨rfl, rfl⟩
  | some e => exact ⟨rfl, rfl⟩

/-- The staging directory may become the directory of the next version. -/
def Repository.Publishable (s : Repository δ) : Prop :=
  ∀ d m last, s.staging = some d → d.manifest = some m → s.index.getLast? = some last →
    m.contentDigest ≠ last.contentDigest

lemma keeps_rename (hs : s.Sound digests isUtcTime resource) (hstaged : s.Publishable) :
    Keeps digests isUtcTime resource allowed (fun _ s' => s'.index = s.index)
      (fun _ s' => s'.index = s.index) (perform (.rename (resource.root (s.index.length + 1)))) s := by
  cases hstaging : s.staging with
  | none =>
    refine ⟨hs, fun answer _ => ?_⟩
    simp only [ArchiveOp.exec, hstaging]
    exact ⟨hs, rfl⟩
  | some d =>
    have hnext : Repository.Sound digests isUtcTime resource
        { s with directories := Dict.set s.directories (resource.root (s.index.length + 1)) d,
                 staging := none } := by
      refine hs.setNext rfl (fun root hroot => Dict.lookup_set_ne _ _ hroot) ?_
      intro d' m last hd hm hlast
      change (Dict.set s.directories _ d).lookup _ = _ at hd
      rw [Dict.lookup_set_self, Option.some.injEq] at hd
      exact hstaged d m last hstaging (hd ▸ hm) hlast
    have hexec : ∀ answer, ArchiveOp.exec digests isUtcTime resource
        (.rename (resource.root (s.index.length + 1))) answer s =
          (.ok (), { s with directories := Dict.set s.directories (resource.root (s.index.length + 1)) d,
                            staging := none }) ∨
        ∃ e, ArchiveOp.exec digests isUtcTime resource
          (.rename (resource.root (s.index.length + 1))) answer s = (.error e, s) := by
      intro answer
      simp only [ArchiveOp.exec, hstaging]
      exact orRaise_cases answer s _ (.ok ())
    exact keeps_step hs hnext hexec (fun _ _ => rfl) (fun _ _ => rfl) fun _ => rfl

lemma keeps_publish (hs : s.Sound digests isUtcTime resource) (hstaged : s.Publishable) (digest : δ) :
    Keeps digests isUtcTime resource allowed (fun _ s' => s'.index = s.index)
      (fun _ s' => s'.index = s.index) (publish digests resource (s.index.length + 1) digest) s := by
  have hindex : ∀ (e : Raised) s', s' = s → s'.index = s.index := fun _ _ h => h ▸ rfl
  unfold publish
  refine Script.Holds.bind ((keeps_archiveExists hs _).mono (fun _ _ _ h => h) fun e s' _ => hindex e s') ?_
  rintro taken s₁ - ⟨rfl, -⟩
  refine Script.Holds.bind ((keeps_check hs).mono (fun _ _ _ h => h) fun e s' _ h => hindex e s' h.1) ?_
  rintro - s₂ - ⟨rfl, -⟩
  have hsync : Keeps digests isUtcTime resource allowed _ (fun _ s' => s' = s₂) (perform .syncStaging) s₂ :=
    keeps_read hs fun answer => orRaise_cases answer s₂ s₂ (.ok ())
  refine Script.Holds.bind (hsync.mono (fun _ _ _ h => h) fun e s' _ => hindex e s') ?_
  rintro - s₃ - ⟨rfl, -⟩
  refine Script.Holds.bind (keeps_rename hs hstaged) ?_
  intro _ s₄ hs₄ h₄
  have hsync : Keeps digests isUtcTime resource allowed _ (fun _ s' => s' = s₄)
      (perform .syncDestination) s₄ :=
    keeps_read hs₄ fun answer => orRaise_cases answer s₄ s₄ (.ok ())
  refine Script.Holds.bind (hsync.mono (fun _ _ _ h => h) fun e s' _ h => h ▸ h₄) ?_
  rintro - s₅ - ⟨rfl, -⟩
  have hread : Keeps digests isUtcTime resource allowed _ (fun _ s' => s' = s₅)
      (perform (.readArchive (resource.root (s₃.index.length + 1)))) s₅ :=
    keeps_read hs₄ fun answer => orRaise_cases answer s₅ s₅ (.ok _)
  refine Script.Holds.bind (hread.mono (fun _ _ _ h => h) fun e s' _ h => h ▸ h₄) ?_
  rintro published s₆ - ⟨rfl, -⟩
  refine (keeps_check hs₄).mono ?_ ?_
  · rintro _ s' - ⟨rfl, -⟩
    exact h₄
  · rintro _ s' - ⟨rfl, -⟩
    exact h₄

/-- A sealed archive is published at the next version, or discarded. -/
lemma keeps_sealDirectory (hs : s.Sound digests isUtcTime resource) {digest : δ}
    (hdigest : ∀ last, s.index.getLast? = some last → digest ≠ last.contentDigest) (size : ℕ) :
    Keeps digests isUtcTime resource allowed (fun _ s' => s'.index = s.index)
      (fun _ s' => s'.index = s.index)
      (sealDirectory digests resource size (s.index.length + 1) digest) s := by
  have hindex : ∀ (e : Raised) s', s' = s → s'.index = s.index := fun _ _ h => h ▸ rfl
  unfold sealDirectory
  refine Script.Holds.bind ((keeps_archiveExists hs _).mono (fun _ _ _ h => h) fun e s' _ => hindex e s') ?_
  rintro taken s₁ - ⟨rfl, -⟩
  refine Script.Holds.bind ((keeps_check hs).mono (fun _ _ _ h => h) fun e s' _ h => hindex e s' h.1) ?_
  rintro - s₂ - ⟨rfl, -⟩
  have hread : Keeps digests isUtcTime resource allowed _ (fun _ s' => s' = s₂) (perform .readStaging) s₂ :=
    keeps_read hs fun answer => orRaise_cases answer s₂ s₂ (.ok _)
  refine Script.Holds.bind (hread.mono (fun _ _ _ h => h) fun e s' _ => hindex e s') ?_
  rintro d s₃ - ⟨rfl, -⟩
  refine Script.Holds.bind ((keeps_check hs).mono (fun _ _ _ h => h) fun e s' _ h => hindex e s' h.1) ?_
  rintro - s₄ - ⟨rfl, -⟩
  refine Script.Holds.bind ((keeps_check hs).mono (fun _ _ _ h => h) fun e s' _ h => hindex e s' h.1) ?_
  rintro - s₅ - ⟨rfl, -⟩
  have hwrite : Keeps digests isUtcTime resource allowed (fun _ => OnlyAt none s₅) (fun _ => OnlyAt none s₅)
      (perform (.writeManifest (newManifest digests resource (s₅.index.length + 1) digest d))) s₅ :=
    keeps_staging hs fun answer => orRaise_staging answer (.ok ()) _
  refine Script.Holds.bind (hwrite.mono (fun _ _ _ h => h) fun _ _ _ h => h.index) ?_
  intro _ s₆ hs₆ h₆
  have hreadOnly : Keeps digests isUtcTime resource allowed (fun _ => OnlyAt none s₆)
      (fun _ => OnlyAt none s₆) (perform .makeReadOnly) s₆ :=
    keeps_staging hs₆ fun answer => orRaise_staging answer (.ok ()) _
  refine Script.Holds.bind (hreadOnly.mono (fun _ _ _ h => h) fun _ _ _ h => h.index.trans h₆.index) ?_
  intro _ s₇ hs₇ h₇
  have h₇ : s₇.index = s₅.index := h₇.index.trans h₆.index
  have hread : Keeps digests isUtcTime resource allowed _ (fun _ s' => s' = s₇) (perform .readStaging) s₇ :=
    keeps_read hs₇ fun answer => orRaise_cases answer s₇ s₇ (.ok (s₇.staging.getD {}))
  refine Script.Holds.bind (hread.mono (fun _ _ _ h => h) fun _ _ _ h => h ▸ h₇) ?_
  rintro staged s₈ - ⟨rfl, hstaged⟩
  refine Script.Holds.bind ((keeps_check hs₇).mono (fun _ _ _ h => h) fun _ _ _ h => h.1 ▸ h₇) ?_
  rintro manifest s₉ - ⟨rfl, hmanifest⟩
  -- the staging directory has the digest of the draft
  have hpublishable : s₉.Publishable := by
    intro d' m last hd hm hlast
    have hd' : d' = staged := by
      have hget := Except.ok.inj hstaged
      rwa [hd] at hget
    obtain ⟨hsome, hcontent⟩ := verifyArchive_ok hmanifest
    rw [hd', hsome, Option.some.injEq] at hm
    rw [← hm, hcontent digest rfl]
    exact hdigest last (h₇ ▸ hlast)
  rw [← h₇]
  refine Script.Holds.tryCatch (keeps_publish hs₇ hpublishable digest) fun e s' hs' h' => ?_
  refine Script.Holds.bind ((keeps_archiveExists hs' _).mono (fun _ _ _ h => h) fun _ _ _ h => h ▸ h') ?_
  rintro found s'' hs'' ⟨rfl, -⟩
  cases found with
  | false => exact .throw hs'' h'
  | true =>
    refine Script.Holds.bind ((keeps_discardArchive hs'' (.inr (by rw [h'])) size).mono
      (fun _ _ _ h => h) fun _ _ _ h => h.index.trans h') ?_
    intro _ s₁₀ hs₁₀ h₁₀
    exact .throw hs₁₀ (h₁₀.index.trans h')

lemma keeps_requireNoReserved (hs : s.Sound digests isUtcTime resource) (what : String) :
    Keeps digests isUtcTime resource allowed (fun _ s' => s' = s) (fun _ s' => s' = s)
      (requireNoReserved what) s := by
  have hread : Keeps digests isUtcTime resource allowed _ (fun _ s' => s' = s) (perform .readStaging) s :=
    keeps_read hs fun answer => orRaise_cases answer s s (.ok _)
  refine Script.Holds.bind hread ?_
  rintro d s₁ - ⟨rfl, -⟩
  refine Script.Holds.bind ((keeps_check hs).mono (fun _ _ _ h => h) fun _ _ _ h => h.1) ?_
  rintro - s₂ - ⟨rfl, -⟩
  exact (keeps_check hs).mono (fun _ _ _ h => h.1) fun _ _ _ h => h.1

/-- A call that fails leaves the index as it was, unless its commit could not be reconciled. -/
def Failed (allowed : (op : ArchiveOp δ) → op.Answer → Prop) (s s' : Repository δ) : Prop :=
  s'.index = s.index ∨ (¬Reconcilable allowed ∧ ∃ r, s'.index = s.index ++ [r])

lemma keeps_publishNew (hs : s.Sound digests isUtcTime resource) {r : Record δ}
    (hversion : r.version = s.index.length + 1) (hroot : r.archive.root = resource.root r.version)
    (hdigest : ∀ last, s.index.getLast? = some last → r.contentDigest ≠ last.contentDigest)
    (size : ℕ) :
    Keeps digests isUtcTime resource allowed
      (fun o s' => o.unchanged = false ∧ s'.index = s.index ++ [o.record]) (fun _ => Failed allowed s)
      (publishNew digests resource size (s.index.length + 1) r) s := by
  unfold publishNew
  have hwrite : Keeps digests isUtcTime resource allowed (fun _ => OnlyAt none s) (fun _ => OnlyAt none s)
      (perform (.writeRecord r)) s := keeps_staging hs fun answer => ⟨rfl, rfl⟩
  refine Script.Holds.bind (hwrite.mono (fun _ _ _ h => h) fun _ _ _ h => .inl h.index) ?_
  intro _ s₁ hs₁ h₁
  refine Script.Holds.bind ((keeps_requireNoReserved hs₁ "writer").mono (fun _ _ _ h => h)
    fun _ _ _ h => .inl (h ▸ h₁.index)) ?_
  rintro - s₂ hs₂ rfl
  have hsnapshot : Keeps digests isUtcTime resource allowed (fun _ => OnlyAt none s₂)
      (fun _ => OnlyAt none s₂) (perform (.writeSnapshot r)) s₂ :=
    keeps_staging hs₂ fun answer => orRaise_staging answer (.ok ()) _
  refine Script.Holds.bind (hsnapshot.mono (fun _ _ _ h => h)
    fun _ _ _ h => .inl (h.index.trans h₁.index)) ?_
  intro _ s₃ hs₃ h₃
  have h₃ : s₃.index = s.index := h₃.index.trans h₁.index
  rw [← h₃] at hversion hdigest ⊢
  refine Script.Holds.bind ((keeps_sealDirectory hs₃ hdigest size).mono (fun _ _ _ h => h)
    fun _ _ _ h => .inl (h.trans h₃)) ?_
  intro manifest s₄ hs₄ h₄
  set record := { r with archive := { r.archive with manifestDigest := some manifest.manifestDigest } }
  have hverify : Keeps digests isUtcTime resource allowed _ (fun _ s' => s' = s₄)
      (perform (.verifyRecord record)) s₄ :=
    keeps_read hs₄ fun answer =>
      orRaise_cases answer s₄ s₄ ((s₄.verifyRecord digests isUtcTime record).map fun _ => ())
  refine Script.Holds.bind (hverify.mono (fun _ _ _ h => h) fun _ _ _ h => .inl (h ▸ h₄.trans h₃)) ?_
  rintro verified s₅ - ⟨rfl, hverified⟩
  obtain ⟨m, hm, -⟩ := Raising.map_eq_ok.mp hverified
  have hrecord : Committable digests isUtcTime resource s₅ record := by
    refine ⟨?_, hroot, ⟨m, hm⟩, ?_⟩
    · rw [h₄]
      exact hversion
    · rw [h₄]
      exact hdigest
  have hdestination : some (resource.root (s₃.index.length + 1)) =
      some (resource.root (s₅.index.length + 1)) := by rw [h₄]
  refine Script.Holds.bind ((keeps_commitOrReconcile hs₄ hrecord (.inr hdestination) size).mono
    (fun _ _ _ h => h) ?_) ?_
  · rintro _ s' - (hindex | ⟨hlost, hindex⟩)
    · exact .inl (hindex.trans (h₄.trans h₃))
    · exact .inr ⟨hlost, record, by rw [hindex, h₄, h₃]⟩
  · rintro committed s₆ hs₆ ⟨rfl, hindex, -⟩
    exact .pure hs₆ ⟨rfl, by rw [hindex, h₄]⟩

/-- A draft is archived as the next version, or found unchanged. -/
lemma keeps_archiveDraft (hs : s.Sound digests isUtcTime resource)
    (hnone : s.directories.lookup (resource.root (s.index.length + 1)) = none) (size : ℕ)
    (evidence : Bool) :
    Keeps digests isUtcTime resource allowed
      (fun o s' => s'.index = if o.unchanged then s.index else s.index ++ [o.record])
      (fun _ => Failed allowed s)
      (archiveDraft digests resource size evidence s.index (s.index.length + 1)) s := by
  unfold archiveDraft
  have hprepare : Keeps digests isUtcTime resource allowed (fun _ => OnlyAt none s)
      (fun _ => OnlyAt none s) (perform (.prepareStaging (s.index.length + 1))) s :=
    keeps_staging hs fun answer => ⟨rfl, rfl⟩
  refine Script.Holds.bind (hprepare.mono (fun _ _ _ h => h) fun _ _ _ h => .inl h.index) ?_
  intro semanticContent s₁ hs₁ h₁
  refine Script.Holds.bind ((keeps_requireNoReserved hs₁ "implementation").mono (fun _ _ _ h => h)
    fun _ _ _ h => .inl (h ▸ h₁.index)) ?_
  rintro - s₂ hs₂ rfl
  dsimp only
  split
  · next unchanged hunchanged =>
    have hdiscarded : Keeps digests isUtcTime resource allowed
        (fun o s' => s'.index = if o.unchanged then s.index else s.index ++ [o.record])
        (fun _ => Failed allowed s)
        (discardArchive size none >>= fun _ => pure (Outcome.mk unchanged true)) s₂ := by
      refine Script.Holds.bind ((keeps_discardArchive hs₂ (.inl rfl) size).mono (fun _ _ _ h => h)
        fun _ _ _ h => .inl (h.index.trans h₁.index)) ?_
      intro _ s₃ hs₃ h₃
      exact .pure hs₃ (h₃.index.trans h₁.index)
    cases evidence with
    | true => exact hdiscarded
    | false =>
      have hverify : Keeps digests isUtcTime resource allowed _ (fun _ s' => s' = s₂)
          (perform (.verifyRecord unchanged)) s₂ :=
        keeps_read hs₂ fun answer => orRaise_cases answer s₂ s₂
          ((s₂.verifyRecord digests isUtcTime unchanged).map fun _ => ())
      refine Script.Holds.bind (hverify.mono (fun _ _ _ h => h) fun _ _ _ h => .inl (h ▸ h₁.index)) ?_
      rintro - s₃ - ⟨rfl, -⟩
      exact hdiscarded
  · next hchanged =>
    have hcreate : Keeps digests isUtcTime resource allowed (fun _ s' => s' = s₂) (fun _ s' => s' = s₂)
        (perform (.createRecord (s.index.length + 1))) s₂ := by
      refine ⟨hs₂, fun answer _ => ⟨hs₂, ?_⟩⟩
      cases answer with
      | ok created => rfl
      | error e => rfl
    refine Script.Holds.bind (hcreate.mono (fun _ _ _ h => h) fun _ _ _ h => .inl (h ▸ h₁.index)) ?_
    rintro created s₃ - rfl
    refine Script.Holds.bind ((keeps_check hs₂).mono (fun _ _ _ h => h)
      fun _ _ _ h => .inl (h.1 ▸ h₁.index)) ?_
    rintro - s₄ - ⟨rfl, -⟩
    refine Script.Holds.bind ((keeps_archiveExists hs₂ _).mono (fun _ _ _ h => h)
      fun _ _ _ h => .inl (h ▸ h₁.index)) ?_
    rintro found s₅ - ⟨rfl, hfound⟩
    -- the recovery has left no archive of the version
    have hnone : s₅.directories.lookup (resource.root (s.index.length + 1)) = none := by
      rw [h₁.others _ (by simp)]
      exact hnone
    rw [Dict.has_eq_false_iff.mpr hnone] at hfound
    rw [← hfound]
    have hdigest : ∀ last, s₅.index.getLast? = some last →
        digests.content semanticContent ≠ last.contentDigest := by
      intro last hlast heq
      rw [h₁.index, ← hs.latest] at hlast
      simp only [unchangedVersion, hlast, Option.filter_some, heq, decide_true, if_true] at hchanged
      cases hchanged
    have hindex : s₅.index = s.index := h₁.index
    rw [← hindex]
    refine (keeps_publishNew hs₂ rfl rfl hdigest size).mono ?_ ?_
    · rintro o s' - ⟨hchanged, hindex'⟩
      rw [hchanged, if_neg (by simp), hindex']
    · rintro e s' - h
      rwa [Failed, hindex] at h

end Draft

section Calls

variable {digests isUtcTime resource} {allowed : (op : ArchiveOp δ) → op.Answer → Prop}
  {s s' : Repository δ}

/-- One call commits the leftover archive, and then archives its draft. -/
lemma keeps_archiveIfChanged (hs : s.Sound digests isUtcTime resource) (size : ℕ) (evidence : Bool) :
    Keeps digests isUtcTime resource allowed
      (fun o s' => ∃ records, Recovered digests resource s records ∧
        s'.index = if o.unchanged then records else records ++ [o.record])
      (fun _ s' => ∃ records, (records = s.index ∨ Recovered digests resource s records) ∧
        (s'.index = records ∨ (¬Reconcilable allowed ∧ ∃ r, s'.index = records ++ [r])))
      (archiveIfChanged digests resource size evidence) s := by
  have hsame : ∀ (e : Raised) s', s' = s → ∃ records,
      (records = s.index ∨ Recovered digests resource s records) ∧
        (s'.index = records ∨ (¬Reconcilable allowed ∧ ∃ r, s'.index = records ++ [r])) :=
    fun _ s' h => ⟨s.index, .inl rfl, .inl (h ▸ rfl)⟩
  unfold archiveIfChanged
  have hread : Keeps digests isUtcTime resource allowed _ (fun _ s' => s' = s) (perform .readIndex) s :=
    keeps_read hs fun answer => orRaise_cases answer s s (.ok s.index)
  refine Script.Holds.bind (hread.mono (fun _ _ _ h => h) fun e s' _ => hsame e s') ?_
  rintro index s₁ - ⟨rfl, hindex⟩
  cases hindex
  have hverify : Keeps digests isUtcTime resource allowed _ (fun _ s' => s' = s₁)
      (perform (.verifyRecords s₁.index evidence)) s₁ :=
    keeps_read hs fun answer => orRaise_cases answer s₁ s₁
      (if evidence then .ok () else s₁.verifyRecords digests isUtcTime resource s₁.index)
  refine Script.Holds.bind (hverify.mono (fun _ _ _ h => h) fun e s' _ => hsame e s') ?_
  rintro - s₂ - ⟨rfl, -⟩
  refine Script.Holds.bind ((keeps_check hs).mono (fun _ _ _ h => h) fun e s' _ h => hsame e s' h.1) ?_
  rintro - s₃ - ⟨rfl, -⟩
  refine Script.Holds.bind ((keeps_recoverUnindexed hs size size).mono (fun _ _ _ h => h) ?_) ?_
  · rintro e s' - (hindex | hrecovered)
    · exact ⟨s₃.index, .inl rfl, .inl hindex⟩
    · exact ⟨s'.index, .inr hrecovered, .inl rfl⟩
  rintro records s₄ hs₄ ⟨rfl, hrecovered, hnone⟩
  have hstaging : Keeps digests isUtcTime resource allowed (fun _ => OnlyAt none s₄)
      (fun _ => OnlyAt none s₄) (perform .makeStaging) s₄ :=
    keeps_staging hs₄ fun answer => orRaise_staging answer (.ok ()) _
  refine Script.Holds.bind (hstaging.mono (fun _ _ _ h => h) fun _ _ _ h =>
    ⟨s₄.index, .inr hrecovered, .inl h.index⟩) ?_
  intro _ s₅ hs₅ h₅
  rw [hs₄.nextVersion, ← h₅.index]
  have hdraft : Keeps digests isUtcTime resource allowed
      (fun o s' => s'.index = if o.unchanged then s₅.index else s₅.index ++ [o.record])
      (fun _ => Failed allowed s₅)
      (archiveDraft digests resource size evidence s₅.index (s₅.index.length + 1)) s₅ := by
    refine keeps_archiveDraft hs₅ ?_ size evidence
    rw [h₅.index, h₅.others _ (by simp)]
    exact hnone
  rw [← h₅.index] at hrecovered
  refine Script.Holds.tryCatch (hdraft.mono ?_ fun _ _ _ h => h) ?_
  · intro o s' _ h
    exact ⟨s₅.index, hrecovered, h⟩
  · intro e s₆ hs₆ h₆
    refine Script.Holds.bind ((keeps_discardAfterFailure hs₆ (.inl rfl) size).mono (fun _ _ _ h => h)
      fun _ _ _ h => h.elim) fun _ s₇ hs₇ h₇ => ?_
    refine .throw hs₇ ⟨s₅.index, .inr hrecovered, ?_⟩
    rw [h₇.index]
    exact h₆

end Calls

section Runs

/-- One call of `archive_if_changed`: it is killed after `limit` steps if it has not ended before. -/
structure ArchiveCall (δ : Type) where
  size : ℕ
  evidence : Bool
  limit : ℕ
  answers : ℕ → (op : ArchiveOp δ) → op.Answer

/-- What a call returns or raises, if it is not killed, and the repository it leaves. -/
def ArchiveCall.result (call : ArchiveCall δ) (s : Repository δ) :
    Option (Except Raised (Outcome δ)) × Repository δ :=
  runUntil (ArchiveOp.exec digests isUtcTime resource) call.answers call.limit
    (archiveIfChanged digests resource call.size call.evidence).run s

/-- The repository after a call. -/
def Repository.step (s : Repository δ) (call : ArchiveCall δ) : Repository δ :=
  (call.result digests isUtcTime resource s).2

/-- No commit of the call is both effective and reported as failed without a way to find out. -/
def ArchiveCall.Reconciles (call : ArchiveCall δ) : Prop :=
  Reconcilable fun op answer => ∃ k, call.answers k op = answer

variable {digests isUtcTime resource} {s : Repository δ}

lemma Repository.Sound.result (hs : s.Sound digests isUtcTime resource) (call : ArchiveCall δ) :
    (s.step digests isUtcTime resource call).Sound digests isUtcTime resource ∧
      (∀ o, (call.result digests isUtcTime resource s).1 = some (.ok o) →
        ∃ records, Recovered digests resource s records ∧
          (s.step digests isUtcTime resource call).index =
            if o.unchanged then records else records ++ [o.record]) ∧
      ∀ e, (call.result digests isUtcTime resource s).1 = some (.error e) →
        ∃ records, (records = s.index ∨ Recovered digests resource s records) ∧
          ((s.step digests isUtcTime resource call).index = records ∨ (¬call.Reconciles ∧
            ∃ r, (s.step digests isUtcTime resource call).index = records ++ [r])) := by
  have hkeeps : Keeps digests isUtcTime resource (fun op answer => ∃ k, call.answers k op = answer) _ _
      (archiveIfChanged digests resource call.size call.evidence) s :=
    keeps_archiveIfChanged hs call.size call.evidence
  obtain ⟨hsound, hend⟩ := hkeeps.runUntil (fun k op => ⟨k, rfl⟩) call.limit
  exact ⟨hsound, fun o ho => hend (.ok o) ho, fun e he => hend (.error e) he⟩

lemma Repository.Sound.empty : Repository.Sound digests isUtcTime resource {} :=
  ⟨rfl, by simp, .nil, by simp, by simp⟩

variable (digests isUtcTime resource)

/-- After any calls, failed or killed anywhere, the index is a complete history of sealed archives, and
the only other directory is the one of the next version. A call that fails commits at most the
leftover archive of an earlier one, unless its own commit cannot be reconciled; a call that succeeds
recovers the leftover archive, and appends its own version if the content is new. -/
theorem archiving_crashSafe (calls : List (ArchiveCall δ)) (call : ArchiveCall δ) :
    let s := Transitions.run (Repository.step digests isUtcTime resource) {} calls
    let s' := s.step digests isUtcTime resource call
    s.index.map Record.version = List.range' 1 s.index.length ∧
    (∀ r ∈ s.index, r.archive.root = resource.root r.version ∧
      ∃ m, s.verifyRecord digests isUtcTime r = .ok m) ∧
    (s.index.map Record.contentDigest).IsChain (· ≠ ·) ∧
    (∀ root d, s.directories.lookup root = some d →
      (∃ r ∈ s.index, r.archive.root = root) ∨ root = resource.root (s.index.length + 1)) ∧
    (∀ e, (call.result digests isUtcTime resource s).1 = some (.error e) →
      ∃ records, (records = s.index ∨ Recovered digests resource s records) ∧
        (s'.index = records ∨ (¬call.Reconciles ∧ ∃ r, s'.index = records ++ [r]))) ∧
    ∀ o, (call.result digests isUtcTime resource s).1 = some (.ok o) →
      ∃ records, Recovered digests resource s records ∧
        s'.index = if o.unchanged then records else records ++ [o.record] := by
  intro s s'
  have hs : s.Sound digests isUtcTime resource :=
    Transitions.run_invariant (fun _ call hs _ => (hs.result call).1) .empty
      (Transitions.along_true _ calls)
  obtain ⟨-, hok, herror⟩ := hs.result call
  refine ⟨hs.versions, hs.sealed_, hs.changes, fun root d hd => ?_, herror, hok⟩
  obtain ⟨v, hv, hle, rfl⟩ := hs.numbered root d hd
  by_cases hnext : v = s.index.length + 1
  · exact .inr (by rw [hnext])
  · -- a version of the index has its record
    have hmem : v ∈ s.index.map Record.version := by
      rw [hs.versions, List.mem_range'_1]
      omega
    obtain ⟨r, hr, rfl⟩ := List.mem_map.mp hmem
    exact .inl ⟨r, hr, (hs.sealed_ r hr).1⟩

/-- Digests that show what they sign. -/
def plainDigests : Digests String where
  content j := match j with
    | .str text => text
    | _ => ""
  file f := (f.content.length, f.content)
  record r := (0, r.contentDigest)
  manifest core := core.contentDigest

/-- A resource without fields of its own. -/
def plainResource : Resource where
  identityKey := "id"
  identity := "indicator"
  resourceType := "indicator"
  resourceId := "indicator"
  recordFields := ["id"]
  immutableFields := []
  root version := String.ofList (List.replicate version 'v')
  root_injective a b h := by
    simpa using congrArg String.length h

/-- Every step succeeds, and the draft has the given content. -/
def plainAnswer (draft : Except Raised Json) : (op : ArchiveOp String) → op.Answer
  | .commitRecord _ => .committed
  | .prepareStaging _ => (draft, {})
  | .createRecord _ => .ok ⟨[("id", .str "indicator")], "2024-01-01T00:00:00Z"⟩
  | .writeRecord _ => (.ok (), {})
  | .readIndex | .verifyRecords .. | .exists_ _ | .readArchive _ | .verifyRecord _ | .readCommitted _
  | .makeStaging | .writeSnapshot _ | .readStaging | .writeManifest _ | .makeReadOnly | .syncStaging
  | .rename _ | .syncDestination | .makeWritable _ | .unlink _ | .removeDirectory _ => none

/-- A call of the given draft that is killed after `limit` steps if it has not ended before. -/
def plainCall (draft : Except Raised Json) (limit : ℕ) : ArchiveCall String where
  size := 4
  evidence := false
  limit := limit
  answers _ := plainAnswer draft

/-- A call whose commit raises after it has committed, when the index cannot be read either. -/
def unreadableCall : ArchiveCall String where
  size := 4
  evidence := false
  limit := 40
  answers _ op := match op with
    | .commitRecord _ => .committedAndRaised (.runtimeError "The commit was interrupted.")
    | .readCommitted _ => some (.runtimeError "The index cannot be read.")
    | op => plainAnswer (.ok (.str "first")) op

/-- A call is killed between the rename and the commit, and the next one fails on its draft: it has
committed the first one's archive. The commit of a version whose index cannot be read stays. -/
theorem archiving_failedCallCommits :
    let result := ArchiveCall.result plainDigests (fun _ => true) plainResource
    let s := (result (plainCall (.ok (.str "first")) 20) {}).2
    let recovering := result (plainCall (.error (.runtimeError "No draft.")) 40) s
    let unreadable := result unreadableCall {}
    (s.index.length = 0 ∧ recovering.1.map Except.toBool = some false ∧ recovering.2.index.length = 1) ∧
      unreadable.1.map Except.toBool = some false ∧ unreadable.2.index.length = 1 := by
  with_unfolding_all decide

end Runs

end TradeFramework.Archive
