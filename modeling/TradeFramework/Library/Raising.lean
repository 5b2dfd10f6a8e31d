import Mathlib.Data.List.Forall2
import Mathlib.Logic.Function.Basic

/-!
# Computations that may raise

Inversion rules for `Except`: what a successful run of a sequence, a loop or a
short-circuiting quantifier says about its steps.
-/

/-- The exceptions a modelled function can raise, with their messages. -/
inductive PyError
  | valueError (message : String)
  | typeError (message : String)
  | attributeError (message : String)
  | runtimeError (message : String)
  | keyError (message : String)
  | recursionError (message : String)
  | overflowError (message : String)
  | permissionError (message : String)
deriving DecidableEq, Repr

namespace Raising

variable {ε α β σ : Type}

@[simp] lemma bind_eq_ok {x : Except ε α} {f : α → Except ε β} {b : β} :
    (x >>= f) = .ok b ↔ ∃ a, x = .ok a ∧ f a = .ok b := by
  cases x with
  | ok a => simp [Bind.bind, Except.bind]
  | error e => simp [Bind.bind, Except.bind]

/-- A statement that returns nothing, followed by the rest of its block. -/
lemma seq_eq_ok {x : Except ε Unit} {k : Unit → Except ε β} {b : β} :
    (x >>= k) = .ok b ↔ x = .ok () ∧ k () = .ok b := by
  rw [bind_eq_ok]
  exact ⟨fun ⟨_, hx, hk⟩ => ⟨hx, hk⟩, fun ⟨hx, hk⟩ => ⟨(), hx, hk⟩⟩

@[simp] lemma map_eq_ok {x : Except ε α} {f : α → β} {b : β} :
    (f <$> x) = .ok b ↔ ∃ a, x = .ok a ∧ f a = b := by
  cases x with
  | ok a => simp [Functor.map, Except.map]
  | error e => simp [Functor.map, Except.map]

@[simp] lemma pure_eq_ok {a b : α} : (pure a : Except ε α) = .ok b ↔ a = b := by
  simp [Pure.pure, Except.pure]

@[simp] lemma throw_eq_ok {e : ε} {b : α} : (throw e : Except ε α) = .ok b ↔ False := by
  simp [throw, throwThe, MonadExceptOf.throw]

/-- Raises an exception under a condition. -/
def raiseIf (c : Prop) [Decidable c] (e : ε) : Except ε Unit := if c then throw e else pure ()

@[simp] lemma raiseIf_eq_ok {c : Prop} [Decidable c] {e : ε} {u : Unit} :
    raiseIf c e = .ok u ↔ ¬c := by
  by_cases h : c <;> simp [raiseIf, h]

lemma toBool_eq_true {x : Except ε Unit} : x.toBool = true ↔ x = .ok () := by
  cases x <;> simp [Except.toBool]

lemma exists_ok_of_toBool {x : Except ε α} (h : x.toBool = true) : ∃ a, x = .ok a := by
  cases x with
  | ok a => exact ⟨a, rfl⟩
  | error e => simp [Except.toBool] at h

/-- A test on the result of a run that holds says that the run succeeds. -/
lemma any_toOption {x : Except ε α} {p : α → Bool} : x.toOption.any p = true ↔ ∃ a, x = .ok a ∧ p a = true := by
  cases x <;> simp [Except.toOption]

lemma ok_bind (a : α) (f : α → Except ε β) : (Except.ok a >>= f) = f a := rfl

lemma error_bind (e : ε) (f : α → Except ε β) : ((.error e : Except ε α) >>= f) = .error e := rfl

section Quantifiers

lemma allM_eq_true {p : α → Except ε Bool} {xs : List α} :
    xs.allM p = .ok true ↔ ∀ x ∈ xs, p x = .ok true := by
  induction xs with
  | nil => simp
  | cons x xs ih =>
    rw [List.allM_cons, bind_eq_ok]
    constructor
    · rintro ⟨b, hb, h⟩
      cases b with
      | false => simp at h
      | true =>
        intro y hy
        rcases List.mem_cons.mp hy with rfl | hy
        · exact hb
        · exact ih.mp h y hy
    · intro h
      exact ⟨true, h x (by simp), ih.mpr (fun y hy => h y (by simp [hy]))⟩

/-- An `any` that returns true has stopped at a witness. -/
lemma anyM_eq_true {p : α → Except ε Bool} {xs : List α} (h : xs.anyM p = .ok true) :
    ∃ x ∈ xs, p x = .ok true := by
  induction xs with
  | nil => simp at h
  | cons x xs ih =>
    rw [List.anyM_cons, bind_eq_ok] at h
    obtain ⟨b, hb, h⟩ := h
    cases b with
    | true => exact ⟨x, by simp, hb⟩
    | false =>
      obtain ⟨y, hy, hp⟩ := ih h
      exact ⟨y, by simp [hy], hp⟩

lemma anyM_eq_false {p : α → Except ε Bool} {xs : List α} :
    xs.anyM p = .ok false ↔ ∀ x ∈ xs, p x = .ok false := by
  induction xs with
  | nil => simp
  | cons x xs ih =>
    rw [List.anyM_cons, bind_eq_ok]
    constructor
    · rintro ⟨b, hb, h⟩
      cases b with
      | true => simp at h
      | false =>
        intro y hy
        rcases List.mem_cons.mp hy with rfl | hy
        · exact hb
        · exact ih.mp h y hy
    · intro h
      exact ⟨false, h x (by simp), ih.mpr (fun y hy => h y (by simp [hy]))⟩

lemma andM_eq_true {x y : Except ε Bool} : (x <&&> y) = .ok true ↔ x = .ok true ∧ y = .ok true := by
  rcases x with _ | _ | _ <;> simp [andM, Bind.bind, Except.bind, Pure.pure, Except.pure, toBool]

/-- A disjunction that returns true has stopped at a true side. -/
lemma orM_eq_true {x y : Except ε Bool} :
    (x <||> y) = .ok true ↔ x = .ok true ∨ (x = .ok false ∧ y = .ok true) := by
  rcases x with _ | _ | _ <;> simp [orM, Bind.bind, Except.bind, Pure.pure, Except.pure, toBool]

end Quantifiers

section Loops

lemma forM_eq_ok {f : α → Except ε Unit} {xs : List α} {u : Unit} :
    xs.forM f = .ok u ↔ ∀ x ∈ xs, f x = .ok () := by
  induction xs with
  | nil => simp [List.forM, Pure.pure, Except.pure]
  | cons x xs ih =>
    simp only [List.forM, bind_eq_ok, List.mem_cons, forall_eq_or_imp]
    constructor
    · rintro ⟨u, hu, h⟩
      exact ⟨hu, ih.mp h⟩
    · rintro ⟨hx, h⟩
      exact ⟨(), hx, ih.mpr h⟩

lemma mapM_eq_ok {f : α → Except ε β} {xs : List α} {ys : List β} :
    xs.mapM f = .ok ys ↔ List.Forall₂ (fun x y => f x = .ok y) xs ys := by
  induction xs generalizing ys with
  | nil =>
    constructor
    · intro h
      have hys : [] = ys := pure_eq_ok.mp h
      subst hys
      exact List.Forall₂.nil
    · intro h
      cases h
      simp
  | cons x xs ih =>
    rw [List.mapM_cons, bind_eq_ok]
    constructor
    · rintro ⟨y, hy, h⟩
      obtain ⟨zs, hzs, h⟩ := bind_eq_ok.mp h
      have hcons : y :: zs = ys := pure_eq_ok.mp h
      subst hcons
      exact List.Forall₂.cons hy (ih.mp hzs)
    · intro h
      cases h with
      | cons hy hrest => exact ⟨_, hy, bind_eq_ok.mpr ⟨_, ih.mpr hrest, rfl⟩⟩

/-- A loop whose steps keep a feature of their item keeps the list of the features. -/
lemma map_of_mapM {γ : Type} {f : α → Except ε β} {g : α → γ} {k : β → γ}
    (hf : ∀ a b, f a = .ok b → k b = g a) {xs : List α} {ys : List β} (h : xs.mapM f = .ok ys) :
    ys.map k = xs.map g := by
  have hall := mapM_eq_ok.mp h
  clear h
  induction hall with
  | nil => rfl
  | cons hab _ ih => rw [List.map_cons, List.map_cons, hf _ _ hab, ih]

lemma option_mapM_eq_ok {f : α → Except ε β} {o : Option α} {p : Option β} :
    o.mapM f = .ok p ↔ Option.Rel (fun a b => f a = .ok b) o p := by
  cases o with
  | none =>
    rw [Option.mapM_none, pure_eq_ok]
    constructor
    · rintro rfl
      exact .none
    · intro h
      cases h
      rfl
  | some a =>
    rw [Option.mapM_some, map_eq_ok]
    constructor
    · rintro ⟨b, hb, rfl⟩
      exact .some hb
    · intro h
      cases h with
      | some hab => exact ⟨_, hab, rfl⟩

/-- A comprehension whose every element returns returns. -/
lemma exists_mapM {f : α → Except ε β} {P : β → Prop} {xs : List α}
    (h : ∀ x ∈ xs, ∃ y, f x = .ok y ∧ P y) :
    ∃ ys, xs.mapM f = .ok ys ∧ (∀ y ∈ ys, P y) ∧ ys.length = xs.length := by
  induction xs with
  | nil => exact ⟨[], rfl, by simp, rfl⟩
  | cons x xs ih =>
    obtain ⟨y, hy, hP⟩ := h x (by simp)
    obtain ⟨ys, hys, hall, hlength⟩ := ih fun z hz => h z (by simp [hz])
    refine ⟨y :: ys, ?_, List.forall_mem_cons.mpr ⟨hP, hall⟩, by simp [hlength]⟩
    rw [List.mapM_cons, hy, hys]
    rfl

/-- A comprehension returns exactly when each of its elements does. -/
lemma exists_mapM_iff {f : α → Except ε β} {xs : List α} :
    (∃ ys, xs.mapM f = .ok ys) ↔ ∀ x ∈ xs, ∃ y, f x = .ok y := by
  constructor
  · rintro ⟨ys, h⟩
    have hall := mapM_eq_ok.mp h
    clear h
    induction hall with
    | nil => simp
    | cons hab _ ih => exact List.forall_mem_cons.mpr ⟨⟨_, hab⟩, ih⟩
  · intro h
    obtain ⟨ys, hys, -⟩ := exists_mapM (P := fun _ => True) fun x hx =>
      (h x hx).imp fun _ hy => ⟨hy, trivial⟩
    exact ⟨ys, hys⟩

/-- The outcome of a test that may raise. -/
def passes (p : α → Except ε Bool) (x : α) : Bool :=
  match p x with
  | .ok keep => keep
  | .error _ => false

/-- A filter that succeeds keeps what passes, and no test of it raises. -/
lemma filterM_eq_ok {p : α → Except ε Bool} {xs ys : List α} : xs.filterM p = .ok ys ↔
    (∀ x ∈ xs, p x = .ok (passes p x)) ∧ ys = xs.filter (passes p) := by
  have haux : ∀ acc found : List α, xs.filterAuxM p acc = .ok found ↔
      (∀ x ∈ xs, p x = .ok (passes p x)) ∧ found = (xs.filter (passes p)).reverse ++ acc := by
    induction xs with
    | nil =>
      intro acc found
      simp only [List.filterAuxM, pure_eq_ok, List.not_mem_nil, false_imp_iff, implies_true, true_and,
        List.filter_nil, List.reverse_nil, List.nil_append]
      exact eq_comm
    | cons x xs ih =>
      intro acc found
      rw [List.filterAuxM, bind_eq_ok, List.forall_mem_cons]
      cases hx : p x with
      | error e => simp
      | ok keep =>
        have hpasses : passes p x = keep := by simp [passes, hx]
        simp only [Except.ok.injEq, exists_eq_left', ih, hpasses, true_and, List.filter_cons]
        cases keep <;> simp
  unfold List.filterM
  rw [bind_eq_ok]
  simp only [haux, List.append_nil, pure_eq_ok]
  constructor
  · rintro ⟨found, ⟨hall, rfl⟩, rfl⟩
    exact ⟨hall, List.reverse_reverse _⟩
  · rintro ⟨hall, rfl⟩
    exact ⟨_, ⟨hall, rfl⟩, List.reverse_reverse _⟩

/-- A filter keeps members only. -/
lemma filterM_subset {p : α → Except ε Bool} {xs ys : List α} (h : xs.filterM p = .ok ys) :
    ∀ y ∈ ys, y ∈ xs := by
  obtain ⟨-, rfl⟩ := filterM_eq_ok.mp h
  exact fun y hy => List.mem_of_mem_filter hy

/-- A filter keeps nothing exactly when every test fails. -/
lemma filterM_eq_nil {p : α → Except ε Bool} {xs : List α} :
    xs.filterM p = .ok [] ↔ ∀ x ∈ xs, p x = .ok false := by
  rw [filterM_eq_ok, eq_comm, List.filter_eq_nil_iff]
  constructor
  · rintro ⟨hall, hfails⟩ x hx
    rw [hall x hx, Bool.eq_false_iff.mpr (hfails x hx)]
  · intro h
    have hfails : ∀ x ∈ xs, passes p x = false := fun x hx => by simp [passes, h x hx]
    exact ⟨fun x hx => by rw [h x hx, hfails x hx], fun x hx => by simp [hfails x hx]⟩

/-- A property kept by every step of a loop holds after a run of the loop. -/
lemma foldlM_invariant {f : σ → α → Except ε σ} (P : σ → Prop)
    {xs : List α} (hstep : ∀ s s' x, x ∈ xs → P s → f s x = .ok s' → P s')
    {s s' : σ} (hs : P s) (h : xs.foldlM f s = .ok s') : P s' := by
  induction xs generalizing s with
  | nil =>
    have heq : s = s' := by simpa using h
    exact heq ▸ hs
  | cons x xs ih =>
    rw [List.foldlM_cons, bind_eq_ok] at h
    obtain ⟨t, ht, h⟩ := h
    exact ih (fun s s' y hy => hstep s s' y (by simp [hy])) (hstep s t x (by simp) hs ht) h

/-- A relation between the elements a loop has seen and its state, kept by every step. -/
lemma foldlM_relation {f : σ → α → Except ε σ} (P : List α → σ → Prop)
    (hstep : ∀ seen s s' x, P seen s → f s x = .ok s' → P (seen ++ [x]) s')
    (seen : List α) {xs : List α} {s s' : σ} (hs : P seen s) (h : xs.foldlM f s = .ok s') :
    P (seen ++ xs) s' := by
  induction xs generalizing seen s with
  | nil =>
    have heq : s = s' := by simpa using h
    simpa [heq] using hs
  | cons x xs ih =>
    rw [List.foldlM_cons, bind_eq_ok] at h
    obtain ⟨t, ht, h⟩ := h
    have hrest := ih (seen ++ [x]) (hstep seen s t x hs ht) h
    rwa [List.append_assoc] at hrest

/-- A loop that computes one value of a function at each of its items. -/
lemma foldlM_update [DecidableEq α] {f : α → Except ε β} {start final : α → β} {xs : List α} (hxs : xs.Nodup) :
    xs.foldlM (fun done x => do
      let y ← f x
      pure (Function.update done x y)) start = .ok final ↔
      ∀ x, if x ∈ xs then f x = .ok (final x) else final x = start x := by
  induction xs generalizing start with
  | nil =>
    rw [List.foldlM_nil, pure_eq_ok, eq_comm]
    simp [funext_iff]
  | cons x xs ih =>
    obtain ⟨hx, hnodup⟩ := List.nodup_cons.mp hxs
    rw [List.foldlM_cons, bind_eq_ok]
    simp only [bind_eq_ok, pure_eq_ok]
    constructor
    · rintro ⟨next, ⟨y, hy, rfl⟩, h⟩ z
      have hz := (ih hnodup).mp h z
      by_cases hzx : z = x
      · subst hzx
        rw [if_neg hx, Function.update_self] at hz
        rw [if_pos List.mem_cons_self, hz]
        exact hy
      · rw [Function.update_of_ne hzx] at hz
        simpa [hzx] using hz
    · intro h
      have hhead := h x
      rw [if_pos List.mem_cons_self] at hhead
      refine ⟨_, ⟨final x, hhead, rfl⟩, (ih hnodup).mpr fun z => ?_⟩
      have hz := h z
      by_cases hzx : z = x
      · subst hzx
        rw [if_neg hx, Function.update_self]
      · rw [Function.update_of_ne hzx]
        simpa [hzx] using hz

end Loops

section Settles

/-- The run raises exactly where it is said to, and what it returns has a property. -/
def Settles (raises : Bool) (P : α → Prop) : Except ε α → Prop
  | .error _ => raises = true
  | .ok a => raises = false ∧ P a

variable {raises : Bool} {P : α → Prop}

lemma settles_pure {a : α} : Settles raises P (pure a : Except ε α) ↔ raises = false ∧ P a := Iff.rfl

lemma Settles.bind {rest : Bool} {Q : β → Prop} {x : Except ε α} {f : α → Except ε β}
    (hx : Settles raises P x) (hf : ∀ a, P a → Settles rest Q (f a)) : Settles (raises || rest) Q (x >>= f) := by
  cases x with
  | error e =>
    rw [show raises = true from hx]
    rfl
  | ok a =>
    rw [hx.1]
    exact hf a hx.2

lemma Settles.exists_ok {x : Except ε α} (hx : Settles raises P x) (h : raises = false) :
    ∃ a, x = .ok a ∧ P a := by
  cases x with
  | error e => exact absurd ((show raises = true from hx).symm.trans h) (by simp)
  | ok a => exact ⟨a, rfl, hx.2⟩

lemma Settles.not_raises {x : Except ε α} {a : α} (hx : Settles raises P x) (h : x = .ok a) : raises = false := by
  subst h
  exact hx.1

/-- A comprehension raises exactly where one of its elements does. -/
lemma settles_mapM {f : α → Except ε β} {raises : α → Bool} {P : α → β → Prop} {xs : List α}
    (h : ∀ x ∈ xs, Settles (raises x) (P x) (f x)) :
    Settles (xs.any raises) (List.Forall₂ P xs) (xs.mapM f) := by
  induction xs with
  | nil => exact ⟨rfl, .nil⟩
  | cons x xs ih =>
    rw [List.mapM_cons, List.any_cons]
    refine (h x (by simp)).bind fun y hy => ?_
    rw [← Bool.or_false (xs.any raises)]
    exact (ih fun z hz => h z (by simp [hz])).bind fun ys hys => settles_pure.mpr ⟨rfl, .cons hy hys⟩

end Settles

section Failures

variable {x : Except ε Bool} {y : Except ε Bool} {f : α → Except ε Bool} {xs : List α}

/-- The computation ends with an exception. -/
def Raises (x : Except ε α) : Prop := ∃ e, x = .error e

/-- The loop comes to this element: every element before it gave the answer `b`. -/
def ComesTo (f : α → Except ε Bool) (b : Bool) (xs : List α) (x : α) : Prop :=
  ∃ before after, xs = before ++ x :: after ∧ ∀ y ∈ before, f y = .ok b

lemma ComesTo.mem {b : Bool} {a : α} (h : ComesTo f b xs a) : a ∈ xs := by
  obtain ⟨before, after, rfl, -⟩ := h
  simp

lemma raises_throw (e : ε) : Raises (throw e : Except ε α) := ⟨e, rfl⟩

@[simp] lemma not_raises_pure (a : α) : ¬Raises (pure a : Except ε α) := by
  rintro ⟨e, h⟩
  cases h

@[simp] lemma not_raises_ok (a : α) : ¬Raises (.ok a : Except ε α) := not_raises_pure a

lemma not_raises_iff {x : Except ε α} : ¬Raises x ↔ ∃ a, x = .ok a := by
  cases x with
  | ok a => simp [Raises]
  | error e => simp [Raises]

lemma raises_bind {x : Except ε α} {f : α → Except ε β} :
    Raises (x >>= f) ↔ Raises x ∨ ∃ a, x = .ok a ∧ Raises (f a) := by
  cases x with
  | ok a => simp [ok_bind, Raises]
  | error e => simp [error_bind, Raises]

lemma raises_andM : Raises (x <&&> y) ↔ Raises x ∨ x = .ok true ∧ Raises y := by
  rcases x with _ | _ | _ <;>
    simp [andM, Bind.bind, Except.bind, Pure.pure, Except.pure, toBool, Raises]

lemma raises_orM : Raises (x <||> y) ↔ Raises x ∨ x = .ok false ∧ Raises y := by
  rcases x with _ | _ | _ <;>
    simp [orM, Bind.bind, Except.bind, Pure.pure, Except.pure, toBool, Raises]

lemma comesTo_cons {b : Bool} {a c : α} :
    ComesTo f b (a :: xs) c ↔ c = a ∨ f a = .ok b ∧ ComesTo f b xs c := by
  constructor
  · rintro ⟨before, after, heq, hbefore⟩
    cases before with
    | nil => exact Or.inl (List.cons.inj heq).1.symm
    | cons first before =>
      obtain ⟨rfl, rfl⟩ := List.cons.inj heq
      exact Or.inr ⟨hbefore _ (by simp), before, after, rfl, fun y hy => hbefore y (by simp [hy])⟩
  · rintro (rfl | ⟨ha, before, after, rfl, hbefore⟩)
    · exact ⟨[], xs, rfl, by simp⟩
    · exact ⟨a :: before, after, rfl, List.forall_mem_cons.mpr ⟨ha, hbefore⟩⟩

/-- A conjunction raises where it comes to an element that raises. -/
lemma raises_allM : Raises (xs.allM f) ↔ ∃ a, ComesTo f true xs a ∧ Raises (f a) := by
  induction xs with
  | nil => simp [ComesTo]
  | cons a xs ih =>
    simp only [List.allM_cons, raises_bind, comesTo_cons, or_and_right, exists_or, exists_eq_left,
      and_assoc, exists_and_left]
    refine or_congr_right ⟨?_, ?_⟩
    · rintro ⟨b, hb, hraises⟩
      cases b with
      | false => simp at hraises
      | true => exact ⟨hb, ih.mp hraises⟩
    · rintro ⟨ha, hrest⟩
      exact ⟨true, ha, ih.mpr hrest⟩

/-- A disjunction raises where it comes to an element that raises. -/
lemma raises_anyM : Raises (xs.anyM f) ↔ ∃ a, ComesTo f false xs a ∧ Raises (f a) := by
  induction xs with
  | nil => simp [ComesTo]
  | cons a xs ih =>
    simp only [List.anyM_cons, raises_bind, comesTo_cons, or_and_right, exists_or, exists_eq_left,
      and_assoc, exists_and_left]
    refine or_congr_right ⟨?_, ?_⟩
    · rintro ⟨b, hb, hraises⟩
      cases b with
      | true => simp at hraises
      | false => exact ⟨hb, ih.mp hraises⟩
    · rintro ⟨ha, hrest⟩
      exact ⟨false, ha, ih.mpr hrest⟩

lemma anyM_map {γ : Type} (g : γ → α) (f : α → Except ε Bool) (zs : List γ) :
    (zs.map g).anyM f = zs.anyM fun z => f (g z) := by
  induction zs with
  | nil => rfl
  | cons z zs ih => rw [List.map_cons, List.anyM_cons, List.anyM_cons, ih]

lemma allM_map {γ : Type} (g : γ → α) (f : α → Except ε Bool) (zs : List γ) :
    (zs.map g).allM f = zs.allM fun z => f (g z) := by
  induction zs with
  | nil => rfl
  | cons z zs ih => rw [List.map_cons, List.allM_cons, List.allM_cons, ih]

lemma anyM_attach (f : α → Except ε Bool) (xs : List α) :
    (xs.attach.anyM fun a => f a.1) = xs.anyM f := by
  rw [← anyM_map, List.attach_map_subtype_val]

lemma allM_attach (f : α → Except ε Bool) (xs : List α) :
    (xs.attach.allM fun a => f a.1) = xs.allM f := by
  rw [← allM_map, List.attach_map_subtype_val]

end Failures

section Avoids

variable {e e' : ε}

/-- The computation does not raise this exception. -/
def Avoids (e : ε) (x : Except ε α) : Prop := x ≠ .error e

lemma avoids_ok (a : α) : Avoids e (.ok a) := by
  intro h
  cases h

lemma avoids_pure (a : α) : Avoids e (pure a) := avoids_ok a

lemma avoids_throw (h : e' ≠ e) : Avoids e (throw e' : Except ε α) := by
  intro heq
  exact h (Except.error.inj heq)

lemma Avoids.bind {x : Except ε α} {f : α → Except ε β} (hx : Avoids e x)
    (hf : ∀ a, x = .ok a → Avoids e (f a)) : Avoids e (x >>= f) := by
  cases x with
  | ok a => exact hf a rfl
  | error e' => exact fun heq => hx (congrArg Except.error (Except.error.inj heq))

lemma avoids_raiseIf {c : Prop} [Decidable c] (h : c → e' ≠ e) : Avoids e (raiseIf c e') := by
  unfold raiseIf
  split_ifs with hc
  · exact avoids_throw (h hc)
  · exact avoids_pure ()

/-- A loop avoids what each of its steps avoids, in the states it reaches. -/
lemma avoids_foldlM {f : σ → α → Except ε σ} (P : List α → σ → Prop)
    (seen : List α) {xs : List α} {s : σ} (hs : P seen s)
    (hstep : ∀ seen s s' x, x ∈ xs → P seen s → f s x = .ok s' → P (seen ++ [x]) s')
    (havoid : ∀ seen s x, x ∈ xs → P seen s → Avoids e (f s x)) : Avoids e (xs.foldlM f s) := by
  induction xs generalizing seen s with
  | nil => exact avoids_pure s
  | cons x xs ih =>
    rw [List.foldlM_cons]
    refine (havoid seen s x (by simp) hs).bind fun t ht => ?_
    refine ih (seen ++ [x]) (hstep seen s t x (by simp) hs ht) ?_ ?_
    · exact fun seen s s' y hy => hstep seen s s' y (by simp [hy])
    · exact fun seen s y hy => havoid seen s y (by simp [hy])

end Avoids

section Reports

variable {φ : Type} {raise : φ → ε}

/-- Raises the failure that a check has found. -/
def report (raise : φ → ε) : Option φ → Except ε Unit
  | some failure => throw (raise failure)
  | none => pure ()

lemma report_eq_ok {found : Option φ} {u : Unit} : report raise found = .ok u ↔ found = none := by
  cases found <;> simp [report]

/-- Whether a loop meets an element of a kind before it ends at the first element that does not pass. -/
def meets (passes kind : α → Bool) : List α → Bool
  | [] => false
  | x :: xs => kind x || (passes x && meets passes kind xs)

/-- The value of a run that fails where a check finds a failure. -/
def settle (a : α) : Option φ → Except φ α
  | some failure => .error failure
  | none => .ok a

end Reports

end Raising
