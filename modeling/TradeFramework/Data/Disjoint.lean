import TradeFramework.Data.SchemaContext
import Mathlib.Data.Finset.Prod

/-!
# Disjoint schemas

`normalized_schemas_disjoint` proves that two schemas share no value. The exclusions of a
`oneOf` target and the emptiness of a source context rest on it.
-/

namespace TradeFramework

def Schema.isNever : Schema → Bool
  | .never => true
  | .object _ => false

/-- `left.get("anyOf", left.get("oneOf"))`. -/
def Keywords.firstUnion {σ : Type} (kw : Keywords σ) : Option (List σ) :=
  match kw.anyOf with
  | some bs => some bs
  | none => kw.oneOf

/-- The pairs of declared runtime types that share a value. -/
def overlappingTypePairs (left right : Finset JsonType) : Finset (JsonType × JsonType) :=
  (left ×ˢ right).filter fun p =>
    p.1 = p.2 ∨ p = (.integer, .number) ∨ p = (.number, .integer)

/-- `normalized_schemas_disjoint`. -/
def normalizedSchemasDisjoint (left right : Schema) : Bool :=
  match left, right with
  | .never, _ => true
  | _, .never => true
  | .object l, .object r =>
    if l.isEmpty || r.isEmpty then false
    else if let some c := l.const then !schemaAcceptsNormalizedValue (.object r) c
    else if let some c := r.const then !schemaAcceptsNormalizedValue (.object l) c
    else if let some cs := l.enum then cs.all fun c => !schemaAcceptsNormalizedValue (.object r) c
    else if let some cs := r.enum then cs.all fun c => !schemaAcceptsNormalizedValue (.object l) c
    else if let some bs := l.attach.firstUnion then
      bs.all fun b => normalizedSchemasDisjoint b.1 (.object r)
    else if let some bs := r.attach.firstUnion then
      bs.all fun b => normalizedSchemasDisjoint (.object l) b.1
    else
      (l.attach.allOf.getD []).any (fun b => normalizedSchemasDisjoint b.1 (.object r)) ||
      (r.attach.allOf.getD []).any (fun b => normalizedSchemasDisjoint (.object l) b.1) ||
      let pairs := overlappingTypePairs l.schemaTypes r.schemaTypes
      decide (pairs = ∅) || (decide (pairs ⊆ {(.object, .object)}) &&
        ((l.requiredNames.filter (· ∈ r.requiredNames)).any (fun name =>
            match l.attach.child name, r.attach.child name with
            | some a, some b =>
              a.1.isNever || b.1.isNever || normalizedSchemasDisjoint a.1 b.1
            | some a, none => a.1.isNever
            | none, some b => b.1.isNever
            | none, none => false) ||
          l.requiredNames.any (fun name =>
            !Dict.has r.propertyMap name && r.extra.any Schema.isNever) ||
          r.requiredNames.any (fun name =>
            !Dict.has l.propertyMap name && l.extra.any Schema.isNever)))
termination_by sizeOf left + sizeOf right
decreasing_by
  · have hlt := Schema.sizeOf_lt_object b.2
    omega
  · have hlt := Schema.sizeOf_lt_object b.2
    omega
  · have hlt := Schema.sizeOf_lt_object b.2
    omega
  · have hlt := Schema.sizeOf_lt_object b.2
    omega
  · have hlt := Schema.sizeOf_lt_object a.2
    have hlt' := Schema.sizeOf_lt_object b.2
    omega

section Soundness

variable {l r : Keywords Schema} {v : Json}

/-- Overlapping type pairs miss no common runtime type. -/
lemma exists_overlappingTypePair {left right : Finset JsonType} {actual : JsonType}
    (hl : TypeAllowed left actual) (hr : TypeAllowed right actual) :
    ∃ p ∈ overlappingTypePairs left right, p = (.object, .object) → actual = .object := by
  simp only [overlappingTypePairs, Finset.mem_filter, Finset.mem_product]
  rcases hl with hl | ⟨rfl, hl⟩ <;> rcases hr with hr | ⟨heq, hr⟩
  · exact ⟨(actual, actual), by simp [hl, hr]⟩
  · subst heq
    exact ⟨(.integer, .number), by simp [hl, hr]⟩
  · exact ⟨(.number, .integer), by simp [hl, hr]⟩
  · exact ⟨(.number, .number), by simp [hl, hr]⟩

lemma Schema.not_accepts_of_isNever {s : Schema} (h : s.isNever = true) (v : Json) :
    ¬s.Accepts v := by
  cases s with
  | never => exact Schema.accepts_never v
  | object kw => simp [isNever] at h

/-- Every value of a schema object matches a branch of its first union. -/
lemma exists_mem_firstUnion {sem : α → Json → Prop} {kw : Keywords α} (h : kw.Admits sem v)
    {bs : List α} (hbs : kw.firstUnion = some bs) : ∃ b ∈ bs, sem b v := by
  unfold Keywords.firstUnion at hbs
  cases hany : kw.anyOf with
  | some cs =>
    rw [hany] at hbs
    cases hbs
    exact (h.union .anyOf bs hany).exists_mem
  | none =>
    rw [hany] at hbs
    exact (h.union .oneOf bs hbs).exists_mem

/-- A required name that the other side closes off. -/
lemma not_admits_of_closed {required closed : Keywords Schema} {d : List (String × Json)}
    (h : required.requiredNames.any (fun name =>
      !Dict.has closed.propertyMap name && closed.extra.any Schema.isNever) = true)
    (hr : required.Admits Schema.Accepts (.obj d)) (hc : closed.Admits Schema.Accepts (.obj d)) :
    False := by
  obtain ⟨name, hname, hclosed⟩ := List.any_eq_true.mp h
  rw [Bool.and_eq_true, Bool.not_eq_true', Dict.has_eq_false_iff, Option.any_eq_true] at hclosed
  obtain ⟨hnone, s, hs, hnever⟩ := hclosed
  obtain ⟨x, hx⟩ := Dict.has_eq_true_iff.mp (hr.required d rfl name hname)
  have hchild : closed.child name = some s := by
    simp [Keywords.child, hnone, hs]
  exact Schema.not_accepts_of_isNever hnever x (hc.member d rfl name x hx s hchild)

/-- Schemas proved disjoint share no value. -/
theorem normalizedSchemasDisjoint_sound {left right : Schema}
    (h : normalizedSchemasDisjoint left right = true) {v : Json} (hl : left.Accepts v)
    (hr : right.Accepts v) : False := by
  induction hn : sizeOf left + sizeOf right using Nat.strong_induction_on
    generalizing left right v with
  | _ n ih =>
    subst hn
    cases left with
    | never => exact Schema.accepts_never v hl
    | object l =>
      cases right with
      | never => exact Schema.accepts_never v hr
      | object r =>
        have hla := Schema.accepts_attach.mp hl
        have hra := Schema.accepts_attach.mp hr
        have hlk := Schema.accepts_object.mp hl
        have hrk := Schema.accepts_object.mp hr
        have ihleft : ∀ b : {s // s ∈ l.children}, normalizedSchemasDisjoint b.1 (.object r) = true →
            ¬b.1.Accepts v := by
          intro b hb hacc
          have hlt := Schema.sizeOf_lt_object b.2
          exact ih _ (by omega) hb hacc hr rfl
        have ihright : ∀ b : {s // s ∈ r.children}, normalizedSchemasDisjoint (.object l) b.1 = true →
            ¬b.1.Accepts v := by
          intro b hb hacc
          have hlt := Schema.sizeOf_lt_object b.2
          exact ih _ (by omega) hb hl hacc rfl
        rw [normalizedSchemasDisjoint.eq_def] at h
        dsimp only at h
        split at h
        · exact Bool.false_ne_true h
        split at h
        case h_1 c hc =>
          rw [Bool.not_eq_true', schemaAcceptsNormalizedValue_eq_false] at h
          exact h (Schema.accepts_of_equal (hlk.const c hc) hr)
        split at h
        case h_1 c hc =>
          rw [Bool.not_eq_true', schemaAcceptsNormalizedValue_eq_false] at h
          exact h (Schema.accepts_of_equal (hrk.const c hc) hl)
        split at h
        case h_1 cs hcs =>
          obtain ⟨c, hc, hvc⟩ := jsonValueIn_iff.mp (hlk.enum cs hcs)
          have hnot := List.all_eq_true.mp h c hc
          rw [Bool.not_eq_true', schemaAcceptsNormalizedValue_eq_false] at hnot
          exact hnot (Schema.accepts_of_equal hvc hr)
        split at h
        case h_1 cs hcs =>
          obtain ⟨c, hc, hvc⟩ := jsonValueIn_iff.mp (hrk.enum cs hcs)
          have hnot := List.all_eq_true.mp h c hc
          rw [Bool.not_eq_true', schemaAcceptsNormalizedValue_eq_false] at hnot
          exact hnot (Schema.accepts_of_equal hvc hl)
        split at h
        case h_1 bs hbs =>
          obtain ⟨b, hb, hacc⟩ := exists_mem_firstUnion hla hbs
          exact ihleft b (List.all_eq_true.mp h b hb) hacc
        split at h
        case h_1 bs hbs =>
          obtain ⟨b, hb, hacc⟩ := exists_mem_firstUnion hra hbs
          exact ihright b (List.all_eq_true.mp h b hb) hacc
        rw [Bool.or_eq_true, Bool.or_eq_true, Bool.or_eq_true, Bool.and_eq_true, Bool.or_eq_true,
          Bool.or_eq_true] at h
        obtain ⟨p, hp, hobject⟩ := exists_overlappingTypePair hlk.type hrk.type
        rcases h with (h | h) | h | ⟨honly, hmembers⟩
        · obtain ⟨b, hb, hdisjoint⟩ := List.any_eq_true.mp h
          exact ihleft b hdisjoint (hla.allOf b hb)
        · obtain ⟨b, hb, hdisjoint⟩ := List.any_eq_true.mp h
          exact ihright b hdisjoint (hra.allOf b hb)
        · rw [decide_eq_true_eq] at h
          simp [h] at hp
        · have hp' := Finset.mem_singleton.mp (of_decide_eq_true honly hp)
          obtain ⟨d, rfl⟩ : ∃ d, v = .obj d := by
            have hv := hobject hp'
            cases v <;> simp_all [jsonType]
          rcases hmembers with (hcommon | hclosed) | hclosed
          · obtain ⟨name, hname, hdisjoint⟩ := List.any_eq_true.mp hcommon
            rw [List.mem_filter, decide_eq_true_eq] at hname
            obtain ⟨x, hx⟩ := Dict.has_eq_true_iff.mp (hlk.required d rfl name hname.1)
            have hlx := hla.member d rfl name x hx
            have hrx := hra.member d rfl name x hx
            split at hdisjoint
            case h_1 a b ha hb =>
              have hax := hlx a ha
              have hbx := hrx b hb
              rw [Bool.or_eq_true, Bool.or_eq_true] at hdisjoint
              rcases hdisjoint with (hnever | hnever) | hdisjoint
              · exact Schema.not_accepts_of_isNever hnever x hax
              · exact Schema.not_accepts_of_isNever hnever x hbx
              · have hlt := Schema.sizeOf_lt_object a.2
                have hlt' := Schema.sizeOf_lt_object b.2
                exact ih _ (by omega) hdisjoint hax hbx rfl
            case h_2 a ha _ => exact Schema.not_accepts_of_isNever hdisjoint x (hlx a ha)
            case h_3 b _ hb => exact Schema.not_accepts_of_isNever hdisjoint x (hrx b hb)
            case h_4 => exact Bool.false_ne_true hdisjoint
          · exact not_admits_of_closed hclosed hlk hrk
          · exact not_admits_of_closed hclosed hrk hlk

end Soundness

end TradeFramework
