import FeatureTree.Encoding
import Mathlib.Data.List.Forall2

/-!
# Values that are the same

Fields of an object are written in some order, but no reader of plain data may rely on it: two
objects are the same if they have the same under every name. **An encoding is faithful if it never
writes two things the same.** Whether it is can be seen type by type, from the fields up.
-/

set_option autoImplicit false

namespace FeatureTree

namespace Value

/-- The values are the same, whatever the order of fields. -/
inductive Same : Value → Value → Prop
  | null : Same .null .null
  | number (n : Nat) : Same (.number n) (.number n)
  | text (s : String) : Same (.text s) (.text s)
  | list {items others : List Value} (each : List.Forall₂ Same items others) :
      Same (.list items) (.list others)
  | object {fields others : List (String × Value)}
      (each : ∀ key, Option.Rel Same (fields.lookup key) (others.lookup key)) :
      Same (.object fields) (.object others)

theorem mem_of_lookup {fields : List (String × Value)} {key : String} {value : Value}
    (h : fields.lookup key = some value) : (key, value) ∈ fields := by
  obtain ⟨front, back, rfl, -⟩ := List.lookup_eq_some_iff.mp h
  exact List.mem_append_right _ List.mem_cons_self

theorem Same.refl : ∀ value : Value, value.Same value
  | .null => .null
  | .number n => .number n
  | .text s => .text s
  | .list items => .list (List.forall₂_same.mpr fun item _ => Same.refl item)
  | .object fields => .object fun key => by
      cases h : fields.lookup key with
      | none => exact .none
      | some value =>
        -- A value is smaller than the object that has it as a field; the lookup hides that from the
        -- recursion.
        have hsize := List.sizeOf_lt_of_mem (mem_of_lookup h)
        simp only [Prod.mk.sizeOf_spec] at hsize
        have hvalue : sizeOf value < 1 + sizeOf fields := by omega
        exact .some (Same.refl value)

/-! ## Parts of values that are the same -/

/-- Objects that are the same are so under each name that both have. Proofs about encodings read
records field by field with this. -/
theorem Same.field {fields others : List (String × Value)}
    (h : (Value.object fields).Same (.object others)) (key : String) {value other : Value}
    (hvalue : fields.lookup key = some value) (hother : others.lookup key = some other) :
    value.Same other := by
  cases h with
  | object each =>
    have hrel := each key
    rw [hvalue, hother] at hrel
    cases hrel with
    | some same => exact same

theorem Same.null_iff {value : Value} : Same .null value ↔ value = .null := by
  constructor
  · rintro ⟨⟩
    rfl
  · rintro rfl
    exact .null

theorem Same.iff_null {value : Value} : value.Same .null ↔ value = .null := by
  constructor
  · rintro ⟨⟩
    rfl
  · rintro rfl
    exact .null

/-- Of a choice between kinds, both the kind and what is of that kind are the same. -/
theorem Same.tagged {kind other : String} {value value' : Value}
    (h : (Value.tagged kind value).Same (.tagged other value')) :
    kind = other ∧ value.Same value' := by
  have hkind : kind = other := by
    cases h with
    | object each =>
      by_contra hne
      -- With different kinds one object has a name that the other has not.
      have hmissing : [(other, value')].lookup kind = none := by simp [hne]
      have hrel := each kind
      rw [List.lookup_cons_self, hmissing] at hrel
      cases hrel
  subst hkind
  exact ⟨rfl, h.field kind List.lookup_cons_self List.lookup_cons_self⟩

/-- Arrays are the same only if they are equal, where that is known of their items. -/
theorem Same.array_eq {α : Type} {encode : α → Value} {items others : List α}
    (h : (Value.array encode items).Same (.array encode others))
    (hitem : ∀ a ∈ items, ∀ b ∈ others, (encode a).Same (encode b) → a = b) : items = others := by
  cases h with
  | list each =>
    rw [List.forall₂_map_left_iff, List.forall₂_map_right_iff] at each
    induction each with
    | nil => rfl
    | cons hfirst _ ih =>
      have heq := hitem _ List.mem_cons_self _ List.mem_cons_self hfirst
      have hrest := ih fun a ha b hb =>
        hitem a (List.mem_cons_of_mem _ ha) b (List.mem_cons_of_mem _ hb)
      rw [heq, hrest]

end Value

/-! ## Faithful encodings -/

/-- What is written the same is the same. -/
def Value.Faithful {α : Type} (encode : α → Value) : Prop :=
  ∀ ⦃a b : α⦄, (encode a).Same (encode b) → a = b

namespace Value.Faithful

theorem text : Faithful Value.text := by
  rintro a b ⟨⟩
  rfl

theorem number : Faithful Value.number := by
  rintro a b ⟨⟩
  rfl

variable {α : Type} {encode : α → Value}

/-- Lists of what is written faithfully are written faithfully, item by item. -/
theorem array (h : Faithful encode) : Faithful (Value.array encode) :=
  fun _ _ hsame => hsame.array_eq fun _ _ _ _ hitem => h hitem

/-- What is absent is told from what is there if nothing that is there is written as `null`. -/
theorem option (h : Faithful encode) (hnull : ∀ a, encode a ≠ .null) :
    Faithful (Value.option encode) := by
  intro a b hsame
  cases a with
  | none =>
    cases b with
    | none => rfl
    | some b => exact absurd (Same.null_iff.mp hsame) (hnull b)
  | some a =>
    cases b with
    | none => exact absurd (Same.iff_null.mp hsame) (hnull a)
    | some b => exact congrArg some (h hsame)

end Value.Faithful
end FeatureTree
