import TowerLisp.Proofs.Outcomes

/-!
Lists among the values. A value is a proper list of certain elements exactly if it is the chain of
pairs with those elements that ends in the empty list. Only proper lists and strings have a length.
-/

namespace TowerLisp.Value

theorem spineLoop_eq (v : Value) (reversed : List Value) :
    spineLoop reversed v = (reversed.reverse ++ v.spine.1, v.spine.2) := by
  induction v generalizing reversed with
  | pair head tail _ ih =>
    rw [spine, spineLoop, spineLoop, ih, ih [head]]
    simp
  | _ => simp [spine, spineLoop]

theorem spine_pair (head tail : Value) :
    (pair head tail).spine = (head :: tail.spine.1, tail.spine.2) :=
  spineLoop_eq tail [head]

@[simp] theorem list?_nil : nil.list? = some [] := rfl

@[simp] theorem list?_pair (head tail : Value) :
    (pair head tail).list? = tail.list?.map (head :: ·) := by
  rw [list?, list?, spine_pair]
  obtain ⟨items, last⟩ := tail.spine
  cases last <;> rfl

@[simp] theorem list?_list (items : List Value) : (list items).list? = some items := by
  induction items with
  | nil => rfl
  | cons head items ih =>
    change (pair head (list items)).list? = _
    rw [list?_pair, ih, Option.map_some]

theorem list?_eq_some_iff {v : Value} {items : List Value} :
    v.list? = some items ↔ v = list items := by
  constructor
  · intro h
    induction v generalizing items with
    | nil =>
      cases h
      rfl
    | pair head tail _ ih =>
      rw [list?_pair, Option.map_eq_some_iff] at h
      obtain ⟨others, hothers, rfl⟩ := h
      rw [ih hothers]
      rfl
    | _ => cases h
  · rintro rfl
    exact list?_list items

/-- A list in the place of a tail is never taken for a string. -/
theorem cons_list (v : Value) (items : List Value) : cons v (list items) = list (v :: items) := by
  cases items <;> cases v <;> rfl

theorem isSome_list? (v : Value) : v.list?.isSome = v.isList := by
  induction v with
  | pair head tail _ ih =>
    rw [list?_pair, Option.isSome_map, ih]
    rfl
  | _ => rfl

/-- Lengths are those of strings and of proper lists. -/
theorem length_eq_ok_iff {store : Store} {v : Value} {n : Nat} : v.length store = .ok n ↔
    (∃ text : String, v = string text ∧ text.length = n) ∨ v.list?.map List.length = some n := by
  cases v with
  | nil => simp [length]
  | string text => simp [length, list?, spine, spineLoop]
  | pair head tail =>
    rw [length]
    cases (pair head tail).list? with
    | some items => simp
    | none => simp [mistyped_ne_ok]
  | _ => simp [length, mistyped_ne_ok, list?, spine, spineLoop]

end TowerLisp.Value
