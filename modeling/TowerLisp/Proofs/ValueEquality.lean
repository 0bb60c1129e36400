import TowerLisp.Proofs.ExactNumbers
import TowerLisp.Proofs.ListValues
import TowerLisp.Value.Equality
import TowerLisp.Value.Printer

/-!
Equality of values whose numbers are exact. What such a value says is what it is made of, with the
quaternion of every number in place of the number. Equality compares what values say, so it is
an equivalence relation, goes by the parts of a pair, and respects what is asked of lists.
-/

namespace TowerLisp

namespace Number

theorem marks_ofRat (q : ℚ) : (ofRat q).marks = [] := by
  obtain ⟨n, -, -, h⟩ | ⟨n, -, -, h⟩ | ⟨-, h⟩ := Scalar.ofRat_cases q <;>
    (rw [ofRat, h]; rfl)

/-- Nothing in an exact number can be marked. -/
theorem WellFormedExact.marks_eq_nil {a : Number} (h : a.WellFormedExact) : a.marks = [] := by
  obtain ⟨p, rfl⟩ | ⟨p, q, rfl⟩ | ⟨p, q, r, s, rfl⟩ := h.eq_cases <;>
    simp [marks, marks_ofRat]

end Number

namespace Value

open Quaternion

/-- All numbers in a value are well-formed exact numbers. -/
def IsExact : Value → Prop
  | number n => n.WellFormedExact
  | vector items => ∀ n ∈ items, n.WellFormedExact
  | pair head tail => head.IsExact ∧ tail.IsExact
  | _ => True

/-- What a value says, whatever the kinds of its numbers. -/
inductive Content where
  | atom (value : Value)
  | number (value : ℍ[ℚ])
  | vector (items : List ℍ[ℚ])
  | pair (head tail : Content)

def content : Value → Content
  | number n => .number n.exactValue
  | vector items => .vector (items.map Number.exactValue)
  | pair head tail => .pair head.content tail.content
  | v => .atom v

theorem isSameVector_eq_false {as : List Number} (h : ∀ n ∈ as, n.WellFormedExact)
    (bs : List Number) : isSameVector as bs = false := by
  have hmarks : (as.any fun n => n.marks.any (·.own ≠ 0)) = false := by
    rw [List.any_eq_false]
    intro n hn
    simp [(h n hn).marks_eq_nil]
  rw [isSameVector, hmarks, Bool.false_and]

theorem vectorEqual_eq {as bs : List Number} (has : ∀ n ∈ as, n.WellFormedExact)
    (hbs : ∀ n ∈ bs, n.WellFormedExact) (hlength : as.length = bs.length) :
    ∃ answer, vectorEqual as bs = .ok answer ∧
      (answer = true ↔ as.map Number.exactValue = bs.map Number.exactValue) := by
  induction as generalizing bs with
  | nil =>
    obtain rfl := List.length_eq_zero_iff.mp hlength.symm
    exact ⟨true, rfl, by simp⟩
  | cons a as ih =>
    obtain ⟨b, bs, rfl⟩ := List.exists_cons_of_length_eq_add_one hlength.symm
    obtain ⟨ha, has⟩ := List.forall_mem_cons.mp has
    obtain ⟨hb, hbs⟩ := List.forall_mem_cons.mp hbs
    obtain ⟨first, hfirst, hsame⟩ := Number.equal_eq ha hb
    obtain ⟨others, hothers, hsames⟩ := ih has hbs (Nat.succ.inj hlength)
    refine ⟨first && others, ?_, ?_⟩
    · rw [vectorEqual, hfirst, hothers]
      rfl
    · rw [Bool.and_eq_true, hsame, hsames, List.map_cons, List.map_cons, List.cons.injEq]

/-- Equality compares what values say. -/
theorem equal_eq {a b : Value} (ha : a.IsExact) (hb : b.IsExact) :
    ∃ answer, a.equal b = .ok answer ∧ (answer = true ↔ a.content = b.content) := by
  induction a generalizing b with
  | number n =>
    cases b with
    | number m =>
      obtain ⟨answer, hanswer, hsame⟩ := Number.equal_eq ha hb
      refine ⟨answer, ?_, ?_⟩
      · rw [equal, Number.isSame_eq_false ha.marks_eq_nil, hanswer]
        rfl
      · rw [hsame, content, content, Content.number.injEq]
    | _ => exact ⟨false, rfl, by simp [content]⟩
  | vector as =>
    cases b with
    | vector bs =>
      rw [equal, isSameVector_eq_false ha, content, content, Content.vector.injEq]
      by_cases hlength : as.length = bs.length
      · rw [if_pos hlength]
        exact vectorEqual_eq ha hb hlength
      · rw [if_neg hlength]
        refine ⟨false, rfl, nofun, fun hitems => absurd ?_ hlength⟩
        simpa using congrArg List.length hitems
    | _ => exact ⟨false, rfl, by simp [content]⟩
  | pair head tail ihead itail =>
    cases b with
    | pair first rest =>
      obtain ⟨answer, hanswer, hsame⟩ := ihead ha.1 hb.1
      obtain ⟨others, hothers, hsames⟩ := itail ha.2 hb.2
      refine ⟨answer && others, ?_, ?_⟩
      · rw [equal, hanswer, ok_bind]
        cases answer with
        | true => exact hothers
        | false => rfl
      · rw [Bool.and_eq_true, hsame, hsames, content, content, Content.pair.injEq]
    | _ => exact ⟨false, rfl, by simp [content]⟩
  | _ => cases b <;> exact ⟨_, rfl, by simp [content]⟩

variable {a b : Value}

/-- Values that are made in different ways are not equal. -/
theorem equal_of_ctorIdx_ne (h : a.ctorIdx ≠ b.ctorIdx) : a.equal b = .ok false := by
  cases a <;> cases b <;> first | rfl | exact absurd rfl h

theorem ctorIdx_eq_of_equal (h : a.equal b = .ok true) : a.ctorIdx = b.ctorIdx := by
  by_contra hne
  rw [equal_of_ctorIdx_ne hne] at h
  cases h

theorem pair_equal_iff {as bs : Value} : (pair a as).equal (pair b bs) = .ok true ↔
    a.equal b = .ok true ∧ as.equal bs = .ok true := by
  rw [equal]
  cases a.equal b with
  | error fault => simp
  | ok answer =>
    cases answer with
    | true => simp
    | false => exact ⟨nofun, fun h => nomatch h.1⟩

/-- Equal values are lists of the same length, or no lists. -/
theorem list?_of_equal (h : a.equal b = .ok true) :
    a.list?.map List.length = b.list?.map List.length := by
  induction a generalizing b with
  | pair head tail _ ih =>
    cases b with
    | pair first rest =>
      have hlength : ∀ (v w : Value), (pair v w).list?.map List.length =
          (w.list?.map List.length).map (· + 1) := fun v w => by
        rw [list?_pair, Option.map_map, Option.map_map]
        rfl
      rw [hlength, hlength, ih (pair_equal_iff.mp h).2]
    | _ => cases ctorIdx_eq_of_equal h
  | _ => cases b <;> first | rfl | cases ctorIdx_eq_of_equal h

theorem string_equal_iff {text other : String} :
    (string text).equal (string other) = .ok true ↔ text = other := by
  rw [equal, Except.ok.injEq, beq_iff_eq]

theorem eq_string_iff_of_equal (h : a.equal b = .ok true) (text : String) :
    a = string text ↔ b = string text := by
  constructor
  · rintro rfl
    cases b with
    | string other => rw [string_equal_iff.mp h]
    | _ => cases ctorIdx_eq_of_equal h
  · rintro rfl
    cases a with
    | string other => rw [string_equal_iff.mp h]
    | _ => cases ctorIdx_eq_of_equal h

theorem length_of_equal (h : a.equal b = .ok true) (store : Store) (n : Nat) :
    a.length store = .ok n ↔ b.length store = .ok n := by
  simp only [length_eq_ok_iff, list?_of_equal h, eq_string_iff_of_equal h]

theorem isList_of_equal (h : a.equal b = .ok true) : a.isList = b.isList := by
  rw [← isSome_list?, ← isSome_list?, ← Option.isSome_map (f := List.length), list?_of_equal h,
    Option.isSome_map]

/-- Among the values whose numbers are exact, equality always has an answer and is an equivalence
relation. It goes by the parts of a pair, values that are equal answer alike when they are asked
for a list or for a length, and values that are made in different ways are never equal. -/
theorem equality_respects_content :
    (∀ a b : Value, a.IsExact → b.IsExact → ∃ answer, a.equal b = .ok answer) ∧
    Equivalence (fun a b : { v : Value // v.IsExact } => a.1.equal b.1 = .ok true) ∧
    (∀ a as b bs : Value, (pair a as).equal (pair b bs) = .ok true ↔
      a.equal b = .ok true ∧ as.equal bs = .ok true) ∧
    (∀ a b : Value, a.equal b = .ok true → a.isList = b.isList ∧
      ∀ (store : Store) (n : Nat), a.length store = .ok n ↔ b.length store = .ok n) ∧
    ∀ a b : Value, a.ctorIdx ≠ b.ctorIdx → a.equal b = .ok false := by
  have hcontent : ∀ {a b : Value}, a.IsExact → b.IsExact →
      (a.equal b = .ok true ↔ a.content = b.content) := fun ha hb => by
    obtain ⟨answer, hanswer, hsame⟩ := equal_eq ha hb
    rw [hanswer, Except.ok.injEq, hsame]
  refine ⟨fun a b ha hb => ?_, ⟨?_, ?_, ?_⟩, fun a as b bs => pair_equal_iff,
    fun a b h => ⟨isList_of_equal h, length_of_equal h⟩, fun a b => equal_of_ctorIdx_ne⟩
  · obtain ⟨answer, hanswer, -⟩ := equal_eq ha hb
    exact ⟨answer, hanswer⟩
  · rintro ⟨a, ha⟩
    exact (hcontent ha ha).mpr rfl
  · rintro ⟨a, ha⟩ ⟨b, hb⟩ h
    exact (hcontent hb ha).mpr ((hcontent ha hb).mp h).symm
  · rintro ⟨a, ha⟩ ⟨b, hb⟩ ⟨c, hc⟩ h h'
    exact (hcontent ha hc).mpr (((hcontent ha hb).mp h).trans ((hcontent hb hc).mp h'))

/-- An integer and the complex number with that real part are equal, also inside of lists. -/
theorem equality_respects_content_kinds :
    (list [string "n", int 2]).equal
        (list [string "n", number (.complex (.ofInt 2) (.ofInt 0))]) = .ok true ∧
      (list [string "n", number (.complex (.ofInt 2) (.ofInt 0))]).equal
        (list [string "n", int 2]) = .ok true ∧
      (list [string "n", number (.complex (.ofInt 2) (.ofInt 0))]).length .empty = .ok 2 ∧
      (vector [.ofInt 2]).equal (list [string "n", int 2]) = .ok false := by
  obtain ⟨-, hequivalence, -, hlists, hkinds⟩ := equality_respects_content
  have hint : ∀ n : Int, (Number.ofInt n).WellFormedExact := fun n =>
    Scalar.wellFormedExact_ofRat n
  have hwhole : (list [string "n", int 2]).IsExact := ⟨trivial, hint 2, trivial⟩
  have hpadded : (list [string "n", number (.complex (.ofInt 2) (.ofInt 0))]).IsExact :=
    ⟨trivial, ⟨hint 2, hint 0⟩, trivial⟩
  have hequal : (list [string "n", int 2]).equal
      (list [string "n", number (.complex (.ofInt 2) (.ofInt 0))]) = .ok true := by
    decide
  refine ⟨hequal, ?_, ?_, hkinds _ _ (by decide)⟩
  · exact hequivalence.symm (x := ⟨_, hwhole⟩) (y := ⟨_, hpadded⟩) hequal
  · exact ((hlists _ _ hequal).2 .empty 2).mp rfl

end Value

end TowerLisp
