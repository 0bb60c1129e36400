import TowerLisp.Proofs.Frames
import TowerLisp.Proofs.Renumbering

/-!
Procedures that are there. A store is closed if all procedures that its frames bind have been made.
A new procedure gets the next number, and nothing else makes up a number: what the procedures of
the language compute holds no other procedures than their arguments do, since it would be the same
under other numbers.
-/

namespace TowerLisp

/-- The numbers from `n` on are moved up by one. -/
def shift (n : ClosureId) (id : ClosureId) : ClosureId :=
  if id < n then id else id + 1

theorem shift_of_lt {n id : ClosureId} (h : id < n) : shift n id = id := if_pos h

theorem shift_of_le {n id : ClosureId} (h : n ≤ id) : shift n id = id + 1 :=
  if_neg (Nat.not_lt_of_le h)

theorem shift_injective (n : ClosureId) : Function.Injective (shift n) := by
  intro a b h
  rcases Nat.lt_or_ge a n with ha | ha <;> rcases Nat.lt_or_ge b n with hb | hb
  · rwa [shift_of_lt ha, shift_of_lt hb] at h
  · rw [shift_of_lt ha, shift_of_le hb] at h
    rw [h] at ha
    exact absurd ha (Nat.not_lt_of_le (Nat.le_succ_of_le hb))
  · rw [shift_of_le ha, shift_of_lt hb] at h
    rw [← h] at hb
    exact absurd hb (Nat.not_lt_of_le (Nat.le_succ_of_le ha))
  · rw [shift_of_le ha, shift_of_le hb] at h
    exact Nat.succ.inj h

namespace Value

/-- All procedures in a value have numbers below `n`. -/
def Bounded (n : ClosureId) : Value → Prop
  | pair head tail => head.Bounded n ∧ tail.Bounded n
  | closure id => id < n
  | _ => True

theorem bounded_nil {n : ClosureId} : nil.Bounded n :=
  trivial

theorem Bounded.mono {n n' : ClosureId} {v : Value} (h : v.Bounded n) (hle : n ≤ n') :
    v.Bounded n' := by
  induction v with
  | pair head tail ihhead ihtail => exact ⟨ihhead h.1, ihtail h.2⟩
  | closure id => exact Nat.lt_of_lt_of_le h hle
  | _ => trivial

/-- These are the values that stay as they are if larger numbers are moved. -/
theorem bounded_iff {n : ClosureId} {v : Value} : v.Bounded n ↔ v.renumber (shift n) = v := by
  induction v with
  | pair head tail ihhead ihtail =>
    rw [Bounded, renumber, pair.injEq, ihhead, ihtail]
  | closure id =>
    rw [Bounded, renumber, closure.injEq]
    refine ⟨shift_of_lt, fun h => Nat.lt_of_not_le fun hle => ?_⟩
    rw [shift_of_le hle] at h
    exact Nat.succ_ne_self id h
  | _ => exact iff_of_true trivial rfl

alias ⟨Bounded.renumber_eq, _⟩ := bounded_iff

/-- All procedures in some values have numbers below `n`. -/
def AllBounded (n : ClosureId) (values : List Value) : Prop :=
  ∀ v ∈ values, v.Bounded n

theorem AllBounded.mono {n n' : ClosureId} {values : List Value} (h : AllBounded n values)
    (hle : n ≤ n') : AllBounded n' values :=
  fun v hv => (h v hv).mono hle

theorem allBounded_iff {n : ClosureId} {values : List Value} :
    AllBounded n values ↔ values.map (renumber (shift n)) = values := by
  induction values with
  | nil => exact iff_of_true (List.forall_mem_nil _) rfl
  | cons v rest ih =>
    rw [AllBounded, List.forall_mem_cons, List.map_cons, List.cons.injEq, bounded_iff]
    exact and_congr_right fun _ => ih

theorem AllBounded.cons {n : ClosureId} {v : Value} {values : List Value} (hv : v.Bounded n)
    (h : AllBounded n values) : AllBounded n (v :: values) :=
  List.forall_mem_cons.mpr ⟨hv, h⟩

theorem AllBounded.append {n : ClosureId} {values others : List Value} (h : AllBounded n values)
    (hothers : AllBounded n others) : AllBounded n (values ++ others) :=
  List.forall_mem_append.mpr ⟨h, hothers⟩

/-- All procedures in the items of a list and in what stands behind them have numbers below `n`. -/
structure RowBounded (n : ClosureId) (row : List Value × Value) : Prop where
  items : AllBounded n row.1
  tail : row.2.Bounded n

theorem Bounded.ofList {n : ClosureId} {items : List Value} {tail : Value}
    (h : AllBounded n items) (htail : tail.Bounded n) : (Value.ofList items tail).Bounded n := by
  rw [bounded_iff, renumber_ofList, allBounded_iff.mp h, htail.renumber_eq]

theorem Bounded.tagged {n : ClosureId} {v : Value} (h : v.Bounded n) (tag : Tag) :
    (Form.tagged tag v).Bounded n :=
  ⟨trivial, h, trivial⟩

theorem Bounded.list? {n : ClosureId} {v : Value} (h : v.Bounded n) {items : List Value}
    (hitems : v.list? = some items) : AllBounded n items := by
  have hsame := list?_renumber (shift n) v
  rw [h.renumber_eq, hitems] at hsame
  exact allBounded_iff.mpr (Option.some.inj hsame).symm

theorem Bounded.fillMarks {n : ClosureId} {v : Value} (h : v.Bounded n) (next : Nat) :
    (v.fillMarks next).1.Bounded n := by
  have hfilled := fillMarks_renumber (shift n) v next
  rw [h.renumber_eq] at hfilled
  exact bounded_iff.mpr (Prod.ext_iff.mp hfilled).1.symm

/-- A value that is the same under all numbers holds no procedures. -/
theorem bounded_of_fixed {result : Except Fault Value} (h : ∀ σ, renumber σ <$> result = result)
    {v : Value} (hv : result = .ok v) (n : ClosureId) : v.Bounded n := by
  have hsame := h (shift n)
  rw [hv] at hsame
  exact bounded_iff.mpr (Except.ok.inj hsame)

theorem bounded_ofBool {n : ClosureId} (b : Bool) : (ofBool b).Bounded n := by
  cases b <;> trivial

end Value

open Value (AllBounded)

/-- Names that are bound to values whose procedures have numbers below `n`. -/
def Bindings.Bounded (n : ClosureId) (bindings : Bindings) : Prop :=
  ∀ entry ∈ bindings, entry.2.Bounded n

namespace Bindings.Bounded

variable {n : ClosureId} {bindings : Bindings}

theorem mono {n' : ClosureId} (h : bindings.Bounded n) (hle : n ≤ n') : bindings.Bounded n' :=
  fun entry hentry => (h entry hentry).mono hle

theorem insert (h : bindings.Bounded n) (name : String) {value : Value} (hvalue : value.Bounded n) :
    (Bindings.insert name value bindings).Bounded n := by
  induction bindings with
  | nil => exact List.forall_mem_singleton.mpr hvalue
  | cons entry rest ih =>
    rw [Bounded, List.forall_mem_cons] at h
    unfold Bindings.insert
    split
    · exact List.forall_mem_cons.mpr ⟨hvalue, h.2⟩
    · exact List.forall_mem_cons.mpr ⟨h.1, ih h.2⟩

theorem ofPairs (h : bindings.Bounded n) : (Bindings.ofPairs bindings).Bounded n := by
  have hfold : ∀ given : Bindings, given.Bounded n → Bindings.Bounded n
      (bindings.foldl (fun bindings entry => bindings.insert entry.1 entry.2) given) := by
    induction bindings with
    | nil => exact fun given hgiven => hgiven
    | cons entry rest ih =>
      rw [Bounded, List.forall_mem_cons] at h
      exact fun given hgiven => ih h.2 _ (hgiven.insert entry.1 h.1)
  exact hfold [] (List.forall_mem_nil _)

theorem of_find? (h : bindings.Bounded n) {name : String} {value : Value}
    (hfind : bindings.find? name = some value) : value.Bounded n := by
  induction bindings with
  | nil => cases hfind
  | cons entry rest ih =>
    rw [Bounded, List.forall_mem_cons] at h
    unfold Bindings.find? at hfind
    split at hfind
    · cases hfind
      exact h.1
    · exact ih h.2 hfind

theorem zip (names : List String) {values : List Value} (h : AllBounded n values) :
    Bindings.Bounded n (names.zip values) :=
  fun entry hentry => h entry.2 (List.of_mem_zip hentry).2

end Bindings.Bounded

namespace Store

/-- A store that binds names to procedures that it has. -/
def Closed (s : Store) : Prop :=
  ∀ frame, (s.bindings frame).Bounded s.closures.size

variable {s : Store} {n : ClosureId}

theorem Closed.addScope (h : s.Closed) (chain : List FrameId) : (s.addScope chain).2.Closed :=
  h

theorem Closed.addFrame (h : s.Closed) {bindings : Bindings}
    (hbindings : bindings.Bounded s.closures.size) (isRoot : Bool) :
    (s.addFrame ⟨isRoot, bindings⟩).2.Closed := by
  intro frame
  rw [bindings_addFrame]
  split
  · exact hbindings
  · exact h frame

theorem Closed.withFrame (h : s.Closed) {bindings : Bindings}
    (hbindings : bindings.Bounded s.closures.size) (scope : ScopeId) :
    (s.withFrame scope bindings).2.Closed :=
  (h.addFrame hbindings false).addScope _

theorem Closed.bindIn (h : s.Closed) (frame : FrameId) (name : String) {value : Value}
    (hvalue : value.Bounded s.closures.size) : (s.bindIn frame name value).Closed := by
  intro other
  by_cases hother : other = frame
  · subst hother
    by_cases hlt : other < s.frames.size
    · rw [bindings_bindIn s other other name value hlt, if_pos rfl]
      exact (h other).insert name hvalue
    · rw [bindings_of_size_le _ other (by simpa using Nat.le_of_not_lt hlt)]
      exact List.forall_mem_nil _
  · rw [bindings_bindIn_of_ne s frame other name value hother]
    exact h other

theorem Closed.define (h : s.Closed) (scope : ScopeId) (name : String) {value : Value}
    (hvalue : value.Bounded s.closures.size) : (s.define scope name value).Closed := by
  obtain ⟨frame, -, -, -, hdefine⟩ | ⟨-, hdefine⟩ := define_cases s scope name value
  · rw [hdefine]
    exact h.bindIn frame name hvalue
  · rw [hdefine]
    exact h.addFrame (List.forall_mem_singleton.mpr hvalue) false

theorem closures_define (scope : ScopeId) (name : String) (value : Value) :
    (s.define scope name value).closures = s.closures := by
  obtain ⟨frame, -, -, -, hdefine⟩ | ⟨-, hdefine⟩ := define_cases s scope name value <;>
    rw [hdefine] <;> rfl

theorem Closed.addClosure (h : s.Closed) (closure : Closure) : (s.addClosure closure).2.Closed :=
  fun frame => (h frame).mono (by simp [Store.addClosure])

theorem Closed.nameClosure (h : s.Closed) (id : ClosureId) (name : String) :
    (s.nameClosure id name).Closed :=
  fun frame => (h frame).mono (by simp [Store.nameClosure])

theorem Closed.lookup? (h : s.Closed) {scope : ScopeId} {name : String} {value : Value}
    (hlookup : s.lookup? scope name = some value) : value.Bounded s.closures.size := by
  obtain ⟨frame, -, hfind⟩ := List.exists_of_findSome?_eq_some hlookup
  exact (h frame).of_find? hfind

end Store

/-- The result of a procedure would be the same if all procedures that there are not had other
numbers, so it holds none of them. -/
theorem bounded_compute? {s : Store} {p : Primitive} {args : List Value}
    (hargs : AllBounded s.closures.size args) {value : Value}
    (h : Builtin.compute? s p args = some (.ok value)) : value.Bounded s.closures.size := by
  have hfollows : Value.Follows (shift s.closures.size) s s := by
    intro id
    by_cases hid : id < s.closures.size
    · rw [shift_of_lt hid]
    · have hle := Nat.le_of_not_lt hid
      rw [shift_of_le hle, Store.closure?, Store.closure?, Array.getElem?_eq_none hle,
        Array.getElem?_eq_none (Nat.le_succ_of_le hle)]
  have hsame := Builtin.compute?_renumber (shift_injective s.closures.size) hfollows p args
  rw [Value.allBounded_iff.mp hargs, h] at hsame
  exact Value.bounded_iff.mpr (Except.ok.inj (Option.some.inj hsame)).symm

end TowerLisp
