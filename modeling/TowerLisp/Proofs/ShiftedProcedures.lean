import TowerLisp.Proofs.ClosedStores
import TowerLisp.Proofs.MirroredEvaluation

/-!
A procedure more. If a store gets a procedure that nothing refers to, then evaluation goes on as it
does without it; only the procedures made from then on have numbers that are larger by one.
-/

namespace TowerLisp

namespace Store

/-- Two stores of which the second one has a further procedure, with the number `n`. -/
structure Shifted (n : ClosureId) (s t : Store) : Prop where
  scopes_eq : t.scopes = s.scopes
  frames_size : t.frames.size = s.frames.size
  isRootFrame_eq : ∀ frame, t.isRootFrame frame = s.isRootFrame frame
  bindings_eq : ∀ frame, t.bindings frame = (s.bindings frame).renumber (shift n)
  le_size : n ≤ s.closures.size
  closures_size : t.closures.size = s.closures.size + 1
  closure?_eq : ∀ id, t.closure? (shift n id) = s.closure? id

variable {n : ClosureId} {s t : Store}

theorem Closed.shifted (h : s.Closed) (closure : Closure) :
    Shifted s.closures.size s (s.addClosure closure).2 where
  scopes_eq := rfl
  frames_size := rfl
  isRootFrame_eq _ := rfl
  bindings_eq frame := by
    have hfixed : ∀ entry ∈ s.bindings frame,
        (entry.1, entry.2.renumber (shift s.closures.size)) = id entry :=
      fun entry hentry => Prod.ext rfl (h frame entry hentry).renumber_eq
    exact ((List.map_congr_left hfixed).trans (List.map_id _)).symm
  le_size := Nat.le_refl _
  closures_size := by simp [Store.addClosure]
  closure?_eq id := by
    simp only [closure?, Store.addClosure]
    by_cases hid : id < s.closures.size
    · rw [shift_of_lt hid, Array.getElem?_push, if_neg (Nat.ne_of_lt hid)]
    · have hle := Nat.le_of_not_lt hid
      rw [shift_of_le hle, Array.getElem?_eq_none hle, Array.getElem?_eq_none]
      simpa using hle

namespace Shifted

variable (h : Shifted n s t)

include h

theorem chain_eq (scope : ScopeId) : t.chain scope = s.chain scope := by
  rw [chain, chain, h.scopes_eq]

theorem lookup?_eq (scope : ScopeId) (name : String) :
    t.lookup? scope name = (s.lookup? scope name).map (Value.renumber (shift n)) := by
  rw [lookup?, lookup?, h.chain_eq]
  induction s.chain scope with
  | nil => rfl
  | cons frame rest ih =>
    rw [List.findSome?_cons, List.findSome?_cons, h.bindings_eq, Bindings.find?_renumber]
    cases (s.bindings frame).find? name with
    | some value => rfl
    | none => exact ih

theorem addScope (chain : List FrameId) :
    Shifted n (s.addScope chain).2 (t.addScope chain).2 where
  scopes_eq := by rw [Store.addScope, Store.addScope, h.scopes_eq]
  frames_size := h.frames_size
  isRootFrame_eq := h.isRootFrame_eq
  bindings_eq := h.bindings_eq
  le_size := h.le_size
  closures_size := h.closures_size
  closure?_eq := h.closure?_eq

theorem fork (scope : ScopeId) : Shifted n (s.fork scope).2 (t.fork scope).2 := by
  rw [Store.fork, Store.fork, h.chain_eq]
  exact h.addScope _

theorem addFrame (isRoot : Bool) (bindings : Bindings) :
    Shifted n (s.addFrame ⟨isRoot, bindings⟩).2
      (t.addFrame ⟨isRoot, bindings.renumber (shift n)⟩).2 where
  scopes_eq := h.scopes_eq
  frames_size := by simp [h.frames_size]
  isRootFrame_eq frame := by simp [h.frames_size, h.isRootFrame_eq]
  bindings_eq frame := by
    rw [bindings_addFrame, bindings_addFrame, h.frames_size, h.bindings_eq]
    split <;> rfl
  le_size := h.le_size
  closures_size := h.closures_size
  closure?_eq := h.closure?_eq

theorem withFrame (scope : ScopeId) (bindings : Bindings) :
    Shifted n (s.withFrame scope bindings).2
      (t.withFrame scope (bindings.renumber (shift n))).2 := by
  unfold Store.withFrame
  dsimp only
  rw [h.chain_eq, addFrame_fst, addFrame_fst, h.frames_size]
  exact (h.addFrame false bindings).addScope _

theorem bindIn (frame : FrameId) (name : String) (value : Value) :
    Shifted n (s.bindIn frame name value)
      (t.bindIn frame name (value.renumber (shift n))) where
  scopes_eq := h.scopes_eq
  frames_size := by simp [h.frames_size]
  isRootFrame_eq other := by simp [h.isRootFrame_eq]
  bindings_eq other := by
    by_cases hother : other = frame
    · subst hother
      by_cases hlt : other < s.frames.size
      · rw [bindings_bindIn t other other name _ (h.frames_size.symm ▸ hlt),
          bindings_bindIn s other other name value hlt, if_pos rfl, if_pos rfl, h.bindings_eq,
          Bindings.insert_renumber]
      · have hle := Nat.le_of_not_lt hlt
        rw [bindings_of_size_le _ other (by simpa [h.frames_size] using hle),
          bindings_of_size_le _ other (by simpa using hle)]
        rfl
    · rw [bindings_bindIn_of_ne t frame other name _ hother,
        bindings_bindIn_of_ne s frame other name value hother, h.bindings_eq]
  le_size := h.le_size
  closures_size := h.closures_size
  closure?_eq := h.closure?_eq

theorem pushBinding (scope : ScopeId) (name : String) (value : Value) :
    Shifted n (s.pushBinding scope name value)
      (t.pushBinding scope name (value.renumber (shift n))) := by
  have hframe := h.addFrame false [(name, value)]
  refine ⟨?_, hframe.frames_size, hframe.isRootFrame_eq, hframe.bindings_eq, hframe.le_size,
    hframe.closures_size, hframe.closure?_eq⟩
  simp only [Store.pushBinding, addFrame_fst, scopes_addFrame, h.scopes_eq, h.frames_size]

theorem define (scope : ScopeId) (name : String) (value : Value) :
    Shifted n (s.define scope name value)
      (t.define scope name (value.renumber (shift n))) := by
  unfold Store.define
  rw [h.chain_eq]
  split
  · rename_i frame rest hchain
    rw [h.isRootFrame_eq]
    split
    · exact h.bindIn frame name value
    · exact h.pushBinding scope name value
  · exact h.pushBinding scope name value

theorem addClosure (closure : Closure) : shift n s.closures.size = t.closures.size ∧
    Shifted n (s.addClosure closure).2 (t.addClosure closure).2 := by
  have hnew : shift n s.closures.size = t.closures.size :=
    (shift_of_le h.le_size).trans h.closures_size.symm
  refine ⟨hnew, h.scopes_eq, h.frames_size, h.isRootFrame_eq, h.bindings_eq, ?_, ?_, fun id => ?_⟩
  · exact Nat.le_trans h.le_size (by simp [Store.addClosure])
  · simp [Store.addClosure, h.closures_size]
  · have hold := h.closure?_eq id
    simp only [Store.addClosure, closure?, Array.getElem?_push] at hold ⊢
    rw [← hnew, hold]
    by_cases hid : id = s.closures.size
    · rw [if_pos (congrArg (shift n) hid), if_pos hid]
    · rw [if_neg fun heq => hid (shift_injective n heq), if_neg hid]

theorem nameClosure (id : ClosureId) (name : String) :
    Shifted n (s.nameClosure id name) (t.nameClosure (shift n id) name) := by
  refine ⟨h.scopes_eq, h.frames_size, h.isRootFrame_eq, h.bindings_eq, ?_, ?_, fun other => ?_⟩
  · simpa [Store.nameClosure] using h.le_size
  · simpa [Store.nameClosure] using h.closures_size
  · have hold := h.closure?_eq other
    simp only [Store.nameClosure, closure?, Array.getElem?_modify] at hold ⊢
    rw [hold]
    by_cases hid : id = other
    · rw [if_pos (congrArg (shift n) hid), if_pos hid]
    · rw [if_neg fun heq => hid (shift_injective n heq), if_neg hid]

theorem root?_eq (scope : ScopeId) : t.root? scope = s.root? scope := by
  rw [root?, root?, h.chain_eq, funext h.isRootFrame_eq]

end Shifted

end Store

open Store

/-- A store and the one with a further procedure. Anything may be evaluated in both. -/
def Mirror.shifting (n : ClosureId) : Mirror where
  renumber := shift n
  Shows := Shifted n
  Admits _ := True
  Opens _ := True
  injective := shift_injective n
  sizes h := ⟨congrArg Array.size h.scopes_eq, h.frames_size⟩
  follows h := h.closure?_eq
  admits_new _ := trivial
  opens_new _ := trivial
  addClosure h := h.addClosure
  nameClosure h := h.nameClosure
  withFrame h := h.withFrame
  fork {_ _ scope} h _ := h.fork scope
  define {_ _ scope} h _ := h.define scope
  bindIn {_ _ frame} h _ := h.bindIn frame

/-- What is evaluated comes out the same with a further procedure, up to the numbers of the
procedures. -/
theorem mirrored_shifting (n : ClosureId) (steps depth : Nat) :
    (Mirror.shifting n).Mirrored (evaluator steps depth) (evaluator steps depth) := by
  rw [← evaluatorWith_import, ← evaluatorVia_lookup]
  refine Mirror.mirrored_evaluatorVia (fun scope name _ => ?_) (fun scope value hmirrored _ => ?_)
    steps depth
  · refine .get fun w t hst => ?_
    dsimp only
    rw [hst.lookup?_eq]
    cases w.store.lookup? scope name with
    | none => exact .throw _
    | some value => exact .pure rfl
  · refine Mirror.runs_importSource (P := fun _ => True) ?_ ?_ hmirrored value
    · exact fun hst scope => ⟨Shifted.root?_eq hst scope, fun _ _ => trivial⟩
    · exact fun hst _ => Shifted.addScope hst _

end TowerLisp
