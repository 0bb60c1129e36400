import TowerLisp.Store.Basic

/-!
What each verb of the store does to the chains of scopes, to the bindings of frames and
to which frames are roots. A new frame has the number of frames before it, and a new
scope the number of scopes.
-/

namespace TowerLisp.Store

variable (s : Store) (scope other : ScopeId) (frame f : FrameId)

theorem chain_of_size_le (h : s.scopes.size ≤ scope) : s.chain scope = [] := by
  rw [chain, Array.getElem?_eq_none h]
  rfl

theorem isRootFrame_of_size_le (h : s.frames.size ≤ f) : s.isRootFrame f = false := by
  rw [isRootFrame, Array.getElem?_eq_none h]

theorem bindings_of_size_le (h : s.frames.size ≤ f) : s.bindings f = [] := by
  rw [bindings, Array.getElem?_eq_none h]

theorem lt_size_of_isRootFrame (h : s.isRootFrame f = true) : f < s.frames.size := by
  refine Nat.lt_of_not_le fun hle => ?_
  rw [isRootFrame_of_size_le s f hle] at h
  cases h

section Adding

variable (chain : List FrameId) (new : Frame)

@[simp] theorem addScope_fst : (s.addScope chain).1 = s.scopes.size := rfl

@[simp] theorem isRootFrame_addScope : (s.addScope chain).2.isRootFrame f = s.isRootFrame f := rfl

@[simp] theorem bindings_addScope : (s.addScope chain).2.bindings f = s.bindings f := rfl

@[simp] theorem frames_addScope : (s.addScope chain).2.frames = s.frames := rfl

@[simp] theorem chain_addScope :
    (s.addScope chain).2.chain other = if other = s.scopes.size then chain else s.chain other := by
  simp only [addScope, Store.chain, Array.getElem?_push]
  split <;> rfl

@[simp] theorem addFrame_fst : (s.addFrame new).1 = s.frames.size := rfl

@[simp] theorem scopes_addFrame : (s.addFrame new).2.scopes = s.scopes := rfl

@[simp] theorem size_addFrame : (s.addFrame new).2.frames.size = s.frames.size + 1 :=
  Array.size_push ..

@[simp] theorem chain_addFrame : (s.addFrame new).2.chain other = s.chain other := rfl

@[simp] theorem isRootFrame_addFrame :
    (s.addFrame new).2.isRootFrame f =
      if f = s.frames.size then new.isRoot else s.isRootFrame f := by
  simp only [addFrame, isRootFrame, Array.getElem?_push]
  by_cases h : f = s.frames.size <;> simp [h]

@[simp] theorem bindings_addFrame :
    (s.addFrame new).2.bindings f =
      if f = s.frames.size then new.bindings else s.bindings f := by
  simp only [addFrame, bindings, Array.getElem?_push]
  by_cases h : f = s.frames.size <;> simp [h]

end Adding

section Binding

variable (name : String) (value : Value)

@[simp] theorem chain_bindIn : (s.bindIn frame name value).chain other = s.chain other := rfl

@[simp] theorem size_bindIn : (s.bindIn frame name value).frames.size = s.frames.size :=
  Array.size_modify ..

@[simp] theorem isRootFrame_bindIn :
    (s.bindIn frame name value).isRootFrame f = s.isRootFrame f := by
  simp only [bindIn, isRootFrame, Array.getElem?_modify]
  by_cases h : frame = f
  · subst h
    cases s.frames[frame]? <;> simp
  · simp [h]

theorem bindings_bindIn (h : frame < s.frames.size) :
    (s.bindIn frame name value).bindings f =
      if f = frame then (s.bindings f).insert name value else s.bindings f := by
  simp only [bindIn, bindings, Array.getElem?_modify]
  by_cases hf : f = frame
  · subst hf
    simp [h]
  · simp [hf, Ne.symm hf]

theorem bindings_bindIn_of_ne (h : f ≠ frame) :
    (s.bindIn frame name value).bindings f = s.bindings f := by
  simp [bindIn, bindings, Array.getElem?_modify, Ne.symm h]

theorem chain_pushBinding (h : scope < s.scopes.size) :
    (s.pushBinding scope name value).chain other =
      if other = scope then s.frames.size :: s.chain other else s.chain other := by
  simp only [pushBinding, addFrame, chain, Array.getElem?_modify]
  by_cases ho : other = scope
  · subst ho
    simp [h]
  · simp [ho, Ne.symm ho]

theorem chain_pushBinding_of_size_le (h : s.scopes.size ≤ scope) :
    (s.pushBinding scope name value).chain other = s.chain other := by
  simp only [pushBinding, addFrame, chain, Array.getElem?_modify]
  split
  · rename_i hother
    rw [← hother, Array.getElem?_eq_none h]
    rfl
  · rfl

@[simp] theorem isRootFrame_pushBinding :
    (s.pushBinding scope name value).isRootFrame f = s.isRootFrame f := by
  change (s.addFrame ⟨false, [(name, value)]⟩).2.isRootFrame f = _
  rw [isRootFrame_addFrame]
  split
  · rename_i hf
    rw [isRootFrame_of_size_le s f (Nat.le_of_eq hf.symm)]
  · rfl

@[simp] theorem bindings_pushBinding :
    (s.pushBinding scope name value).bindings f =
      if f = s.frames.size then [(name, value)] else s.bindings f :=
  bindings_addFrame s f ⟨false, [(name, value)]⟩

@[simp] theorem size_pushBinding :
    (s.pushBinding scope name value).frames.size = s.frames.size + 1 :=
  Array.size_push ..

/-- At a root a definition binds in the root frame. -/
theorem define_of_root {rest : List FrameId} (hchain : s.chain scope = frame :: rest)
    (h : s.isRootFrame frame = true) :
    s.define scope name value = s.bindIn frame name value := by
  simp [define, hchain, h]

/-- Anywhere else it binds in a new frame. -/
theorem define_of_inner (h : s.isRoot scope = false) :
    s.define scope name value = s.pushBinding scope name value := by
  unfold isRoot at h
  unfold define
  split
  · rename_i f rest hchain
    rw [hchain] at h
    rw [if_neg (by simpa using h)]
  · rfl

/-- A definition binds in the root frame of its scope or in a new frame. -/
theorem define_cases :
    (∃ frame rest, s.chain scope = frame :: rest ∧ s.isRootFrame frame = true ∧
      s.define scope name value = s.bindIn frame name value) ∨
    (s.isRoot scope = false ∧ s.define scope name value = s.pushBinding scope name value) := by
  cases hroot : s.isRoot scope with
  | false => exact Or.inr ⟨rfl, define_of_inner s scope name value hroot⟩
  | true =>
    unfold isRoot at hroot
    split at hroot
    · rename_i frame rest hchain
      exact Or.inl ⟨frame, rest, hchain, hroot,
        define_of_root s scope frame name value hchain hroot⟩
    · cases hroot

end Binding

end TowerLisp.Store
