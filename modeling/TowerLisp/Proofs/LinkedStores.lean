import TowerLisp.Proofs.MirroredEvaluation
import TowerLisp.Proofs.StoreExtension

/-!
Frames that are there. A store is linked if the chains of its scopes run through frames of the
store. Evaluation keeps a store linked: a new chain starts with a new frame, follows an old chain,
or is a root alone, and roots are made by no evaluation.
-/

namespace TowerLisp

open EvalM (endWorld)

namespace Store

/-- A store in which scopes have only frames that there are. -/
def Linked (s : Store) : Prop :=
  ∀ scope, ∀ f ∈ s.chain scope, f < s.frames.size

/-- A linked store with the roots of a store that has no more frames. -/
structure LinkedFrom (b s : Store) : Prop where
  linked : s.Linked
  frames_le : b.frames.size ≤ s.frames.size
  roots_lt : ∀ f, s.isRootFrame f = true → f < b.frames.size

variable {b s : Store}

theorem Linked.from (h : s.Linked) : LinkedFrom s s :=
  ⟨h, Nat.le_refl _, fun f hf => lt_size_of_isRootFrame s f hf⟩

theorem LinkedFrom.addScope (h : LinkedFrom b s) {chain : List FrameId}
    (hchain : ∀ f ∈ chain, f < s.frames.size) : LinkedFrom b (s.addScope chain).2 where
  linked scope f hf := by
    rw [chain_addScope] at hf
    split at hf
    · exact hchain f hf
    · exact h.linked scope f hf
  frames_le := h.frames_le
  roots_lt := h.roots_lt

theorem LinkedFrom.addFrame (h : LinkedFrom b s) (bindings : Bindings) :
    LinkedFrom b (s.addFrame ⟨false, bindings⟩).2 where
  linked scope f hf := by
    rw [size_addFrame]
    exact Nat.lt_succ_of_lt (h.linked scope f hf)
  frames_le := Nat.le_trans h.frames_le (by simp)
  roots_lt f hf := by
    rw [isRootFrame_addFrame] at hf
    split at hf
    · cases hf
    · exact h.roots_lt f hf

theorem LinkedFrom.withFrame (h : LinkedFrom b s) (scope : ScopeId) (bindings : Bindings) :
    LinkedFrom b (s.withFrame scope bindings).2 := by
  refine (h.addFrame bindings).addScope fun f hf => ?_
  rw [size_addFrame]
  rcases List.mem_cons.mp hf with rfl | hf
  · exact Nat.lt_succ_self _
  · exact Nat.lt_succ_of_lt (h.linked scope f hf)

theorem LinkedFrom.bindIn (h : LinkedFrom b s) (frame : FrameId) (name : String) (value : Value) :
    LinkedFrom b (s.bindIn frame name value) where
  linked scope f hf := by simpa using h.linked scope f hf
  frames_le := by simpa using h.frames_le
  roots_lt f hf := h.roots_lt f (by simpa using hf)

theorem LinkedFrom.define (h : LinkedFrom b s) (scope : ScopeId) (name : String) (value : Value) :
    LinkedFrom b (s.define scope name value) := by
  obtain ⟨frame, -, -, -, hdefine⟩ | ⟨-, hdefine⟩ := define_cases s scope name value
  · rw [hdefine]
    exact h.bindIn frame name value
  · rw [hdefine]
    refine ⟨fun other f hf => ?_, Nat.le_trans h.frames_le (by simp), fun f hf => ?_⟩
    · have hplaced : f = s.frames.size ∨ f ∈ s.chain other := by
        by_cases hscope : scope < s.scopes.size
        · rw [chain_pushBinding s scope other name value hscope] at hf
          split at hf
          · exact List.mem_cons.mp hf
          · exact .inr hf
        · rw [chain_pushBinding_of_size_le s scope other name value (Nat.le_of_not_lt hscope)] at hf
          exact .inr hf
      rw [size_pushBinding]
      rcases hplaced with rfl | hf
      · exact Nat.lt_succ_self _
      · exact Nat.lt_succ_of_lt (h.linked other f hf)
    · exact h.roots_lt f (by simpa using hf)

/-- Anything may be evaluated. -/
def linking (b : Store) : StoreInvariant where
  Holds := LinkedFrom b
  Admits _ := True
  Opens _ := True
  admits_new _ := trivial
  opens_new _ := trivial
  addClosure h _ := ⟨h.linked, h.frames_le, h.roots_lt⟩
  nameClosure h _ _ := ⟨h.linked, h.frames_le, h.roots_lt⟩
  withFrame h := h.withFrame
  fork {_ scope} h _ := h.addScope (h.linked scope)
  define {_ scope} h _ := h.define scope
  bindIn {_ frame} h _ := h.bindIn frame

end Store

open Store

theorem mirrored_linking (b : Store) (steps depth : Nat) :
    (linking b).mirror.Mirrored (evaluator steps depth) (evaluator steps depth) := by
  rw [← evaluatorWith_import, ← evaluatorVia_lookup]
  refine Mirror.mirrored_evaluatorVia (fun scope name _ => StoreInvariant.runs_lookup scope name)
    (fun scope value hmirrored _ => ?_) steps depth
  refine Mirror.runs_importSource (P := fun root => root < b.frames.size) ?_ ?_ hmirrored value
  · rintro s _ ⟨rfl, hlinked⟩ scope
    exact ⟨rfl, fun root hfound => hlinked.roots_lt root (List.find?_some hfound)⟩
  · rintro s _ root ⟨rfl, hlinked⟩ hroot
    refine ⟨rfl, hlinked.addScope fun f hf => ?_⟩
    cases List.mem_singleton.mp hf
    exact Nat.lt_of_lt_of_le hroot hlinked.frames_le

namespace Session

theorem runs_evalText (b : Store) (source : List Char) :
    (linking b).mirror.Runs (linking b).mirror.Image (evalText source) (evalText source) := by
  refine .get fun w _ _ => .get fun w' _ _ => ?_
  have hmirrored := mirrored_linking b chainLimit w.settings.depthLimit
  have hscope : (linking b).mirror.Admits top := trivial
  refine (hmirrored.runAll _ hscope .nil).andThen fun value => ?_
  dsimp only
  split
  · exact .pure rfl
  · exact .throw _

theorem runs_start (b : Store) (prelude : Prelude) :
    (linking b).mirror.Runs Eq (start prelude) (start prelude) := by
  refine .get fun w _ _ => ?_
  have hrest : (linking b).mirror.Runs Eq (do
      EvalM.demandFiles w.settings.preludeCandidates
      let _ ← evalText (← EvalM.lift (prelude.text w.settings w.files)))
      (do
      EvalM.demandFiles w.settings.preludeCandidates
      let _ ← evalText (← EvalM.lift (prelude.text w.settings w.files))) :=
    (Mirror.runs_demandFiles _).both fun _ => (Mirror.Runs.liftSame _).both fun text =>
      (runs_evalText b text).andThen fun _ => .pure rfl
  dsimp only
  split
  · exact .throw _
  · exact hrest

theorem linked_initial (files : FileTree) (settings : Settings) (input : List Char) :
    (initial files settings input).store.Linked := by
  intro scope f hf
  cases scope with
  | zero =>
    cases List.mem_singleton.mp hf
    exact Nat.zero_lt_one
  | succ scope =>
    rw [chain_of_size_le _ _ (Nat.le_add_left 1 scope)] at hf
    cases hf

/-- Whatever is fed to a session, its scopes have only frames that there are. -/
theorem linked_feed (prelude : Prelude) (files : FileTree) (settings : Settings)
    (input : List Char) (sources : List (List Char)) :
    (feed (endWorld (start prelude (initial files settings input))) sources).store.Linked := by
  have hinitial := linked_initial files settings input
  have hstarted := (StoreInvariant.run_eq (runs_start _ prelude) Eq.symm hinitial.from).2.linked
  generalize endWorld (start prelude (initial files settings input)) = w at hstarted
  induction sources generalizing w with
  | nil => exact hstarted
  | cons source rest ih =>
    have hnext := StoreInvariant.run_eq (runs_evalText w.store source) StoreInvariant.eq_of_image
      hstarted.from
    exact ih _ hnext.2.linked

end Session

end TowerLisp
