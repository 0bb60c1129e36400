import TowerLisp.Proofs.EvaluatorRelations

/-!
Evaluation under limits. A computation refines another if it ends in the same
result whenever no limit cuts it short. Sequences keep refinement, so it passes from
an evaluator to the level on top of it. In particular an evaluator with larger limits
finds all results of one with smaller limits.
-/

namespace TowerLisp

/-- The faults of the limits on nested evaluation and on chains of tail calls. -/
def Fault.isLimit : Fault → Bool
  | .breakdown .tooDeep => true
  | .breakdown .tooLong => true
  | _ => false

namespace EvalM

variable {α β γ : Type}

/-- The result of a computation that a limit has cut short. -/
def CutShort : EStateM.Result Fault World α → Prop
  | .ok _ _ => False
  | .error fault _ => fault.isLimit = true

/-- Whatever `m` ends in without running into a limit, `n` ends in as well. -/
def Refines (m n : EvalM α) : Prop :=
  ∀ w, ¬ CutShort (m w) → n w = m w

namespace Refines

theorem refl (m : EvalM α) : Refines m m :=
  fun _ _ => rfl

theorem trans {m n o : EvalM α} (hmn : Refines m n) (hno : Refines n o) : Refines m o := by
  intro w hw
  have hn := hmn w hw
  rw [hno w (by rwa [hn]), hn]

/-- A limit allows everything. -/
theorem of_limit {fault : Fault} (hfault : fault.isLimit = true) (n : EvalM α) :
    Refines (throw fault) n := by
  intro w hw
  exact absurd hfault hw

theorem bind {m n : EvalM α} {f g : α → EvalM β} (hmn : Refines m n)
    (hfg : ∀ a, Refines (f a) (g a)) : Refines (m >>= f) (n >>= g) := by
  intro w hw
  have hm : ¬ CutShort (m w) := by
    intro hcut
    apply hw
    change CutShort (EStateM.bind m f w)
    cases h : m w with
    | ok a s => simp [h, CutShort] at hcut
    | error fault s => simpa [EStateM.bind, h, CutShort] using hcut
  have hn := hmn w hm
  change EStateM.bind n g w = EStateM.bind m f w
  cases h : m w with
  | error fault s => simp [EStateM.bind, hn, h]
  | ok a s =>
    have hrest : ¬ CutShort (f a s) := by
      intro hcut
      apply hw
      change CutShort (EStateM.bind m f w)
      simpa [EStateM.bind, h] using hcut
    simpa [EStateM.bind, hn, h] using hfg a s hrest

theorem map {m n : EvalM α} (f : α → β) (hmn : Refines m n) : Refines (f <$> m) (f <$> n) := by
  have h := bind hmn (fun a => refl (pure (f a)))
  simpa only [bind_pure_comp] using h

end Refines

/-- Refinement is kept by sequences. -/
def refinement : Congruence where
  Rel := Refines
  value _ := .refl _
  fault _ := .refl _
  bind := .bind
  inspect hfg w hw := hfg w w rfl w hw
  basic _ := .refl _

theorem joined_pure_left {l : Step → EvalM Step} {m n : EvalM Step} :
    refinement.Joined pure l m n ↔ Refines m (n >>= l) := by
  rw [Congruence.Joined, bind_pure]
  exact Iff.rfl

theorem joined_pure_right {k : Step → EvalM Step} {m n : EvalM Step} :
    refinement.Joined k pure m n ↔ Refines (m >>= k) n := by
  rw [Congruence.Joined, bind_pure]
  exact Iff.rfl

theorem joined_pure {m n : EvalM Step} : refinement.Joined pure pure m n ↔ Refines m n := by
  rw [joined_pure_left, bind_pure]

end EvalM

namespace Evaluator

open EvalM (Refines)

/-- What is nested in a form, and not in tail position, ends alike in `ev'`. -/
abbrev Nested (ev ev' : Evaluator) : Prop :=
  EvalM.refinement.Nested ev ev'

/-- What is nested in a form ends alike in `ev'`, and what stands in its position,
which is `tail` on one side and `tail'` on the other, does so once `k` and `l` have
taken up the steps. -/
abbrev Positioned {β : Type} (ev ev' : Evaluator) (tail tail' : Bool)
    (k l : Step → EvalM β) : Prop :=
  EvalM.refinement.Positioned ev ev' tail tail' k l

/-- All that `ev` finds within its limits, in either position, `ev'` finds too. -/
structure Below (ev ev' : Evaluator) : Prop where
  steps : ev.steps ≤ ev'.steps
  eval : ∀ form scope tail, Refines (ev.eval form scope tail) (ev'.eval form scope tail)
  apply : ∀ procedure arguments scope tail,
    Refines (ev.apply procedure arguments scope tail) (ev'.apply procedure arguments scope tail)

namespace Below

variable {ev ev' : Evaluator}

theorem trans {ev'' : Evaluator} (h : Below ev ev') (h' : Below ev' ev'') : Below ev ev'' where
  steps := Nat.le_trans h.steps h'.steps
  eval form scope tail := (h.eval form scope tail).trans (h'.eval form scope tail)
  apply procedure arguments scope tail :=
    (h.apply procedure arguments scope tail).trans (h'.apply procedure arguments scope tail)

theorem chase (h : Below ev ev') {n m : Nat} (hnm : n ≤ m) (step : Step) :
    Refines (ev.chase n step) (ev'.chase m step) := by
  induction n generalizing m step with
  | zero =>
    cases step with
    | done value => cases m <;> exact .refl _
    | call form scope => exact .of_limit rfl _
  | succ n ih =>
    obtain ⟨m, rfl⟩ : ∃ k, m = k + 1 := ⟨m - 1, by omega⟩
    cases step with
    | done value => exact .refl _
    | call form scope =>
      exact .bind (h.eval form scope true) fun next => ih (by omega) next

theorem finish (h : Below ev ev') (step : Step) : Refines (ev.finish step) (ev'.finish step) :=
  h.chase h.steps step

theorem nested (h : Below ev ev') : Nested ev ev' where
  value form scope := .bind (h.eval form scope false) h.finish
  run form scope := .bind (h.eval form scope true) h.finish
  applied procedure arguments scope := .bind (h.apply procedure arguments scope false) h.finish

theorem positioned (h : Below ev ev') (tail : Bool) : Positioned ev ev' tail tail pure pure where
  toNested := h.nested
  eval form scope := EvalM.joined_pure.mpr (h.eval form scope tail)
  leave last scope := by
    rw [EvalM.joined_pure]
    cases tail with
    | true => exact .refl _
    | false => exact .bind (h.nested.run last scope) fun value => .refl _
  done value := .refl _

/-- One more level keeps the order. -/
theorem next (h : Below ev ev') : Below ev.next ev'.next where
  steps := h.steps
  eval form scope tail := EvalM.joined_pure.mp ((h.positioned tail).evalForm form scope)
  apply procedure arguments scope tail :=
    EvalM.joined_pure.mp ((h.positioned tail).applyValue procedure arguments scope)

end Below

end Evaluator

/-- Larger limits keep all results. -/
theorem evaluator_below {steps steps' depth depth' : Nat} (hsteps : steps ≤ steps')
    (hdepth : depth ≤ depth') :
    (evaluator steps depth).Below (evaluator steps' depth') := by
  induction depth generalizing depth' with
  | zero =>
    refine ⟨?_, fun _ _ _ => .of_limit rfl _, fun _ _ _ _ => .of_limit rfl _⟩
    rw [evaluator_steps, evaluator_steps]
    exact hsteps
  | succ depth ih =>
    obtain ⟨inner, rfl⟩ : ∃ k, depth' = k + 1 := ⟨depth' - 1, by omega⟩
    rw [evaluator_succ, evaluator_succ]
    exact (ih (by omega)).next

end TowerLisp
