import TowerLisp.Proofs.LimitRefinement

/-!
The position of a form does not matter to what it evaluates to. Out of tail
position a procedure's last form is run at once, one level deeper; in tail position
it is left to the caller, who runs it at his own level. Under large enough limits
both ways end in the same value or fault and the same world.
-/

namespace TowerLisp

open EvalM (CutShort Refines)

namespace Evaluator

/-- The value of a step, with at most `n` tail calls, as a finished step. -/
def settle (ev : Evaluator) (n : Nat) (step : Step) : EvalM Step :=
  Step.done <$> ev.chase n step

@[simp] theorem settle_done (ev : Evaluator) (n : Nat) (value : Value) :
    ev.settle n (.done value) = pure (.done value) := by
  cases n <;> rfl

@[simp] theorem settle_call (ev : Evaluator) (n : Nat) (form : Form) (scope : ScopeId) :
    ev.settle (n + 1) (.call form scope) = ev.eval form scope true >>= ev.settle n := by
  simp only [settle, chase, map_bind]
  rfl

/-- A form that is run and settled gives its value as a finished step. -/
theorem eval_settle (ev : Evaluator) (form : Form) (scope : ScopeId) :
    ev.eval form scope true >>= ev.settle ev.steps = Step.done <$> ev.run form scope := by
  simp only [run, map_bind]
  rfl

theorem Below.settle {ev ev' : Evaluator} (h : Below ev ev') {n m : Nat} (hnm : n ≤ m)
    (step : Step) : Refines (ev.settle n step) (ev'.settle m step) :=
  .map Step.done (h.chase hnm step)

/-- What a form gives out of tail position it also gives in tail position, to a
caller who is not nested deeper and has one more tail call to spend. -/
theorem eval_false_refines {steps depth : Nat} {outer : Evaluator}
    (houter : (evaluator steps depth).Below outer) (form : Form) (scope : ScopeId) :
    Refines ((evaluator steps depth).eval form scope false)
      ((evaluator steps depth).eval form scope true >>= outer.settle (steps + 1)) := by
  induction depth generalizing form scope with
  | zero => exact .of_limit rfl _
  | succ depth ih =>
    have hinner : (evaluator steps depth).Below outer :=
      (evaluator_below (Nat.le_refl steps) (Nat.le_succ depth)).trans houter
    have hpositioned : (evaluator steps depth).Positioned (evaluator steps depth) false true
        pure (outer.settle (steps + 1)) := {
      toNested := (evaluator_below (Nat.le_refl _) (Nat.le_refl _)).nested
      eval := fun form scope => EvalM.joined_pure_left.mpr (ih hinner form scope)
      leave := fun last scope => by
        rw [EvalM.joined_pure_left]
        change Refines (Step.done <$> (evaluator steps depth).run last scope)
          (outer.settle (steps + 1) (.call last scope))
        rw [← eval_settle, evaluator_steps, settle_call]
        exact .bind (hinner.eval last scope true) (hinner.settle (Nat.le_refl steps))
      done := fun value => by
        rw [settle_done]
        exact .refl _ }
    exact EvalM.joined_pure_left.mp (hpositioned.evalForm form scope)

/-- What a form gives in tail position, to a caller who nests `extra` deep, it also
gives out of tail position if it may nest that much deeper. -/
theorem eval_true_refines {steps steps' depth extra n : Nat} {outer : Evaluator}
    (hsteps : steps ≤ steps') (hn : n ≤ steps' + 1)
    (houter : outer.Below (evaluator steps' extra)) (form : Form) (scope : ScopeId) :
    Refines ((evaluator steps depth).eval form scope true >>= outer.settle n)
      ((evaluator steps' (depth + extra)).eval form scope false) := by
  induction depth generalizing form scope with
  | zero => exact .of_limit rfl _
  | succ depth ih =>
    rw [Nat.succ_add]
    have hdeeper : outer.Below (evaluator steps' (depth + extra)) :=
      houter.trans (evaluator_below (Nat.le_refl steps') (Nat.le_add_left extra depth))
    have hpositioned : (evaluator steps depth).Positioned (evaluator steps' (depth + extra))
        true false (outer.settle n) pure := {
      toNested := (evaluator_below hsteps (Nat.le_add_right depth extra)).nested
      eval := fun form scope => EvalM.joined_pure_right.mpr (ih form scope)
      leave := fun last scope => by
        rw [EvalM.joined_pure_right]
        change Refines (outer.settle n (.call last scope))
          (Step.done <$> (evaluator steps' (depth + extra)).run last scope)
        cases n with
        | zero => exact .of_limit rfl _
        | succ n =>
          rw [← eval_settle, evaluator_steps, settle_call]
          exact .bind (hdeeper.eval last scope true) (hdeeper.settle (by omega))
      done := fun value => by
        rw [settle_done]
        exact .refl _ }
    exact EvalM.joined_pure_right.mp (hpositioned.evalForm form scope)

/-- Out of tail position nothing is left to the caller. -/
theorem eval_false_ne_call (steps depth : Nat) (form called : Form) (scope inner : ScopeId)
    (w w' : World) :
    (evaluator steps depth).eval form scope false w ≠ .ok (.call called inner) w' := by
  intro hcall
  have hbelow : (evaluator steps depth).Below (evaluator steps depth) :=
    evaluator_below (Nat.le_refl steps) (Nat.le_refl depth)
  have hrefines := eval_false_refines hbelow form scope w (by rw [hcall]; exact id)
  rw [hcall] at hrefines
  -- a settled step is finished, whatever the form comes to in tail position
  obtain ⟨step, v, -, hsettle⟩ := EvalM.bind_eq_ok hrefines
  obtain ⟨value, -, hdone⟩ := EvalM.map_eq_ok hsettle
  cases hdone

/-- What is done with a call that is left over does not matter to a value: there is
none. -/
theorem value_eq (steps depth : Nat) (form : Form) (scope : ScopeId)
    (takeUp : Form → ScopeId → EvalM Value) (w : World) :
    (evaluator steps depth).value form scope w =
      (do match ← (evaluator steps depth).eval form scope false with
          | .done value => pure value
          | .call called inner => takeUp called inner) w := by
  change EStateM.bind _ _ w = EStateM.bind _ _ w
  cases h : (evaluator steps depth).eval form scope false w with
  | error fault v => simp only [EStateM.bind, h]
  | ok step v =>
    cases step with
    | call called inner =>
      exact absurd h (eval_false_ne_call steps depth form called scope inner w v)
    | done value =>
      simp only [EStateM.bind, h, finish]
      cases (evaluator steps depth).steps <;> rfl

end Evaluator

/-- Under all limits that are large enough the computation ends in `r`, and it is no
limit that ends it. -/
def EndsIn {α : Type} (m : Evaluator → EvalM α) (w : World)
    (r : EStateM.Result Fault World α) : Prop :=
  ¬ CutShort r ∧
    ∃ limit, ∀ steps depth, limit ≤ steps → limit ≤ depth → m (evaluator steps depth) w = r

/-- What one computation ends in the other one ends in too, if each stage of it is
refined by some stage of the other and later stages of the other keep that. -/
theorem EndsIn.of_refines {α : Type} {m n : Evaluator → EvalM α} {w : World}
    {r : EStateM.Result Fault World α} (h : EndsIn m w r)
    (hrefines : ∀ limit, ∃ limit', ∀ steps depth, limit' ≤ steps → limit' ≤ depth →
      Refines (m (evaluator limit limit)) (n (evaluator steps depth))) :
    EndsIn n w r := by
  obtain ⟨hcut, limit, hends⟩ := h
  obtain ⟨limit', hlimit⟩ := hrefines limit
  refine ⟨hcut, limit', fun steps depth hsteps hdepth => ?_⟩
  have hm := hends limit limit (Nat.le_refl limit) (Nat.le_refl limit)
  rw [hlimit steps depth hsteps hdepth w (by rwa [hm]), hm]

/-- Evaluation out of tail position, and evaluation in tail position with its tail
calls carried out, end in the same results. Out of tail position no call is ever
left over, so none gets into a value. -/
theorem tail_position_immaterial (form : Form) (scope : ScopeId) (w : World) :
    (∀ r, EndsIn (fun ev => ev.eval form scope false) w r ↔
      EndsIn (fun ev => Step.done <$> ev.run form scope) w r) ∧
    (∀ steps depth called inner w',
      (evaluator steps depth).eval form scope false w ≠ .ok (.call called inner) w') ∧
    (∀ steps depth (takeUp : Form → ScopeId → EvalM Value),
      (evaluator steps depth).value form scope w =
        (do match ← (evaluator steps depth).eval form scope false with
            | .done value => pure value
            | .call called inner => takeUp called inner) w) := by
  refine ⟨fun r => ⟨fun h => h.of_refines fun limit => ?_, fun h => h.of_refines fun limit => ?_⟩,
    fun steps depth called inner w' => ?_, fun steps depth takeUp => ?_⟩
  · refine ⟨limit + 1, fun steps depth hsteps hdepth => ?_⟩
    have hbelow : (evaluator limit limit).Below (evaluator steps depth) :=
      evaluator_below (by omega) (by omega)
    have hself : (evaluator steps depth).Below (evaluator steps depth) :=
      evaluator_below (Nat.le_refl steps) (Nat.le_refl depth)
    rw [← Evaluator.eval_settle, evaluator_steps]
    exact (Evaluator.eval_false_refines hbelow form scope).trans
      (.bind (hbelow.eval form scope true) (hself.settle hsteps))
  · refine ⟨limit + limit, fun steps depth hsteps hdepth => ?_⟩
    have hbelow : (evaluator limit limit).Below (evaluator steps (depth - limit)) :=
      evaluator_below (by omega) (by omega)
    obtain ⟨extra, rfl⟩ : ∃ extra, depth = limit + extra := ⟨depth - limit, by omega⟩
    rw [Nat.add_sub_cancel_left] at hbelow
    rw [← Evaluator.eval_settle, evaluator_steps]
    exact Evaluator.eval_true_refines (by omega) (by omega) hbelow form scope
  · exact Evaluator.eval_false_ne_call steps depth form called scope inner w w'
  · exact Evaluator.value_eq steps depth form scope takeUp w

end TowerLisp
