import TowerLisp.Proofs.LimitRefinement

/-!
Budgets for nested evaluation. A computation stays within a budget if it comes to its result
whatever deeper levels there are, and however far chains of tail calls may go beyond some length.
A chain of tail calls is carried out on one level: if each of its steps stays within a budget then
so does the whole chain, and its length does not matter.
-/

namespace TowerLisp

variable {α β : Type} {budget : Nat} {w w' w'' : World}

/-- At every depth that is not below the budget a computation ends in `a` and in the world `w'`,
as soon as chains of tail calls may be long enough. -/
def Within (budget : Nat) (m : Evaluator → EvalM α) (w : World) (a : α) (w' : World) : Prop :=
  ∃ length, ∀ steps depth, length ≤ steps → budget ≤ depth → m (evaluator steps depth) w = .ok a w'

namespace Within

variable {m : Evaluator → EvalM α} {f : Evaluator → α → EvalM β} {a : α} {b : β}

theorem mono {budget' : Nat} (h : Within budget m w a w') (hle : budget ≤ budget') :
    Within budget' m w a w' := by
  obtain ⟨length, h⟩ := h
  exact ⟨length, fun steps depth hsteps hdepth => h steps depth hsteps (Nat.le_trans hle hdepth)⟩

/-- What nests nothing stays within every budget. -/
theorem of_eq (h : ∀ ev, m ev w = .ok a w') : Within budget m w a w' :=
  ⟨0, fun _ _ _ _ => h _⟩

theorem pure (a : α) : Within budget (fun _ => Pure.pure a) w a w :=
  of_eq fun _ => rfl

theorem bind (hm : Within budget m w a w') (hf : Within budget (fun ev => f ev a) w' b w'') :
    Within budget (fun ev => m ev >>= f ev) w b w'' := by
  obtain ⟨length, hm⟩ := hm
  obtain ⟨length', hf⟩ := hf
  refine ⟨max length length', fun steps depth hsteps hdepth => ?_⟩
  exact EvalM.bind_eq_ok_iff.mpr ⟨a, w', hm steps depth (by omega) hdepth,
    hf steps depth (by omega) hdepth⟩

/-- What comes after a part that nests nothing. -/
theorem after (hm : ∀ ev, m ev w = .ok a w')
    (h : Within budget (fun ev => m ev >>= f ev) w b w'') :
    Within budget (fun ev => f ev a) w' b w'' := by
  obtain ⟨length, h⟩ := h
  refine ⟨length, fun steps depth hsteps hdepth => ?_⟩
  obtain ⟨a', v, hfirst, hrest⟩ := EvalM.bind_eq_ok_iff.mp (h steps depth hsteps hdepth)
  cases (hm _).symm.trans hfirst
  exact hrest

section Levels

variable {form : Form} {scope : ScopeId} {tail : Bool} {step : Step} {procedure : Value}
  {arguments : List Value}

/-- A form takes one level more than what is nested in it. -/
theorem eval (h : Within budget (fun ev => ev.evalForm form scope tail) w step w') :
    Within (budget + 1) (fun ev => ev.eval form scope tail) w step w' := by
  obtain ⟨length, h⟩ := h
  refine ⟨length, fun steps depth hsteps hdepth => ?_⟩
  obtain ⟨inner, rfl⟩ : ∃ inner, depth = inner + 1 := ⟨depth - 1, by omega⟩
  exact h steps inner hsteps (by omega)

theorem evalForm (h : Within budget (fun ev => ev.eval form scope tail) w step w') :
    Within budget (fun ev => ev.evalForm form scope tail) w step w' := by
  obtain ⟨length, h⟩ := h
  exact ⟨length, fun steps depth hsteps hdepth => h steps (depth + 1) hsteps (by omega)⟩

theorem apply
    (h : Within budget (fun ev => ev.applyValue procedure arguments scope tail) w step w') :
    Within (budget + 1) (fun ev => ev.apply procedure arguments scope tail) w step w' := by
  obtain ⟨length, h⟩ := h
  refine ⟨length, fun steps depth hsteps hdepth => ?_⟩
  obtain ⟨inner, rfl⟩ : ∃ inner, depth = inner + 1 := ⟨depth - 1, by omega⟩
  exact h steps inner hsteps (by omega)

end Levels

section Forms

variable {form : Form} {forms : List Form} {scope : ScopeId} {tail : Bool} {v : Value}
  {values : List Value} {step : Step}

theorem finish_done (v : Value) : Within budget (fun ev => ev.finish (.done v)) w v w := by
  refine of_eq fun ev => ?_
  rw [Evaluator.finish, Evaluator.chase]
  rfl

theorem value (h : Within budget (fun ev => ev.eval form scope false) w (.done v) w') :
    Within budget (fun ev => ev.value form scope) w v w' :=
  h.bind (finish_done v)

theorem values_nil : Within budget (fun ev => ev.values scope []) w [] w :=
  pure []

theorem values_cons (h : Within budget (fun ev => ev.value form scope) w v w')
    (hrest : Within budget (fun ev => ev.values scope forms) w' values w'') :
    Within budget (fun ev => ev.values scope (form :: forms)) w (v :: values) w'' :=
  h.bind (hrest.bind (pure (v :: values)))

theorem body_last (h : Within budget (fun ev => ev.eval form scope tail) w step w') :
    Within budget (fun ev => ev.body scope tail [form]) w step w' := by
  simpa only [Evaluator.body] using h

end Forms

end Within

/-- Evaluation goes from a step to a later one by carrying out calls in tail position, each of
them within a budget. -/
inductive Chain (budget : Nat) : Step → World → Step → World → Prop where
  | refl (step : Step) (w : World) : Chain budget step w step w
  | call {form : Form} {scope : ScopeId} {next last : Step} {w w' w'' : World} :
      Within budget (fun ev => ev.eval form scope true) w next w' →
      Chain budget next w' last w'' → Chain budget (.call form scope) w last w''

namespace Chain

variable {step next last : Step} {v : Value}

theorem mono {budget' : Nat} (h : Chain budget step w last w') (hle : budget ≤ budget') :
    Chain budget' step w last w' := by
  induction h with
  | refl step w => exact .refl step w
  | call hform _ ih => exact .call (hform.mono hle) ih

theorem trans (h : Chain budget step w next w') (h' : Chain budget next w' last w'') :
    Chain budget step w last w'' := by
  induction h with
  | refl step w => exact h'
  | call hform _ ih => exact .call hform (ih h')

/-- A chain whose steps stay within a budget is carried out within it. -/
theorem finish (h : Chain budget step w (.done v) w') :
    Within budget (fun ev => ev.finish step) w v w' := by
  suffices ∃ length, ∀ n steps depth, length ≤ n → length ≤ steps → budget ≤ depth →
      (evaluator steps depth).chase n step w = .ok v w' by
    obtain ⟨length, hchase⟩ := this
    refine ⟨length, fun steps depth hsteps hdepth => ?_⟩
    change (evaluator steps depth).chase (evaluator steps depth).steps step w = _
    rw [evaluator_steps]
    exact hchase steps steps depth hsteps hsteps hdepth
  generalize hlast : Step.done v = last at h
  induction h with
  | refl step w =>
    subst hlast
    refine ⟨0, fun n steps depth _ _ _ => ?_⟩
    rw [Evaluator.chase]
    rfl
  | @call form scope next last w w' w'' hform _ ih =>
    obtain ⟨length, hform⟩ := hform
    obtain ⟨length', hrest⟩ := ih hlast
    -- one call more than the rest of the chain
    refine ⟨max length (length' + 1), fun n steps depth hn hsteps hdepth => ?_⟩
    obtain ⟨m, rfl⟩ : ∃ m, n = m + 1 := ⟨n - 1, by omega⟩
    exact EvalM.bind_eq_ok_iff.mpr ⟨next, w', hform steps depth (by omega) hdepth,
      hrest m steps depth (by omega) (by omega) hdepth⟩

/-- A form whose tail calls stay within a budget is run within it. -/
theorem run {form : Form} {scope : ScopeId}
    (h : Within budget (fun ev => ev.eval form scope true) w step w')
    (hrest : Chain budget step w' (.done v) w'') :
    Within budget (fun ev => ev.run form scope) w v w'' :=
  h.bind hrest.finish

theorem run_call {form : Form} {scope : ScopeId}
    (h : Chain budget (.call form scope) w (.done v) w') :
    Within budget (fun ev => ev.run form scope) w v w' := by
  cases h with
  | call hform hrest => exact run hform hrest

end Chain

/-- What an evaluator comes to from a step by carrying out calls in tail position. -/
inductive Evaluator.Follows (ev : Evaluator) : Step → World → Step → World → Prop where
  | refl (step : Step) (w : World) : ev.Follows step w step w
  | call {form : Form} {scope : ScopeId} {next last : Step} {w w' w'' : World} :
      ev.eval form scope true w = .ok next w' → ev.Follows next w' last w'' →
      ev.Follows (.call form scope) w last w''

/-- A chain is cut short by the limit on nested evaluation only where one of its steps is. -/
theorem Evaluator.chase_ne_tooDeep {ev : Evaluator} {step : Step}
    (h : ∀ form scope v, ev.Follows step w (.call form scope) v →
      ∀ u, ev.eval form scope true v ≠ .error (.breakdown .tooDeep) u) (n : Nat) (u : World) :
    ev.chase n step w ≠ .error (.breakdown .tooDeep) u := by
  induction n generalizing step w with
  | zero =>
    cases step with
    | done value => exact nofun
    | call form scope => exact nofun
  | succ n ih =>
    cases step with
    | done value => exact nofun
    | call form scope =>
      intro hchase
      change EStateM.bind (ev.eval form scope true) (ev.chase n) w = _ at hchase
      unfold EStateM.bind at hchase
      cases heval : ev.eval form scope true w with
      | error fault v =>
        rw [heval] at hchase
        cases hchase
        exact h form scope w (.refl _ _) u heval
      | ok next v =>
        rw [heval] at hchase
        exact ih (fun form scope v' hfollows => h form scope v' (.call heval hfollows)) hchase

end TowerLisp
