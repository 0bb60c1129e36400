import TowerLisp.Proofs.BodyScopes
import TowerLisp.Proofs.FormSafety
import TowerLisp.Proofs.ShiftedProcedures
import TowerLisp.Proofs.TailPosition

/-!
What the binding forms stand for. A `lets` is a nest of lets with one name each, and a let is the
call of a procedure that is made on the spot. The first two end in the very same worlds, once the
limits on nested evaluation allow for the nest. The call leaves its procedure behind, which nothing
refers to.
-/

namespace TowerLisp

open EvalM (Refines CutShort newFrame endWorld)

namespace Form

/-- A form that binds names of a list and then has a body. -/
def Lets (tag : Tag) (pairs : List (String × Form)) (body : List Form) (form : Form) : Prop :=
  ∃ token list, form = ⟨token, list :: body, true⟩ ∧ token.tag = tag ∧ list.Lists pairs

/-- Lets of one name each, with one inside the other and a body inside them all. -/
inductive Nest : List (String × Form) → List Form → Form → Prop where
  | last {pair : String × Form} {body : List Form} {form : Form} :
      Lets .letAll [pair] body form → Nest [pair] body form
  | cons {pair : String × Form} {rest : List (String × Form)} {body : List Form}
      {inner form : Form} :
      Lets .letAll [pair] [inner] form → Nest rest body inner → Nest (pair :: rest) body form

/-- The call of a procedure, made where it is called, with names for parameters and the forms that
they are bound to for arguments. -/
def CallsNew (pairs : List (String × Form)) (body : List Form) (form : Form) : Prop :=
  ∃ token lambda params,
    form = ⟨token, ⟨lambda, params :: body, true⟩ :: pairs.map Prod.snd, true⟩ ∧
      token.tag = .apply ∧ lambda.tag = .lambda ∧ params.tag = .params ∧
      List.Forall₂ Holds params.parts (pairs.map Prod.fst)

theorem lets_one {item : Form} {pair : String × Form} (h : item.Binds pair) (body : List Form) :
    Lets .letAll [pair] body
      ⟨⟨.letAll, .none, none⟩, ⟨⟨.bindings, .none, none⟩, [item], true⟩ :: body, true⟩ :=
  ⟨_, _, rfl, rfl, rfl, .cons h .nil⟩

/-- What is bound in a list can be bound in a nest. -/
theorem exists_nest {items : List Form} {pairs : List (String × Form)}
    (h : List.Forall₂ Binds items pairs) (hne : pairs ≠ []) (body : List Form) :
    ∃ nested, Nest pairs body nested := by
  induction h with
  | nil => exact absurd rfl hne
  | @cons item pair _ rest hitem _ ih =>
    cases rest with
    | nil => exact ⟨_, .last (lets_one hitem body)⟩
    | cons next others =>
      obtain ⟨inner, hinner⟩ := ih (List.cons_ne_nil _ _)
      exact ⟨_, .cons (lets_one hitem [inner]) hinner⟩

/-- What is bound in a list can be bound in a call. -/
theorem exists_callsNew {items : List Form} {pairs : List (String × Form)}
    (h : List.Forall₂ Binds items pairs) (body : List Form) : ∃ call, CallsNew pairs body call := by
  obtain ⟨names, hnames⟩ : ∃ names, List.Forall₂ Holds names (pairs.map Prod.fst) := by
    induction h with
    | nil => exact ⟨[], .nil⟩
    | cons hitem _ ih =>
      obtain ⟨-, name, -, hname⟩ := hitem
      obtain ⟨names, hnames⟩ := ih
      exact ⟨name :: names, .cons hname hnames⟩
  exact ⟨_, ⟨.apply, .none, none⟩, ⟨.lambda, .none, none⟩, ⟨⟨.params, .none, none⟩, names, true⟩,
    rfl, rfl, rfl, rfl, hnames⟩

end Form

namespace Evaluator

theorem Below.body {ev ev' : Evaluator} (h : Below ev ev') (scope : ScopeId) (tail : Bool)
    (forms : List Form) : Refines (ev.body scope tail forms) (ev'.body scope tail forms) :=
  EvalM.joined_pure.mp ((h.positioned tail).body scope forms)

variable {pair : String × Form} {pairs : List (String × Form)} {body : List Form}
  {form nested call : Form} {steps steps' depth depth' : Nat}

theorem eval_lets (h : form.Lets .letEach pairs body) (steps depth : Nat) (scope : ScopeId)
    (tail : Bool) : (evaluator steps (depth + 1)).eval form scope tail = (do
      let inner ← (evaluator steps depth).bindEach scope pairs
      (evaluator steps depth).body inner tail body) := by
  obtain ⟨token, list, rfl, htoken, hlist⟩ := h
  exact evalForm_letEach_lists _ htoken hlist

theorem eval_let (h : form.Lets .letAll pairs body) (steps depth : Nat) (scope : ScopeId)
    (tail : Bool) : (evaluator steps (depth + 1)).eval form scope tail =
      (evaluator steps depth).values scope (pairs.map Prod.snd) >>=
        (evaluator steps depth).enterLet (pairs.map Prod.fst) body scope tail := by
  obtain ⟨token, list, rfl, htoken, hlist⟩ := h
  exact evalForm_letPlain _ htoken hlist

/-- A let of one name makes the frame that `lets` makes for the name. -/
theorem eval_let_one (h : form.Lets .letAll [pair] body) (steps depth : Nat) (scope : ScopeId)
    (tail : Bool) : (evaluator steps (depth + 1)).eval form scope tail = (do
      let value ← (evaluator steps depth).value pair.2 scope
      let inner ← newFrame scope [(pair.1, value)]
      (evaluator steps depth).body inner tail body) := by
  rw [eval_let h]
  change ((evaluator steps depth).value pair.2 scope >>= fun value =>
    (pure [] : EvalM (List Value)) >>= fun others => pure (value :: others)) >>= _ = _
  simp only [pure_bind, bind_assoc]
  rfl

theorem bindEach_cons {α : Type} (ev : Evaluator) (scope : ScopeId) (pair : String × Form)
    (rest : List (String × Form)) (f : ScopeId → EvalM α) :
    (ev.bindEach scope (pair :: rest) >>= f) = (do
      let value ← ev.value pair.2 scope
      let inner ← newFrame scope [(pair.1, value)]
      ev.bindEach inner rest >>= f) := by
  simp only [bindEach, bind_assoc]

/-- The nest needs one level for each name. -/
theorem lets_refines_nest (h : form.Nest pairs body) (hsteps : steps ≤ steps')
    (hdepth : depth + pairs.length ≤ depth') (scope : ScopeId) (tail : Bool) :
    Refines ((evaluator steps depth).bindEach scope pairs >>= fun inner =>
        (evaluator steps depth).body inner tail body)
      ((evaluator steps' depth').eval form scope tail) := by
  induction h generalizing depth' scope with
  | last hlet =>
    obtain _ | depth' := depth'
    · exact absurd hdepth (Nat.not_succ_le_zero _)
    · have hbelow : (evaluator steps depth).Below (evaluator steps' depth') :=
        evaluator_below hsteps (Nat.le_of_succ_le_succ hdepth)
      rw [bindEach_cons, eval_let_one hlet]
      exact .bind (hbelow.nested.value _ scope) fun value =>
        .bind (.refl _) fun inner => hbelow.body inner tail _
  | cons hlet hnest ih =>
    obtain _ | depth' := depth'
    · exact absurd hdepth (Nat.not_succ_le_zero _)
    · have hrest := Nat.le_of_succ_le_succ hdepth
      have hbelow : (evaluator steps depth).Below (evaluator steps' depth') :=
        evaluator_below hsteps (Nat.le_of_add_right_le hrest)
      rw [bindEach_cons, eval_let_one hlet]
      exact .bind (hbelow.nested.value _ scope) fun value => .bind (.refl _) fun inner =>
        ih hrest inner

/-- The form itself needs no more levels than the nest. -/
theorem nest_refines_lets (h : form.Nest pairs body) (hsteps : steps ≤ steps')
    (hdepth : depth ≤ depth') (scope : ScopeId) (tail : Bool) :
    Refines ((evaluator steps depth).eval form scope tail)
      ((evaluator steps' depth').bindEach scope pairs >>= fun inner =>
        (evaluator steps' depth').body inner tail body) := by
  induction h generalizing depth scope with
  | last hlet =>
    obtain _ | depth := depth
    · exact .of_limit rfl _
    · have hbelow : (evaluator steps depth).Below (evaluator steps' depth') :=
        evaluator_below hsteps (Nat.le_of_succ_le hdepth)
      rw [bindEach_cons, eval_let_one hlet]
      exact .bind (hbelow.nested.value _ scope) fun value =>
        .bind (.refl _) fun inner => hbelow.body inner tail _
  | cons hlet hnest ih =>
    obtain _ | depth := depth
    · exact .of_limit rfl _
    · have hle := Nat.le_of_succ_le hdepth
      have hbelow : (evaluator steps depth).Below (evaluator steps' depth') :=
        evaluator_below hsteps hle
      rw [bindEach_cons, eval_let_one hlet]
      exact .bind (hbelow.nested.value _ scope) fun value =>
        .bind (.refl _) fun inner => ih hle inner

theorem endsIn_nest_iff (hform : form.Lets .letEach pairs body) (hnest : nested.Nest pairs body)
    (scope : ScopeId) (tail : Bool) (w : World) (r : EStateM.Result Fault World Step) :
    EndsIn (fun ev => ev.eval form scope tail) w r ↔
      EndsIn (fun ev => ev.eval nested scope tail) w r := by
  constructor
  · refine fun h => h.of_refines fun limit =>
      ⟨limit + pairs.length, fun steps depth hsteps hdepth => ?_⟩
    cases limit with
    | zero => exact .of_limit rfl _
    | succ limit =>
      rw [eval_lets hform]
      exact lets_refines_nest hnest (by omega) (by omega) scope tail
  · refine fun h => h.of_refines fun limit => ⟨limit + 1, fun steps depth hsteps hdepth => ?_⟩
    obtain ⟨depth, rfl⟩ : ∃ k, depth = k + 1 := ⟨depth - 1, by omega⟩
    rw [eval_lets hform]
    exact nest_refines_lets hnest (by omega) (by omega) scope tail

/-- The values of the arguments are bound in a frame of their own; then come all forms of a body but
the last one. -/
def enterFrame {α : Type} (ev : Evaluator) (names : List String) (fillers : List Form)
    (scope : ScopeId) (rest : ScopeId → EvalM α) (values : List Value) : EvalM α := do
  let inner ← newFrame scope (.ofPairs (names.zip values))
  ev.evaluateEach inner fillers
  rest inner

variable {fillers : List Form} {last : Form}

theorem run_let (h : form.Lets .letAll pairs (fillers ++ [last])) (steps depth : Nat)
    (scope : ScopeId) : (evaluator steps (depth + 1)).run form scope =
      (evaluator steps depth).values scope (pairs.map Prod.snd) >>=
        (evaluator steps depth).enterFrame (pairs.map Prod.fst) fillers scope fun inner =>
          (evaluator steps depth).eval last inner true >>=
            (evaluator steps (depth + 1)).chase steps := by
  have hfinish : (evaluator steps (depth + 1)).finish =
      (evaluator steps (depth + 1)).chase steps := by
    funext step
    rw [finish, evaluator_steps]
  rw [run, eval_let h, bind_assoc, hfinish]
  refine bind_congr fun values => ?_
  simp only [enterLet, body_append, bind_assoc]
  rfl

theorem applyClosure_append (ev : Evaluator) {closure : Closure} {values : List Value}
    (hbody : closure.body = fillers ++ [last])
    (hvalues : values.length = closure.formals.length) :
    ev.applyClosure closure values true =
      ev.enterFrame closure.formals fillers closure.scope (fun inner => pure (.call last inner))
        values := by
  unfold applyClosure
  rw [if_neg (by simp [hvalues]), hbody]
  simp only [List.getLast?_append, List.getLast?_singleton, Option.some_or,
    List.dropLast_concat]
  rfl

theorem enterFrame_bind {α β : Type} (ev : Evaluator) (names : List String)
    (fillers : List Form) (scope : ScopeId) (rest : ScopeId → EvalM α) (f : α → EvalM β)
    (values : List Value) : ev.enterFrame names fillers scope rest values >>= f =
      ev.enterFrame names fillers scope (fun inner => rest inner >>= f) values := by
  simp only [enterFrame, bind_assoc]

theorem finish_call (steps depth : Nat) (form : Form) (scope : ScopeId) :
    (evaluator (steps + 1) depth).finish (.call form scope) =
      (evaluator (steps + 1) depth).eval form scope true >>=
        (evaluator (steps + 1) depth).chase steps := by
  rw [finish, evaluator_steps]
  rfl

/-- A new procedure, which has the first free number. -/
theorem value_lambda {token : Token} {params : Form} {names : List String}
    (htoken : token.tag = .lambda) (hparams : params.tag = .params)
    (hnames : List.Forall₂ Form.Holds params.parts names) (hbody : body ≠ []) (steps depth : Nat)
    (scope : ScopeId) (w : World) :
    (evaluator steps (depth + 1)).value ⟨token, params :: body, true⟩ scope w =
      .ok (.closure w.store.closures.size)
        { w with store := (w.store.addClosure ⟨names, body, scope, none⟩).2 } := by
  obtain ⟨first, rest, rfl⟩ := List.exists_cons_of_ne_nil hbody
  have hmade : lambdaForm (params :: first :: rest) scope w =
      .ok (.done (.closure w.store.closures.size))
        { w with store := (w.store.addClosure ⟨names, first :: rest, scope, none⟩).2 } := by
    rw [lambdaForm, if_pos hparams, mapM_nameOf hnames]
    rfl
  have heval : (evaluator steps (depth + 1)).eval ⟨token, params :: first :: rest, true⟩ scope
      false w = _ := (congrFun (evalForm_lambda (evaluator steps depth) htoken) w).trans hmade
  rw [value, EvalM.bind_of_ok heval, finish_done]
  rfl

/-- The procedure is made first, and it is what is applied in the end. -/
theorem run_call (h : form.CallsNew pairs (fillers ++ [last])) (steps depth : Nat)
    (scope : ScopeId) (w : World) : (evaluator (steps + 1) (depth + 2)).run form scope w =
      ((evaluator (steps + 1) (depth + 1)).values scope (pairs.map Prod.snd) >>=
        (evaluator (steps + 1) (depth + 1)).enterFrame (pairs.map Prod.fst) fillers scope
          fun inner => (evaluator (steps + 1) (depth + 2)).eval last inner true >>=
            (evaluator (steps + 1) (depth + 2)).chase steps)
      { w with store :=
        (w.store.addClosure ⟨pairs.map Prod.fst, fillers ++ [last], scope, none⟩).2 } := by
  obtain ⟨token, lambda, params, rfl, htoken, hlambda, hparams, hnames⟩ := h
  let closure : Closure := ⟨pairs.map Prod.fst, fillers ++ [last], scope, none⟩
  let v : World := { w with store := (w.store.addClosure closure).2 }
  let ev := evaluator (steps + 1) (depth + 1)
  have hmade : ev.value ⟨lambda, params :: (fillers ++ [last]), true⟩ scope w =
      .ok (.closure w.store.closures.size) v :=
    value_lambda hlambda hparams hnames (by simp) (steps + 1) depth scope w
  have heval : (evaluator (steps + 1) (depth + 2)).eval
      ⟨token, ⟨lambda, params :: (fillers ++ [last]), true⟩ :: pairs.map Prod.snd, true⟩ scope
        true = _ := ev.evalForm_apply htoken
  rw [run, heval, bind_assoc, EvalM.bind_of_ok hmade, bind_assoc]
  -- the procedure is looked at after the arguments, when it may have got a name
  change EStateM.bind _ _ v = EStateM.bind _ _ v
  rw [EStateM.bind, EStateM.bind]
  cases hvalues : ev.values scope (pairs.map Prod.snd) v with
  | error fault u => rfl
  | ok values u =>
    have hadded : v.store.closure? w.store.closures.size = some closure :=
      Array.getElem?_push_size
    obtain ⟨name, hclosure⟩ := (extends_values hvalues).closure hadded
    have hlength : values.length = (pairs.map Prod.fst).length := by
      rw [length_of_values hvalues, List.length_map, List.length_map]
    have happly : ev.applyValue (.closure w.store.closures.size) values scope true u =
        ev.enterFrame (pairs.map Prod.fst) fillers scope (fun inner => pure (.call last inner))
          values u := by
      refine (EvalM.bind_of_ok (m := get) rfl).trans ?_
      rw [hclosure]
      exact congrFun (applyClosure_append ev rfl hlength) u
    change EStateM.bind _ _ u = _
    rw [EStateM.bind, happly]
    change (ev.enterFrame _ _ _ _ values >>= _) u = _
    rw [enterFrame_bind]
    simp only [pure_bind, finish_call]
    rfl

theorem Below.enterFrame {α : Type} {ev ev' : Evaluator} (h : Below ev ev') (names : List String)
    (fillers : List Form) (scope : ScopeId) {rest rest' : ScopeId → EvalM α}
    (hrest : ∀ inner, Refines (rest inner) (rest' inner)) (values : List Value) :
    Refines (ev.enterFrame names fillers scope rest values)
      (ev'.enterFrame names fillers scope rest' values) :=
  .bind (.refl _) fun inner => .bind (h.nested.evaluateEach inner fillers) fun _ => hrest inner

/-- With larger limits the arguments, the frame and the body come out the same, and so do the tail
calls that the body leads to. -/
theorem Below.enterBody {ev ev' within within' outer outer' : Evaluator} (h : ev.Below ev')
    (hlast : within.Below within') (houter : outer.Below outer') {n n' : Nat} (hsteps : n ≤ n')
    (pairs : List (String × Form)) (fillers : List Form) (last : Form) (scope : ScopeId) :
    Refines
      (ev.values scope (pairs.map Prod.snd) >>=
        ev.enterFrame (pairs.map Prod.fst) fillers scope fun inner =>
          within.eval last inner true >>= outer.chase n)
      (ev'.values scope (pairs.map Prod.snd) >>=
        ev'.enterFrame (pairs.map Prod.fst) fillers scope fun inner =>
          within'.eval last inner true >>= outer'.chase n') := by
  refine .bind (h.nested.values scope _) (h.enterFrame _ fillers scope fun inner => ?_)
  exact .bind (hlast.eval last inner true) (houter.chase hsteps)

/-- The call spends one more tail call than the let, and nests two levels deeper. -/
theorem endsIn_call_iff (hlet : form.Lets .letAll pairs body) (hcall : call.CallsNew pairs body)
    (hbody : body ≠ []) (scope : ScopeId) (w : World) (r : EStateM.Result Fault World Value) :
    EndsIn (fun ev => ev.run form scope)
        { w with store := (w.store.addClosure ⟨pairs.map Prod.fst, body, scope, none⟩).2 } r ↔
      EndsIn (fun ev => ev.run call scope) w r := by
  obtain ⟨fillers, last, rfl⟩ : ∃ fillers last, body = fillers ++ [last] :=
    ⟨_, _, (List.dropLast_append_getLast hbody).symm⟩
  constructor
  · rintro ⟨hcut, limit, hends⟩
    refine ⟨hcut, limit + 2, fun steps depth hsteps hdepth => ?_⟩
    obtain ⟨steps, rfl⟩ : ∃ k, steps = k + 1 := ⟨steps - 1, by omega⟩
    obtain ⟨depth, rfl⟩ : ∃ k, depth = k + 2 := ⟨depth - 2, by omega⟩
    have hinner : (evaluator limit limit).Below (evaluator (steps + 1) (depth + 1)) :=
      evaluator_below (by omega) (by omega)
    have houter : (evaluator limit (limit + 1)).Below (evaluator (steps + 1) (depth + 2)) :=
      evaluator_below (by omega) (by omega)
    have hlast : (evaluator limit limit).Below (evaluator (steps + 1) (depth + 2)) :=
      evaluator_below (by omega) (by omega)
    have hfound := hends limit (limit + 1) (by omega) (by omega)
    simp only [run_let hlet] at hfound
    simp only [run_call hcall]
    rw [← hfound]
    exact hinner.enterBody hlast houter (by omega) pairs fillers last scope _ (by rwa [hfound])
  · rintro ⟨hcut, limit, hends⟩
    refine ⟨hcut, limit + 3, fun steps depth hsteps hdepth => ?_⟩
    obtain ⟨depth, rfl⟩ : ∃ k, depth = k + 1 := ⟨depth - 1, by omega⟩
    have hinner : (evaluator (limit + 1) (limit + 1)).Below (evaluator steps depth) :=
      evaluator_below (by omega) (by omega)
    have houter : (evaluator (limit + 1) (limit + 2)).Below (evaluator steps (depth + 1)) :=
      evaluator_below (by omega) (by omega)
    have hlast : (evaluator (limit + 1) (limit + 2)).Below (evaluator steps depth) :=
      evaluator_below (by omega) (by omega)
    have hfound := hends (limit + 1) (limit + 2) (by omega) (by omega)
    simp only [run_call hcall] at hfound
    simp only [run_let hlet]
    rw [← hfound]
    exact hinner.enterBody hlast houter (by omega) pairs fillers last scope _ (by rwa [hfound])

/-- A finished step is its value, whoever takes it up. -/
theorem map_done_finish (ev : Evaluator) (m : EvalM Value) : Step.done <$> m >>= ev.finish = m := by
  simp only [map_eq_pure_bind, bind_assoc, pure_bind, finish_done, bind_pure]

/-- The value of a form is what the form comes to when it is run. -/
theorem endsIn_value_iff (form : Form) (scope : ScopeId) (w : World)
    (r : EStateM.Result Fault World Value) :
    EndsIn (fun ev => ev.value form scope) w r ↔ EndsIn (fun ev => ev.run form scope) w r := by
  constructor
  · refine fun h => h.of_refines fun limit => ⟨limit + 1, fun steps depth hsteps hdepth => ?_⟩
    have hbelow : (evaluator limit limit).Below (evaluator steps depth) :=
      evaluator_below (by omega) (by omega)
    have hself : (evaluator steps depth).Below (evaluator steps depth) :=
      evaluator_below (Nat.le_refl _) (Nat.le_refl _)
    have hvalue := Refines.bind (eval_false_refines hbelow form scope)
      fun step => Refines.refl ((evaluator limit limit).finish step)
    simp only [bind_assoc, settle, map_done_finish] at hvalue
    refine hvalue.trans (.bind (hbelow.eval form scope true) fun step => ?_)
    rw [finish, evaluator_steps]
    exact hself.chase hsteps step
  · refine fun h => h.of_refines fun limit => ⟨limit + limit, fun steps depth hsteps hdepth => ?_⟩
    obtain ⟨extra, rfl⟩ : ∃ extra, depth = limit + extra := ⟨depth - limit, by omega⟩
    have hbelow : (evaluator limit limit).Below (evaluator steps extra) :=
      evaluator_below (by omega) (by omega)
    have hrun : Refines (Step.done <$> (evaluator limit limit).run form scope)
        ((evaluator steps (limit + extra)).eval form scope false) := by
      rw [← eval_settle, evaluator_steps]
      exact eval_true_refines (by omega) (by omega) hbelow form scope
    have hfinish := Refines.bind hrun
      fun step => Refines.refl ((evaluator steps (limit + extra)).finish step)
    rwa [map_done_finish] at hfinish

end Evaluator

namespace Mirror

variable {M : Mirror} {α : Type} {R : α → α → Prop}

theorem Ends.cutShort_iff {r r' : EStateM.Result Fault World α} (h : M.Ends R r r') :
    CutShort r' ↔ CutShort r := by
  cases h <;> exact Iff.rfl

/-- Where one store shows the other, both sides come to an end or neither does. -/
theorem Runs.endsIn {m : Evaluator → EvalM α} (hruns : ∀ steps depth,
      M.Runs R (m (evaluator steps depth)) (m (evaluator steps depth)))
    (hmono : ∀ {ev ev' : Evaluator}, ev.Below ev' → Refines (m ev) (m ev')) {w : World} {t : Store}
    (hshows : M.Shows w.store t) :
    (∀ r, EndsIn m w r → ∃ r', M.Ends R r r' ∧ EndsIn m { w with store := t } r') ∧
    (∀ r', EndsIn m { w with store := t } r' → ∃ r, M.Ends R r r' ∧ EndsIn m w r) := by
  constructor
  · rintro r ⟨hcut, limit, hends⟩
    have hall := hruns limit limit w t hshows
    rw [hends limit limit (Nat.le_refl _) (Nat.le_refl _)] at hall
    have hcut' := fun h => hcut (hall.cutShort_iff.mp h)
    exact ⟨_, hall, hcut', limit, fun steps depth hsteps hdepth =>
      hmono (evaluator_below hsteps hdepth) _ hcut'⟩
  · rintro r' ⟨hcut, limit, hends⟩
    have hall := hruns limit limit w t hshows
    rw [hends limit limit (Nat.le_refl _) (Nat.le_refl _)] at hall
    have hcut' := fun h => hcut (hall.cutShort_iff.mpr h)
    exact ⟨_, hall, hcut', limit, fun steps depth hsteps hdepth =>
      hmono (evaluator_below hsteps hdepth) _ hcut'⟩

end Mirror

/-- Results that are the same but for the numbers of procedures: the same value or fault, in worlds
with the same output, in which the same is seen through a scope. -/
structure SameUpToNumbers (n : ClosureId) (scope : ScopeId)
    (r r' : EStateM.Result Fault World Value) : Prop where
  ends : (Mirror.shifting n).Ends (Mirror.shifting n).Image r r'
  output_eq : (endWorld r').output = (endWorld r).output
  lookup?_eq : ∀ name, (endWorld r').store.lookup? scope name =
    ((endWorld r).store.lookup? scope name).map (Value.renumber (shift n))

theorem Mirror.Ends.sameUpToNumbers {n : ClosureId} {r r' : EStateM.Result Fault World Value}
    (h : (Mirror.shifting n).Ends (Mirror.shifting n).Image r r') (scope : ScopeId) :
    SameUpToNumbers n scope r r' := by
  refine ⟨h, ?_, fun name => ?_⟩
  · cases h <;> rfl
  · cases h with
    | value hshows _ => exact Store.Shifted.lookup?_eq hshows scope name
    | fault _ hshows => exact Store.Shifted.lookup?_eq hshows scope name

/-- Two computations come to the same results, but for the numbers of procedures. -/
def AgreeUpToNumbers (n : ClosureId) (scope : ScopeId) (m m' : Evaluator → EvalM Value)
    (w : World) : Prop :=
  (∀ r, EndsIn m w r → ∃ r', SameUpToNumbers n scope r r' ∧ EndsIn m' w r') ∧
    ∀ r', EndsIn m' w r' → ∃ r, SameUpToNumbers n scope r r' ∧ EndsIn m w r

theorem Evaluator.agree_run {pairs : List (String × Form)} {body : List Form} {form call : Form}
    (hlet : form.Lets .letAll pairs body) (hcall : call.CallsNew pairs body) (hbody : body ≠ [])
    {w : World} (hclosed : w.store.Closed) (scope : ScopeId) :
    AgreeUpToNumbers w.store.closures.size scope (fun ev => ev.run form scope)
      (fun ev => ev.run call scope) w := by
  obtain ⟨hto, hback⟩ := Mirror.Runs.endsIn
    (fun steps depth => (mirrored_shifting w.store.closures.size steps depth).run form trivial)
    (fun hbelow => hbelow.nested.run form scope)
    (hclosed.shifted ⟨pairs.map Prod.fst, body, scope, none⟩)
  have hiff := endsIn_call_iff hlet hcall hbody scope w
  constructor
  · intro r hr
    obtain ⟨r', hends, hr'⟩ := hto r hr
    exact ⟨r', hends.sameUpToNumbers scope, (hiff r').mp hr'⟩
  · intro r' hr'
    obtain ⟨r, hends, hr⟩ := hback r' ((hiff r').mpr hr')
    exact ⟨r, hends.sameUpToNumbers scope, hr⟩

/-- The binding forms come to what they stand for, under all limits that are large enough. A `lets`
ends, in either position, in the very results of the lets nested in each other. A let ends in the
results of the call, as a value and when it is run, but for the numbers that procedures get after
the one that is called. The names of the world may stand for no other procedures than those that it
has, as in a session by `Session.closed_feed`. -/
theorem binding_forms_desugar (pairs : List (String × Form)) (body : List Form) (scope : ScopeId)
    (w : World) :
    (∀ form nested, form.Lets .letEach pairs body → nested.Nest pairs body → ∀ tail r,
      EndsIn (fun ev => ev.eval form scope tail) w r ↔
        EndsIn (fun ev => ev.eval nested scope tail) w r) ∧
    (body ≠ [] → w.store.Closed → ∀ form call, form.Lets .letAll pairs body →
      call.CallsNew pairs body →
      AgreeUpToNumbers w.store.closures.size scope (fun ev => ev.value form scope)
        (fun ev => ev.value call scope) w ∧
      AgreeUpToNumbers w.store.closures.size scope (fun ev => ev.run form scope)
        (fun ev => ev.run call scope) w) := by
  refine ⟨fun form nested hform hnested tail r =>
    Evaluator.endsIn_nest_iff hform hnested scope tail w r, ?_⟩
  intro hbody hclosed form call hlet hcall
  have hrun := Evaluator.agree_run hlet hcall hbody hclosed scope
  refine ⟨⟨fun r hr => ?_, fun r' hr' => ?_⟩, hrun⟩
  · obtain ⟨r', hsame, hr'⟩ := hrun.1 r ((Evaluator.endsIn_value_iff form scope w r).mp hr)
    exact ⟨r', hsame, (Evaluator.endsIn_value_iff call scope w r').mpr hr'⟩
  · obtain ⟨r, hsame, hr⟩ := hrun.2 r' ((Evaluator.endsIn_value_iff call scope w r').mp hr')
    exact ⟨r, hsame, (Evaluator.endsIn_value_iff form scope w r).mpr hr⟩

/-- A `lets` and a let of two names, as they are read. -/
theorem binding_forms_desugar_read :
    let each := (Reader.readFormsWithin 9 "(lets ((a 1) (b a)) b)".toList).1.headD
      (.leaf ⟨.eof, .none, none⟩)
    let all := (Reader.readFormsWithin 9 "(let ((a 1) (b 2)) (define c b) c)".toList).1.headD
      (.leaf ⟨.eof, .none, none⟩)
    let w := Session.initial .empty ⟨[]⟩ []
    (∃ pairs body nested, each.Lets .letEach pairs body ∧ nested.Nest pairs body ∧ ∀ tail r,
      EndsIn (fun ev => ev.eval each Session.top tail) w r ↔
        EndsIn (fun ev => ev.eval nested Session.top tail) w r) ∧
    ∃ pairs body call, body ≠ [] ∧ w.store.Closed ∧ all.Lets .letAll pairs body ∧
      call.CallsNew pairs body ∧
      AgreeUpToNumbers w.store.closures.size Session.top (fun ev => ev.value all Session.top)
        (fun ev => ev.value call Session.top) w := by
  intro each all w
  -- what is asked of one text is asked together, so that it is read once
  obtain ⟨hread, heachTag, hsome⟩ :
      (Reader.readFormsWithin 9 "(lets ((a 1) (b a)) b)".toList).1.isEmpty = false ∧
        each.tag = .letEach ∧
        (each.parts.headD (.leaf ⟨.eof, .none, none⟩)).parts.isEmpty = false := by
    decide +kernel
  obtain ⟨hread', hallTag, hfirst⟩ :
      (Reader.readFormsWithin 9 "(let ((a 1) (b 2)) (define c b) c)".toList).1.isEmpty = false ∧
        all.tag = .letAll ∧ all.parts.head?.map Form.tag = some .bindings := by
    decide +kernel
  have heach : each ∈ (Reader.readFormsWithin 9 "(lets ((a 1) (b a)) b)".toList).1 :=
    Reader.headD_mem hread _
  have hall : all ∈ (Reader.readFormsWithin 9 "(let ((a 1) (b 2)) (define c b) c)".toList).1 :=
    Reader.headD_mem hread' _
  constructor
  · obtain ⟨token, list, pairs, body, hform, htoken, hlist, -⟩ :=
      (Form.HasCode.here.shaped heach).letOther (.inl heachTag)
    have hne : pairs ≠ [] := by
      rintro rfl
      rw [hform] at hsome
      have hnone : list.parts = [] := List.forall₂_nil_right_iff.mp hlist.binds
      simp [hnone] at hsome
    obtain ⟨nested, hnested⟩ := Form.exists_nest hlist.binds hne body
    have hlets : each.Lets .letEach pairs body :=
      ⟨token, list, hform, htoken.trans heachTag, hlist⟩
    exact ⟨pairs, body, nested, hlets, hnested,
      (binding_forms_desugar pairs body Session.top w).1 each nested hlets hnested⟩
  · obtain ⟨token, list, pairs, body, hform, htoken, hlist, hbody⟩ |
      ⟨token, name, list, label, pairs, body, hform, htoken, hname, hlist, -⟩ :=
      (Form.HasCode.here.shaped hall).letAll hallTag
    · have hclosed : w.store.Closed := Session.closed_initial _ _ _
      obtain ⟨call, hcall⟩ := Form.exists_callsNew hlist.binds body
      have hlet : all.Lets .letAll pairs body := ⟨token, list, hform, htoken, hlist⟩
      exact ⟨pairs, body, call, hbody, hclosed, hlet, hcall,
        ((binding_forms_desugar pairs body Session.top w).2 hbody hclosed all call hlet hcall).1⟩
    · -- the first part is the list, and not a name
      obtain ⟨_, rfl, hsymbol, -⟩ := hname
      rw [hform] at hfirst
      cases hsymbol.symm.trans (Option.some.inj hfirst)

end TowerLisp
