import TowerLisp.Proofs.BindingForms
import TowerLisp.Proofs.MirroredRuns
import TowerLisp.Proofs.ParallelEvaluation

/-!
Evaluation in two stores. Two evaluators mirror each other if they end alike wherever one store
shows the other; then so do the levels of evaluation on top of them. How names are looked up and
what a call of `import` does is left open on both sides, so that one side may look names up in a
way of its own. With the lookup and the `import` of the language in their places, each side is
the evaluator of the language.
-/

namespace TowerLisp

open EvalM (lift)

namespace Evaluator

/-- How a name is looked up in a scope. -/
abbrev Lookup := ScopeId → String → EvalM Value

/-- One level of evaluation in which names are looked up by `look`, and calls of `import` are
left to `sub`. -/
def evalFormVia (look : Lookup) (sub : Import) (ev : Evaluator) (form : Form) (scope : ScopeId)
    (tail : Bool) : EvalM Step :=
  match form.compound, form.tag, form.parts with
  | false, .symbol, _ | false, .operator, _ => do
    return .done (← look scope (← lift form.token.payload.written))
  | true, .symbol, parts | true, .operator, parts => do
    let procedure ← look scope (← lift form.token.payload.written)
    let arguments ← ev.values scope parts
    ev.applyWith sub procedure arguments scope tail
  | true, .apply, head :: operands => do
    let procedure ← ev.value head scope
    let arguments ← ev.values scope operands
    ev.applyWith sub procedure arguments scope tail
  | _, _, _ => ev.evalForm form scope tail

def nextVia (look : Lookup) (sub : Import) (ev : Evaluator) : Evaluator where
  steps := ev.steps
  eval := ev.evalFormVia look sub
  apply := ev.applyWith sub

theorem applyWith_of_not (sub : Import) (ev : Evaluator) {procedure : Value}
    {arguments : List Value} {scope : ScopeId} {tail : Bool}
    (h : ¬ ∃ value, procedure = .primitive .importSource ∧ arguments = [value]) :
    ev.applyWith sub procedure arguments scope tail =
      ev.applyValue procedure arguments scope tail := by
  unfold applyWith
  split
  · exact absurd ⟨_, rfl, rfl⟩ h
  · rfl

theorem evalFormVia_lookup (sub : Import) (ev : Evaluator) :
    ev.evalFormVia EvalM.lookup sub = ev.evalFormWith sub := by
  funext form scope tail
  obtain ⟨⟨tag, payload, place⟩, parts, compound⟩ := form
  cases compound with
  | false =>
    cases tag
    case symbol | operator =>
      exact (bind_assoc (lift payload.written) (EvalM.lookup scope)
        fun v => pure (Step.done v)).symm
    all_goals rfl
  | true => cases tag <;> first | rfl | (cases parts <;> rfl)

end Evaluator

/-- The evaluator in which names are looked up by `look`, and calls of `import` are left to
`sub`. -/
def evaluatorVia (look : Evaluator.Lookup) (sub : Evaluator.Import) (steps : Nat) :
    (depth : Nat) → Evaluator
  | 0 => .refuse steps
  | depth + 1 => (evaluatorVia look sub steps depth).nextVia look sub

/-- With the lookup of the language this is the evaluator of the language, but for `import`. -/
theorem evaluatorVia_lookup (sub : Evaluator.Import) (steps depth : Nat) :
    evaluatorVia EvalM.lookup sub steps depth = evaluatorWith sub steps depth := by
  induction depth with
  | zero => rfl
  | succ depth ih =>
    rw [evaluatorVia, evaluatorWith, ih, Evaluator.nextVia, Evaluator.evalFormVia_lookup]
    rfl

namespace Mirror

/-- Evaluators that end alike wherever one store shows the other. -/
structure Mirrored (M : Mirror) (ev ev' : Evaluator) : Prop where
  steps : ev'.steps = ev.steps
  eval : ∀ (form : Form) {scope : ScopeId} (tail : Bool), M.Admits scope →
    M.Runs M.SameStep (ev.eval form scope tail) (ev'.eval form scope tail)
  apply : ∀ (procedure : Value) (arguments : List Value) {scope : ScopeId} (tail : Bool),
    M.Admits scope → M.Runs M.SameStep (ev.apply procedure arguments scope tail)
      (ev'.apply (procedure.renumber M.renumber) (arguments.map (Value.renumber M.renumber))
        scope tail)

/-- Names with values and the renumbered ones. -/
abbrev ImagesOf (M : Mirror) (as bs : List (String × Value)) : Prop :=
  bs = as.map (Prod.map id (Value.renumber M.renumber))

theorem runs_evalLeaf {M : Mirror} (tag : Tag) (payload : Payload) (place : Option Place)
    {scope : ScopeId} (hsymbol : tag ≠ .symbol) (hoperator : tag ≠ .operator) :
    M.Runs M.Image (Evaluator.evalLeaf ⟨tag, payload, place⟩ scope)
      (Evaluator.evalLeaf ⟨tag, payload, place⟩ scope) := by
  cases tag
  case number => exact .liftFixed (Form.map_numberValue _ payload)
  case string | character => exact .liftFixed (Form.map_stringValue _ payload)
  case boolean => exact runs_answer _
  case symbol => exact absurd rfl hsymbol
  case operator => exact absurd rfl hoperator
  case eof | empty => exact .pure rfl
  all_goals exact (Runs.liftSame _).both fun _ => .throw _

theorem runs_quoteForm {M : Mirror} (parts : List Form) :
    M.Runs M.SameStep (Evaluator.quoteForm parts) (Evaluator.quoteForm parts) := by
  unfold Evaluator.quoteForm
  split
  · exact (Runs.liftFixed (Form.map_datum _ _)).done
  · exact .throw _

theorem runs_lambdaForm {M : Mirror} (parts : List Form) (scope : ScopeId) :
    M.Runs M.SameStep (Evaluator.lambdaForm parts scope) (Evaluator.lambdaForm parts scope) := by
  unfold Evaluator.lambdaForm
  split
  · split
    · exact (Runs.liftSame _).both fun formals =>
        (runs_newClosure _).andThen fun id => .pure (.done (.closure id))
    · exact .throw _
  · exact .throw _

namespace Mirrored

variable {M : Mirror} {ev ev' : Evaluator} (h : M.Mirrored ev ev') {scope : ScopeId}

include h

theorem chase (n : Nat) {step step' : Step} (hstep : M.SameStep step step') :
    M.Runs M.Image (ev.chase n step) (ev'.chase n step') := by
  induction n generalizing step step' with
  | zero =>
    cases hstep with
    | done value => exact .pure rfl
    | call form hscope => exact .throw _
  | succ n ih =>
    cases hstep with
    | done value => exact .pure rfl
    | call form hscope => exact (h.eval form true hscope).bind fun hnext => ih hnext

theorem finish {step step' : Step} (hstep : M.SameStep step step') :
    M.Runs M.Image (ev.finish step) (ev'.finish step') := by
  unfold Evaluator.finish
  rw [h.steps]
  exact h.chase ev.steps hstep

theorem value (form : Form) (hscope : M.Admits scope) :
    M.Runs M.Image (ev.value form scope) (ev'.value form scope) :=
  (h.eval form false hscope).bind fun hstep => h.finish hstep

theorem run (form : Form) (hscope : M.Admits scope) :
    M.Runs M.Image (ev.run form scope) (ev'.run form scope) :=
  (h.eval form true hscope).bind fun hstep => h.finish hstep

theorem values (forms : List Form) (hscope : M.Admits scope) :
    M.Runs M.Images (ev.values scope forms) (ev'.values scope forms) := by
  induction forms with
  | nil => exact .pure rfl
  | cons form rest ih =>
    exact (h.value form hscope).andThen fun first => ih.andThen fun others => .pure rfl

theorem evaluateEach (forms : List Form) (hscope : M.Admits scope) :
    M.Runs Eq (ev.evaluateEach scope forms) (ev'.evaluateEach scope forms) := by
  induction forms with
  | nil => exact .pure rfl
  | cons form rest ih => exact (h.value form hscope).andThen fun _ => ih

theorem runAll (forms : List Form) (hscope : M.Admits scope) (last : Value) :
    M.Runs M.Image (ev.runAll scope last forms)
      (ev'.runAll scope (last.renumber M.renumber) forms) := by
  induction forms generalizing last with
  | nil => exact .pure rfl
  | cons form rest ih => exact (h.run form hscope).andThen fun value => ih value

theorem body (forms : List Form) (hscope : M.Admits scope) (tail : Bool) :
    M.Runs M.SameStep (ev.body scope tail forms) (ev'.body scope tail forms) := by
  induction forms with
  | nil => exact .pure (.done .nil)
  | cons form rest ih =>
    cases rest with
    | nil => exact h.eval form tail hscope
    | cons next rest => exact (h.value form hscope).andThen fun _ => ih

theorem clauses (forms : List Form) (hscope : M.Admits scope) (tail : Bool) :
    M.Runs M.SameStep (ev.clauses scope tail forms) (ev'.clauses scope tail forms) := by
  induction forms with
  | nil => exact .throw _
  | cons clause rest ih =>
    unfold Evaluator.clauses
    cases clause.parts with
    | nil => exact .throw _
    | cons test forms =>
      refine (h.value test hscope).andThen fun value => ?_
      rw [Value.isTrue_renumber]
      split
      · split
        · exact .pure (.done value)
        · exact h.body forms hscope tail
      · exact ih

theorem condForm (parts : List Form) (hscope : M.Admits scope) (tail : Bool) :
    M.Runs M.SameStep (ev.condForm parts scope tail) (ev'.condForm parts scope tail) := by
  cases parts with
  | nil => exact .throw _
  | cons clause rest => exact h.clauses (clause :: rest) hscope tail

theorem evalList (parts : List Form) (hscope : M.Admits scope) :
    M.Runs M.Image (ev.evalList parts scope) (ev'.evalList parts scope) := by
  unfold Evaluator.evalList
  cases parts.getLast? with
  | none => exact .pure rfl
  | some last =>
    dsimp only
    split
    · cases last.parts with
      | nil => exact .throw _
      | cons form rest =>
        exact (h.value form hscope).andThen fun tail => (h.values _ hscope).andThen fun items =>
          .pure (Value.renumber_ofList _ items tail).symm
    · exact (h.values parts hscope).andThen fun items => .pure (Value.renumber_list _ items).symm

theorem bindingValues (pairs : List (String × Form)) (hscope : M.Admits scope) :
    M.Runs M.ImagesOf (ev.bindingValues scope pairs) (ev'.bindingValues scope pairs) := by
  induction pairs with
  | nil => exact .pure rfl
  | cons pair rest ih =>
    exact (h.value pair.2 hscope).andThen fun value => ih.andThen fun others => .pure rfl

theorem bindEach (pairs : List (String × Form)) (hscope : M.Admits scope) :
    M.Runs M.SameScope (ev.bindEach scope pairs) (ev'.bindEach scope pairs) := by
  induction pairs generalizing scope with
  | nil => exact .pure ⟨rfl, hscope⟩
  | cons pair rest ih =>
    refine (h.value pair.2 hscope).andThen fun value => ?_
    refine (runs_newFrame scope [(pair.1, value)]).bind fun {inner inner'} hinner => ?_
    obtain ⟨rfl, hadmits⟩ := hinner
    exact ih hadmits

theorem bindRec (pairs : List (String × Form)) (hscope : M.Admits scope) {frame : FrameId}
    (hframe : M.Opens frame) :
    M.Runs Eq (ev.bindRec scope frame pairs) (ev'.bindRec scope frame pairs) := by
  induction pairs with
  | nil => exact .pure rfl
  | cons pair rest ih =>
    exact (h.value pair.2 hscope).andThen fun value => (runs_nameValue pair.1 value).both fun _ =>
      (runs_bindIn hframe pair.1 value).both fun _ => ih

mutual

theorem quasi (template : Form) (depth : Nat) (hscope : M.Admits scope) :
    M.Runs M.Image (ev.quasi scope depth template) (ev'.quasi scope depth template) := by
  obtain ⟨token, parts, compound⟩ := template
  unfold Evaluator.quasi
  split
  · exact .liftFixed (Form.map_leafDatum _ token)
  · split
    · exact (quasi _ _ hscope).andThen fun quoted => .pure rfl
    · split
      · exact h.value _ hscope
      · exact (quasi _ _ hscope).andThen fun quoted => .pure rfl
    · split
      · exact .throw _
      · exact (quasi _ _ hscope).andThen fun quoted => .pure rfl
    · exact (quasi _ _ hscope).andThen fun quoted => .pure rfl
    · split
      · exact .throw _
      · exact .throw _
    · exact .throw _
    · exact .throw _
    · exact .throw _
    · exact (quasiItems _ _ .nil hscope).andThen fun items =>
        .pure (Value.renumber_ofList _ items.1 items.2).symm
    · exact .liftFixed (Form.map_datum _ _)

theorem quasiItems (forms : List Form) (depth : Nat) (tail : Value) (hscope : M.Admits scope) :
    M.Runs (fun a b => b = (a.1.map (Value.renumber M.renumber), a.2.renumber M.renumber))
      (ev.quasiItems scope depth tail forms)
      (ev'.quasiItems scope depth (tail.renumber M.renumber) forms) := by
  cases forms with
  | nil => exact .pure rfl
  | cons form rest =>
    obtain ⟨token, parts, compound⟩ := form
    unfold Evaluator.quasiItems
    split
    · split
      · exact .throw _
      · exact (quasi _ _ hscope).andThen fun tail => quasiItems _ _ tail hscope
    · split
      · split
        · exact .throw _
        · exact (h.value _ hscope).andThen fun value => (runs_spliced value).andThen fun items =>
            (quasiItems _ _ tail hscope).andThen fun others => .pure (by simp)
      · exact (quasi _ _ hscope).andThen fun item =>
          (quasiItems _ _ tail hscope).andThen fun others => .pure rfl

end

theorem applyClosure (closure : Closure) (arguments : List Value) (tail : Bool) :
    M.Runs M.SameStep (ev.applyClosure closure arguments tail)
      (ev'.applyClosure closure (arguments.map (Value.renumber M.renumber)) tail) := by
  unfold Evaluator.applyClosure
  rw [List.length_map]
  dsimp only
  split
  · exact .throw _
  have hframe := runs_newFrame (M := M) closure.scope (.ofPairs (closure.formals.zip arguments))
  rw [Bindings.ofPairs_renumber, ← List.zip_map_right] at hframe
  refine hframe.bind fun {inner inner'} hinner => ?_
  obtain ⟨rfl, hadmits⟩ := hinner
  cases closure.body.getLast? with
  | none => exact .throw _
  | some last =>
    refine (h.evaluateEach closure.body.dropLast hadmits).both fun _ => ?_
    cases tail with
    | true => exact .pure (.call last hadmits)
    | false => exact (h.run last hadmits).done

theorem evalText (source : List Char) (hscope : M.Admits scope) :
    M.Runs M.Image (Builtin.evalText ev source scope) (Builtin.evalText ev' source scope) :=
  (runs_readAll source).both fun forms => h.runAll forms hscope .nil

theorem builtinEval (value : Value) (hscope : M.Admits scope) :
    M.Runs M.Image (Builtin.eval ev scope value)
      (Builtin.eval ev' scope (value.renumber M.renumber)) := by
  refine (runs_fork hscope).bind fun {inner inner'} hinner => ?_
  obtain ⟨rfl, hadmits⟩ := hinner
  exact (runs_display value).both fun text => h.evalText _ hadmits

theorem builtinRead (hscope : M.Admits scope) :
    M.Runs M.Image (Builtin.read ev scope) (Builtin.read ev' scope) := by
  refine (runs_fork hscope).bind fun {inner inner'} hinner => ?_
  obtain ⟨rfl, hadmits⟩ := hinner
  exact runs_takeInputLine.both fun line => h.evalText _ hadmits

theorem builtinApply (procedure arguments : Value) (hscope : M.Admits scope) :
    M.Runs M.Image (Builtin.apply ev scope procedure arguments)
      (Builtin.apply ev' scope (procedure.renumber M.renumber)
        (arguments.renumber M.renumber)) := by
  unfold Builtin.apply
  rw [Value.list?_renumber]
  cases arguments.list? with
  | none => exact .throw _
  | some items =>
    exact (h.apply procedure items false hscope).bind fun hstep => h.finish hstep

/-- The procedures with effects, apart from calls of `import`. -/
theorem perform (p : Primitive) (args : List Value) (hscope : M.Admits scope)
    (hp : ∀ value, ¬ (p = .importSource ∧ args = [value])) :
    M.Runs M.Image (Builtin.perform ev scope p args)
      (Builtin.perform ev' scope p (args.map (Value.renumber M.renumber))) := by
  obtain _ | ⟨a, _ | ⟨b, _ | ⟨c, rest⟩⟩⟩ := args
  · cases p
    case read => exact h.builtinRead hscope
    all_goals exact .throw _
  · cases p
    case eval => exact h.builtinEval a hscope
    case importSource => exact absurd ⟨rfl, rfl⟩ (hp a)
    case print => exact runs_print a
    case printf => exact runs_printf a
    case readFromFile => exact runs_readFromFile a
    case readLines => exact runs_readLines a
    case makeFile => exact runs_makeFile a
    case makeDirectory => exact runs_makeDirectory a
    all_goals exact .throw _
  · cases p
    case apply => exact h.builtinApply a b hscope
    case writeToFile => exact runs_writeToFile a b
    case writeLines => exact runs_writeLines a b
    all_goals exact .throw _
  · have hcount : (rest.map (Value.renumber M.renumber)).length = rest.length := List.length_map ..
    cases p
    all_goals
      simp only [Builtin.perform, List.map_cons, List.length_cons, hcount]
      exact .throw _

theorem builtin (p : Primitive) (args : List Value) (hscope : M.Admits scope)
    (hp : ∀ value, ¬ (p = .importSource ∧ args = [value])) :
    M.Runs M.Image (Builtin.run ev scope p args)
      (Builtin.run ev' scope p (args.map (Value.renumber M.renumber))) := by
  unfold Builtin.run
  rw [List.length_map]
  cases p.arity?
  case' some n =>
    dsimp only
    split
    case isTrue => exact .throw _
  all_goals
    refine .get fun w t hst => ?_
    dsimp only
    rw [Builtin.compute?_renumber M.injective (M.follows hst)]
    cases Builtin.compute? w.store p args with
    | none => exact h.perform p args hscope hp
    | some result => exact (Runs.lift result).andThen fun value => runs_mark value

theorem applyValue (procedure : Value) (arguments : List Value) (hscope : M.Admits scope)
    (tail : Bool) (hp : ∀ value, ¬ (procedure = .primitive .importSource ∧ arguments = [value])) :
    M.Runs M.SameStep (ev.applyValue procedure arguments scope tail)
      (ev'.applyValue (procedure.renumber M.renumber)
        (arguments.map (Value.renumber M.renumber)) scope tail) := by
  cases procedure with
  | closure id =>
    refine .get fun w t hst => ?_
    dsimp only
    rw [M.follows hst id]
    cases w.store.closure? id with
    | none => exact .throw _
    | some closure => exact h.applyClosure closure arguments tail
  | primitive p =>
    exact (h.builtin p arguments hscope fun value hcall =>
      hp value ⟨by rw [hcall.1], hcall.2⟩).done
  | _ => exact (runs_printed _).both fun text => .throw _

theorem quasiquoteForm (parts : List Form) (hscope : M.Admits scope) :
    M.Runs M.SameStep (ev.quasiquoteForm parts scope) (ev'.quasiquoteForm parts scope) := by
  unfold Evaluator.quasiquoteForm
  split
  · exact (h.quasi _ 1 hscope).done
  · exact .throw _

theorem defineForm (parts : List Form) (hscope : M.Admits scope) :
    M.Runs M.SameStep (ev.defineForm parts scope) (ev'.defineForm parts scope) := by
  unfold Evaluator.defineForm
  split
  · split
    · exact (Runs.liftSame _).both fun name => (h.value _ hscope).andThen fun value =>
        (runs_nameValue name value).both fun _ => (runs_define hscope name value).both fun _ =>
          .pure (.done (.symbol name))
    · exact .throw _
  · exact .throw _

theorem enterLoop (label : String) (names : List String) (body : List Form) (scope : ScopeId)
    (tail : Bool) (arguments : List Value) :
    M.Runs M.SameStep (ev.enterLoop label names body scope tail arguments)
      (ev'.enterLoop label names body scope tail (arguments.map (Value.renumber M.renumber))) := by
  refine (runs_openFrame scope).bind fun {opened opened'} hopened => ?_
  obtain ⟨rfl, -, hopen⟩ := hopened
  exact (runs_newClosure _).andThen fun id =>
    (runs_bindIn hopen label (.closure id)).both fun _ => h.applyClosure _ arguments tail

theorem enterLet (names : List String) (body : List Form) (scope : ScopeId) (tail : Bool)
    (arguments : List Value) :
    M.Runs M.SameStep (ev.enterLet names body scope tail arguments)
      (ev'.enterLet names body scope tail (arguments.map (Value.renumber M.renumber))) := by
  have hframe := runs_newFrame (M := M) scope (.ofPairs (names.zip arguments))
  rw [Bindings.ofPairs_renumber, ← List.zip_map_right] at hframe
  refine hframe.bind fun {inner inner'} hinner => ?_
  obtain ⟨rfl, hadmits⟩ := hinner
  exact h.body body hadmits tail

theorem namedLet (name : Form) (rest : List Form) (hscope : M.Admits scope) (tail : Bool) :
    M.Runs M.SameStep (ev.namedLet name rest scope tail) (ev'.namedLet name rest scope tail) := by
  unfold Evaluator.namedLet
  refine (Runs.liftSame _).both fun label => ?_
  cases rest with
  | nil => exact .throw _
  | cons list body =>
    refine (Runs.liftSame _).both fun pairs => ?_
    refine (h.bindingValues pairs hscope).andThen fun arguments => ?_
    have hloop := h.enterLoop label (pairs.map (·.1)) body scope tail (arguments.map (·.2))
    rw [List.map_map] at hloop
    rw [List.map_map]
    exact hloop

theorem letAllForm (parts : List Form) (hscope : M.Admits scope) (tail : Bool) :
    M.Runs M.SameStep (ev.letAllForm parts scope tail) (ev'.letAllForm parts scope tail) := by
  cases parts with
  | nil => exact .throw _
  | cons first rest =>
    unfold Evaluator.letAllForm
    dsimp only
    split
    · exact h.namedLet first rest hscope tail
    · refine (Runs.liftSame _).both fun pairs => ?_
      refine (h.bindingValues pairs hscope).andThen fun bindings => ?_
      have hframe := runs_newFrame (M := M) scope (.ofPairs bindings)
      rw [Bindings.ofPairs_renumber] at hframe
      refine hframe.bind fun {inner inner'} hinner => ?_
      obtain ⟨rfl, hadmits⟩ := hinner
      exact h.body rest hadmits tail

theorem letEachForm (parts : List Form) (hscope : M.Admits scope) (tail : Bool) :
    M.Runs M.SameStep (ev.letEachForm parts scope tail) (ev'.letEachForm parts scope tail) := by
  cases parts with
  | nil => exact .throw _
  | cons first rest =>
    refine (Runs.liftSame _).both fun pairs => ?_
    refine (h.bindEach pairs hscope).bind fun {inner inner'} hinner => ?_
    obtain ⟨rfl, hadmits⟩ := hinner
    exact h.body rest hadmits tail

theorem letRecForm (parts : List Form) (tail : Bool) :
    M.Runs M.SameStep (ev.letRecForm parts scope tail) (ev'.letRecForm parts scope tail) := by
  refine (runs_openFrame scope).bind fun {opened opened'} hopened => ?_
  obtain ⟨rfl, hadmits, hopen⟩ := hopened
  cases parts with
  | nil => exact .throw _
  | cons first rest =>
    exact (Runs.liftSame _).both fun pairs => (h.bindRec pairs hadmits hopen).both fun _ =>
      h.body rest hadmits tail

/-- Applications, if the calls of `import` go alike. -/
theorem applyWith {sub sub' : Evaluator.Import}
    (hsub : ∀ value, M.Runs M.Image (sub ev scope value)
      (sub' ev' scope (value.renumber M.renumber)))
    (procedure : Value) (arguments : List Value) (hscope : M.Admits scope) (tail : Bool) :
    M.Runs M.SameStep (ev.applyWith sub procedure arguments scope tail)
      (ev'.applyWith sub' (procedure.renumber M.renumber)
        (arguments.map (Value.renumber M.renumber)) scope tail) := by
  by_cases hcall : ∃ value, procedure = .primitive .importSource ∧ arguments = [value]
  · obtain ⟨value, rfl, rfl⟩ := hcall
    exact (hsub value).done
  · have happly := h.applyValue procedure arguments hscope tail
      fun value hvalue => hcall ⟨value, hvalue⟩
    have hcall' : ¬ ∃ value, procedure.renumber M.renumber = .primitive .importSource ∧
        arguments.map (Value.renumber M.renumber) = [value] := by
      rintro ⟨value, hprocedure, harguments⟩
      obtain ⟨first, rfl, -⟩ := List.map_eq_singleton_iff.mp harguments
      cases procedure with
      | primitive p => exact hcall ⟨first, hprocedure, rfl⟩
      | _ => cases hprocedure
    rw [Evaluator.applyWith_of_not sub ev hcall, Evaluator.applyWith_of_not sub' ev' hcall']
    exact happly

theorem evalFormVia {look look' : Evaluator.Lookup} {sub sub' : Evaluator.Import}
    (hlook : ∀ name, M.Runs M.Image (look scope name) (look' scope name))
    (hsub : ∀ value, M.Runs M.Image (sub ev scope value)
      (sub' ev' scope (value.renumber M.renumber)))
    (form : Form) (hscope : M.Admits scope) (tail : Bool) :
    M.Runs M.SameStep (ev.evalFormVia look sub form scope tail)
      (ev'.evalFormVia look' sub' form scope tail) := by
  obtain ⟨⟨tag, payload, place⟩, parts, compound⟩ := form
  cases compound with
  | false =>
    cases tag
    case symbol | operator =>
      exact (Runs.liftSame _).both fun name => (hlook name).done
    all_goals refine Runs.done (runs_evalLeaf _ payload place ?_ ?_) <;> exact nofun
  | true =>
    cases tag
    case quote => exact runs_quoteForm parts
    case quasiquote => exact h.quasiquoteForm parts hscope
    case unquote => exact .throw _
    case splice => exact .throw _
    case lambda => exact runs_lambdaForm parts scope
    case define => exact h.defineForm parts hscope
    case cond => exact h.condForm parts hscope tail
    case letAll => exact h.letAllForm parts hscope tail
    case letEach => exact h.letEachForm parts hscope tail
    case letRec => exact h.letRecForm parts tail
    case sequence => exact h.body parts hscope tail
    case symbol | operator =>
      exact (Runs.liftSame _).both fun name => (hlook name).andThen fun procedure =>
        (h.values parts hscope).andThen fun arguments =>
          h.applyWith hsub procedure arguments hscope tail
    case apply =>
      cases parts with
      | nil => exact .throw _
      | cons head operands =>
        exact (h.value head hscope).andThen fun procedure =>
          (h.values operands hscope).andThen fun arguments =>
            h.applyWith hsub procedure arguments hscope tail
    case list => exact (h.evalList parts hscope).done
    case empty => exact .pure (.done .nil)
    all_goals exact (Runs.liftSame _).both fun _ => .throw _

theorem nextVia {look look' : Evaluator.Lookup} {sub sub' : Evaluator.Import}
    (hlook : ∀ scope name, M.Admits scope → M.Runs M.Image (look scope name) (look' scope name))
    (hsub : ∀ scope value, M.Admits scope → M.Runs M.Image (sub ev scope value)
      (sub' ev' scope (value.renumber M.renumber))) :
    M.Mirrored (ev.nextVia look sub) (ev'.nextVia look' sub') where
  steps := h.steps
  eval form _ tail hscope :=
    h.evalFormVia (fun name => hlook _ name hscope) (fun value => hsub _ value hscope) form hscope
      tail
  apply procedure arguments _ tail hscope :=
    h.applyWith (fun value => hsub _ value hscope) procedure arguments hscope tail

end Mirrored

variable {M : Mirror}

/-- If names are looked up alike and each call of `import` goes alike, then the evaluators mirror
each other. -/
theorem mirrored_evaluatorVia {look look' : Evaluator.Lookup} {sub sub' : Evaluator.Import}
    (hlook : ∀ scope name, M.Admits scope → M.Runs M.Image (look scope name) (look' scope name))
    (hsub : ∀ {ev ev'} scope value, M.Mirrored ev ev' → M.Admits scope →
      M.Runs M.Image (sub ev scope value) (sub' ev' scope (value.renumber M.renumber)))
    (steps depth : Nat) :
    M.Mirrored (evaluatorVia look sub steps depth) (evaluatorVia look' sub' steps depth) := by
  induction depth with
  | zero => exact ⟨rfl, fun _ _ _ _ => .throw _, fun _ _ _ _ _ => .throw _⟩
  | succ depth ih => exact ih.nextVia hlook fun scope value hscope => hsub scope value ih hscope

section Import

variable {ev ev' : Evaluator} {scope : ScopeId} {P : FrameId → Prop}
  (hroot : ∀ {s t}, M.Shows s t → ∀ scope, t.root? scope = s.root? scope ∧
    ∀ root, s.root? scope = some root → P root)
  (haddScope : ∀ {s t frame}, M.Shows s t → P frame →
    M.Shows (s.addScope [frame]).2 (t.addScope [frame]).2)

include haddScope

theorem runs_evaluateAtRoot (h : M.Mirrored ev ev') {root : FrameId} (hends : P root)
    (forms : List Form) :
    M.Runs Eq (Builtin.evaluateAtRoot ev root forms) (Builtin.evaluateAtRoot ev' root forms) := by
  induction forms with
  | nil => exact .pure rfl
  | cons form rest ih =>
    have hscope : M.Runs M.SameScope (EvalM.updateStore (·.addScope [root]))
        (EvalM.updateStore (·.addScope [root])) :=
      .updateStore fun s t hst => ⟨haddScope hst hends, (M.sizes hst).1, M.admits_new hst⟩
    refine hscope.bind fun {inner inner'} hinner => ?_
    obtain ⟨rfl, hadmits⟩ := hinner
    exact (h.run form hadmits).andThen fun _ => ih

include hroot

theorem runs_importSource (h : M.Mirrored ev ev') (value : Value) :
    M.Runs M.Image (Builtin.importSource ev scope value)
      (Builtin.importSource ev' scope (value.renumber M.renumber)) := by
  unfold Builtin.importSource
  refine (runs_sourceName value).both fun name => (runs_findSource name).both fun path? => ?_
  cases path? with
  | none => exact .throw _
  | some path =>
    refine (runs_sourceText path).both fun source => (runs_readAll source).both fun forms => ?_
    refine .get fun w t hst => ?_
    obtain ⟨hsame, hends⟩ := hroot hst scope
    dsimp only
    rw [hsame]
    split
    next hfound =>
      exact (runs_evaluateAtRoot haddScope h (hends _ hfound) _).both fun _ => .pure rfl
    · exact .pure rfl
    · exact .throw _

end Import

end Mirror

namespace StoreInvariant

variable {I : StoreInvariant}

theorem runs_lookup (scope : ScopeId) (name : String) :
    I.mirror.Runs I.mirror.Image (EvalM.lookup scope name) (EvalM.lookup scope name) := by
  refine .get fun w t hst => ?_
  obtain ⟨rfl, -⟩ := hst
  dsimp only
  cases w.store.lookup? scope name with
  | none => exact .throw _
  | some value => exact .pure (renumber_eq value).symm

/-- An invariant is kept by evaluation in which a call of `import` does nothing. -/
theorem mirrored_evaluatorWith (steps depth : Nat) :
    I.mirror.Mirrored (evaluatorWith (fun _ _ _ => pure .nil) steps depth)
      (evaluatorWith (fun _ _ _ => pure .nil) steps depth) := by
  rw [← evaluatorVia_lookup]
  refine Mirror.mirrored_evaluatorVia (fun scope name _ => runs_lookup scope name) ?_ steps depth
  exact fun _ _ _ _ => .pure rfl

end StoreInvariant

end TowerLisp
