import TowerLisp.Eval.Step
import TowerLisp.Proofs.Outcomes

/-!
Relations between evaluators. A congruence relates computations so that sequences of related
parts are related, and so that what evaluates nothing is related to itself. A level of
evaluation is a sequence of what is nested in it and of what evaluates nothing. Hence two
levels are related if what is nested in them is; `Congruence.Positioned.evalForm` says so for
both positions of a form at once, with whatever is done with the steps afterwards.
-/

namespace TowerLisp

/-- The last form of a procedure's body: left to the caller in tail position, and
carried out otherwise. -/
def Evaluator.leave (ev : Evaluator) (last : Form) (scope : ScopeId) (tail : Bool) :
    EvalM Step :=
  if tail then return .call last scope else return .done (← ev.run last scope)

namespace EvalM

/-- Steps of a computation that evaluate nothing. -/
inductive Basic : ∀ {α : Type}, EvalM α → Prop where
  | updateStore {α : Type} (f : Store → α × Store) : Basic (updateStore f)
  | mark (v : Value) : Basic (mark v)
  | write (text : String) : Basic (write text)
  | printed (v : Value) : Basic (printed v)
  | display (v : Value) : Basic (display v)
  | readAll (source : List Char) : Basic (Builtin.readAll source)
  | takeInputLine : Basic Builtin.takeInputLine
  | findSource (name : String) : Basic (Builtin.findSource name)
  | sourceText (p : Path) : Basic (Builtin.sourceText p)
  | asPath (procedure : String) (v : Value) : Basic (Builtin.asPath procedure v)
  | readFromFile (v : Value) : Basic (Builtin.readFromFile v)
  | readLines (v : Value) : Basic (Builtin.readLines v)
  | makeFile (v : Value) : Basic (Builtin.makeFile v)
  | makeDirectory (v : Value) : Basic (Builtin.makeDirectory v)
  | changeFiles (change : FileTree → Except Fault (Option FileTree)) :
      Basic (Builtin.changeFiles change)
  | writeLines (target v : Value) : Basic (Builtin.writeLines target v)

/-- A relation that sequences of computations keep. -/
structure Congruence where
  Rel : ∀ {α : Type}, EvalM α → EvalM α → Prop
  value : ∀ {α : Type} (a : α), Rel (pure a) (pure a)
  fault : ∀ {α : Type} (fault : Fault), Rel (throw fault : EvalM α) (throw fault)
  bind : ∀ {α β : Type} {m n : EvalM α} {f g : α → EvalM β}, Rel m n →
    (∀ a, Rel (f a) (g a)) → Rel (m >>= f) (n >>= g)
  inspect : ∀ {α : Type} {f g : World → EvalM α},
    (∀ w w' : World, w'.store = w.store → Rel (f w) (g w')) → Rel (get >>= f) (get >>= g)
  basic : ∀ {α : Type} {m : EvalM α}, Basic m → Rel m m

namespace Congruence

variable (C : Congruence) {α β : Type}

theorem after {m : EvalM α} {f g : α → EvalM β} (hm : Basic m) (hfg : ∀ a, C.Rel (f a) (g a)) :
    C.Rel (m >>= f) (m >>= g) :=
  C.bind (C.basic hm) hfg

theorem lift (result : Except Fault α) : C.Rel (lift result) (lift result) := by
  cases result with
  | ok a => exact C.value a
  | error fault => exact C.fault fault

theorem withStore (f : Store → Except Fault α) : C.Rel (withStore f) (withStore f) :=
  C.inspect fun w w' hstore => by rw [hstore]; exact C.lift _

theorem modifyStore (f : Store → Store) : C.Rel (modifyStore f) (modifyStore f) :=
  C.basic (.updateStore fun s => ((), f s))

theorem nameValue (name : String) (v : Value) : C.Rel (nameValue name v) (nameValue name v) := by
  unfold EvalM.nameValue
  split
  · exact C.modifyStore _
  · exact C.value ()

theorem lookup (scope : ScopeId) (name : String) :
    C.Rel (lookup scope name) (lookup scope name) := by
  refine C.inspect fun w w' hstore => ?_
  rw [hstore]
  cases w.store.lookup? scope name with
  | some value => exact C.value value
  | none => exact C.fault _

theorem spliced (v : Value) : C.Rel (Evaluator.spliced v) (Evaluator.spliced v) := by
  unfold Evaluator.spliced
  split
  · exact C.value _
  · exact C.value _
  · exact C.withStore _

theorem evalLeaf (token : Token) (scope : ScopeId) :
    C.Rel (Evaluator.evalLeaf token scope) (Evaluator.evalLeaf token scope) := by
  unfold Evaluator.evalLeaf
  split
  case h_1 => exact C.lift _
  case h_2 => exact C.lift _
  case h_3 => exact C.lift _
  case h_4 => exact C.value _
  case h_5 => exact C.bind (C.lift _) fun name => C.lookup scope name
  case h_6 => exact C.bind (C.lift _) fun name => C.lookup scope name
  case h_7 => exact C.value _
  case h_8 => exact C.value _
  case h_9 => exact C.bind (C.lift _) fun text => C.fault _

theorem sourceName (v : Value) : C.Rel (Builtin.sourceName v) (Builtin.sourceName v) := by
  unfold Builtin.sourceName
  split
  · exact C.bind (C.value _) fun name => C.value _
  · exact C.after (.display _) fun name => C.value _

/-- `m` followed by `k` is related to `n` followed by `l`. -/
def Joined (k l : Step → EvalM β) (m n : EvalM Step) : Prop :=
  C.Rel (m >>= k) (n >>= l)

namespace Joined

variable {C} {k l : Step → EvalM β}

theorem bind {m n : EvalM α} {f g : α → EvalM Step} (hmn : C.Rel m n)
    (hfg : ∀ a, C.Joined k l (f a) (g a)) : C.Joined k l (m >>= f) (n >>= g) := by
  unfold Joined
  rw [bind_assoc, bind_assoc]
  exact C.bind hmn hfg

theorem after {m : EvalM α} (hm : Basic m) {f g : α → EvalM Step}
    (hfg : ∀ a, C.Joined k l (f a) (g a)) : C.Joined k l (m >>= f) (m >>= g) :=
  bind (C.basic hm) hfg

theorem fault (fault : Fault) : C.Joined k l (throw fault) (throw fault) :=
  C.fault fault

end Joined

/-- What is nested in a form, and not in tail position, is related. -/
structure Nested (ev ev' : Evaluator) : Prop where
  value : ∀ form scope, C.Rel (ev.value form scope) (ev'.value form scope)
  run : ∀ form scope, C.Rel (ev.run form scope) (ev'.run form scope)
  applied : ∀ procedure arguments scope,
    C.Rel (ev.apply procedure arguments scope false >>= ev.finish)
      (ev'.apply procedure arguments scope false >>= ev'.finish)

namespace Nested

variable {C} {ev ev' : Evaluator}

theorem values (h : C.Nested ev ev') (scope : ScopeId) (forms : List Form) :
    C.Rel (ev.values scope forms) (ev'.values scope forms) := by
  induction forms with
  | nil => exact C.value _
  | cons form rest ih =>
    exact C.bind (h.value form scope) fun first => C.bind ih fun others => C.value _

theorem evaluateEach (h : C.Nested ev ev') (scope : ScopeId) (forms : List Form) :
    C.Rel (ev.evaluateEach scope forms) (ev'.evaluateEach scope forms) := by
  induction forms with
  | nil => exact C.value _
  | cons form rest ih => exact C.bind (h.value form scope) fun _ => ih

theorem runAll (h : C.Nested ev ev') (scope : ScopeId) (forms : List Form) (last : Value) :
    C.Rel (ev.runAll scope last forms) (ev'.runAll scope last forms) := by
  induction forms generalizing last with
  | nil => exact C.value _
  | cons form rest ih => exact C.bind (h.run form scope) fun value => ih value

theorem bindingValues (h : C.Nested ev ev') (scope : ScopeId) (pairs : List (String × Form)) :
    C.Rel (ev.bindingValues scope pairs) (ev'.bindingValues scope pairs) := by
  induction pairs with
  | nil => exact C.value _
  | cons pair rest ih =>
    exact C.bind (h.value pair.2 scope) fun value => C.bind ih fun others => C.value _

theorem bindEach (h : C.Nested ev ev') (scope : ScopeId) (pairs : List (String × Form)) :
    C.Rel (ev.bindEach scope pairs) (ev'.bindEach scope pairs) := by
  induction pairs generalizing scope with
  | nil => exact C.value _
  | cons pair rest ih =>
    exact C.bind (h.value pair.2 scope) fun value => C.after (.updateStore _) fun inner => ih inner

theorem bindRec (h : C.Nested ev ev') (scope : ScopeId) (frame : FrameId)
    (pairs : List (String × Form)) :
    C.Rel (ev.bindRec scope frame pairs) (ev'.bindRec scope frame pairs) := by
  induction pairs with
  | nil => exact C.value _
  | cons pair rest ih =>
    exact C.bind (h.value pair.2 scope) fun value =>
      C.bind (C.nameValue _ _) fun _ => C.bind (C.modifyStore _) fun _ => ih

theorem evaluateAtRoot (h : C.Nested ev ev') (root : FrameId) (forms : List Form) :
    C.Rel (Builtin.evaluateAtRoot ev root forms) (Builtin.evaluateAtRoot ev' root forms) := by
  induction forms with
  | nil => exact C.value _
  | cons form rest ih =>
    exact C.after (.updateStore _) fun scope => C.bind (h.run form scope) fun _ => ih

theorem evalList (h : C.Nested ev ev') (parts : List Form) (scope : ScopeId) :
    C.Rel (ev.evalList parts scope) (ev'.evalList parts scope) := by
  unfold Evaluator.evalList
  cases parts.getLast? with
  | none => exact C.value _
  | some last =>
    by_cases hdot : last.tag = .dot
    · simp only [hdot, if_true]
      cases last.parts with
      | nil => exact C.fault _
      | cons form rest =>
        exact C.bind (h.value form scope) fun tail =>
          C.bind (h.values scope _) fun items => C.value _
    · simp only [hdot, if_false]
      exact C.bind (h.values scope _) fun items => C.value _

mutual

theorem quasi (h : C.Nested ev ev') (scope : ScopeId) (depth : Nat) (template : Form) :
    C.Rel (ev.quasi scope depth template) (ev'.quasi scope depth template) := by
  obtain ⟨token, parts, compound⟩ := template
  unfold Evaluator.quasi
  split
  · exact C.lift _
  · split
    · exact C.bind (quasi h scope _ _) fun quoted => C.value _
    · split
      · exact h.value _ _
      · exact C.bind (quasi h scope _ _) fun quoted => C.value _
    · split
      · exact C.fault _
      · exact C.bind (quasi h scope _ _) fun quoted => C.value _
    · exact C.bind (quasi h scope _ _) fun quoted => C.value _
    · split
      · exact C.fault _
      · exact C.fault _
    · exact C.fault _
    · exact C.fault _
    · exact C.fault _
    · exact C.bind (quasiItems h scope _ _ _) fun items => C.value _
    · exact C.lift _

theorem quasiItems (h : C.Nested ev ev') (scope : ScopeId) (depth : Nat) (tail : Value)
    (forms : List Form) :
    C.Rel (ev.quasiItems scope depth tail forms) (ev'.quasiItems scope depth tail forms) := by
  cases forms with
  | nil => exact C.value _
  | cons form rest =>
    obtain ⟨token, parts, compound⟩ := form
    unfold Evaluator.quasiItems
    split
    · split
      · exact C.fault _
      · exact C.bind (quasi h scope _ _) fun tail => quasiItems h scope _ _ _
    · split
      · split
        · exact C.fault _
        · exact C.bind (h.value _ _) fun value => C.bind (C.spliced _) fun items =>
            C.bind (quasiItems h scope _ _ _) fun others => C.value _
      · exact C.bind (quasi h scope _ _) fun item =>
          C.bind (quasiItems h scope _ _ _) fun others => C.value _

end

theorem evalText (h : C.Nested ev ev') (source : List Char) (scope : ScopeId) :
    C.Rel (Builtin.evalText ev source scope) (Builtin.evalText ev' source scope) :=
  C.after (.readAll source) fun forms => h.runAll scope forms .nil

theorem importSource (h : C.Nested ev ev') (scope : ScopeId) (v : Value) :
    C.Rel (Builtin.importSource ev scope v) (Builtin.importSource ev' scope v) := by
  unfold Builtin.importSource
  refine C.bind (C.sourceName v) fun name => C.after (.findSource name) fun path? => ?_
  cases path? with
  | none => exact C.fault _
  | some path =>
    refine C.after (.sourceText path) fun source => C.after (.readAll source) fun forms => ?_
    refine C.inspect fun w w' hstore => ?_
    dsimp only
    rw [hstore]
    split
    · exact C.bind (h.evaluateAtRoot _ _) fun _ => C.value _
    · exact C.value _
    · exact C.fault _

theorem apply (h : C.Nested ev ev') (scope : ScopeId) (procedure arguments : Value) :
    C.Rel (Builtin.apply ev scope procedure arguments)
      (Builtin.apply ev' scope procedure arguments) := by
  unfold Builtin.apply
  cases arguments.list? with
  | none => exact C.fault _
  | some items => exact h.applied procedure items scope

/-- Only four procedures of the language evaluate anything. -/
theorem perform (h : C.Nested ev ev') (scope : ScopeId) (p : Primitive) (args : List Value) :
    C.Rel (Builtin.perform ev scope p args) (Builtin.perform ev' scope p args) := by
  unfold Builtin.perform
  split
  case h_1 => exact h.apply scope _ _
  case h_2 =>
    exact C.after (.updateStore _) fun inner => C.after (.display _) fun text =>
      h.evalText _ inner
  case h_3 =>
    exact C.after (.updateStore _) fun inner => C.after .takeInputLine fun line =>
      h.evalText _ inner
  case h_4 => exact h.importSource scope _
  case h_5 => exact C.after (.display _) fun text => C.after (.write _) fun _ => C.value _
  case h_6 => exact C.after (.display _) fun text => C.after (.write _) fun _ => C.value _
  case h_7 => exact C.basic (.readFromFile _)
  case h_8 => exact C.basic (.readLines _)
  case h_9 => exact C.basic (.makeFile _)
  case h_10 => exact C.basic (.makeDirectory _)
  case h_11 =>
    exact C.after (.asPath _ _) fun p => C.after (.display _) fun text =>
      C.after (.changeFiles _) fun written => C.value _
  case h_12 => exact C.basic (.writeLines _ _)
  case h_13 => exact C.fault _

theorem builtin (h : C.Nested ev ev') (scope : ScopeId) (p : Primitive) (args : List Value) :
    C.Rel (Builtin.run ev scope p args) (Builtin.run ev' scope p args) := by
  unfold Builtin.run
  cases p.arity?
  case' some n =>
    dsimp only
    split
    case isTrue => exact C.fault _
  -- with the right number of arguments, the result is computed or an effect performed
  all_goals
    refine C.inspect fun w w' hstore => ?_
    rw [hstore]
    cases Builtin.compute? w.store p args with
    | some result => exact C.bind (C.lift result) fun v => C.basic (.mark v)
    | none => exact h.perform scope p args

end Nested

/-- What is nested in a form is related, and what stands in its position, which is `tail` on
one side and `tail'` on the other, is so once `k` and `l` have taken up the steps. -/
structure Positioned (ev ev' : Evaluator) (tail tail' : Bool) (k l : Step → EvalM β) : Prop
    extends C.Nested ev ev' where
  eval : ∀ form scope, C.Joined k l (ev.eval form scope tail) (ev'.eval form scope tail')
  leave : ∀ last scope, C.Joined k l (ev.leave last scope tail) (ev'.leave last scope tail')
  done : ∀ value, C.Rel (k (.done value)) (l (.done value))

namespace Positioned

variable {C} {ev ev' : Evaluator} {tail tail' : Bool} {k l : Step → EvalM β}

theorem pure_done (h : C.Positioned ev ev' tail tail' k l) (value : Value) :
    C.Joined k l (pure (.done value)) (pure (.done value)) := by
  unfold Joined
  rw [pure_bind, pure_bind]
  exact h.done value

/-- A value that both sides find is a finished step. -/
theorem found (h : C.Positioned ev ev' tail tail' k l) {m n : EvalM Value} (hmn : C.Rel m n) :
    C.Joined k l (do return .done (← m)) (do return .done (← n)) :=
  .bind hmn h.pure_done

theorem body (h : C.Positioned ev ev' tail tail' k l) (scope : ScopeId) (forms : List Form) :
    C.Joined k l (ev.body scope tail forms) (ev'.body scope tail' forms) := by
  induction forms with
  | nil => exact h.pure_done .nil
  | cons form rest ih =>
    cases rest with
    | nil => exact h.eval form scope
    | cons next rest => exact .bind (h.value form scope) fun _ => ih

theorem clauses (h : C.Positioned ev ev' tail tail' k l) (scope : ScopeId) (forms : List Form) :
    C.Joined k l (ev.clauses scope tail forms) (ev'.clauses scope tail' forms) := by
  induction forms with
  | nil => exact .fault _
  | cons clause rest ih =>
    unfold Evaluator.clauses
    cases clause.parts with
    | nil => exact .fault _
    | cons test forms =>
      refine .bind (h.value test scope) fun value => ?_
      split
      · split
        · exact h.pure_done value
        · exact h.body scope forms
      · exact ih

theorem condForm (h : C.Positioned ev ev' tail tail' k l) (parts : List Form) (scope : ScopeId) :
    C.Joined k l (ev.condForm parts scope tail) (ev'.condForm parts scope tail') := by
  cases parts with
  | nil => exact .fault _
  | cons clause rest => exact h.clauses scope (clause :: rest)

theorem applyClosure (h : C.Positioned ev ev' tail tail' k l) (closure : Closure)
    (arguments : List Value) :
    C.Joined k l (ev.applyClosure closure arguments tail)
      (ev'.applyClosure closure arguments tail') := by
  unfold Evaluator.applyClosure
  dsimp only
  split
  · exact .fault _
  · refine .after (.updateStore _) fun scope => ?_
    cases closure.body.getLast? with
    | none => exact .fault _
    | some last => exact .bind (h.evaluateEach scope _) fun _ => h.leave last scope

theorem applyValue (h : C.Positioned ev ev' tail tail' k l) (procedure : Value)
    (arguments : List Value) (scope : ScopeId) :
    C.Joined k l (ev.applyValue procedure arguments scope tail)
      (ev'.applyValue procedure arguments scope tail') := by
  unfold Evaluator.applyValue
  split
  · unfold Joined
    rw [bind_assoc, bind_assoc]
    refine C.inspect fun w w' hstore => ?_
    rw [hstore]
    split
    · exact h.applyClosure _ arguments
    · exact C.fault _
  · exact h.found (h.builtin scope _ arguments)
  · exact .after (.printed _) fun text => .fault _

theorem namedLet (h : C.Positioned ev ev' tail tail' k l) (name : Form) (rest : List Form)
    (scope : ScopeId) :
    C.Joined k l (ev.namedLet name rest scope tail) (ev'.namedLet name rest scope tail') := by
  unfold Evaluator.namedLet
  refine .bind (C.lift _) fun label => ?_
  cases rest with
  | nil => exact .fault _
  | cons list body =>
    refine .bind (C.lift _) fun pairs => .bind (h.bindingValues scope pairs) fun arguments => ?_
    refine .after (.updateStore _) fun opened => .after (.updateStore _) fun id => ?_
    exact .bind (C.modifyStore _) fun _ => h.applyClosure _ _

theorem letAllForm (h : C.Positioned ev ev' tail tail' k l) (parts : List Form)
    (scope : ScopeId) :
    C.Joined k l (ev.letAllForm parts scope tail) (ev'.letAllForm parts scope tail') := by
  cases parts with
  | nil => exact .fault _
  | cons first rest =>
    unfold Evaluator.letAllForm
    dsimp only
    split
    · exact h.namedLet first rest scope
    · exact .bind (C.lift _) fun pairs => .bind (h.bindingValues scope pairs) fun bindings =>
        .after (.updateStore _) fun inner => h.body inner rest

theorem letEachForm (h : C.Positioned ev ev' tail tail' k l) (parts : List Form)
    (scope : ScopeId) :
    C.Joined k l (ev.letEachForm parts scope tail) (ev'.letEachForm parts scope tail') := by
  cases parts with
  | nil => exact .fault _
  | cons first rest =>
    exact .bind (C.lift _) fun pairs => .bind (h.bindEach scope pairs) fun inner =>
      h.body inner rest

theorem letRecForm (h : C.Positioned ev ev' tail tail' k l) (parts : List Form)
    (scope : ScopeId) :
    C.Joined k l (ev.letRecForm parts scope tail) (ev'.letRecForm parts scope tail') := by
  refine .after (.updateStore _) fun opened => ?_
  cases parts with
  | nil => exact .fault _
  | cons first rest =>
    exact .bind (C.lift _) fun pairs => .bind (h.bindRec _ _ pairs) fun _ => h.body _ rest

theorem defineForm (h : C.Positioned ev ev' tail tail' k l) (parts : List Form)
    (scope : ScopeId) :
    C.Joined k l (ev.defineForm parts scope) (ev'.defineForm parts scope) := by
  unfold Evaluator.defineForm
  split
  · split
    · exact .bind (C.lift _) fun name => .bind (h.value _ scope) fun value =>
        .bind (C.nameValue _ _) fun _ => .bind (C.modifyStore _) fun _ => h.pure_done _
    · exact .fault _
  · exact .fault _

theorem quasiquoteForm (h : C.Positioned ev ev' tail tail' k l) (parts : List Form)
    (scope : ScopeId) :
    C.Joined k l (ev.quasiquoteForm parts scope) (ev'.quasiquoteForm parts scope) := by
  unfold Evaluator.quasiquoteForm
  split
  · exact h.found (h.quasi scope 1 _)
  · exact .fault _

/-- Forms that nest nothing are related wherever they stand. -/
theorem quoteForm (h : C.Positioned ev ev' tail tail' k l) (parts : List Form) :
    C.Joined k l (Evaluator.quoteForm parts) (Evaluator.quoteForm parts) := by
  unfold Evaluator.quoteForm
  split
  · exact h.found (C.lift _)
  · exact .fault _

theorem lambdaForm (h : C.Positioned ev ev' tail tail' k l) (parts : List Form)
    (scope : ScopeId) :
    C.Joined k l (Evaluator.lambdaForm parts scope) (Evaluator.lambdaForm parts scope) := by
  unfold Evaluator.lambdaForm
  split
  · split
    · exact .bind (C.lift _) fun formals => .after (.updateStore _) fun id => h.pure_done _
    · exact .fault _
  · exact .fault _

/-- A form is related to itself if all that it leads to is. -/
theorem evalForm (h : C.Positioned ev ev' tail tail' k l) (form : Form) (scope : ScopeId) :
    C.Joined k l (ev.evalForm form scope tail) (ev'.evalForm form scope tail') := by
  unfold Evaluator.evalForm
  split
  · exact h.found (C.evalLeaf _ _)
  dsimp only
  cases form.tag
  case quote => exact h.quoteForm _
  case quasiquote => exact h.quasiquoteForm _ scope
  case unquote => exact .fault _
  case splice => exact .fault _
  case lambda => exact h.lambdaForm _ scope
  case define => exact h.defineForm _ scope
  case cond => exact h.condForm _ scope
  case letAll => exact h.letAllForm _ scope
  case letEach => exact h.letEachForm _ scope
  case letRec => exact h.letRecForm _ scope
  case sequence => exact h.body scope _
  case symbol | operator =>
    exact .bind (C.lift _) fun name => .bind (C.lookup _ _) fun procedure =>
      .bind (h.values scope _) fun arguments => h.applyValue procedure arguments scope
  case apply =>
    cases form.parts with
    | nil => exact .fault _
    | cons head operands =>
      exact .bind (h.value head scope) fun procedure => .bind (h.values scope operands)
        fun arguments => h.applyValue procedure arguments scope
  case list => exact h.found (h.evalList _ scope)
  case empty => exact h.pure_done .nil
  all_goals exact .bind (C.lift _) fun text => .fault _

end Positioned

/-- Evaluators that bound the same number of tail calls and are related in all they do. -/
structure Levels (ev ev' : Evaluator) : Prop where
  steps : ev'.steps = ev.steps
  eval : ∀ form scope tail, C.Rel (ev.eval form scope tail) (ev'.eval form scope tail)
  apply : ∀ procedure arguments scope tail,
    C.Rel (ev.apply procedure arguments scope tail) (ev'.apply procedure arguments scope tail)

namespace Levels

variable {C} {ev ev' : Evaluator}

theorem chase (h : C.Levels ev ev') (n : Nat) (step : Step) :
    C.Rel (ev.chase n step) (ev'.chase n step) := by
  induction n generalizing step with
  | zero =>
    cases step with
    | done value => exact C.value value
    | call form scope => exact C.fault _
  | succ n ih =>
    cases step with
    | done value => exact C.value value
    | call form scope => exact C.bind (h.eval form scope true) ih

theorem finish (h : C.Levels ev ev') (step : Step) : C.Rel (ev.finish step) (ev'.finish step) := by
  unfold Evaluator.finish
  rw [h.steps]
  exact h.chase ev.steps step

theorem nested (h : C.Levels ev ev') : C.Nested ev ev' where
  value form scope := C.bind (h.eval form scope false) h.finish
  run form scope := C.bind (h.eval form scope true) h.finish
  applied procedure arguments scope := C.bind (h.apply procedure arguments scope false) h.finish

theorem positioned (h : C.Levels ev ev') (tail : Bool) :
    C.Positioned ev ev' tail tail pure pure where
  toNested := h.nested
  eval form scope := C.bind (h.eval form scope tail) C.value
  leave last scope := by
    refine C.bind ?_ C.value
    cases tail with
    | true => exact C.value _
    | false => exact C.bind (h.nested.run last scope) fun value => C.value _
  done value := C.value _

/-- Levels on top of related ones are related. -/
theorem next (h : C.Levels ev ev') : C.Levels ev.next ev'.next where
  steps := h.steps
  eval form scope tail := by
    have hform := (h.positioned tail).evalForm form scope
    rwa [Joined, bind_pure, bind_pure] at hform
  apply procedure arguments scope tail := by
    have happlied := (h.positioned tail).applyValue procedure arguments scope
    rwa [Joined, bind_pure, bind_pure] at happlied

end Levels

end Congruence

end EvalM

end TowerLisp
