import TowerLisp.Proofs.StoreExtension

/-!
Forms that may stand in front of a tail call. A program is a family of procedures over names that
are given at its root. What is known in a scope are the values of some names, which may depend on
how many calls are still to come. A form is quiet if its evaluation stays within one budget however
many there are, and leaves what is known as it is. It is firm if it puts no frame in front of its
scope either, as a definition would.
-/

namespace TowerLisp

/-- A token that is read as a name. -/
def Token.Names (name : String) (token : Token) : Prop :=
  (token.tag = .symbol ∨ token.tag = .operator) ∧ token.payload.written = .ok name

/-- A token that is read as a number. -/
def Token.Denotes (v : Value) (token : Token) : Prop :=
  token.tag = .number ∧ Form.numberValue token.payload = .ok v

/-- A procedure with one form in its body. -/
structure Procedure where
  name : String
  formals : List String
  body : Form

/-- Procedures, and what their root binds besides. -/
structure Program where
  given : Bindings
  procedures : List Procedure

/-- Where a program is in the store: its root, and the number of each procedure. -/
structure Layout where
  root : ScopeId
  ids : String → ClosureId

/-- What is known of a value, if some number of calls is still to come. -/
abbrev Fact := Layout → Nat → Value → Prop

/-- What is known of names, if some number of calls is still to come. -/
abbrev Context := Layout → Nat → Knowledge

/-- Nothing is known of a value. -/
def Fact.any : Fact :=
  fun _ _ _ => True

/-- Names in front of those that are known. -/
def Context.add (known : Context) (names : List String) (facts : List Fact) : Context :=
  fun L left => (names.zip (facts.map fun P => P L left)).reverse ++ known L left

/-- A name is known to stand for such a value. -/
def Context.Gives (known : Context) (name : String) (P : Fact) : Prop :=
  ∀ L left, (known L left).lookup name = some (P L left)

namespace Program

/-- What the root of a program knows. -/
def globals (prog : Program) (L : Layout) : Knowledge :=
  prog.procedures.map (fun p => (p.name, (· = .closure (L.ids p.name)))) ++
    prog.given.map fun (name, v) => (name, (· = v))

/-- A program is laid out in a store, and in one of the scopes some names are known. -/
structure At (prog : Program) (L : Layout) (known : Knowledge) (scope : ScopeId) (s : Store) :
    Prop where
  root_placed : s.Placed L.root
  placed : s.Placed scope
  made : ∀ p ∈ prog.procedures, ∃ label,
    s.closure? (L.ids p.name) = some ⟨p.formals, [p.body], L.root, label⟩
  root_knows : s.Knows L.root (prog.globals L)
  knows : s.Knows scope known

variable {prog : Program} {L : Layout} {known added : Knowledge} {scope : ScopeId} {s s' : Store}

namespace At

theorem later (h : prog.At L known scope s) (hextends : s.Extends s')
    (hroot : s'.Knows L.root (prog.globals L)) (hknows : s'.Knows scope added) :
    prog.At L added scope s' where
  root_placed := h.root_placed.after hextends
  placed := h.placed.after hextends
  made p hp := by
    obtain ⟨_, hclosure⟩ := h.made p hp
    obtain ⟨label, hclosure⟩ := hextends.closure hclosure
    exact ⟨label, hclosure⟩
  root_knows := hroot
  knows := hknows

/-- What no lookup notices. -/
theorem of_lookups (h : prog.At L known scope s) (hextends : s.Extends s')
    (hlookup : ∀ other name, s'.lookup? other name = s.lookup? other name) :
    prog.At L known scope s' :=
  h.later hextends (h.root_knows.congr (hlookup L.root)) (h.knows.congr (hlookup scope))

theorem root (h : prog.At L known scope s) : prog.At L (prog.globals L) L.root s :=
  { h with placed := h.root_placed, knows := h.root_knows }

/-- In front of a scope a new frame whose bindings are known. -/
theorem withFrame (h : prog.At L known scope s) {bindings : Bindings}
    (hbindings : added.Describes bindings) :
    prog.At L (added ++ known) (s.withFrame scope bindings).1 (s.withFrame scope bindings).2 where
  root_placed := h.root_placed.after (Store.extends_withFrame s scope bindings)
  placed := Store.placed_withFrame h.placed
  made p hp := h.made p hp
  root_knows := h.root_knows.congr fun name =>
    Store.lookup?_withFrame_of_placed h.root_placed name
  knows := h.knows.withFrame h.placed hbindings

end At

/-- The evaluation of a form comes to a value that is such, within a budget that does not depend
on the number of calls to come, and what is known stays so. If it is to be firm then the chain of
the scope stays as well. -/
def Settles (prog : Program) (firm : Bool) (known : Context) (P : Fact) (form : Form) : Prop :=
  ∃ budget, ∀ L left scope w, prog.At L (known L left) scope w.store → ∃ v w',
    Within budget (fun ev => ev.value form scope) w v w' ∧ P L left v ∧
      prog.At L (known L left) scope w'.store ∧
      (firm = true → w'.store.chain scope = w.store.chain scope)

/-- A form that settles on a value, be it firm or not. -/
abbrev Quiet (prog : Program) : Context → Fact → Form → Prop :=
  prog.Settles false

end Program

namespace Evaluator

variable (ev : Evaluator) {token : Token} {scope : ScopeId} {tail : Bool} {parts : List Form}

theorem evalForm_leaf (token : Token) :
    ev.evalForm (.leaf token) scope tail = (do return .done (← evalLeaf token scope)) := rfl

theorem evalForm_name {name : String} (h : token.Names name) :
    ev.evalForm ⟨token, parts, true⟩ scope tail = (do
      let procedure ← EvalM.lookup scope name
      let arguments ← ev.values scope parts
      ev.applyValue procedure arguments scope tail) := by
  obtain ⟨tag, payload, place⟩ := token
  obtain ⟨rfl | rfl, hname⟩ := h
  · simp only [evalForm, Form.tag, show payload.written = .ok name from hname]
    rfl
  · simp only [evalForm, Form.tag, show payload.written = .ok name from hname]
    rfl

theorem evalForm_lambda (h : token.tag = .lambda) :
    ev.evalForm ⟨token, parts, true⟩ scope tail = lambdaForm parts scope := by
  obtain ⟨tag, payload, place⟩ := token
  cases h
  rfl

theorem evalLeaf_name {name : String} (h : token.Names name) :
    evalLeaf token scope = EvalM.lookup scope name := by
  obtain ⟨tag, payload, place⟩ := token
  obtain ⟨rfl | rfl, hname⟩ := h
  · simp only [evalLeaf, show payload.written = .ok name from hname]
    rfl
  · simp only [evalLeaf, show payload.written = .ok name from hname]
    rfl

end Evaluator

theorem EvalM.lookup_eq {scope : ScopeId} {name : String} {v : Value} {w : World}
    (h : w.store.lookup? scope name = some v) : EvalM.lookup scope name w = .ok v w := by
  refine EvalM.bind_eq_ok_iff.mpr ⟨w, w, rfl, ?_⟩
  rw [h]
  rfl

theorem EvalM.mark_eq {v : Value} (h : v.lacksMarks = false) (w : World) :
    EvalM.mark v w = .ok v w := by
  rw [EvalM.mark, h]
  rfl

namespace Builtin

variable {p : Primitive} {arguments : List Value} {v : Value} {w : World}

/-- A primitive that only computes does nothing else but to mark its value. -/
theorem run_of_compute {result : Except Fault Value}
    (harity : ∀ n, p.arity? = some n → arguments.length = n)
    (hcompute : compute? w.store p arguments = some result) (ev : Evaluator) (scope : ScopeId) :
    run ev scope p arguments w = (EvalM.lift result >>= EvalM.mark) w := by
  unfold run
  cases hn : p.arity?
  case' some n =>
    dsimp only
    rw [if_neg (not_not.mpr (harity n hn))]
  all_goals
    refine (EvalM.bind_of_ok (m := get) rfl).trans ?_
    rw [hcompute]

/-- A primitive whose value is computed: it still may need marks. -/
theorem run_eq_mark (harity : ∀ n, p.arity? = some n → arguments.length = n)
    (hcompute : compute? w.store p arguments = some (.ok v)) (ev : Evaluator) (scope : ScopeId) :
    run ev scope p arguments w = EvalM.mark v w :=
  run_of_compute harity hcompute ev scope

/-- A primitive that finds a fault in its arguments. -/
theorem run_fault {fault : Fault} (harity : ∀ n, p.arity? = some n → arguments.length = n)
    (hcompute : compute? w.store p arguments = some (.error fault)) (ev : Evaluator)
    (scope : ScopeId) : run ev scope p arguments w = .error fault w :=
  run_of_compute harity hcompute ev scope

theorem run_computed (harity : ∀ n, p.arity? = some n → arguments.length = n)
    (hcompute : compute? w.store p arguments = some (.ok v)) (hmarks : v.lacksMarks = false)
    (ev : Evaluator) (scope : ScopeId) : run ev scope p arguments w = .ok v w :=
  (run_eq_mark harity hcompute ev scope).trans (EvalM.mark_eq hmarks w)

end Builtin

namespace Within

variable {token : Token} {name : String} {v : Value} {scope : ScopeId} {w w' w'' : World}
  {budget : Nat} {tail : Bool}

theorem eval_name (htoken : token.Names name) (h : w.store.lookup? scope name = some v) :
    Within 1 (fun ev => ev.eval (.leaf token) scope tail) w (.done v) w := by
  refine eval (of_eq fun ev => ?_)
  rw [ev.evalForm_leaf, Evaluator.evalLeaf_name htoken]
  exact EvalM.bind_eq_ok_iff.mpr ⟨v, w, EvalM.lookup_eq h, rfl⟩

/-- The value of a name. -/
theorem value_name (htoken : token.Names name) (h : w.store.lookup? scope name = some v) :
    Within 1 (fun ev => ev.value (.leaf token) scope) w v w :=
  value (eval_name htoken h)

theorem value_number (htoken : token.Denotes v) :
    Within 1 (fun ev => ev.value (.leaf token) scope) w v w := by
  refine value (eval (of_eq fun ev => ?_))
  rw [ev.evalForm_leaf, Evaluator.evalLeaf, htoken.1]
  dsimp only
  rw [htoken.2]
  rfl

theorem eval_quoted {quoted : Form} (h : quoted.datum = .ok v) (mark : Token) :
    Within 1 (fun ev => ev.eval (.compoundAt .quote [quoted] mark) scope tail) w (.done v) w := by
  refine eval (of_eq fun ev => ?_)
  change Evaluator.quoteForm [quoted] w = _
  rw [Evaluator.quoteForm, h]
  rfl

/-- A new procedure. -/
theorem value_lambda {head : Token} {params first : Form} {rest : List Form} {names : List String}
    (hhead : head.tag = .lambda) (hparams : params.tag = .params)
    (hnames : params.parts.mapM Evaluator.nameOf = .ok names) :
    Within 1 (fun ev => ev.value ⟨head, params :: first :: rest, true⟩ scope) w
      (.closure w.store.closures.size)
      { w with store := (w.store.addClosure ⟨names, first :: rest, scope, none⟩).2 } := by
  refine value (eval (of_eq fun ev => ?_))
  rw [ev.evalForm_lambda hhead, Evaluator.lambdaForm, if_pos hparams, hnames]
  rfl

/-- A call of what a name stands for. -/
theorem eval_call {parts : List Form} {procedure : Value} {arguments : List Value} {step : Step}
    (htoken : token.Names name) (h : w.store.lookup? scope name = some procedure)
    (harguments : Within budget (fun ev => ev.values scope parts) w arguments w')
    (happly : Within budget (fun ev => ev.applyValue procedure arguments scope tail) w' step w'') :
    Within (budget + 1) (fun ev => ev.eval ⟨token, parts, true⟩ scope tail) w step w'' := by
  refine eval ?_
  simp only [Evaluator.evalForm_name _ htoken]
  exact (of_eq fun _ => EvalM.lookup_eq h).bind (harguments.bind happly)

/-- A call of a primitive. -/
theorem value_primitive {p : Primitive} {parts : List Form} {arguments : List Value}
    (htoken : token.Names name) (h : w.store.lookup? scope name = some (.primitive p))
    (harguments : Within budget (fun ev => ev.values scope parts) w arguments w')
    (hrun : Within budget (fun ev => Builtin.run ev scope p arguments) w' v w'') :
    Within (budget + 1) (fun ev => ev.value ⟨token, parts, true⟩ scope) w v w'' := by
  have happly : Within budget (fun ev => ev.applyValue (.primitive p) arguments scope false) w'
      (.done v) w'' := hrun.bind (pure _)
  exact value (eval_call htoken h harguments happly)

/-- A procedure is applied to a list of arguments. -/
theorem run_apply {procedure list : Value} {arguments : List Value}
    (hlist : list.list? = some arguments)
    (h : Within budget (fun ev => ev.apply procedure arguments scope false) w (.done v) w') :
    Within budget (fun ev => Builtin.run ev scope .apply [procedure, list]) w v w' := by
  have happly := h.bind (finish_done v)
  have hrun : ∀ ev : Evaluator, Builtin.run ev scope .apply [procedure, list] w =
      (ev.apply procedure arguments scope false >>= ev.finish) w := by
    intro ev
    change Builtin.apply ev scope procedure list w = _
    rw [Builtin.apply, hlist]
  obtain ⟨length, happly⟩ := happly
  exact ⟨length, fun steps depth hsteps hdepth => (hrun _).trans (happly steps depth hsteps hdepth)⟩

end Within

namespace Program

variable {prog : Program} {firm : Bool} {known : Context}

namespace Settles

variable {P Q : Fact} {form : Form} {token : Token} {v : Value}

theorem mono (h : prog.Settles firm known P form) (hmono : ∀ L left v, P L left v → Q L left v) :
    prog.Settles firm known Q form := by
  obtain ⟨budget, h⟩ := h
  refine ⟨budget, fun L left scope w hat => ?_⟩
  obtain ⟨v, w', hvalue, hv, hat'⟩ := h L left scope w hat
  exact ⟨v, w', hvalue, hmono L left v hv, hat'⟩

theorem any (h : prog.Settles firm known P form) : prog.Settles firm known .any form :=
  h.mono fun _ _ _ _ => trivial

/-- A form whose value is found without any change. -/
theorem of_still (budget : Nat)
    (h : ∀ L left scope w, prog.At L (known L left) scope w.store →
      ∃ v, Within budget (fun ev => ev.value form scope) w v w ∧ P L left v) :
    prog.Settles firm known P form := by
  refine ⟨budget, fun L left scope w hat => ?_⟩
  obtain ⟨v, hvalue, hv⟩ := h L left scope w hat
  exact ⟨v, w, hvalue, hv, hat, fun _ => rfl⟩

theorem number (htoken : token.Denotes v) :
    prog.Settles firm known (fun _ _ u => u = v) (.leaf token) :=
  of_still 1 fun _ _ _ _ _ => ⟨v, .value_number htoken, rfl⟩

theorem quoted {quoted : Form} (h : quoted.datum = .ok v) (mark : Token) :
    prog.Settles firm known (fun _ _ u => u = v) (.compoundAt .quote [quoted] mark) :=
  of_still 1 fun _ _ _ _ _ => ⟨v, .value (.eval_quoted h mark), rfl⟩

theorem name {name : String} (htoken : token.Names name) (h : known.Gives name P) :
    prog.Settles firm known P (.leaf token) := by
  refine of_still 1 fun L left scope w hat => ?_
  obtain ⟨v, hlookup, hv⟩ := hat.knows name _ (h L left)
  exact ⟨v, .value_name htoken hlookup, hv⟩

/-- A procedure that is made and not called. -/
theorem lambda {head : Token} {params first : Form} {rest : List Form} {names : List String}
    (hhead : head.tag = .lambda) (hparams : params.tag = .params)
    (hnames : params.parts.mapM Evaluator.nameOf = .ok names) :
    prog.Settles firm known .any ⟨head, params :: first :: rest, true⟩ :=
  ⟨1, fun _ _ _ w hat => ⟨_, _, .value_lambda hhead hparams hnames, trivial,
    hat.of_lookups (Store.extends_addClosure w.store _) fun _ _ => rfl, fun _ => rfl⟩⟩

section Sequences

variable {facts : List Fact} {forms : List Form}

/-- Forms one after another. -/
theorem values (h : List.Forall₂ (prog.Settles firm known) facts forms) :
    ∃ budget, ∀ L left scope w, prog.At L (known L left) scope w.store → ∃ vs w',
      Within budget (fun ev => ev.values scope forms) w vs w' ∧
        List.Forall₂ (fun P v => P v) (facts.map fun P => P L left) vs ∧
        prog.At L (known L left) scope w'.store ∧
        (firm = true → w'.store.chain scope = w.store.chain scope) := by
  induction h with
  | nil => exact ⟨0, fun L left scope w hat => ⟨[], w, .values_nil, .nil, hat, fun _ => rfl⟩⟩
  | cons hfirst _ ih =>
    obtain ⟨budget, hfirst⟩ := hfirst
    obtain ⟨budget', hrest⟩ := ih
    refine ⟨max budget budget', fun L left scope w hat => ?_⟩
    obtain ⟨v, w', hvalue, hv, hat', hchain⟩ := hfirst L left scope w hat
    obtain ⟨vs, w'', hvalues, hvs, hat'', hchain'⟩ := hrest L left scope w' hat'
    exact ⟨v :: vs, w'', (hvalue.mono (by omega)).values_cons (hvalues.mono (by omega)),
      .cons hv hvs, hat'', fun hfirm => (hchain' hfirm).trans (hchain hfirm)⟩

/-- Forms that are evaluated for their effects. -/
theorem each (h : ∀ form ∈ forms, prog.Quiet known .any form) :
    ∃ budget, ∀ L left scope w, prog.At L (known L left) scope w.store → ∃ w',
      Within budget (fun ev => ev.evaluateEach scope forms) w () w' ∧
        prog.At L (known L left) scope w'.store := by
  induction forms with
  | nil => exact ⟨0, fun L left scope w hat => ⟨w, .pure (), hat⟩⟩
  | cons form forms ih =>
    obtain ⟨⟨budget, hfirst⟩, hrest⟩ := List.forall_mem_cons.mp h
    obtain ⟨budget', hrest⟩ := ih hrest
    refine ⟨max budget budget', fun L left scope w hat => ?_⟩
    obtain ⟨v, w', hvalue, -, hat', -⟩ := hfirst L left scope w hat
    obtain ⟨w'', heach, hat''⟩ := hrest L left scope w' hat'
    exact ⟨w'', (hvalue.mono (by omega)).bind (heach.mono (by omega)), hat''⟩

/-- A call of a primitive that computes something from what is known. -/
theorem primitive {name : String} {p : Primitive} (htoken : token.Names name)
    (h : known.Gives name fun _ _ u => u = .primitive p)
    (hforms : List.Forall₂ (prog.Settles firm known) facts forms)
    (hcompute : ∀ L left vs, List.Forall₂ (fun P v => P v) (facts.map fun P => P L left) vs →
      (∀ n, p.arity? = some n → vs.length = n) ∧
      ∃ v, (∀ store, Builtin.compute? store p vs = some (.ok v)) ∧ v.lacksMarks = false ∧
        P L left v) :
    prog.Settles firm known P ⟨token, forms, true⟩ := by
  obtain ⟨budget, hvalues⟩ := values hforms
  refine ⟨budget + 1, fun L left scope w hat => ?_⟩
  obtain ⟨_, hlookup, rfl⟩ := hat.knows name _ (h L left)
  obtain ⟨vs, w', hvalues, hvs, hat', hchain⟩ := hvalues L left scope w hat
  obtain ⟨harity, v, hcompute, hmarks, hv⟩ := hcompute L left vs hvs
  have hrun : Within budget (fun ev => Builtin.run ev scope p vs) w' v w' :=
    .of_eq fun ev => Builtin.run_computed harity (hcompute _) hmarks ev scope
  exact ⟨v, w', .value_primitive htoken hlookup hvalues hrun, hv, hat', hchain⟩

/-- A call of a primitive on two values that are known. -/
theorem binary {name : String} {p : Primitive} {a b : Form} {x y z : Layout → Nat → Value}
    (htoken : token.Names name) (h : known.Gives name fun _ _ u => u = .primitive p)
    (ha : prog.Settles firm known (fun L left v => v = x L left) a)
    (hb : prog.Settles firm known (fun L left v => v = y L left) b)
    (harity : ∀ n, p.arity? = some n → 2 = n)
    (hcompute : ∀ L left store,
      Builtin.compute? store p [x L left, y L left] = some (.ok (z L left)))
    (hmarks : ∀ L left, (z L left).lacksMarks = false) :
    prog.Settles firm known (fun L left v => v = z L left) ⟨token, [a, b], true⟩ := by
  refine primitive htoken h (.cons ha (.cons hb .nil)) fun L left vs hvs => ?_
  obtain ⟨u, _, rfl, hrest, rfl⟩ := List.forall₂_cons_left_iff.mp hvs
  obtain ⟨v, _, rfl, hnil, rfl⟩ := List.forall₂_cons_left_iff.mp hrest
  cases hnil
  exact ⟨harity, _, hcompute L left, hmarks L left, rfl⟩

end Sequences

end Settles

end Program

end TowerLisp
