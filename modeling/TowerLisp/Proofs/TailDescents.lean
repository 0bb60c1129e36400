import TowerLisp.Proofs.QuietForms

/-!
Ways to write a tail call. `Descends` tells that a form ends in a call of a procedure with one call
less to come, as the last expression of clauses, sequences, bindings and procedures that are called
where they are written, one in another. Evaluation of such a form goes on, by calls in tail
position that all stay within one budget, to the body of that procedure.
-/

namespace TowerLisp

namespace Evaluator

variable (ev : Evaluator) {token : Token} {scope : ScopeId} {tail : Bool} {parts : List Form}

theorem evalForm_sequence (h : token.tag = .sequence) :
    ev.evalForm ⟨token, parts, true⟩ scope tail = ev.body scope tail parts := by
  obtain ⟨tag, payload, place⟩ := token
  cases h
  rfl

theorem evalForm_cond (h : token.tag = .cond) :
    ev.evalForm ⟨token, parts, true⟩ scope tail = ev.condForm parts scope tail := by
  obtain ⟨tag, payload, place⟩ := token
  cases h
  rfl

theorem evalForm_letAll (h : token.tag = .letAll) :
    ev.evalForm ⟨token, parts, true⟩ scope tail = ev.letAllForm parts scope tail := by
  obtain ⟨tag, payload, place⟩ := token
  cases h
  rfl

theorem evalForm_letEach (h : token.tag = .letEach) :
    ev.evalForm ⟨token, parts, true⟩ scope tail = ev.letEachForm parts scope tail := by
  obtain ⟨tag, payload, place⟩ := token
  cases h
  rfl

theorem evalForm_letRec (h : token.tag = .letRec) :
    ev.evalForm ⟨token, parts, true⟩ scope tail = ev.letRecForm parts scope tail := by
  obtain ⟨tag, payload, place⟩ := token
  cases h
  rfl

theorem evalForm_define (h : token.tag = .define) :
    ev.evalForm ⟨token, parts, true⟩ scope tail = ev.defineForm parts scope := by
  obtain ⟨tag, payload, place⟩ := token
  cases h
  rfl

theorem evalForm_apply (h : token.tag = .apply) {head : Form} :
    ev.evalForm ⟨token, head :: parts, true⟩ scope tail = (do
      let procedure ← ev.value head scope
      let arguments ← ev.values scope parts
      ev.applyValue procedure arguments scope tail) := by
  obtain ⟨tag, payload, place⟩ := token
  cases h
  rfl

/-- What a clause goes on with when its test has a value: its other forms, or the clauses after
it. -/
def afterTest (ev : Evaluator) (scope : ScopeId) (tail : Bool) (forms rest : List Form)
    (v : Value) : EvalM Step :=
  if v.isTrue then if forms.isEmpty then pure (.done v) else ev.body scope tail forms
  else ev.clauses scope tail rest

section Clauses

variable {clause test : Form} {forms rest : List Form} {v : Value}

theorem clauses_cons (h : clause.parts = test :: forms) :
    ev.clauses scope tail (clause :: rest) =
      ev.value test scope >>= ev.afterTest scope tail forms rest := by
  simp only [clauses, h]
  rfl

theorem afterTest_true (hv : v.isTrue = true) (hforms : forms ≠ []) :
    ev.afterTest scope tail forms rest v = ev.body scope tail forms := by
  rw [afterTest, if_pos hv, if_neg (by simpa using hforms)]

theorem afterTest_false (hv : v.isTrue = false) :
    ev.afterTest scope tail forms rest v = ev.clauses scope tail rest := by
  rw [afterTest, if_neg (by simp [hv])]

end Clauses

/-- A sequence of forms: all but the last one are evaluated for their effects. -/
theorem body_append (fillers : List Form) (last : Form) :
    ev.body scope tail (fillers ++ [last]) = (do
      ev.evaluateEach scope fillers
      ev.eval last scope tail) := by
  induction fillers with
  | nil => rfl
  | cons form fillers ih =>
    obtain ⟨second, others, hrest⟩ : ∃ second others, fillers ++ [last] = second :: others := by
      cases fillers with
      | nil => exact ⟨last, [], rfl⟩
      | cons second others => exact ⟨second, others ++ [last], rfl⟩
    rw [List.cons_append, hrest, body, ← hrest, ih, evaluateEach, bind_assoc]
    exact List.cons_ne_nil _ _

/-- The values of bindings with their names. -/
theorem bindingValues_eq (pairs : List (String × Form)) :
    ev.bindingValues scope pairs =
      (pairs.map Prod.fst).zip <$> ev.values scope (pairs.map Prod.snd) := by
  induction pairs with
  | nil => rfl
  | cons pair pairs ih =>
    simp only [bindingValues, ih, List.map_cons, values, map_bind, bind_map_left, map_pure]
    rfl

end Evaluator

/-- A scope with a new frame that binds names to values, and the world with this scope. -/
def World.withFrame (w : World) (scope : ScopeId) (names : List String) (values : List Value) :
    ScopeId × World :=
  let entered := w.store.withFrame scope (.ofPairs (names.zip values))
  (entered.1, { w with store := entered.2 })

/-- The world in which the procedure of a let with a name is called. -/
def World.withLabel (w : World) (scope : ScopeId) (label : String) (names : List String)
    (forms : List Form) : World :=
  let opened := w.withFrame scope [] []
  let store := (opened.2.store.addClosure ⟨names, forms, opened.1, some label⟩).2
  { w with store := store.bindIn w.store.frames.size label (.closure w.store.closures.size) }

theorem Evaluator.tag_of_bindingsOf {list : Form} {pairs : List (String × Form)}
    (h : bindingsOf list = .ok pairs) : list.tag = .bindings := by
  unfold bindingsOf at h
  split at h
  · assumption
  · cases h

namespace Within

variable {budget : Nat} {w w' w'' : World} {scope : ScopeId} {tail : Bool} {step : Step}

/-- A clause whose test is true. -/
theorem clauses_true {clause test last : Form} {fillers rest : List Form} {v : Value}
    (hclause : clause.parts = test :: (fillers ++ [last]))
    (htest : Within budget (fun ev => ev.value test scope) w v w') (hv : v.isTrue = true)
    (hbody : Within budget (fun ev => ev.body scope tail (fillers ++ [last])) w' step w'') :
    Within budget (fun ev => ev.clauses scope tail (clause :: rest)) w step w'' := by
  simp only [Evaluator.clauses_cons _ hclause]
  refine htest.bind ?_
  simpa only [Evaluator.afterTest_true _ hv (List.concat_ne_nil last fillers)] using hbody

/-- A clause whose test is true and whose body is one form. -/
theorem clauses_one {clause test last : Form} {rest : List Form} {v : Value}
    (hclause : clause.parts = [test, last])
    (htest : Within budget (fun ev => ev.value test scope) w v w') (hv : v.isTrue = true)
    (hlast : Within budget (fun ev => ev.eval last scope tail) w' step w'') :
    Within budget (fun ev => ev.clauses scope tail (clause :: rest)) w step w'' :=
  clauses_true (hclause.trans (by rw [List.nil_append])) htest hv (body_last hlast)

/-- A clause whose test is false. -/
theorem clauses_false {clause test : Form} {forms rest : List Form} {v : Value}
    (hclause : clause.parts = test :: forms)
    (htest : Within budget (fun ev => ev.value test scope) w v w') (hv : v.isTrue = false)
    (hrest : Within budget (fun ev => ev.clauses scope tail rest) w' step w'') :
    Within budget (fun ev => ev.clauses scope tail (clause :: rest)) w step w'' := by
  simp only [Evaluator.clauses_cons _ hclause]
  refine htest.bind ?_
  simpa only [Evaluator.afterTest_false _ hv] using hrest

theorem clauses_of_eval {token : Token} (htoken : token.tag = .cond) {clauses : List Form}
    (h : Within budget (fun ev => ev.eval ⟨token, clauses, true⟩ scope tail) w step w') :
    Within budget (fun ev => ev.clauses scope tail clauses) w step w' := by
  have hform := h.evalForm
  simp only [Evaluator.evalForm_cond _ htoken] at hform
  cases clauses with
  | nil =>
    obtain ⟨length, hfault⟩ := hform
    cases hfault length budget (Nat.le_refl _) (Nat.le_refl _)
  | cons clause rest => exact hform

theorem eval_clauses {token : Token} (htoken : token.tag = .cond) {clause : Form}
    {rest : List Form}
    (h : Within budget (fun ev => ev.clauses scope tail (clause :: rest)) w step w') :
    Within (budget + 1) (fun ev => ev.eval ⟨token, clause :: rest, true⟩ scope tail) w step w' := by
  refine eval ?_
  simp only [Evaluator.evalForm_cond _ htoken]
  exact h

/-- A call in tail position of a procedure: all forms of its body but the last one. -/
theorem applyClosure {closure : Closure} {arguments : List Value} {fillers : List Form}
    {last : Form} (hlength : arguments.length = closure.formals.length)
    (hbody : closure.body = fillers ++ [last])
    (hfillers : Within budget
      (fun ev =>
        ev.evaluateEach (w.withFrame closure.scope closure.formals arguments).1 fillers)
      (w.withFrame closure.scope closure.formals arguments).2 () w') :
    Within budget (fun ev => ev.applyClosure closure arguments true) w
      (.call last (w.withFrame closure.scope closure.formals arguments).1) w' := by
  have hlast : closure.body.getLast? = some last := by rw [hbody]; simp
  have hfront : closure.body.dropLast = fillers := by rw [hbody]; simp
  have hcount : ¬ arguments.length ≠ closure.formals.length := not_not.mpr hlength
  simp only [Evaluator.applyClosure, hcount, if_false, hlast, hfront, if_true]
  have hframe : Within budget (fun _ => EvalM.newFrame closure.scope
      (.ofPairs (closure.formals.zip arguments))) w _ _ := of_eq fun _ => rfl
  refine hframe.bind ?_
  exact hfillers.bind (pure _)

/-- A call that is not in tail position runs the last form of the body at once. -/
theorem applyClosure_run {closure : Closure} {arguments : List Value} {fillers : List Form}
    {last : Form} {v : Value} (hlength : arguments.length = closure.formals.length)
    (hbody : closure.body = fillers ++ [last])
    (hfillers : Within budget
      (fun ev =>
        ev.evaluateEach (w.withFrame closure.scope closure.formals arguments).1 fillers)
      (w.withFrame closure.scope closure.formals arguments).2 () w')
    (hlast : Within budget
      (fun ev => ev.run last (w.withFrame closure.scope closure.formals arguments).1) w' v w'') :
    Within budget (fun ev => ev.applyClosure closure arguments false) w (.done v) w'' := by
  have hfinal : closure.body.getLast? = some last := by rw [hbody]; simp
  have hfront : closure.body.dropLast = fillers := by rw [hbody]; simp
  have hcount : ¬ arguments.length ≠ closure.formals.length := not_not.mpr hlength
  simp only [Evaluator.applyClosure, hcount, if_false, hfinal, hfront, Bool.false_eq_true]
  have hframe : Within budget (fun _ => EvalM.newFrame closure.scope
      (.ofPairs (closure.formals.zip arguments))) w _ _ := of_eq fun _ => rfl
  refine hframe.bind ?_
  exact hfillers.bind (hlast.bind (pure _))

theorem applyValue {id : ClosureId} {closure : Closure} {arguments : List Value}
    (hclosure : w.store.closure? id = some closure)
    (h : Within budget (fun ev => ev.applyClosure closure arguments tail) w step w') :
    Within budget (fun ev => ev.applyValue (.closure id) arguments scope tail) w step w' := by
  obtain ⟨length, happly⟩ := h
  refine ⟨length, fun steps depth hsteps hdepth => ?_⟩
  refine EvalM.bind_eq_ok_iff.mpr ⟨w, w, rfl, ?_⟩
  rw [hclosure]
  exact happly steps depth hsteps hdepth

/-- A call of what a form in front comes to. -/
theorem eval_apply {token : Token} (htoken : token.tag = .apply) {head : Form}
    {operands : List Form} {procedure : Value} {arguments : List Value} {u : World}
    (hhead : Within budget (fun ev => ev.value head scope) w procedure w')
    (harguments : Within budget (fun ev => ev.values scope operands) w' arguments w'')
    (happly : Within budget (fun ev => ev.applyValue procedure arguments scope tail) w'' step u) :
    Within budget (fun ev => ev.evalForm ⟨token, head :: operands, true⟩ scope tail) w step u := by
  simp only [Evaluator.evalForm_apply _ htoken]
  exact hhead.bind (harguments.bind happly)

section Bindings

variable {token : Token} {list : Form} {pairs : List (String × Form)} {forms : List Form}
  {vs : List Value}

theorem bindingValues (h : Within budget (fun ev => ev.values scope (pairs.map Prod.snd)) w vs w') :
    Within budget (fun ev => ev.bindingValues scope pairs) w ((pairs.map Prod.fst).zip vs) w' := by
  simp only [Evaluator.bindingValues_eq, ← bind_pure_comp]
  exact h.bind (pure _)

theorem letAll (htoken : token.tag = .letAll) (hpairs : Evaluator.bindingsOf list = .ok pairs)
    (hvalues : Within budget (fun ev => ev.values scope (pairs.map Prod.snd)) w vs w')
    (hbody : Within budget
      (fun ev => ev.body (w'.withFrame scope (pairs.map Prod.fst) vs).1 tail forms)
      (w'.withFrame scope (pairs.map Prod.fst) vs).2 step w'') :
    Within budget (fun ev => ev.evalForm ⟨token, list :: forms, true⟩ scope tail) w step w'' := by
  have hlist : list.tag ≠ .symbol := by
    rw [Evaluator.tag_of_bindingsOf hpairs]
    decide
  simp only [Evaluator.evalForm_letAll _ htoken, Evaluator.letAllForm, if_neg hlist, hpairs]
  refine (pure pairs).bind (hvalues.bindingValues.bind ?_)
  have hframe : Within budget (fun _ => EvalM.newFrame scope
      (.ofPairs ((pairs.map Prod.fst).zip vs))) w' _ _ := of_eq fun _ => rfl
  exact hframe.bind hbody

/-- A binding in a scope of its own, in front of others. -/
theorem bindEach_cons {name : String} {form : Form} {v : Value} {inner : ScopeId}
    (hvalue : Within budget (fun ev => ev.value form scope) w v w')
    (hrest : Within budget (fun ev => ev.bindEach (w'.withFrame scope [name] [v]).1 pairs)
      (w'.withFrame scope [name] [v]).2 inner w'') :
    Within budget (fun ev => ev.bindEach scope ((name, form) :: pairs)) w inner w'' := by
  refine hvalue.bind ?_
  have hframe : Within budget (fun _ => EvalM.newFrame scope [(name, v)]) w' _ _ :=
    of_eq fun _ => rfl
  exact hframe.bind hrest

theorem letEach (htoken : token.tag = .letEach) (hpairs : Evaluator.bindingsOf list = .ok pairs)
    {inner : ScopeId} (hbindings : Within budget (fun ev => ev.bindEach scope pairs) w inner w')
    (hbody : Within budget (fun ev => ev.body inner tail forms) w' step w'') :
    Within budget (fun ev => ev.evalForm ⟨token, list :: forms, true⟩ scope tail) w step w'' := by
  simp only [Evaluator.evalForm_letEach _ htoken, Evaluator.letEachForm, hpairs]
  exact (pure pairs).bind (hbindings.bind hbody)

/-- An empty frame in front of a scope. -/
theorem openFrame (scope : ScopeId) (w : World) : Within budget (fun _ => EvalM.updateStore fun s =>
      let (inner, frame, s) := s.withOpenFrame scope
      ((inner, frame), s)) w ((w.withFrame scope [] []).1, w.store.frames.size)
      (w.withFrame scope [] []).2 :=
  of_eq fun _ => rfl

theorem letRec (htoken : token.tag = .letRec) (hpairs : Evaluator.bindingsOf list = .ok pairs)
    (hbindings : Within budget
      (fun ev => ev.bindRec (w.withFrame scope [] []).1 w.store.frames.size pairs)
      (w.withFrame scope [] []).2 () w')
    (hbody : Within budget (fun ev => ev.body (w.withFrame scope [] []).1 tail forms) w' step w'') :
    Within budget (fun ev => ev.evalForm ⟨token, list :: forms, true⟩ scope tail) w step w'' := by
  simp only [Evaluator.evalForm_letRec _ htoken, Evaluator.letRecForm, hpairs]
  exact (openFrame scope w).bind ((pure pairs).bind (hbindings.bind hbody))

/-- A let with a name: a procedure of this name, which is called at once. -/
theorem letNamed (htoken : token.tag = .letAll) {label : Form} {name : String}
    (hlabel : label.tag = .symbol) (hname : Evaluator.nameOf label = .ok name)
    (hpairs : Evaluator.bindingsOf list = .ok pairs)
    (hvalues : Within budget (fun ev => ev.values scope (pairs.map Prod.snd)) w vs w')
    (hlength : vs.length = (pairs.map Prod.fst).length)
    (happly : Within budget (fun ev => ev.applyClosure
        ⟨pairs.map Prod.fst, forms, (w'.withFrame scope [] []).1, some name⟩ vs tail)
      (w'.withLabel scope name (pairs.map Prod.fst) forms) step w'') :
    Within budget (fun ev => ev.evalForm ⟨token, label :: list :: forms, true⟩ scope tail) w
      step w'' := by
  have hsnd : ((pairs.map Prod.fst).zip vs).map Prod.snd = vs := List.map_snd_zip (by omega)
  simp only [Evaluator.evalForm_letAll _ htoken, Evaluator.letAllForm, if_pos hlabel,
    Evaluator.namedLet, hname, hpairs]
  refine (pure name).bind ((pure pairs).bind (hvalues.bindingValues.bind
    ((openFrame scope w').bind ?_)))
  let closure : Closure :=
    ⟨pairs.map Prod.fst, forms, (w'.withFrame scope [] []).1, some name⟩
  let made : World :=
    { w' with store := ((w'.withFrame scope [] []).2.store.addClosure closure).2 }
  have hclosure : Within budget (fun _ => Evaluator.newClosure closure)
      (w'.withFrame scope [] []).2 w'.store.closures.size made := of_eq fun _ => rfl
  refine hclosure.bind ?_
  have hbind : Within budget (fun _ => EvalM.modifyStore
      (·.bindIn w'.store.frames.size name (.closure w'.store.closures.size))) made ()
      (w'.withLabel scope name (pairs.map Prod.fst) forms) := of_eq fun _ => rfl
  refine hbind.bind ?_
  rw [hsnd]
  exact happly

end Bindings

end Within

namespace Program

/-- What the body of a procedure knows: its argument, and what the root knows. -/
def entry (prog : Program) (argument : Nat) (L : Layout) : Knowledge :=
  ("n", (· = .int argument)) :: prog.globals L

/-- What the body of a procedure knows if there is a call to come. -/
def start (prog : Program) : Context :=
  fun L left => prog.entry (left + 1) L

/-- Bindings whose forms settle one after another, each behind the ones before it. The names that
they add are known to stand for values of which some facts are allowed. -/
inductive Binds (prog : Program) (firm : Bool) (allowed : Fact → Prop) :
    Context → List (String × Form) → Context → Prop where
  | nil (known : Context) : Binds prog firm allowed known [] known
  | cons {known known' : Context} {P : Fact} {name : String} {form : Form}
      {rest : List (String × Form)} :
      prog.Settles firm known P form → allowed P →
      Binds prog firm allowed (known.add [name] [P]) rest known' →
      Binds prog firm allowed known ((name, form) :: rest) known'

/-- Forms that end in a call with one call less to come. -/
inductive Descends (prog : Program) : Context → Form → Prop where
  | call {known : Context} {token : Token} {name : String} {p : Procedure} {argument : Form} :
      token.Names name → p ∈ prog.procedures → p.formals = ["n"] →
      known.Gives name (fun L _ v => v = .closure (L.ids p.name)) →
      prog.Quiet known (fun _ left v => v = .int left) argument →
      Descends prog known ⟨token, [argument], true⟩
  | sequence {known : Context} {token : Token} {fillers : List Form} {last : Form} :
      token.tag = .sequence → (∀ form ∈ fillers, prog.Quiet known .any form) →
      Descends prog known last → Descends prog known ⟨token, fillers ++ [last], true⟩
  | take {known : Context} {token : Token} {clause test last : Form} {fillers rest : List Form} :
      token.tag = .cond → clause.parts = test :: (fillers ++ [last]) →
      prog.Quiet known (fun _ _ v => v.isTrue = true) test →
      (∀ form ∈ fillers, prog.Quiet known .any form) → Descends prog known last →
      Descends prog known ⟨token, clause :: rest, true⟩
  | skip {known : Context} {token : Token} {clause test : Form} {forms rest : List Form} :
      token.tag = .cond → clause.parts = test :: forms →
      prog.Quiet known (fun _ _ v => v.isTrue = false) test →
      Descends prog known ⟨token, rest, true⟩ → Descends prog known ⟨token, clause :: rest, true⟩
  | choose {known : Context} {token : Token} {clause test last : Form} {fillers rest : List Form} :
      token.tag = .cond → clause.parts = test :: (fillers ++ [last]) →
      prog.Quiet known .any test →
      (∀ form ∈ fillers, prog.Quiet known .any form) → Descends prog known last →
      Descends prog known ⟨token, rest, true⟩ → Descends prog known ⟨token, clause :: rest, true⟩
  | letAll {known : Context} {token : Token} {list last : Form} {pairs : List (String × Form)}
      {facts : List Fact} {fillers : List Form} :
      token.tag = .letAll → Evaluator.bindingsOf list = .ok pairs →
      List.Forall₂ (prog.Quiet known) facts (pairs.map Prod.snd) →
      (∀ form ∈ fillers, prog.Quiet (known.add (pairs.map Prod.fst) facts) .any form) →
      Descends prog (known.add (pairs.map Prod.fst) facts) last →
      Descends prog known ⟨token, list :: (fillers ++ [last]), true⟩
  | letEach {known inner : Context} {token : Token} {list last : Form}
      {pairs : List (String × Form)} {fillers : List Form} :
      token.tag = .letEach → Evaluator.bindingsOf list = .ok pairs →
      prog.Binds false (fun _ => True) known pairs inner →
      (∀ form ∈ fillers, prog.Quiet inner .any form) → Descends prog inner last →
      Descends prog known ⟨token, list :: (fillers ++ [last]), true⟩
  | letRec {known inner : Context} {token : Token} {list last : Form} {firm : Bool}
      {pairs : List (String × Form)} {fillers : List Form} :
      token.tag = .letRec → Evaluator.bindingsOf list = .ok pairs →
      -- what is put in front of the new frame may hide what it binds
      prog.Binds firm (fun P => firm = true ∨ P = .any) known pairs inner →
      (∀ form ∈ fillers, prog.Quiet inner .any form) → Descends prog inner last →
      Descends prog known ⟨token, list :: (fillers ++ [last]), true⟩
  | letNamed {known : Context} {token : Token} {label list last : Form} {name : String}
      {pairs : List (String × Form)} {facts : List Fact} {fillers : List Form} :
      token.tag = .letAll → label.tag = .symbol → Evaluator.nameOf label = .ok name →
      Evaluator.bindingsOf list = .ok pairs →
      List.Forall₂ (prog.Quiet known) facts (pairs.map Prod.snd) →
      (∀ form ∈ fillers, prog.Quiet ((known.add [name] [.any]).add (pairs.map Prod.fst) facts)
        .any form) →
      Descends prog ((known.add [name] [.any]).add (pairs.map Prod.fst) facts) last →
      Descends prog known ⟨token, label :: list :: (fillers ++ [last]), true⟩
  | lambda {known : Context} {token head : Token} {params last : Form} {names : List String}
      {facts : List Fact} {fillers operands : List Form} :
      token.tag = .apply → head.tag = .lambda → params.tag = .params →
      params.parts.mapM Evaluator.nameOf = .ok names → names.length = operands.length →
      List.Forall₂ (prog.Quiet known) facts operands →
      (∀ form ∈ fillers, prog.Quiet (known.add names facts) .any form) →
      Descends prog (known.add names facts) last →
      Descends prog known ⟨token, ⟨head, params :: (fillers ++ [last]), true⟩ :: operands, true⟩

/-- A step in a scope leads, within one budget, to the body of a procedure with one call less to
come. -/
def Reenters (prog : Program) (known : Context) (m : Evaluator → ScopeId → EvalM Step) : Prop :=
  ∃ budget, ∀ L left scope w, prog.At L (known L left) scope w.store →
    ∃ step w' p inner w'', Within budget (fun ev => m ev scope) w step w' ∧
      Chain budget step w' (.call p.body inner) w'' ∧ p ∈ prog.procedures ∧
      prog.At L (prog.entry left L) inner w''.store

section Calls

variable {prog : Program} {L : Layout} {known : Knowledge} {scope other : ScopeId} {w w' : World}
  {p : Procedure} {arguments : List Value} {budget : Nat}

theorem At.closure_of_mem (h : prog.At L known scope w.store) (hp : p ∈ prog.procedures) :
    ∃ closure, w.store.closure? (L.ids p.name) = some closure ∧ closure.formals = p.formals ∧
      closure.body = [] ++ [p.body] ∧ closure.scope = L.root := by
  obtain ⟨label, hclosure⟩ := h.made p hp
  exact ⟨_, hclosure, rfl, rfl, rfl⟩

/-- A call of a procedure in tail position leads to its body. -/
theorem At.enter (h : prog.At L known scope w.store) (hp : p ∈ prog.procedures)
    (hlength : arguments.length = p.formals.length) :
    Within budget
      (fun ev => ev.applyValue (.closure (L.ids p.name)) arguments other true) w
      (.call p.body (w.withFrame L.root p.formals arguments).1)
      (w.withFrame L.root p.formals arguments).2 := by
  obtain ⟨closure, hclosure, hformals, hbody, hscope⟩ := h.closure_of_mem hp
  rw [← hformals, ← hscope]
  exact .applyValue hclosure
    (.applyClosure (hlength.trans (congrArg _ hformals.symm)) hbody (.of_eq fun _ => rfl))

/-- A call of a procedure out of tail position runs its body. -/
theorem At.enter_run (h : prog.At L known scope w.store) (hp : p ∈ prog.procedures)
    (hlength : arguments.length = p.formals.length) {v : Value}
    (hbody : Within budget (fun ev => ev.run p.body (w.withFrame L.root p.formals arguments).1)
      (w.withFrame L.root p.formals arguments).2 v w') :
    Within budget (fun ev => ev.applyValue (.closure (L.ids p.name)) arguments other false) w
      (.done v) w' := by
  obtain ⟨closure, hclosure, hformals, hforms, hscope⟩ := h.closure_of_mem hp
  rw [← hformals, ← hscope] at hbody
  exact .applyValue hclosure (.applyClosure_run (hlength.trans (congrArg _ hformals.symm)) hforms
    (.of_eq fun _ => rfl) hbody)

/-- The body of a procedure knows its arguments, and what the root knows. -/
theorem At.entered (h : prog.At L known scope w.store) {facts : List (Value → Prop)}
    (hfacts : List.Forall₂ (fun P v => P v) facts arguments) (formals : List String) :
    prog.At L ((formals.zip facts).reverse ++ prog.globals L)
      (w.withFrame L.root formals arguments).1 (w.withFrame L.root formals arguments).2.store :=
  h.root.withFrame (.ofPairs hfacts formals)

theorem At.entry (h : prog.At L known scope w.store) (argument : Nat) :
    prog.At L (prog.entry argument L) (w.withFrame L.root ["n"] [.int argument]).1
      (w.withFrame L.root ["n"] [.int argument]).2.store := by
  have hfacts : List.Forall₂ (fun (P : Value → Prop) v => P v) [(· = .int argument)]
      [.int argument] := .cons rfl .nil
  exact h.entered hfacts ["n"]

end Calls

/-- Values of which such is known are bound in a new frame. -/
theorem At.frame {prog : Program} {L : Layout} {known : Context} {left : Nat} {scope : ScopeId}
    {w : World} (h : prog.At L (known L left) scope w.store) {facts : List Fact}
    {vs : List Value} (hvs : List.Forall₂ (fun P v => P v) (facts.map fun P => P L left) vs)
    (names : List String) :
    prog.At L (known.add names facts L left) (w.withFrame scope names vs).1
      (w.withFrame scope names vs).2.store :=
  h.withFrame (.ofPairs hvs names)

/-- A name is bound in a frame that the root does not see. Its value is known if no frame is in
front of that one. -/
theorem At.bindIn {prog : Program} {L : Layout} {known : Knowledge} {scope : ScopeId} {s : Store}
    {frame : FrameId} {P : Value → Prop} {v : Value} (h : prog.At L known scope s)
    (hlt : frame < s.frames.size) (hmem : frame ∈ s.chain scope) (hnot : frame ∉ s.chain L.root)
    (hv : ((s.chain scope).head? = some frame ∧ P v) ∨ ∀ u, P u) (name : String) :
    prog.At L ((name, P) :: known) scope (s.bindIn frame name v) := by
  have hrebinds := Store.rebinds_bindIn hlt name v
  refine h.later (Store.extends_bindIn s frame name v) (h.root_knows.congr fun other => ?_)
    fun other Q hother => ?_
  · refine (hrebinds L.root other).2 fun hreveals => ?_
    obtain ⟨-, inner, outer, hchain, -⟩ := hreveals
    exact hnot (by rw [hchain]; simp)
  · by_cases hname : name = other
    · subst hname
      cases hother.symm.trans (List.lookup_cons_self ..)
      rcases hv with ⟨hhead, hv⟩ | hany
      · obtain ⟨outer, hchain⟩ := List.head?_eq_some_iff.mp hhead
        exact ⟨v, (hrebinds scope name).1 ⟨rfl, [], outer, hchain, nofun⟩, hv⟩
      · obtain ⟨u, hu⟩ := Option.isSome_iff_exists.mp (Store.isSome_lookup?_bindIn hmem hlt name v)
        exact ⟨u, hu, hany u⟩
    · rw [List.lookup_cons, beq_eq_false_iff_ne.mpr (Ne.symm hname)] at hother
      rw [(hrebinds scope other).2 fun hreveals => hname hreveals.1.symm]
      exact h.knows other Q hother

/-- A scope with a new frame that is still empty. The frame is in front of its chain and not on
that of the root. -/
theorem At.opened {prog : Program} {L : Layout} {known : Knowledge} {scope : ScopeId} {w : World}
    (h : prog.At L known scope w.store) :
    prog.At L known (w.withFrame scope [] []).1 (w.withFrame scope [] []).2.store ∧
      w.store.frames.size < (w.withFrame scope [] []).2.store.frames.size ∧
      ((w.withFrame scope [] []).2.store.chain (w.withFrame scope [] []).1).head? =
        some w.store.frames.size ∧
      w.store.frames.size ∉ (w.withFrame scope [] []).2.store.chain L.root := by
  have hchain : ∀ other, (w.withFrame scope [] []).2.store.chain other =
      if other = w.store.scopes.size then w.store.frames.size :: w.store.chain scope
      else w.store.chain other := fun _ => Store.chain_withFrame
  have hsize : (w.withFrame scope [] []).2.store.frames.size = w.store.frames.size + 1 :=
    Store.size_addFrame ..
  have hinner : (w.withFrame scope [] []).1 = w.store.scopes.size := rfl
  refine ⟨h.withFrame .nil, by rw [hsize]; exact Nat.lt_succ_self _, ?_, ?_⟩
  · rw [hchain, if_pos hinner]
    rfl
  · rw [hchain, if_neg (Nat.ne_of_lt h.root_placed.lt)]
    exact fun hmem => Nat.lt_irrefl _ (h.root_placed.frames_lt _ hmem)

/-- Quiet bindings, each in a scope of its own. -/
theorem Binds.each {prog : Program} {firm : Bool} {allowed : Fact → Prop} {known inner : Context}
    {pairs : List (String × Form)} (h : prog.Binds firm allowed known pairs inner) :
    ∃ budget, ∀ L left scope w, prog.At L (known L left) scope w.store → ∃ scope' w',
      Within budget (fun ev => ev.bindEach scope pairs) w scope' w' ∧
        prog.At L (inner L left) scope' w'.store := by
  induction h with
  | nil => exact ⟨0, fun L left scope w hat => ⟨scope, w, .pure scope, hat⟩⟩
  | @cons known inner P name form rest hform _ _ ih =>
    obtain ⟨budget, hform⟩ := hform
    obtain ⟨budget', hrest⟩ := ih
    refine ⟨max budget budget', fun L left scope w hat => ?_⟩
    obtain ⟨v, w', hvalue, hv, hat', -⟩ := hform L left scope w hat
    have hfacts : List.Forall₂ (fun P v => P v) ([P].map fun P => P L left) [v] := .cons hv .nil
    obtain ⟨scope', w'', heach, hat''⟩ := hrest L left _ _ (hat'.frame hfacts [name])
    exact ⟨scope', w'', .bindEach_cons (hvalue.mono (by omega)) (heach.mono (by omega)), hat''⟩

/-- Names are given to procedures without being noticed by lookups. -/
theorem At.nameValue {prog : Program} {L : Layout} {known : Knowledge} {scope : ScopeId}
    {w : World} (h : prog.At L known scope w.store) (name : String) (v : Value) :
    ∃ w', EvalM.nameValue name v w = .ok () w' ∧ w.store.Extends w'.store ∧
      w'.store.chain scope = w.store.chain scope ∧ prog.At L known scope w'.store := by
  cases v with
  | closure id =>
    have hextends := Store.extends_nameClosure w.store id name
    exact ⟨{ w with store := w.store.nameClosure id name }, rfl, hextends, rfl,
      h.of_lookups hextends fun _ _ => rfl⟩
  | _ => exact ⟨w, rfl, .refl _, rfl, h⟩

/-- Bindings that fill a frame. -/
theorem Binds.fill {prog : Program} {firm : Bool} {known inner : Context}
    {pairs : List (String × Form)}
    (h : prog.Binds firm (fun P => firm = true ∨ P = .any) known pairs inner) :
    ∃ budget, ∀ L left scope frame w, prog.At L (known L left) scope w.store →
      frame < w.store.frames.size → frame ∈ w.store.chain scope →
      (firm = true → (w.store.chain scope).head? = some frame) →
      frame ∉ w.store.chain L.root → ∃ w',
        Within budget (fun ev => ev.bindRec scope frame pairs) w () w' ∧
          prog.At L (inner L left) scope w'.store := by
  induction h with
  | nil => exact ⟨0, fun L left scope frame w hat _ _ _ _ => ⟨w, .pure (), hat⟩⟩
  | @cons known inner P name form rest hform hallowed _ ih =>
    obtain ⟨budget, hform⟩ := hform
    obtain ⟨budget', hrest⟩ := ih
    refine ⟨max budget budget', fun L left scope frame w hat hlt hmem hhead hnot => ?_⟩
    obtain ⟨v, w₁, hvalue, hv, hat₁, hchain⟩ := hform L left scope w hat
    obtain ⟨w₂, hname, hnamed, hkept, hat₂⟩ := hat₁.nameValue name v
    have hextends : w.store.Extends w₂.store := hvalue.extends_value.trans hnamed
    have hlt₂ : frame < w₂.store.frames.size := Nat.lt_of_lt_of_le hlt hextends.frames_le
    have hmem₂ : frame ∈ w₂.store.chain scope := by
      obtain ⟨new, hchain, -⟩ := hextends.chain scope hat.placed.lt
      rw [hchain]
      exact List.mem_append_right new hmem
    have hhead₂ : firm = true → (w₂.store.chain scope).head? = some frame := fun hfirm => by
      rw [hkept, hchain hfirm]
      exact hhead hfirm
    have hnot₂ := hat.root_placed.not_mem_after hextends hlt hnot
    have hknown : ((w₂.store.chain scope).head? = some frame ∧ P L left v) ∨
        ∀ u, P L left u := by
      rcases hallowed with hfirm | rfl
      · exact .inl ⟨hhead₂ hfirm, hv⟩
      · exact .inr fun _ => trivial
    let bound : World := { w₂ with store := w₂.store.bindIn frame name v }
    have hlt₃ : frame < bound.store.frames.size := by simpa [bound] using hlt₂
    obtain ⟨w', hfill, hat'⟩ := hrest L left scope frame bound
      (hat₂.bindIn hlt₂ hmem₂ hnot₂ hknown name) hlt₃ hmem₂ hhead₂ hnot₂
    have hmodify : Within budget' (fun _ => EvalM.modifyStore (·.bindIn frame name v)) w₂ ()
      bound := .of_eq fun _ => rfl
    exact ⟨w', (hvalue.mono (by omega)).bind ((Within.of_eq fun _ => hname).bind
      ((hmodify.mono (by omega)).bind (hfill.mono (by omega)))), hat'⟩

namespace Reenters

variable {prog : Program} {known : Context} {token : Token} {last : Form} {fillers : List Form}

theorem eval {form : Form} (h : prog.Reenters known fun ev scope => ev.evalForm form scope true) :
    prog.Reenters known fun ev scope => ev.eval form scope true := by
  obtain ⟨budget, h⟩ := h
  refine ⟨budget + 1, fun L left scope w hat => ?_⟩
  obtain ⟨step, w', p, inner, w'', hstep, hchain, hp, hat'⟩ := h L left scope w hat
  exact ⟨step, w', p, inner, w'', hstep.eval, hchain.mono (Nat.le_succ _), hp, hat'⟩

/-- What is done before the step, within a budget, leaves things as they are known. -/
theorem after {α : Type} {m : Evaluator → ScopeId → EvalM α} {f : Evaluator → ScopeId → EvalM Step}
    (hfirst : ∃ budget, ∀ L left scope w, prog.At L (known L left) scope w.store → ∃ a w',
      Within budget (fun ev => m ev scope) w a w' ∧ prog.At L (known L left) scope w'.store)
    (h : prog.Reenters known f) :
    prog.Reenters known fun ev scope => (do
      let _ ← m ev scope
      f ev scope) := by
  obtain ⟨budget, hfirst⟩ := hfirst
  obtain ⟨budget', h⟩ := h
  refine ⟨max budget budget', fun L left scope w hat => ?_⟩
  obtain ⟨a, w', hm, hat'⟩ := hfirst L left scope w hat
  obtain ⟨step, v, p, inner, u, hstep, hchain, hp, hat''⟩ := h L left scope w' hat'
  exact ⟨step, v, p, inner, u, (hm.mono (by omega)).bind (hstep.mono (by omega)),
    hchain.mono (by omega), hp, hat''⟩

theorem body (hfillers : ∀ form ∈ fillers, prog.Quiet known .any form)
    (hlast : prog.Reenters known fun ev scope => ev.eval last scope true) :
    prog.Reenters known fun ev scope => ev.body scope true (fillers ++ [last]) := by
  obtain ⟨budget, heach⟩ := Settles.each hfillers
  simp only [Evaluator.body_append]
  refine after ⟨budget, fun L left scope w hat => ?_⟩ hlast
  obtain ⟨w', heach, hat'⟩ := heach L left scope w hat
  exact ⟨(), w', heach, hat'⟩

theorem call {name : String} {p : Procedure} {argument : Form} (htoken : token.Names name)
    (hp : p ∈ prog.procedures) (hformals : p.formals = ["n"])
    (hname : known.Gives name fun L _ v => v = .closure (L.ids p.name))
    (hargument : prog.Quiet known (fun _ left v => v = .int left) argument) :
    prog.Reenters known fun ev scope => ev.eval ⟨token, [argument], true⟩ scope true := by
  obtain ⟨budget, hargument⟩ := hargument
  refine ⟨budget + 1, fun L left scope w hat => ?_⟩
  obtain ⟨_, hlookup, rfl⟩ := hat.knows name _ (hname L left)
  obtain ⟨_, w', hvalue, rfl, hat', -⟩ := hargument L left scope w hat
  refine ⟨_, _, p, _, _, .eval_call htoken hlookup (hvalue.values_cons .values_nil)
    (hat'.enter hp (by rw [hformals]; rfl)), .refl _ _, hp, ?_⟩
  rw [hformals]
  exact hat'.entry left

section Clauses

variable {clause test : Form} {rest : List Form} (htoken : token.tag = .cond)

include htoken

theorem take (hclause : clause.parts = test :: (fillers ++ [last]))
    (htest : prog.Quiet known (fun _ _ v => v.isTrue = true) test)
    (hbody : prog.Reenters known fun ev scope => ev.body scope true (fillers ++ [last])) :
    prog.Reenters known fun ev scope => ev.eval ⟨token, clause :: rest, true⟩ scope true := by
  obtain ⟨budget, htest⟩ := htest
  obtain ⟨budget', hbody⟩ := hbody
  refine ⟨max budget budget' + 1, fun L left scope w hat => ?_⟩
  obtain ⟨v, w', hvalue, hv, hat', -⟩ := htest L left scope w hat
  obtain ⟨step, v', p, inner, u, hstep, hchain, hp, hentered⟩ := hbody L left scope w' hat'
  exact ⟨step, v', p, inner, u, .eval_clauses htoken (.clauses_true hclause
    (hvalue.mono (by omega)) hv (hstep.mono (by omega))), hchain.mono (by omega), hp, hentered⟩

theorem skip {forms : List Form} (hclause : clause.parts = test :: forms)
    (htest : prog.Quiet known (fun _ _ v => v.isTrue = false) test)
    (hrest : prog.Reenters known fun ev scope => ev.eval ⟨token, rest, true⟩ scope true) :
    prog.Reenters known fun ev scope => ev.eval ⟨token, clause :: rest, true⟩ scope true := by
  obtain ⟨budget, htest⟩ := htest
  obtain ⟨budget', hrest⟩ := hrest
  refine ⟨max budget budget' + 1, fun L left scope w hat => ?_⟩
  obtain ⟨v, w', hvalue, hv, hat', -⟩ := htest L left scope w hat
  obtain ⟨step, v', p, inner, u, hstep, hchain, hp, hentered⟩ := hrest L left scope w' hat'
  exact ⟨step, v', p, inner, u, .eval_clauses htoken (.clauses_false hclause
    (hvalue.mono (by omega)) hv (.clauses_of_eval htoken (hstep.mono (by omega)))),
    hchain.mono (by omega), hp, hentered⟩

theorem choose (hclause : clause.parts = test :: (fillers ++ [last]))
    (htest : prog.Quiet known .any test)
    (hbody : prog.Reenters known fun ev scope => ev.body scope true (fillers ++ [last]))
    (hrest : prog.Reenters known fun ev scope => ev.eval ⟨token, rest, true⟩ scope true) :
    prog.Reenters known fun ev scope => ev.eval ⟨token, clause :: rest, true⟩ scope true := by
  obtain ⟨budget, htest⟩ := htest
  obtain ⟨budget', hbody⟩ := hbody
  obtain ⟨budget'', hrest⟩ := hrest
  refine ⟨max budget (max budget' budget'') + 1, fun L left scope w hat => ?_⟩
  obtain ⟨v, w', hvalue, -, hat', -⟩ := htest L left scope w hat
  cases hv : v.isTrue with
  | true =>
    obtain ⟨step, v', p, inner, u, hstep, hchain, hp, hentered⟩ := hbody L left scope w' hat'
    exact ⟨step, v', p, inner, u, .eval_clauses htoken (.clauses_true hclause
      (hvalue.mono (by omega)) hv (hstep.mono (by omega))), hchain.mono (by omega), hp, hentered⟩
  | false =>
    obtain ⟨step, v', p, inner, u, hstep, hchain, hp, hentered⟩ := hrest L left scope w' hat'
    exact ⟨step, v', p, inner, u, .eval_clauses htoken (.clauses_false hclause
      (hvalue.mono (by omega)) hv (.clauses_of_eval htoken (hstep.mono (by omega)))),
      hchain.mono (by omega), hp, hentered⟩

end Clauses

section Bindings

variable {list : Form} {pairs : List (String × Form)} {facts : List Fact} {forms : List Form}
  (hpairs : Evaluator.bindingsOf list = .ok pairs)

include hpairs

theorem letAll (htoken : token.tag = .letAll)
    (hvalues : List.Forall₂ (prog.Quiet known) facts (pairs.map Prod.snd))
    (hbody : prog.Reenters (known.add (pairs.map Prod.fst) facts) fun ev scope =>
      ev.body scope true forms) :
    prog.Reenters known fun ev scope => ev.eval ⟨token, list :: forms, true⟩ scope true := by
  obtain ⟨budget, hvalues⟩ := Settles.values hvalues
  obtain ⟨budget', hbody⟩ := hbody
  refine eval ⟨max budget budget', fun L left scope w hat => ?_⟩
  obtain ⟨vs, w', hvs, hfacts, hat', -⟩ := hvalues L left scope w hat
  obtain ⟨step, v, p, inner, u, hstep, hchain, hp, hentered⟩ :=
    hbody L left _ _ (hat'.frame hfacts (pairs.map Prod.fst))
  exact ⟨step, v, p, inner, u, .letAll htoken hpairs (hvs.mono (by omega))
    (hstep.mono (by omega)), hchain.mono (by omega), hp, hentered⟩

theorem letEach {firm : Bool} {allowed : Fact → Prop} {added : Context}
    (htoken : token.tag = .letEach) (hbinds : prog.Binds firm allowed known pairs added)
    (hbody : prog.Reenters added fun ev scope => ev.body scope true forms) :
    prog.Reenters known fun ev scope => ev.eval ⟨token, list :: forms, true⟩ scope true := by
  obtain ⟨budget, hbinds⟩ := hbinds.each
  obtain ⟨budget', hbody⟩ := hbody
  refine eval ⟨max budget budget', fun L left scope w hat => ?_⟩
  obtain ⟨scope', w', heach, hat'⟩ := hbinds L left scope w hat
  obtain ⟨step, v, p, inner, u, hstep, hchain, hp, hentered⟩ := hbody L left scope' w' hat'
  exact ⟨step, v, p, inner, u, .letEach htoken hpairs (heach.mono (by omega))
    (hstep.mono (by omega)), hchain.mono (by omega), hp, hentered⟩

theorem letRec {firm : Bool} {added : Context} (htoken : token.tag = .letRec)
    (hbinds : prog.Binds firm (fun P => firm = true ∨ P = .any) known pairs added)
    (hbody : prog.Reenters added fun ev scope => ev.body scope true forms) :
    prog.Reenters known fun ev scope => ev.eval ⟨token, list :: forms, true⟩ scope true := by
  obtain ⟨budget, hbinds⟩ := hbinds.fill
  obtain ⟨budget', hbody⟩ := hbody
  refine eval ⟨max budget budget', fun L left scope w hat => ?_⟩
  obtain ⟨hopen, hlt, hnew, hold⟩ := hat.opened
  obtain ⟨w', hfill, hat'⟩ := hbinds L left _ _ _ hopen hlt (List.mem_of_head? hnew)
    (fun _ => hnew) hold
  obtain ⟨step, v, p, inner, u, hstep, hchain, hp, hentered⟩ := hbody L left _ w' hat'
  exact ⟨step, v, p, inner, u, .letRec htoken hpairs (hfill.mono (by omega))
    (hstep.mono (by omega)), hchain.mono (by omega), hp, hentered⟩

end Bindings

section Procedures

variable {names : List String} {facts : List Fact}

/-- A procedure that is called where it was made. -/
theorem applied (hfillers : ∀ form ∈ fillers, prog.Quiet (known.add names facts) .any form)
    (hlast : prog.Reenters (known.add names facts) fun ev scope => ev.eval last scope true) :
    ∃ budget, ∀ L left scope w label vs, prog.At L (known L left) scope w.store →
      List.Forall₂ (fun P v => P v) (facts.map fun P => P L left) vs →
      vs.length = names.length → ∃ step w' p inner w'',
        Within budget
          (fun ev => ev.applyClosure ⟨names, fillers ++ [last], scope, label⟩ vs true) w step w' ∧
          Chain budget step w' (.call p.body inner) w'' ∧ p ∈ prog.procedures ∧
          prog.At L (prog.entry left L) inner w''.store := by
  obtain ⟨budget, hfillers⟩ := Settles.each hfillers
  obtain ⟨budget', hlast⟩ := hlast
  refine ⟨max budget budget', fun L left scope w label vs hat hvs hlength => ?_⟩
  obtain ⟨w₁, heach, hat₁⟩ := hfillers L left _ _ (hat.frame hvs names)
  obtain ⟨step, v, p, inner, u, hstep, hchain, hp, hentered⟩ := hlast L left _ _ hat₁
  exact ⟨_, w₁, p, inner, u, .applyClosure hlength rfl (heach.mono (by omega)),
    .call (hstep.mono (by omega)) (hchain.mono (by omega)), hp, hentered⟩

theorem lambda {head : Token} {params : Form} {operands : List Form} (htoken : token.tag = .apply)
    (hhead : head.tag = .lambda) (hparams : params.tag = .params)
    (hnames : params.parts.mapM Evaluator.nameOf = .ok names)
    (hlength : names.length = operands.length)
    (hoperands : List.Forall₂ (prog.Quiet known) facts operands)
    (hfillers : ∀ form ∈ fillers, prog.Quiet (known.add names facts) .any form)
    (hlast : prog.Reenters (known.add names facts) fun ev scope => ev.eval last scope true) :
    prog.Reenters known fun ev scope =>
      ev.eval ⟨token, ⟨head, params :: (fillers ++ [last]), true⟩ :: operands, true⟩ scope
        true := by
  obtain ⟨first, rest, hforms⟩ : ∃ first rest, fillers ++ [last] = first :: rest := by
    cases fillers with
    | nil => exact ⟨last, [], rfl⟩
    | cons first rest => exact ⟨first, rest ++ [last], rfl⟩
  obtain ⟨budget, hvalues⟩ := Settles.values hoperands
  obtain ⟨budget', happlied⟩ := applied hfillers hlast
  refine eval ⟨max 1 (max budget budget'), fun L left scope w hat => ?_⟩
  -- the procedure is made before its operands are evaluated
  let closure : Closure := ⟨names, fillers ++ [last], scope, none⟩
  let made : World := { w with store := (w.store.addClosure closure).2 }
  have hmade : Within 1 (fun ev => ev.value ⟨head, params :: (fillers ++ [last]), true⟩ scope) w
      (.closure w.store.closures.size) made := by
    simp only [made, closure, hforms]
    exact .value_lambda hhead hparams hnames
  have hat₁ : prog.At L (known L left) scope made.store :=
    hat.of_lookups (Store.extends_addClosure w.store closure) fun _ _ => rfl
  obtain ⟨vs, w₂, hvs, hfacts, hat₂, -⟩ := hvalues L left scope made hat₁
  obtain ⟨label, hclosure⟩ : ∃ label,
      w₂.store.closure? w.store.closures.size = some { closure with name := label } :=
    hvs.extends_values.closure (Array.getElem?_push_size ..)
  have hcount : vs.length = names.length := by
    have hvs_length := hfacts.length_eq
    rw [List.length_map, hoperands.length_eq] at hvs_length
    omega
  obtain ⟨step, v, p, inner, u, hstep, hchain, hp, hentered⟩ :=
    happlied L left scope w₂ label vs hat₂ hfacts hcount
  exact ⟨step, v, p, inner, u, .eval_apply htoken (hmade.mono (by omega)) (hvs.mono (by omega))
    (.applyValue hclosure (hstep.mono (by omega))), hchain.mono (by omega), hp, hentered⟩

theorem letNamed {label list : Form} {name : String} {pairs : List (String × Form)}
    (htoken : token.tag = .letAll) (hlabel : label.tag = .symbol)
    (hname : Evaluator.nameOf label = .ok name) (hpairs : Evaluator.bindingsOf list = .ok pairs)
    (hvalues : List.Forall₂ (prog.Quiet known) facts (pairs.map Prod.snd))
    (hfillers : ∀ form ∈ fillers,
      prog.Quiet ((known.add [name] [.any]).add (pairs.map Prod.fst) facts) .any form)
    (hlast : prog.Reenters ((known.add [name] [.any]).add (pairs.map Prod.fst) facts)
      fun ev scope => ev.eval last scope true) :
    prog.Reenters known fun ev scope =>
      ev.eval ⟨token, label :: list :: (fillers ++ [last]), true⟩ scope true := by
  have hcount := hvalues.length_eq
  obtain ⟨budget, hvalues⟩ := Settles.values hvalues
  obtain ⟨budget', happlied⟩ := applied hfillers hlast
  refine eval ⟨max budget budget', fun L left scope w hat => ?_⟩
  obtain ⟨vs, w', hvs, hfacts, hat', -⟩ := hvalues L left scope w hat
  have hlength : vs.length = (pairs.map Prod.fst).length := by
    have hvs_length := hfacts.length_eq
    rw [List.length_map, hcount, List.length_map] at hvs_length
    rw [List.length_map, ← hvs_length]
  obtain ⟨hopen, hlt, hnew, hold⟩ := hat'.opened
  have hmade := hopen.of_lookups (Store.extends_addClosure _ ⟨pairs.map Prod.fst,
    fillers ++ [last], (w'.withFrame scope [] []).1, some name⟩) fun _ _ => rfl
  have hlabelled : prog.At L (known.add [name] [.any] L left) (w'.withFrame scope [] []).1
      (w'.withLabel scope name (pairs.map Prod.fst) (fillers ++ [last])).store :=
    hmade.bindIn hlt (List.mem_of_head? hnew) hold (.inr fun _ => trivial) name
  obtain ⟨step, v, p, inner, u, hstep, hchain, hp, hentered⟩ :=
    happlied L left _ _ (some name) vs hlabelled hfacts hlength
  exact ⟨step, v, p, inner, u, .letNamed htoken hlabel hname hpairs (hvs.mono (by omega)) hlength
    (hstep.mono (by omega)), hchain.mono (by omega), hp, hentered⟩

end Procedures

end Reenters

/-- Forms that end in a call lead to it within one budget. -/
theorem Descends.reenters {prog : Program} {known : Context} {form : Form}
    (h : prog.Descends known form) :
    prog.Reenters known fun ev scope => ev.eval form scope true := by
  induction h with
  | call htoken hp hformals hname hargument => exact .call htoken hp hformals hname hargument
  | @sequence known token fillers last htoken hfillers _ ih =>
    refine .eval ?_
    simp only [Evaluator.evalForm_sequence _ htoken]
    exact .body hfillers ih
  | take htoken hclause htest hfillers _ ih => exact .take htoken hclause htest (.body hfillers ih)
  | skip htoken hclause htest _ ih => exact .skip htoken hclause htest ih
  | choose htoken hclause htest hfillers _ _ ih ihrest =>
    exact .choose htoken hclause htest (.body hfillers ih) ihrest
  | letAll htoken hpairs hvalues hfillers _ ih =>
    exact .letAll hpairs htoken hvalues (.body hfillers ih)
  | letEach htoken hpairs hbinds hfillers _ ih =>
    exact .letEach hpairs htoken hbinds (.body hfillers ih)
  | letRec htoken hpairs hbinds hfillers _ ih =>
    exact .letRec hpairs htoken hbinds (.body hfillers ih)
  | letNamed htoken hlabel hname hpairs hvalues hfillers _ ih =>
    exact .letNamed htoken hlabel hname hpairs hvalues hfillers ih
  | lambda htoken hhead hparams hnames hlength hoperands hfillers _ ih =>
    exact .lambda htoken hhead hparams hnames hlength hoperands hfillers ih

end Program

end TowerLisp
