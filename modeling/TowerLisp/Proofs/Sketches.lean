import TowerLisp.Proofs.EventualResults

/-!
Forms without their places. A sketch says what a form consists of: names, numbers, calls by name,
clauses and procedures. All forms of a sketch end in the same result if it makes no procedure, so
the rules for what forms end in can be read as rules for sketches.
-/

namespace TowerLisp

open EvalM (CutShort)

inductive Sketch where
  | name (key : String)
  | number (n : Int)
  | empty
  | call (key : String) (operands : List Sketch)
  | clause (test value : Sketch)
  | cond (clauses : List Sketch)
  | lambda (formals : List String) (body : Sketch)

namespace Token

def isNamed (token : Token) (key : String) : Bool :=
  (token.tag = .symbol || token.tag = .operator) &&
    match token.payload.written with
    | .ok name => name = key
    | .error _ => false

def isInt (token : Token) (n : Int) : Bool :=
  token.tag = .number &&
    match Form.numberValue token.payload with
    | .ok v => v = .int n
    | .error _ => false

theorem names_of_isNamed {token : Token} {key : String} (h : token.isNamed key = true) :
    token.Names key := by
  unfold isNamed at h
  split at h
  · rename_i hwritten
    simp only [Bool.and_eq_true, Bool.or_eq_true, decide_eq_true_eq] at h
    exact ⟨h.1, h.2 ▸ hwritten⟩
  · simp at h

theorem denotes_of_isInt {token : Token} {n : Int} (h : token.isInt n = true) :
    token.Denotes (.int n) := by
  unfold isInt at h
  split at h
  · rename_i hvalue
    simp only [Bool.and_eq_true, decide_eq_true_eq] at h
    exact ⟨h.1, h.2 ▸ hvalue⟩
  · simp at h

end Token

namespace Form

mutual

/-- A form is of a sketch. -/
def fits : Form → Sketch → Bool
  | ⟨token, [], false⟩, .name key => token.isNamed key
  | ⟨token, [], false⟩, .number n => token.isInt n
  | ⟨token, [], true⟩, .empty => token.tag = .empty
  | ⟨token, parts, true⟩, .call key operands => token.isNamed key && fitAll parts operands
  | ⟨_, [test, value], _⟩, .clause test' value' => test.fits test' && value.fits value'
  | ⟨token, parts, true⟩, .cond clauses => token.tag = .cond && fitAll parts clauses
  | ⟨token, [params, body], true⟩, .lambda formals sketch =>
    token.tag = .lambda && params.tag = .params &&
      (params.parts.mapM Evaluator.nameOf).toOption = some formals && body.fits sketch
  | _, _ => false

def fitAll : List Form → List Sketch → Bool
  | [], [] => true
  | form :: forms, sketch :: sketches => form.fits sketch && fitAll forms sketches
  | _, _ => false

end

variable {form : Form} {forms : List Form} {key : String} {operands clauses sketches : List Sketch}
  {sketch test value : Sketch} {formals : List String}

theorem of_fits_name (h : form.fits (.name key) = true) :
    ∃ token, form = .leaf token ∧ token.Names key := by
  obtain ⟨token, _ | ⟨first, rest⟩, _ | _⟩ := form <;>
    simp only [fits, Bool.false_eq_true] at h
  exact ⟨token, rfl, Token.names_of_isNamed h⟩

example : (leaf ⟨.symbol, .text "x", none⟩).fits (.name "x") = true := by cbv

theorem of_fits_number {n : Int} (h : form.fits (.number n) = true) :
    ∃ token, form = .leaf token ∧ token.Denotes (.int n) := by
  obtain ⟨token, _ | ⟨first, rest⟩, _ | _⟩ := form <;>
    simp only [fits, Bool.false_eq_true] at h
  exact ⟨token, rfl, Token.denotes_of_isInt h⟩

theorem of_fits_empty (h : form.fits .empty = true) :
    ∃ token, form = ⟨token, [], true⟩ ∧ token.tag = .empty := by
  obtain ⟨token, _ | ⟨first, rest⟩, _ | _⟩ := form <;>
    simp only [fits, decide_eq_true_eq, Bool.false_eq_true] at h
  exact ⟨token, rfl, h⟩

theorem of_fits_call (h : form.fits (.call key operands) = true) :
    ∃ token parts, form = ⟨token, parts, true⟩ ∧ token.Names key ∧
      fitAll parts operands = true := by
  obtain ⟨token, parts, _ | _⟩ := form <;>
    simp only [fits, Bool.and_eq_true, Bool.false_eq_true] at h
  exact ⟨token, parts, rfl, Token.names_of_isNamed h.1, h.2⟩

theorem of_fits_clause (h : form.fits (.clause test value) = true) :
    ∃ first second, form.parts = [first, second] ∧ first.fits test = true ∧
      second.fits value = true := by
  obtain ⟨token, _ | ⟨first, _ | ⟨second, _ | ⟨third, rest⟩⟩⟩, compound⟩ := form <;>
    simp only [fits, Bool.and_eq_true, Bool.false_eq_true] at h
  exact ⟨first, second, rfl, h⟩

theorem of_fits_cond (h : form.fits (.cond clauses) = true) :
    ∃ token parts, form = ⟨token, parts, true⟩ ∧ token.tag = .cond ∧
      fitAll parts clauses = true := by
  obtain ⟨token, parts, _ | _⟩ := form <;>
    simp only [fits, Bool.and_eq_true, decide_eq_true_eq, Bool.false_eq_true] at h
  exact ⟨token, parts, rfl, h⟩

theorem of_fits_lambda (h : form.fits (.lambda formals sketch) = true) :
    ∃ token params body, form = ⟨token, [params, body], true⟩ ∧ token.tag = .lambda ∧
      params.tag = .params ∧ params.parts.mapM Evaluator.nameOf = .ok formals ∧
      body.fits sketch = true := by
  obtain ⟨token, _ | ⟨params, _ | ⟨body, _ | ⟨third, rest⟩⟩⟩, _ | _⟩ := form <;>
    simp only [fits, Bool.and_eq_true, decide_eq_true_eq, Bool.false_eq_true] at h
  obtain ⟨⟨⟨htoken, hparams⟩, hformals⟩, hbody⟩ := h
  cases hread : params.parts.mapM Evaluator.nameOf with
  | error fault =>
    rw [hread] at hformals
    cases hformals
  | ok names =>
    rw [hread] at hformals
    cases hformals
    exact ⟨token, params, body, rfl, htoken, hparams, hread, hbody⟩

theorem of_fitAll_cons (h : fitAll forms (sketch :: sketches) = true) :
    ∃ form rest, forms = form :: rest ∧ form.fits sketch = true ∧
      fitAll rest sketches = true := by
  cases forms with
  | nil => simp [fitAll] at h
  | cons form rest =>
    simp only [fitAll, Bool.and_eq_true] at h
    exact ⟨form, rest, rfl, h⟩

theorem of_fitAll_nil (h : fitAll forms [] = true) : forms = [] := by
  cases forms with
  | nil => rfl
  | cons form rest => simp [fitAll] at h

end Form

namespace Sketch

/-- All forms of a sketch end in a result. -/
def Gives (sketch : Sketch) (scope : ScopeId) (w : World)
    (result : EStateM.Result Fault World Value) : Prop :=
  ∀ form : Form, form.fits sketch = true → EndsIn (fun ev => ev.value form scope) w result

/-- All operands of some sketches do. -/
def AllGive (sketches : List Sketch) (scope : ScopeId) (w : World)
    (result : EStateM.Result Fault World (List Value)) : Prop :=
  ∀ forms, Form.fitAll forms sketches = true → EndsIn (fun ev => ev.values scope forms) w result

/-- All clauses of some sketches do. -/
def Chooses (sketches : List Sketch) (scope : ScopeId) (w : World)
    (result : EStateM.Result Fault World Value) : Prop :=
  ∀ clauses, Form.fitAll clauses sketches = true →
    EndsIn (fun ev => ev.clauses scope false clauses >>= ev.finish) w result

variable {w w' w'' : World} {scope : ScopeId} {key : String} {v procedure : Value}
  {sketch test value : Sketch} {sketches operands : List Sketch} {values arguments : List Value}
  {fault : Fault} {result : EStateM.Result Fault World Value}

theorem Gives.name (h : w.store.lookup? scope key = some v) :
    (Sketch.name key).Gives scope w (.ok v w) := by
  intro form hform
  obtain ⟨token, rfl, htoken⟩ := Form.of_fits_name hform
  exact .of_within (Within.value_name htoken h)

theorem Gives.number (n : Int) : (Sketch.number n).Gives scope w (.ok (.int n) w) := by
  intro form hform
  obtain ⟨token, rfl, htoken⟩ := Form.of_fits_number hform
  exact .of_within (Within.value_number htoken)

theorem Gives.empty : Sketch.empty.Gives scope w (.ok .nil w) := by
  intro form hform
  obtain ⟨⟨tag, payload, place⟩, rfl, rfl⟩ := Form.of_fits_empty hform
  have hvalue : Within 1 (fun ev => ev.value ⟨⟨.empty, payload, place⟩, [], true⟩ scope) w .nil w :=
    .value (.eval (.of_eq fun ev => rfl))
  exact .of_within hvalue

theorem AllGive.nil : AllGive [] scope w (.ok [] w) := by
  intro forms hforms
  cases Form.of_fitAll_nil hforms
  exact .values_nil

theorem AllGive.cons (h : sketch.Gives scope w (.ok v w'))
    (hrest : AllGive sketches scope w' (.ok values w'')) :
    AllGive (sketch :: sketches) scope w (.ok (v :: values) w'') := by
  intro forms hforms
  obtain ⟨form, rest, rfl, hform, hforms⟩ := Form.of_fitAll_cons hforms
  exact .values_cons (h form hform) (hrest rest hforms)

theorem AllGive.fault_first (h : sketch.Gives scope w (.error fault w')) :
    AllGive (sketch :: sketches) scope w (.error fault w') := by
  intro forms hforms
  obtain ⟨form, rest, rfl, hform, -⟩ := Form.of_fitAll_cons hforms
  exact .values_fault (h form hform)

theorem AllGive.fault_later (h : sketch.Gives scope w (.ok v w'))
    (hrest : AllGive sketches scope w' (.error fault w'')) :
    AllGive (sketch :: sketches) scope w (.error fault w'') := by
  intro forms hforms
  obtain ⟨form, rest, rfl, hform, hforms⟩ := Form.of_fitAll_cons hforms
  exact .values_cons_fault (h form hform) (hrest rest hforms)

theorem Gives.call (h : w.store.lookup? scope key = some procedure)
    (hoperands : AllGive operands scope w (.ok arguments w'))
    (happly : EndsIn (fun ev => ev.applied procedure arguments scope) w' result) :
    (Sketch.call key operands).Gives scope w result := by
  intro form hform
  obtain ⟨token, parts, rfl, htoken, hparts⟩ := Form.of_fits_call hform
  exact .value_call htoken h (hoperands parts hparts) happly

theorem Gives.call_fault (h : w.store.lookup? scope key = some procedure)
    (hoperands : AllGive operands scope w (.error fault w')) :
    (Sketch.call key operands).Gives scope w (.error fault w') := by
  intro form hform
  obtain ⟨token, parts, rfl, htoken, hparts⟩ := Form.of_fits_call hform
  exact .value_call_fault htoken h (hoperands parts hparts)

/-- A call of a primitive that computes a value, which still may need marks. -/
theorem Gives.compute {p : Primitive} {u : Value}
    (h : w.store.lookup? scope key = some (.primitive p))
    (hoperands : AllGive operands scope w (.ok arguments w'))
    (harity : ∀ n, p.arity? = some n → arguments.length = n)
    (hcompute : Builtin.compute? w'.store p arguments = some (.ok u))
    (hmark : EvalM.mark u w' = .ok v w'') : (Sketch.call key operands).Gives scope w (.ok v w'') :=
  .call h hoperands (.applied_primitive (.of_eq fun ev =>
    (Builtin.run_eq_mark harity hcompute ev scope).trans hmark))

/-- A call of a primitive on values for which it has none. -/
theorem Gives.compute_fault {p : Primitive}
    (h : w.store.lookup? scope key = some (.primitive p))
    (hoperands : AllGive operands scope w (.ok arguments w'))
    (harity : ∀ n, p.arity? = some n → arguments.length = n)
    (hcompute : Builtin.compute? w'.store p arguments = some (.error fault))
    (hlimit : fault.isLimit = false) :
    (Sketch.call key operands).Gives scope w (.error fault w') := by
  have hcut : ¬ CutShort (.error fault w' : EStateM.Result Fault World Value) := by
    simp [CutShort, hlimit]
  exact .call h hoperands (.applied_primitive ⟨hcut, 0, fun _ _ _ _ =>
    Builtin.run_fault harity hcompute _ scope⟩)

theorem Gives.cond (h : Chooses (sketch :: sketches) scope w result) :
    (Sketch.cond (sketch :: sketches)).Gives scope w result := by
  intro form hform
  obtain ⟨token, parts, rfl, htoken, hparts⟩ := Form.of_fits_cond hform
  obtain ⟨clause, rest, rfl, -, -⟩ := Form.of_fitAll_cons hparts
  exact .value_clauses htoken (h _ hparts)

/-- A clause whose test is true is the one that counts. -/
theorem Chooses.take (htest : test.Gives scope w (.ok v w')) (hv : v.isTrue = true)
    (hvalue : value.Gives scope w' result) :
    Chooses (clause test value :: sketches) scope w result := by
  intro clauses hclauses
  obtain ⟨form, rest, rfl, hform, -⟩ := Form.of_fitAll_cons hclauses
  obtain ⟨first, second, hparts, hfirst, hsecond⟩ := Form.of_fits_clause hform
  exact .clauses_true hparts (htest first hfirst) hv (hvalue second hsecond)

theorem Chooses.skip (htest : test.Gives scope w (.ok v w')) (hv : v.isTrue = false)
    (hrest : Chooses sketches scope w' result) :
    Chooses (clause test value :: sketches) scope w result := by
  intro clauses hclauses
  obtain ⟨form, rest, rfl, hform, hrest'⟩ := Form.of_fitAll_cons hclauses
  obtain ⟨first, second, hparts, hfirst, -⟩ := Form.of_fits_clause hform
  exact .clauses_false hparts (htest first hfirst) hv (hrest rest hrest')

end Sketch

end TowerLisp
