import TowerLisp.Proofs.ProgramDefinitions
import TowerLisp.Session.Basic

/-!
The fold of the prelude. Its procedure calls itself in tail position with what a primitive makes of
the value so far and the next element. The elements of a list, however long, are combined within
one budget if each of them is.
-/

namespace TowerLisp

/-- The body `(cond ((null? xs) acc) (else (foldl f (f acc (head xs)) (tail xs))))`. -/
inductive Form.Folds : Form → Prop where
  | body {cond isNull xs acc otherwise foldl f op acc' head xs' tail xs'' : Token}
      {first second : Form} :
      cond.tag = .cond → first.parts = [⟨isNull, [.leaf xs], true⟩, .leaf acc] →
      second.parts = [.leaf otherwise, ⟨foldl, [.leaf f,
        ⟨op, [.leaf acc', ⟨head, [.leaf xs'], true⟩], true⟩, ⟨tail, [.leaf xs''], true⟩], true⟩] →
      isNull.Names "null?" → xs.Names "xs" → acc.Names "acc" → otherwise.Names "else" →
      foldl.Names "foldl" → f.Names "f" → op.Names "f" → acc'.Names "acc" → head.Names "head" →
      xs'.Names "xs" → tail.Names "tail" → xs''.Names "xs" → Folds ⟨cond, [first, second], true⟩

/-- Recognizes the body of the fold. -/
def Form.isFold : Form → Bool
  | ⟨cond,
      [⟨_, [⟨isNull, [⟨xs, [], false⟩], true⟩, ⟨acc, [], false⟩], _⟩,
        ⟨_, [⟨otherwise, [], false⟩,
          ⟨foldl, [⟨f, [], false⟩,
              ⟨op, [⟨acc', [], false⟩, ⟨head, [⟨xs', [], false⟩], true⟩], true⟩,
              ⟨tail, [⟨xs'', [], false⟩], true⟩],
            true⟩],
          _⟩],
      true⟩ =>
    cond.tag = .cond &&
      [(isNull, "null?"), (xs, "xs"), (acc, "acc"), (otherwise, "else"), (foldl, "foldl"), (f, "f"),
        (op, "f"), (acc', "acc"), (head, "head"), (xs', "xs"), (tail, "tail"), (xs'', "xs")].all
        fun (token, name) => token.tag = .symbol && token.payload = .text name
  | _ => false

theorem Form.folds_of_isFold {form : Form} (h : form.isFold = true) : form.Folds := by
  have hnames : ∀ {token : Token} {name : String},
      token.tag = .symbol ∧ token.payload = .text name → token.Names name :=
    fun h => ⟨.inl h.1, by rw [h.2]; rfl⟩
  unfold isFold at h
  split at h
  · simp only [List.all_cons, List.all_nil, Bool.and_eq_true, decide_eq_true_eq] at h
    obtain ⟨hcond, h₁, h₂, h₃, h₄, h₅, h₆, h₇, h₈, h₉, h₁₀, h₁₁, h₁₂, -⟩ := h
    exact .body hcond rfl rfl (hnames h₁) (hnames h₂) (hnames h₃) (hnames h₄) (hnames h₅)
      (hnames h₆) (hnames h₇) (hnames h₈) (hnames h₉) (hnames h₁₀) (hnames h₁₁) (hnames h₁₂)
  · cases h

/-- What a primitive makes of the value so far and an element. An element that still lacks marks
gets them when it is taken from its list. -/
def Primitive.combine (p : Primitive) (ev : Evaluator) (scope : ScopeId) (acc x : Value) :
    EvalM Value := do
  let x ← EvalM.mark x
  Builtin.run ev scope p [acc, x]

/-- A primitive combines values with the elements of a list from left to right. Each time it stays
within a budget, and it depends on the store as little as it changes it. -/
inductive Primitive.Folds (budget : Nat) (p : Primitive) :
    World → Value → List Value → World → Value → Prop where
  | nil (w : World) (acc : Value) : Folds budget p w acc [] w acc
  | cons {w w' w'' : World} {acc acc' v x : Value} {items : List Value} :
      (∀ scope store, Within budget (fun ev => p.combine ev scope acc x)
        { w with store } acc' { w' with store }) →
      Folds budget p w' acc' items w'' v → Folds budget p w acc (x :: items) w'' v

/-- A primitive that computes a value which needs no marks nests nothing. -/
theorem Primitive.Folds.compute {budget : Nat} {p : Primitive} {w w' : World}
    {acc acc' v x : Value} {items : List Value} (harity : ∀ n, p.arity? = some n → 2 = n)
    (hx : x.lacksMarks = false)
    (hcompute : ∀ store, Builtin.compute? store p [acc, x] = some (.ok acc'))
    (hacc : acc'.lacksMarks = false) (h : Folds budget p w acc' items w' v) :
    Folds budget p w acc (x :: items) w' v := by
  refine .cons (fun scope store => .of_eq fun ev => ?_) h
  exact EvalM.bind_eq_ok_iff.mpr
    ⟨x, _, EvalM.mark_eq hx _, Builtin.run_computed harity (hcompute store) hacc ev scope⟩

namespace Prelude

/-- What the fold needs of the root besides itself. -/
structure FoldsIn (prog : Program) (p : Procedure) : Prop where
  mem : p ∈ prog.procedures
  name : p.name = "foldl"
  formals : p.formals = ["f", "acc", "xs"]
  body : p.body.Folds
  isNull : prog.Provides "null?" (.primitive .isNull)
  head : prog.Provides "head" (.primitive .head)
  tail : prog.Provides "tail" (.primitive .tail)
  otherwise : prog.Provides "else" .trueSymbol

/-- What the body of the fold knows: its arguments, and what the root knows. -/
def folding (op : Primitive) (acc : Value) (items : List Value) : Knowledge :=
  [("xs", (· = .list items)), ("acc", (· = acc)), ("f", (· = .primitive op))]

variable {prog : Program} {p : Procedure} {L : Layout} {op : Primitive} {acc acc' x : Value}
  {items : List Value} {inner : ScopeId} {w w' : World} {budget : Nat}

/-- The value of a call of a primitive on what a name stands for. -/
theorem value_unary {head operand : Token} {name key : String} {p : Primitive} {v u u' : Value}
    (hhead : head.Names name) (hoperand : operand.Names key)
    (hname : w.store.lookup? inner name = some (.primitive p))
    (hkey : w.store.lookup? inner key = some v) (harity : p.arity? = some 1)
    (hcompute : Builtin.compute? w.store p [v] = some (.ok u))
    (hmark : EvalM.mark u w = .ok u' w') :
    Within 2 (fun ev => ev.value ⟨head, [.leaf operand], true⟩ inner) w u' w' :=
  .value_primitive hhead hname ((Within.value_name hoperand hkey).values_cons .values_nil)
    (.of_eq fun ev =>
      (Builtin.run_eq_mark (fun n hn => by simpa [harity] using hn) hcompute ev inner).trans hmark)

theorem exists_mark (v : Value) (w : World) : ∃ v' w', EvalM.mark v w = .ok v' w' := by
  rw [EvalM.mark]
  split
  · exact ⟨_, _, rfl⟩
  · exact ⟨_, _, rfl⟩

/-- The arguments of the fold as its body sees them. -/
theorem lookup?_folding (hat : prog.At L (folding op acc items ++ prog.globals L) inner w.store) :
    w.store.lookup? inner "f" = some (.primitive op) ∧ w.store.lookup? inner "acc" = some acc ∧
      w.store.lookup? inner "xs" = some (.list items) := by
  obtain ⟨_, hop, rfl⟩ := hat.knows "f" (· = .primitive op) rfl
  obtain ⟨_, hacc, rfl⟩ := hat.knows "acc" (· = acc) rfl
  obtain ⟨_, hxs, rfl⟩ := hat.knows "xs" (· = .list items) rfl
  exact ⟨hop, hacc, hxs⟩

/-- An empty list gives the value so far. -/
theorem fold_nil (h : FoldsIn prog p)
    (hat : prog.At L (folding op acc [] ++ prog.globals L) inner w.store) :
    Within 3 (fun ev => ev.eval p.body inner true) w (.done acc) w := by
  obtain ⟨-, hacc, hxs⟩ := lookup?_folding hat
  have hisNull := hat.lookup?_eq (h.isNull.lookup_globals L) rfl
  have hbody := h.body
  generalize p.body = body at hbody ⊢
  cases hbody with
  | body hcond hfirst _ hisNull' hxs' hacc' =>
    have htest := value_unary hisNull' hxs' hisNull hxs rfl rfl rfl
    exact .eval_clauses hcond (.clauses_one hfirst htest rfl
      ((Within.eval_name hacc' hacc).mono (by omega)))

/-- The value of `(f acc (head xs))`. -/
theorem value_combined (h : FoldsIn prog p)
    (hat : prog.At L (folding op acc (x :: items) ++ prog.globals L) inner w.store)
    {f so_far head xs : Token} (hf : f.Names "f") (hso_far : so_far.Names "acc")
    (hhead : head.Names "head") (hxs : xs.Names "xs")
    (hcombine : Within budget (fun ev => op.combine ev inner acc x) w acc' w') :
    Within (budget + 3)
      (fun ev => ev.value ⟨f, [.leaf so_far, ⟨head, [.leaf xs], true⟩], true⟩ inner) w acc' w' := by
  obtain ⟨hop, hacc, hitems⟩ := lookup?_folding hat
  obtain ⟨x', marked, hmark⟩ := exists_mark x w
  have helement := value_unary hhead hxs (hat.lookup?_eq (h.head.lookup_globals L) rfl) hitems rfl
    rfl hmark
  have hrun : Within budget (fun ev => Builtin.run ev inner op [acc, x']) marked acc' w' :=
    .after (m := fun _ => EvalM.mark x) (f := fun ev x => Builtin.run ev inner op [acc, x])
      (fun _ => hmark) hcombine
  exact .value_primitive hf hop
    (((Within.value_name hso_far hacc).mono (by omega)).values_cons
      ((helement.mono (by omega)).values_cons .values_nil))
    (hrun.mono (by omega))

/-- The fold is entered with its arguments. -/
theorem entered (h : FoldsIn prog p) {known : Knowledge} (hat : prog.At L known inner w.store)
    (op : Primitive) (acc : Value) (items : List Value) :
    prog.At L (folding op acc items ++ prog.globals L)
      (w.withFrame L.root p.formals [.primitive op, acc, .list items]).1
      (w.withFrame L.root p.formals [.primitive op, acc, .list items]).2.store := by
  have hfacts : List.Forall₂ (fun (P : Value → Prop) v => P v)
      [(· = .primitive op), (· = acc), (· = .list items)] [.primitive op, acc, .list items] :=
    .cons rfl (.cons rfl (.cons rfl .nil))
  rw [h.formals]
  exact hat.entered hfacts ["f", "acc", "xs"]

/-- An element is combined with the value so far, and the rest of the list is left to a call. -/
theorem fold_cons (h : FoldsIn prog p)
    (hat : prog.At L (folding op acc (x :: items) ++ prog.globals L) inner w.store)
    (hcombine : ∀ scope store, Within budget (fun ev => op.combine ev scope acc x)
      { w with store } acc' { w' with store }) :
    ∃ inner' store, Within (budget + 5) (fun ev => ev.eval p.body inner true) w
        (.call p.body inner') { w' with store } ∧
      prog.At L (folding op acc' items ++ prog.globals L) inner' store := by
  obtain ⟨hop, -, hxs⟩ := lookup?_folding hat
  have hisNull := hat.lookup?_eq (h.isNull.lookup_globals L) rfl
  have htail := hat.lookup?_eq (h.tail.lookup_globals L) rfl
  have hotherwise := hat.lookup?_eq (h.otherwise.lookup_globals L) rfl
  have hfoldl : w.store.lookup? inner "foldl" = some (.closure (L.ids p.name)) :=
    hat.lookup?_eq (by rw [← h.name]; exact Program.lookup_globals_of_mem h.mem L) rfl
  let combined : World := { w' with store := w.store }
  have henter : Within (budget + 3) (fun ev => ev.applyValue (.closure (L.ids p.name))
      [.primitive op, acc', .list items] inner true) combined _ _ :=
    Program.At.enter (w := combined) hat h.mem (by rw [h.formals]; rfl)
  have hlist : EvalM.mark (Value.list items) combined = .ok (.list items) combined := by
    cases items <;> rfl
  refine ⟨_, _, ?_, entered (w := combined) h hat op acc' items⟩
  have hbody := h.body
  generalize p.body = body at hbody henter ⊢
  cases hbody with
  | body hcond hfirst hsecond hisNull' hxs₁ _ hotherwise' hfoldl' hf₁ hf₂ hacc₂ hhead' hxs₂ htail'
      hxs₃ =>
    have htest := value_unary hisNull' hxs₁ hisNull hxs rfl rfl rfl
    have helse := Within.value_name hotherwise' hotherwise
    have hcombined := value_combined h hat hf₂ hacc₂ hhead' hxs₂ (hcombine inner w.store)
    have hrest : Within 2 _ combined _ combined :=
      value_unary htail' hxs₃ htail hxs rfl rfl hlist
    have hvalues := ((Within.value_name hf₁ hop).mono (by omega)).values_cons
      (hcombined.values_cons ((hrest.mono (by omega)).values_cons .values_nil))
    have hcall := Within.eval_call hfoldl' hfoldl hvalues henter
    exact .eval_clauses hcond (.clauses_false hfirst (htest.mono (by omega)) rfl
      (.clauses_one hsecond (helse.mono (by omega)) rfl hcall))

/-- The fold combines all elements of a list by calls in tail position. -/
theorem fold_chain (h : FoldsIn prog p) {v : Value} (hfolds : op.Folds budget w acc items w' v)
    (store : Store) (hat : prog.At L (folding op acc items ++ prog.globals L) inner store) :
    ∃ store', Chain (budget + 5) (.call p.body inner) { w with store } (.done v)
      { w' with store := store' } := by
  induction hfolds generalizing inner store with
  | nil w acc =>
    have hdone := fold_nil (w := { w with store }) h hat
    exact ⟨store, .call (hdone.mono (by omega)) (.refl _ _)⟩
  | @cons w w' _ acc acc' v x items hcombine _ ih =>
    obtain ⟨inner', store', hstep, hat'⟩ := fold_cons (w := { w with store }) h hat hcombine
    obtain ⟨store'', hchain⟩ := ih store' hat'
    exact ⟨store'', .call hstep hchain⟩

/-- What the prelude finds at the root. -/
def given : Bindings :=
  [("null?", .primitive .isNull), ("head", .primitive .head), ("tail", .primitive .tail),
    ("else", .trueSymbol)]

/-- The names that the prelude defines. -/
def names : List String :=
  ["map", "filter", "foldl", "reverse", "append", "nth"]

set_option maxRecDepth 20000 in
/-- The procedures that the text of the prelude defines. -/
theorem exists_procedures : ∃ forms procedures, Reader.readAll core.toList = .ok forms ∧
    forms.mapM Form.definition? = some procedures ∧
    procedures.map Procedure.name = names ∧
    ∃ p ∈ procedures, p.name = "foldl" ∧ p.formals = ["f", "acc", "xs"] ∧ p.body.Folds := by
  obtain ⟨text, htext, hcheck⟩ : ∃ text, core = String.ofList text ∧
      ((Reader.readAll text).toOption.bind (·.mapM Form.definition?)).any (fun procedures =>
        procedures.map Procedure.name = names &&
          procedures.any fun p =>
            p.name = "foldl" && p.formals = ["f", "acc", "xs"] && p.body.isFold) = true :=
    ⟨_, rfl, by decide +kernel⟩
  rw [htext, String.toList_ofList]
  cases hforms : Reader.readAll text with
  | error fault =>
    rw [hforms] at hcheck
    cases hcheck
  | ok forms =>
    cases hprocedures : forms.mapM Form.definition? with
    | none =>
      simp [hforms, hprocedures, Except.toOption] at hcheck
    | some procedures =>
      simp only [hforms, hprocedures, Except.toOption, Option.bind_some, Option.any_some,
        Bool.and_eq_true, decide_eq_true_eq, List.any_eq_true] at hcheck
      obtain ⟨hnames, p, hp, ⟨hname, hformals⟩, hbody⟩ := hcheck
      exact ⟨forms, procedures, rfl, hprocedures, hnames, p, hp, hname, hformals,
        Form.folds_of_isFold hbody⟩

/-- Once the prelude is defined at a root that offers what it needs, its fold combines the elements
of a list within a total budget if each step stays within a budget. -/
def FoldsWithin (budget total : Nat) : Prop :=
  ∀ forms root w, Reader.readAll core.toList = .ok forms → w.store.Offers root given →
    ∃ last w₁, Within total (fun ev => ev.runAll root .nil forms) w last w₁ ∧
      (∀ name ∉ names, w₁.store.lookup? root name = w.store.lookup? root name) ∧
      ∀ (token : Token) operands (op : Primitive) acc items w₂ v, token.Names "foldl" →
        Within budget (fun ev => ev.values root operands) w₁ [.primitive op, acc, .list items] w₁ →
        op.Folds budget w₁ acc items w₂ v → ∃ store,
          Within total (fun ev => ev.run ⟨token, operands, true⟩ root) w₁ v { w₂ with store }

/-- The length of a list does not matter to its fold. -/
theorem exists_foldsWithin (budget : Nat) : ∃ total, FoldsWithin budget total := by
  obtain ⟨forms, procedures, hread, hforms, hnames, p, hp, hname, hformals, hbody⟩ :=
    exists_procedures
  let prog : Program := ⟨given, procedures⟩
  have hdistinct : (procedures.map Procedure.name).Nodup := by
    rw [hnames]
    decide
  have hnew : ∀ name ∉ names, ∀ q ∈ procedures, q.name ≠ name := by
    rintro name hname q hq rfl
    exact hname (hnames ▸ List.mem_map_of_mem hq)
  have hprovides : ∀ name v, given.lookup name = some v → name ∉ names →
      prog.Provides name v := fun name v hgiven hname => ⟨hgiven, hnew name hname⟩
  have hfolds : FoldsIn prog p := {
    mem := hp
    name := hname
    formals := hformals
    body := hbody
    isNull := hprovides "null?" _ rfl (by decide)
    head := hprovides "head" _ rfl (by decide)
    tail := hprovides "tail" _ rfl (by decide)
    otherwise := hprovides "else" _ rfl (by decide) }
  refine ⟨budget + 5, fun forms' root w hread' hoffers => ?_⟩
  cases hread.symm.trans hread'
  obtain ⟨L, last, w₁, hrun, rfl, hlaid, hkept⟩ :=
    prog.define hforms hdistinct hoffers .nil
  refine ⟨last, w₁, hrun.mono (by omega), fun name hname => hkept name (hnew name hname),
    fun token operands op acc items w₂ v htoken hvalues hcombine => ?_⟩
  have hat := hlaid.atRoot
  have hlookup : w₁.store.lookup? L.root "foldl" = some (.closure (L.ids p.name)) := by
    rw [← hname]
    exact hlaid.bound p hp
  have hcall : Within (budget + 1) (fun ev => ev.eval ⟨token, operands, true⟩ L.root true) w₁ _ _ :=
    .eval_call htoken hlookup hvalues (hat.enter hp (by rw [hformals]; rfl))
  obtain ⟨store, hchain⟩ := fold_chain hfolds hcombine _ (entered hfolds hat op acc items)
  exact ⟨store, Chain.run (hcall.mono (by omega)) hchain⟩

end Prelude

end TowerLisp
