import TowerLisp.Proofs.TailDescents
import TowerLisp.Proofs.TemplateFilling
import TowerLisp.Proofs.TemplateReading

/-!
The forms that bind names, as they are read. Their shape is that of what was read, and each of
them first finds values for its names and then goes on in a scope of its own: a let with one frame
for all names, a let with a name with the procedure that it makes and calls, the others with the
scopes in which they found the values.
-/

namespace TowerLisp

namespace Form

/-- Code that stands in what was read has the shape of code. -/
theorem HasCode.shaped {limit : Nat} {source : List Char} {whole form : Form}
    (hwhole : whole ∈ (Reader.readFormsWithin limit source).1) (hcode : form.HasCode .code whole) :
    form.Shaped .code := by
  have hspelled := Reader.spelled_within limit source
  rw [Reader.readFormsWithin] at hwhole
  generalize (Tokens.ofSource source).within limit = tokens at hwhole hspelled
  obtain ⟨read, rest, rfl, hforms, -⟩ := Reader.readTokens_cases tokens
  rw [Tokens.toList_following] at hspelled
  obtain ⟨part, hpart, hsub⟩ := hforms.exists_mem hwhole
  obtain ⟨front, hfront, hform⟩ :=
    (List.forall_mem_singleton.mp (hpart.codeRead form)).whole hpart.isPart_of_one hcode
  have hwithin := (hfront.trans hsub).trans (List.prefix_append read rest.toList).isInfix
  obtain ⟨_, heq, hshaped⟩ := hform.shapes fun t ht => hspelled t (hwithin.subset ht)
  cases heq
  exact hshaped

end Form

namespace Evaluator

open EvalM (newFrame updateStore modifyStore)

/-- The body of a let in a scope of its own, in which names are bound to values. -/
def enterLet (ev : Evaluator) (names : List String) (body : List Form) (scope : ScopeId)
    (tail : Bool) (values : List Value) : EvalM Step := do
  let inner ← newFrame scope (.ofPairs (names.zip values))
  ev.body inner tail body

/-- The call of the procedure that a let with a name makes, in a scope of its own that binds the
name to it. -/
def enterLoop (ev : Evaluator) (label : String) (names : List String) (body : List Form)
    (scope : ScopeId) (tail : Bool) (values : List Value) : EvalM Step := do
  let (inner, frame) ← updateStore fun s =>
    let (inner, frame, s) := s.withOpenFrame scope
    ((inner, frame), s)
  let closure : Closure := ⟨names, body, inner, some label⟩
  let id ← newClosure closure
  modifyStore (·.bindIn frame label (.closure id))
  ev.applyClosure closure values tail

theorem finish_done (ev : Evaluator) (v : Value) : ev.finish (.done v) = pure v := by
  unfold finish
  cases ev.steps <;> rfl

/-- What comes after the values of some forms matters only for as many values. -/
theorem values_bind_congr {α : Type} (ev : Evaluator) (scope : ScopeId) {forms : List Form}
    {f g : List Value → EvalM α}
    (h : ∀ values, values.length = forms.length → f values = g values) :
    (ev.values scope forms >>= f) = ev.values scope forms >>= g := by
  funext w
  simp only [bind, EStateM.bind]
  cases hvalues : ev.values scope forms w with
  | ok values w' => exact congrFun (h values (length_of_values hvalues)) w'
  | error fault w' => rfl

section

variable (ev : Evaluator) {token : Token} {list : Form} {pairs : List (String × Form)}
  {body : List Form} {scope : ScopeId} {tail : Bool}

theorem evalForm_letPlain (htoken : token.tag = .letAll) (hlist : list.Lists pairs) :
    ev.evalForm ⟨token, list :: body, true⟩ scope tail =
      ev.values scope (pairs.map Prod.snd) >>=
        ev.enterLet (pairs.map Prod.fst) body scope tail := by
  have hplain : list.tag ≠ .symbol := by simp [hlist.tag]
  rw [evalForm_letAll ev htoken, letAllForm, if_neg hplain, hlist.bindingsOf]
  change (ev.bindingValues scope pairs >>= fun bindings => _) = _
  rw [bindingValues_eq, bind_map_left]
  rfl

theorem evalForm_letNamed {name : Form} {label : String} (htoken : token.tag = .letAll)
    (hname : name.Holds label) (hlist : list.Lists pairs) :
    ev.evalForm ⟨token, name :: list :: body, true⟩ scope tail =
      ev.values scope (pairs.map Prod.snd) >>=
        ev.enterLoop label (pairs.map Prod.fst) body scope tail := by
  have hlabel := nameOf_holds hname
  obtain ⟨_, rfl, hsymbol, -⟩ := hname
  rw [evalForm_letAll ev htoken, letAllForm, if_pos (show (Form.leaf _).tag = _ from hsymbol),
    namedLet, hlabel]
  dsimp only
  rw [hlist.bindingsOf]
  change (ev.bindingValues scope pairs >>= fun arguments => _) = _
  rw [bindingValues_eq, bind_map_left]
  refine values_bind_congr ev scope fun values hlength => ?_
  have hsnd : ((pairs.map Prod.fst).zip values).map Prod.snd = values :=
    List.map_snd_zip (by simp [hlength])
  rw [hsnd]
  rfl

theorem evalForm_letEach_lists (htoken : token.tag = .letEach) (hlist : list.Lists pairs) :
    ev.evalForm ⟨token, list :: body, true⟩ scope tail = (do
      let inner ← ev.bindEach scope pairs
      ev.body inner tail body) := by
  rw [evalForm_letEach ev htoken, letEachForm, hlist.bindingsOf]
  rfl

theorem evalForm_letRec_lists (htoken : token.tag = .letRec) (hlist : list.Lists pairs) :
    ev.evalForm ⟨token, list :: body, true⟩ scope tail = (do
      let (inner, frame) ← updateStore fun s =>
        let (inner, frame, s) := s.withOpenFrame scope
        ((inner, frame), s)
      ev.bindRec inner frame pairs
      ev.body inner tail body) := by
  rw [evalForm_letRec ev htoken, letRecForm]
  dsimp only
  rw [hlist.bindingsOf]
  rfl

end

end Evaluator

end TowerLisp
