import TowerLisp.Eval.World
import TowerLisp.Eval.Datum
import TowerLisp.Value.Printer

/-!
Quasiquotation: a template in which the unquoted parts at depth one are evaluated
and all else is data. A quasiquote inside the template raises the depth, and an
unquote lowers it.
-/

namespace TowerLisp.Evaluator

/-- The elements that a spliced value stands for. -/
def spliced (v : Value) : EvalM (List Value) :=
  match v.list?, v with
  | some items, _ => pure items
  | none, .string text => pure (text.toList.map fun c => .string (String.singleton c))
  | none, v => EvalM.withStore fun store => v.mistyped store .spliceNotList

def missingPart {α : Type} : EvalM α :=
  throw (.breakdown .missingPart)

mutual

/-- The value of a template. -/
def quasi (ev : Evaluator) (scope : ScopeId) (depth : Nat) : Form → EvalM Value
  | ⟨token, parts, compound⟩ =>
    if !compound then EvalM.lift (Form.leafDatum token)
    else
      match token.tag, parts with
      | .quasiquote, first :: _ => do
        return Form.tagged token.tag (← quasi ev scope (depth + 1) first)
      | .unquote, first :: _ =>
        if depth = 1 then ev.value first scope
        else do return Form.tagged token.tag (← quasi ev scope (depth - 1) first)
      | .splice, first :: _ =>
        if depth = 1 then throw (.malformed .spliceOutsideList token.place)
        else do return Form.tagged token.tag (← quasi ev scope (depth - 1) first)
      | .quote, first :: _ => do return Form.tagged token.tag (← quasi ev scope depth first)
      | .splice, [] =>
        if depth = 1 then throw (.malformed .spliceOutsideList token.place) else missingPart
      | .quasiquote, [] | .unquote, [] | .quote, [] => missingPart
      | .list, parts => do
        let (items, tail) ← quasiItems ev scope depth .nil parts
        return .ofList items tail
      | _, _ => EvalM.lift (Form.datum ⟨token, parts, compound⟩)

/-- The items and the tail of a list in a template; `tail` is the tail so far. -/
def quasiItems (ev : Evaluator) (scope : ScopeId) (depth : Nat) (tail : Value) :
    List Form → EvalM (List Value × Value)
  | [] => pure ([], tail)
  | ⟨token, parts, compound⟩ :: rest =>
    if token.tag = .dot then
      match parts with
      | [] => missingPart
      | first :: _ => do
        let tail ← quasi ev scope depth first
        quasiItems ev scope depth tail rest
    else if token.tag = .splice && depth = 1 then
      match parts with
      | [] => missingPart
      | first :: _ => do
        let items ← spliced (← ev.value first scope)
        let (others, tail) ← quasiItems ev scope depth tail rest
        return (items ++ others, tail)
    else do
      let item ← quasi ev scope depth ⟨token, parts, compound⟩
      let (others, tail) ← quasiItems ev scope depth tail rest
      return (item :: others, tail)

end

@[simp] theorem quasi_leaf (ev : Evaluator) (scope : ScopeId) (token : Token) (depth : Nat) :
    ev.quasi scope depth (.leaf token) = EvalM.lift (Form.leafDatum token) := by
  rw [quasi.eq_def]
  rfl

@[simp] theorem quasiItems_nil (ev : Evaluator) (scope : ScopeId) (tail : Value) (depth : Nat) :
    ev.quasiItems scope depth tail [] = pure ([], tail) := by
  rw [quasiItems.eq_def]

end TowerLisp.Evaluator
