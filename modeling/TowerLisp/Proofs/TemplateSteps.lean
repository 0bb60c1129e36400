import TowerLisp.Eval.Quasi

/-!
The steps by which a template is filled: what is done with each kind of form, and with each kind
of item in a list.
-/

namespace TowerLisp.Evaluator

variable (ev : Evaluator) (scope : ScopeId) {token : Token} {depth : Nat}

theorem quasi_empty (htag : token.tag = .empty) (parts : List Form) :
    ev.quasi scope depth ⟨token, parts, true⟩ =
      EvalM.lift (Form.datum ⟨token, parts, true⟩) := by
  unfold quasi
  rw [htag]
  rfl

section Quoting

variable (quoted : Form)

theorem quasi_quote (htag : token.tag = .quote) :
    ev.quasi scope depth ⟨token, [quoted], true⟩ =
      do return Form.tagged .quote (← ev.quasi scope depth quoted) := by
  rw [quasi.eq_def]
  simp [htag]

theorem quasi_quasiquote (htag : token.tag = .quasiquote) :
    ev.quasi scope depth ⟨token, [quoted], true⟩ =
      do return Form.tagged .quasiquote (← ev.quasi scope (depth + 1) quoted) := by
  rw [quasi.eq_def]
  simp [htag]

theorem quasi_unquote (htag : token.tag = .unquote) :
    ev.quasi scope 1 ⟨token, [quoted], true⟩ = ev.value quoted scope := by
  rw [quasi.eq_def]
  simp [htag]

theorem quasi_unquote_deep (htag : token.tag = .unquote) (hdepth : depth ≠ 1) :
    ev.quasi scope depth ⟨token, [quoted], true⟩ =
      do return Form.tagged .unquote (← ev.quasi scope (depth - 1) quoted) := by
  rw [quasi.eq_def]
  simp [htag, hdepth]

theorem quasi_splice (htag : token.tag = .splice) :
    ev.quasi scope 1 ⟨token, [quoted], true⟩ =
      throw (.malformed .spliceOutsideList token.place) := by
  rw [quasi.eq_def]
  simp [htag]

theorem quasi_splice_deep (htag : token.tag = .splice) (hdepth : depth ≠ 1) :
    ev.quasi scope depth ⟨token, [quoted], true⟩ =
      do return Form.tagged .splice (← ev.quasi scope (depth - 1) quoted) := by
  rw [quasi.eq_def]
  simp [htag, hdepth]

end Quoting

theorem quasi_list (htag : token.tag = .list) (parts : List Form) :
    ev.quasi scope depth ⟨token, parts, true⟩ = (do
      let (items, tail) ← ev.quasiItems scope depth .nil parts
      return .ofList items tail) := by
  rw [quasi.eq_def]
  simp [htag]

section Items

variable (tail : Value) (rest : List Form)

theorem quasiItems_dotted (htag : token.tag = .dot) (last : Form) :
    ev.quasiItems scope depth tail (⟨token, [last], true⟩ :: rest) = (do
      let tail ← ev.quasi scope depth last
      ev.quasiItems scope depth tail rest) := by
  rw [quasiItems.eq_def]
  simp [htag]

theorem quasiItems_splice (htag : token.tag = .splice) (first : Form) :
    ev.quasiItems scope 1 tail (⟨token, [first], true⟩ :: rest) = (do
      let items ← spliced (← ev.value first scope)
      let (others, tail) ← ev.quasiItems scope 1 tail rest
      return (items ++ others, tail)) := by
  rw [quasiItems.eq_def]
  simp [htag]

theorem quasiItems_item {item : Form} (hdot : item.tag ≠ .dot)
    (hsplice : ¬ (item.tag = .splice ∧ depth = 1)) :
    ev.quasiItems scope depth tail (item :: rest) = (do
      let first ← ev.quasi scope depth item
      let (others, tail) ← ev.quasiItems scope depth tail rest
      return (first :: others, tail)) := by
  obtain ⟨token, parts, compound⟩ := item
  change token.tag ≠ .dot at hdot
  change ¬ (token.tag = .splice ∧ depth = 1) at hsplice
  rw [quasiItems.eq_def]
  simp only [if_neg hdot, Bool.and_eq_true, decide_eq_true_eq, if_neg hsplice]

end Items

end TowerLisp.Evaluator
