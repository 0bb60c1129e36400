import TowerLisp.Proofs.PairedReading

/-!
Reading does not look at places. From tokens with other places the reader makes the same
forms with those places, and it finds the same fault at the place that its token has now. All
tokens are plain here, as those of a text are: they carry a text that can be shown.
-/

namespace TowerLisp

/-- A computation whose faults carry no place. -/
def Unplaced {α : Type} (m : Except Fault α) : Prop :=
  ∀ fault φ, m = .error fault → fault.relabel φ = fault

/-- Places are those of forms: a fault that blames no form carries none. -/
theorem Blameless.unplaced {α : Type} {m : Except Fault α} (h : Blameless m) : Unplaced m := by
  intro fault φ hm
  have hfault := h fault hm
  cases fault with
  | malformed issue place => cases hfault
  | _ => rfl

namespace Tokens

def Plain : Tokens → Prop
  | more token rest => token.Plain ∧ rest.Plain
  | _ => True

theorem plain_of_spelled {tokens : Tokens} (h : ∀ t ∈ tokens.toList, t.Spelled) :
    tokens.Plain := by
  induction tokens with
  | done eof => trivial
  | broken fault => trivial
  | more token rest ih =>
    obtain ⟨htoken, hrest⟩ := List.forall_mem_cons.mp h
    exact ⟨htoken.plain, ih hrest⟩

theorem plain_ofSource (source : List Char) : (ofSource source).Plain :=
  plain_of_spelled (ofCursor_spelled _)

end Tokens

namespace Reader

variable (φ : Place → Option Place)

/-- The second reading is from relabelled tokens. -/
def Pairing.relabelled : Pairing where
  place := φ
  faults f g := g = f.relabel φ
  cut := False
  tooDeep := rfl
  number hparse _ := ((Number.blameless_parse _).unplaced _ φ hparse).symm

theorem rows_relabelled {tokens : Tokens} (h : tokens.Plain) :
    (Pairing.relabelled φ).Rows tokens (tokens.relabel φ) := by
  induction tokens with
  | done eof => exact .done eof
  | broken fault => exact .broken rfl
  | more token rest ih => exact .more ⟨h.1, fun issue _ => rfl⟩ (ih h.2)

/-- From relabelled tokens the same forms are read, relabelled, up to the same fault. -/
theorem readTokens_relabel {tokens : Tokens} (htokens : tokens.Plain) :
    readTokens (tokens.relabel φ) =
      ((readTokens tokens).1.map (Form.relabel φ),
        (readTokens tokens).2.map (Fault.relabel φ)) := by
  have hmatches := Pairing.matches_readTokens (rows_relabelled φ htokens)
  generalize readTokens tokens = first at hmatches ⊢
  generalize readTokens (tokens.relabel φ) = second at hmatches ⊢
  cases hmatches with
  | whole forms hfault =>
    cases hfault with
    | none => rfl
    | some hfault => rw [hfault]; rfl
  | cut forms more g? hcut => exact hcut.elim

end Reader

end TowerLisp
