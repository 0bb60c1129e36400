import TowerLisp.Proofs.ReadingOutcomes

/-!
How many steps the reader is given does not matter, once they are enough for the tokens that are
left. A cursor that stands behind an opening parenthesis may so be moved back and read from again:
what is read is the form that the parenthesis opens.
-/

namespace TowerLisp

namespace Tokens

/-- Nothing that is wrong with the tokens of a text is a lack of steps. -/
theorem confined_ofCursor (c : Cursor) : (ofCursor c).Confined (· ≠ .tooDeep) := by
  refine confined_of (fun t ht => ?_) fun fault hending => ?_
  · exact {
      plain := (ofCursor_spelled c t ht).plain
      issue := fun _ _ => nofun
      number := fun _ _ hparse hliteral => by
        cases Number.misread_of_parse hparse with
        | literal issue => exact absurd rfl (hliteral issue)
        | tooLarge _ _ => nofun }
  · obtain ⟨issue, index, -, rfl, -⟩ := breaksAt_of_ending hending
    nofun

end Tokens

namespace Reader

open Tokens (ofCursor)

/-- Two readings of the same tokens, the first one with fewer steps. -/
def fewerSteps : Pairing :=
  .within (fun _ => True) trivial fun _ _ => trivial

variable {token : Token} {tokens tokens' : Tokens}

theorem fits_fewerSteps (h : token.Plain) : fewerSteps.Fits token :=
  Pairing.fits_within.mpr ⟨h, fun _ _ => trivial⟩

theorem rows_fewerSteps {G : Fault → Prop} (h : tokens.Confined G) :
    fewerSteps.Rows tokens tokens := by
  induction h with
  | done eof => exact Pairing.Rows.done_within eof
  | broken _ => exact .broken ⟨rfl, trivial⟩
  | more htoken _ ih => exact ih.more_within (fits_fewerSteps htoken.plain)

/-- Tokens that are not cut off are left in both readings. -/
theorem eq_of_rows (h : fewerSteps.Rows tokens tokens') (htokens : tokens.Confined (· ≠ .tooDeep)) :
    tokens' = tokens := by
  induction h with
  | cut tokens' _ =>
    cases htokens with
    | broken hfault => exact absurd rfl hfault
  | done eof =>
    change Tokens.done (eof.relabel some) = _
    rw [Token.relabel_some]
  | broken hfault => rw [hfault.1]
  | @more token rest rest' _ _ ih =>
    cases htokens with
    | more _ hrest =>
      change Tokens.more (token.relabel some) rest' = _
      rw [ih hrest, Token.relabel_some]

/-- A reading that does not run out of steps ends in the same with more of them. -/
theorem eq_of_ends {k : Nat} {m n : Except Fault (Form × Tokens)} (h : fewerSteps.OnForm m n)
    (hm : Settled (· ≠ .tooDeep) k m) : n = m := by
  cases h with
  | cut n _ =>
    cases hm with
    | error hfault => exact absurd rfl hfault
  | error hfault => rw [hfault.1]
  | @ok a b hmoved =>
    obtain ⟨form, rest⟩ := a
    obtain ⟨form', rest'⟩ := b
    obtain ⟨hform, hrest⟩ := hmoved
    cases hm with
    | ok _ hconfined =>
      have hsame : form' = form := hform.trans (Form.relabel_some form)
      have hleft : rest' = rest := eq_of_rows hrest hconfined
      rw [hsame, hleft]

/-- Steps beyond those that the tokens need change nothing. -/
theorem expression_steps (htoken : token.Blames (· ≠ .tooDeep))
    (htokens : tokens.Confined (· ≠ .tooDeep)) {n m : Nat} (hn : 2 * tokens.length + 2 ≤ n)
    (hm : 2 * tokens.length + 2 ≤ m) : expression n token tokens = expression m token tokens := by
  have hraise {fuel fuel' : Nat} (hfuel : 2 * tokens.length + 2 ≤ fuel) (hle : fuel ≤ fuel') :
      expression fuel' token tokens = expression fuel token tokens := by
    have hends := (Pairing.agrees (P := fewerSteps) (.inr ⟨trivial, hle⟩)).expression
      (fits_fewerSteps htoken.plain) (rows_fewerSteps htokens)
    change fewerSteps.OnForm _ (expression fuel' (token.relabel some) tokens) at hends
    rw [Token.relabel_some] at hends
    exact eq_of_ends hends ((settles fuel).expression htoken htokens hfuel)
  rcases Nat.le_total n m with hle | hle
  · exact (hraise hn hle).symm
  · exact hraise hm hle

/-- A cursor that is moved back to the parenthesis that it has just passed is read from as the form
that the parenthesis opens. -/
theorem read_of_scan_lparen {c after : Cursor} (h : c.scan = (.ok token, after))
    (htag : token.tag = .lparen) {fuel : Nat} (hfuel : 2 * (ofCursor after).length < fuel) :
    read (ofCursor c) =
      (form fuel token (ofCursor after)).map fun formed => .form formed.1 formed.2 := by
  have hmore : ofCursor c = .more token (ofCursor after) :=
    Tokens.ofCursor_more h (by rw [htag]; decide)
  have hconfined := Tokens.confined_ofCursor c
  rw [hmore] at hconfined ⊢
  cases hconfined with
  | more htoken htokens =>
    have henough : 2 * (ofCursor after).length + 2 ≤ fuelFor (.more token (ofCursor after)) := by
      rw [fuelFor, Tokens.length]
      omega
    have hsame : expression (fuelFor (.more token (ofCursor after))) token (ofCursor after) =
        form fuel token (ofCursor after) := by
      rw [expression_steps htoken htokens henough (m := fuel + 1) (by omega), expression,
        if_pos htag]
    rw [read, hsame]
    cases form fuel token (ofCursor after) <;> rfl

end Reader

end TowerLisp
