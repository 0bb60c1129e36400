import TowerLisp.Proofs.GrammarReading
import TowerLisp.Proofs.GrammarSoundness

/-!
Whole texts. A form is read exactly where one stands, and what is read from the tokens of
a text are the forms that it starts with, up to its end or to the first thing that is none.
-/

namespace TowerLisp

open Tokens (following)

/-- Tokens make up a row of forms, with no parenthesis around them. -/
inductive DerivesAll : List Token → List Form → Prop where
  | nil : DerivesAll [] []
  | cons {front rest : List Token} {form : Form} {forms : List Form} :
      Derives (.one .code) front [form] → DerivesAll rest forms →
      DerivesAll (front ++ rest) (form :: forms)

theorem DerivesAll.exists_mem {front : List Token} {forms : List Form} {form : Form}
    (h : DerivesAll front forms) (hform : form ∈ forms) :
    ∃ part, Derives (.one .code) part [form] ∧ part <:+: front := by
  induction h with
  | nil => cases hform
  | @cons front rest first forms hfirst _ ih =>
    rcases List.mem_cons.mp hform with rfl | hmem
    · exact ⟨front, hfirst, (List.prefix_append front rest).isInfix⟩
    · obtain ⟨part, hpart, hsub⟩ := ih hmem
      exact ⟨part, hpart, hsub.trans (List.suffix_append front rest).isInfix⟩

namespace Reader

theorem headD_mem {forms : List Form} (h : forms.isEmpty = false) (form : Form) :
    forms.headD form ∈ forms := by
  cases forms with
  | nil => cases h
  | cons first rest => exact List.mem_cons_self

/-- A form is read from tokens exactly if they start with one. -/
theorem read_eq_form_iff {tokens rest : Tokens} {form : Form} :
    read tokens = .ok (.form form rest) ↔
      ∃ front, tokens = following front rest ∧ Derives (.one .code) front [form] := by
  constructor
  · intro h
    cases tokens with
    | done eof => cases h
    | broken fault => cases h
    | more token others =>
      obtain ⟨⟨found, after⟩, hfound, h⟩ := bind_eq_ok h
      cases h
      exact (obeys _).expression hfound
  · rintro ⟨front, rfl, hderives⟩
    obtain ⟨token, others, _, rfl, ⟨⟩, -, hread⟩ := hderives.accepts
    have hfuel : 2 * (token :: others).length ≤ fuelFor (following (token :: others) rest) := by
      rw [fuelFor, Tokens.length_following]
      omega
    have hone : expression (fuelFor (following (token :: others) rest)) token
        (following others rest) = .ok (form, rest) := hread _ rest hfuel
    change (expression (fuelFor (following (token :: others) rest)) token
      (following others rest) >>= _) = _
    rw [hone]
    rfl

theorem length_lt_of_read {tokens rest : Tokens} {form : Form}
    (h : read tokens = .ok (.form form rest)) : rest.length < tokens.length := by
  obtain ⟨front, rfl, hderives⟩ := read_eq_form_iff.mp h
  have hpos := hderives.length_pos
  rw [Tokens.length_following]
  omega

/-- Forms that were found before stand in front of those that are found. -/
theorem readLoop_eq (fuel : Nat) (tokens : Tokens) (reversed : List Form) :
    readLoop fuel tokens reversed =
      (reversed.reverse ++ (readLoop fuel tokens []).1, (readLoop fuel tokens []).2) := by
  induction fuel generalizing tokens reversed with
  | zero => simp [readLoop]
  | succ fuel ih =>
    rw [readLoop, readLoop]
    split
    · simp
    · simp
    · rename_i form rest _
      rw [ih rest (form :: reversed), ih rest [form]]
      simp

theorem readLoop_fuel {n m : Nat} {tokens : Tokens} (hn : tokens.length < n)
    (hm : tokens.length < m) : readLoop n tokens [] = readLoop m tokens [] := by
  induction n generalizing m tokens with
  | zero => omega
  | succ n ih =>
    obtain ⟨m, rfl⟩ : ∃ k, m = k + 1 := ⟨m - 1, by omega⟩
    rw [readLoop, readLoop]
    split
    · rfl
    · rfl
    · rename_i form rest hread
      have hshorter := length_lt_of_read hread
      have hrest : readLoop n rest [] = readLoop m rest [] := ih (by omega) (by omega)
      rw [readLoop_eq n, readLoop_eq m, hrest]

theorem readTokens_form {tokens rest : Tokens} {form : Form}
    (h : read tokens = .ok (.form form rest)) :
    readTokens tokens = (form :: (readTokens rest).1, (readTokens rest).2) := by
  have hshorter := length_lt_of_read h
  have hrest : readLoop tokens.length rest [] = readTokens rest :=
    readLoop_fuel hshorter (by omega)
  rw [readTokens, readLoop, h]
  dsimp only
  rw [readLoop_eq, hrest]
  rfl

theorem readTokens_error {tokens : Tokens} {fault : Fault} (h : read tokens = .error fault) :
    readTokens tokens = ([], some fault) := by
  rw [readTokens, readLoop, h]
  rfl

/-- Forms in front of tokens are read before them. -/
theorem readTokens_following {front : List Token} {forms : List Form}
    (h : DerivesAll front forms) (rest : Tokens) :
    readTokens (following front rest) = (forms ++ (readTokens rest).1, (readTokens rest).2) := by
  induction h with
  | nil => rfl
  | cons hform _ ih =>
    rw [Tokens.following_append, readTokens_form (read_eq_form_iff.mpr ⟨_, rfl, hform⟩), ih]
    rfl

/-- What is read from tokens stands in front of their end, or of a fault. -/
theorem readTokens_cases (tokens : Tokens) : ∃ front rest,
    tokens = following front rest ∧ DerivesAll front (readTokens tokens).1 ∧
      (((readTokens tokens).2 = none ∧ ∃ eof, rest = .done eof) ∨
        ∃ fault, (readTokens tokens).2 = some fault ∧ read rest = .error fault) := by
  induction hlength : tokens.length using Nat.strongRecOn generalizing tokens with
  | ind n ih =>
    cases hread : read tokens with
    | error fault =>
      rw [readTokens_error hread]
      exact ⟨[], tokens, rfl, .nil, Or.inr ⟨fault, rfl, hread⟩⟩
    | ok top =>
      cases top with
      | eof token =>
        cases tokens with
        | done eof => exact ⟨[], .done eof, rfl, .nil, Or.inl ⟨rfl, eof, rfl⟩⟩
        | broken fault => cases hread
        | more token others =>
          obtain ⟨found, -, hread⟩ := bind_eq_ok hread
          cases hread
      | form form rest =>
        have hshorter := length_lt_of_read hread
        obtain ⟨front, rfl, hform⟩ := read_eq_form_iff.mp hread
        obtain ⟨others, last, hothers, hforms, hends⟩ := ih rest.length (by omega) rest rfl
        rw [readTokens_form hread]
        refine ⟨front ++ others, last, ?_, .cons hform hforms, hends⟩
        rw [Tokens.following_append, ← hothers]

/-- The forms of tokens that are all read fill them up to their end. -/
theorem derivesAll_of_readTokens {tokens : Tokens} {forms : List Form}
    (h : readTokens tokens = (forms, none)) :
    ∃ front eof, tokens = following front (.done eof) ∧ DerivesAll front forms := by
  obtain ⟨front, rest, htokens, hforms, ⟨-, eof, rfl⟩ | ⟨fault, hfault, -⟩⟩ :=
    readTokens_cases tokens
  · rw [h] at hforms
    exact ⟨front, eof, htokens, hforms⟩
  · rw [h] at hfault
    cases hfault

end Reader

end TowerLisp
