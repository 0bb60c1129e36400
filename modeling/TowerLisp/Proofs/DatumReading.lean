import TowerLisp.Eval.Datum
import TowerLisp.Form.Reader
import TowerLisp.Proofs.Lexing
import TowerLisp.Proofs.Outcomes
import TowerLisp.Value.Equality

/-!
Reading data. `ReadsAs said v` tells that tokens that say `said` are read in data as one
form whose value equals `v`, at any quasiquote depth and with two steps for each token.
Lists are read from such tokens item by item.
-/

namespace TowerLisp

open Tokens (following)
open Token (said)

/-- A form that stands for a value equal to `v`, and is not dotted. -/
def Form.StandsFor (form : Form) (v : Value) : Prop :=
  form.token.tag ≠ .dot ∧ ∃ w, form.datum = .ok w ∧ w.equal v = .ok true

/-- Tokens that are read as a form for `v`. The first of them ends no list. -/
def ReadsAs (words : List (Tag × Payload)) (v : Value) : Prop :=
  ∀ (front : List Token) (rest : Tokens) (depth fuel : Nat), front.map said = words →
    2 * front.length ≤ fuel → ∃ token others form,
      front = token :: others ∧ token.tag ≠ .rparen ∧ token.tag ≠ .dot ∧
      Reader.datum fuel token depth (following others rest) = .ok (form, rest) ∧
      form.StandsFor v

/-- Tokens in front of a closing parenthesis that are read as the rest of a list, `v`. -/
def ReadsItems (words : List (Tag × Payload)) (v : Value) : Prop :=
  ∀ (front : List Token) (closer opener : Token) (rest : Tokens) (depth fuel : Nat),
    front.map said = words → closer.tag = .rparen → 2 * front.length + 1 ≤ fuel →
    ∃ items w, Reader.datumItems fuel opener depth (following front (.more closer rest)) =
        .ok (items, rest) ∧
      Form.datumList items = .ok w ∧ w.equal v = .ok true

/-- A token that is a datum by itself. -/
theorem readsAs_token {tag : Tag} {payload : Payload} {v : Value}
    (hends : tag ≠ .rparen ∧ tag ≠ .dot)
    (h : ∀ fuel place depth tokens, ∃ form,
      Reader.datum (fuel + 1) ⟨tag, payload, place⟩ depth tokens = .ok (form, tokens) ∧
        form.StandsFor v) :
    ReadsAs [(tag, payload)] v := by
  intro front rest depth fuel hfront hfuel
  obtain ⟨token, rfl, hsaid⟩ := List.map_eq_singleton_iff.mp hfront
  obtain ⟨tag', payload', place⟩ := token
  cases hsaid
  rw [List.length_singleton] at hfuel
  obtain ⟨fuel, rfl⟩ : ∃ n, fuel = n + 1 := ⟨fuel - 1, by omega⟩
  obtain ⟨form, hread, hform⟩ := h fuel place depth rest
  exact ⟨_, [], form, rfl, hends.1, hends.2, hread, hform⟩

section Lists

variable {words others : List (Tag × Payload)} {head tail v : Value}

theorem readsItems_nil : ReadsItems [] .nil := by
  intro front closer opener rest depth fuel hfront hcloser hfuel
  obtain rfl := List.map_eq_nil_iff.mp hfront
  obtain ⟨fuel, rfl⟩ : ∃ n, fuel = n + 1 := ⟨fuel - 1, by omega⟩
  refine ⟨[], .nil, ?_, rfl, rfl⟩
  change Reader.datumItems (fuel + 1) opener depth (.more closer rest) = _
  rw [Reader.datumItems, Reader.next, ok_bind]
  simp only [hcloser, if_true]
  rfl

theorem datumList_cons {first : Form} (hdot : first.token.tag ≠ .dot) {w w' : Value}
    {items : List Form} (hfirst : first.datum = .ok w) (hitems : Form.datumList items = .ok w') :
    Form.datumList (first :: items) = .ok (.pair w w') := by
  obtain ⟨token, parts, compound⟩ := first
  cases items with
  | nil =>
    cases hitems
    rw [Form.datumList, if_neg hdot, hfirst]
    rfl
  | cons second items =>
    rw [Form.datumList, hfirst, ok_bind, hitems]
    rfl

theorem equal_pair {a b as bs : Value} (h : a.equal b = .ok true) (hs : as.equal bs = .ok true) :
    (Value.pair a as).equal (.pair b bs) = .ok true := by
  rw [Value.equal, h, ok_bind, if_pos rfl, hs]

theorem readsItems_cons (h : ReadsAs words head) (hs : ReadsItems others tail) :
    ReadsItems (words ++ others) (.pair head tail) := by
  intro front closer opener rest depth fuel hfront hcloser hfuel
  obtain ⟨front, items, rfl, hwords, hothers⟩ := List.map_eq_append_iff.mp hfront
  rw [List.length_append] at hfuel
  obtain ⟨fuel, rfl⟩ : ∃ n, fuel = n + 1 := ⟨fuel - 1, by omega⟩
  obtain ⟨token, more, form, rfl, hparen, hdot, hread, hform⟩ :=
    h front (following items (.more closer rest)) depth fuel hwords (by omega)
  rw [List.length_cons] at hfuel
  obtain ⟨forms, w', hitems, hlist, hequal⟩ :=
    hs items closer opener rest depth fuel hothers hcloser (by omega)
  obtain ⟨hformDot, w, hdatum, hequal'⟩ := hform
  refine ⟨form :: forms, .pair w w', ?_, datumList_cons hformDot hdatum hlist,
    equal_pair hequal' hequal⟩
  rw [Tokens.following_append]
  change Reader.datumItems (fuel + 1) opener depth (.more token (following more _)) = _
  rw [Reader.datumItems, Reader.next, ok_bind]
  dsimp only
  rw [if_neg hparen, if_neg hdot, hread, ok_bind, hitems]
  rfl

/-- A dot in front of the tokens of a tail. -/
theorem readsItems_dotted (h : ReadsAs words v) : ReadsItems ((.dot, .text ".") :: words) v := by
  intro front closer opener rest depth fuel hfront hcloser hfuel
  obtain ⟨dot, front, rfl, hdot, hwords⟩ := List.map_eq_cons_iff.mp hfront
  obtain ⟨tag, payload, place⟩ := dot
  cases hdot
  rw [List.length_cons] at hfuel
  obtain ⟨fuel, rfl⟩ : ∃ n, fuel = n + 2 := ⟨fuel - 2, by omega⟩
  obtain ⟨token, more, form, rfl, hparen, hdot, hread, hform⟩ :=
    h front (.more closer rest) depth fuel hwords (by omega)
  obtain ⟨hformDot, w, hdatum, hequal⟩ := hform
  refine ⟨[.compoundAt .dot [form] ⟨.dot, .text ".", place⟩], w, ?_, ?_, hequal⟩
  · change Reader.datumItems (fuel + 2) opener depth (.more ⟨.dot, .text ".", place⟩
      (.more token (following more _))) = _
    rw [Reader.datumItems, Reader.next, ok_bind]
    dsimp only
    rw [if_neg (by decide), if_pos rfl, Reader.dottedTail, Reader.next, ok_bind]
    dsimp only
    rw [if_neg hparen, hread, ok_bind, Reader.next, ok_bind]
    dsimp only
    rw [if_pos hcloser]
    rfl
  · rw [Form.compoundAt, Form.datumList, if_pos rfl, Form.datumFirst, hdatum]
    rfl

/-- Tokens between parentheses. -/
theorem map_said_parens {front : List Token}
    (h : front.map said = (.lparen, .text "(") :: words ++ [(.rparen, .text ")")]) :
    ∃ opener inner closer, front = opener :: inner ++ [closer] ∧ opener.tag = .lparen ∧
      inner.map said = words ∧ closer.tag = .rparen := by
  obtain ⟨start, last, rfl, hstart, hlast⟩ := List.map_eq_append_iff.mp h
  obtain ⟨opener, inner, rfl, hopener, hinner⟩ := List.map_eq_cons_iff.mp hstart
  obtain ⟨closer, rest, rfl, hcloser, hrest⟩ := List.map_eq_cons_iff.mp hlast
  obtain rfl := List.map_eq_nil_iff.mp hrest
  exact ⟨opener, inner, closer, rfl, congrArg Prod.fst hopener, hinner, congrArg Prod.fst hcloser⟩

/-- What stands between parentheses is read by the steps that are left after two. -/
theorem readsAs_parens (h : ∀ (inner : List Token) (opener closer : Token) (rest : Tokens)
      (depth fuel : Nat), inner.map said = words → closer.tag = .rparen →
      2 * inner.length + 1 ≤ fuel → ∃ form,
        Reader.datumList (fuel + 1) opener depth (following inner (.more closer rest)) =
          .ok (form, rest) ∧ form.StandsFor v) :
    ReadsAs ((.lparen, .text "(") :: words ++ [(.rparen, .text ")")]) v := by
  intro front rest depth fuel hfront hfuel
  obtain ⟨opener, inner, closer, rfl, hopener, hinner, hcloser⟩ := map_said_parens hfront
  rw [List.length_append, List.length_cons, List.length_singleton] at hfuel
  obtain ⟨fuel, rfl⟩ : ∃ n, fuel = n + 2 := ⟨fuel - 2, by omega⟩
  obtain ⟨form, hread, hform⟩ := h inner opener closer rest depth fuel hinner hcloser (by omega)
  refine ⟨opener, inner ++ [closer], form, rfl, by rw [hopener]; decide, by rw [hopener]; decide,
    ?_, hform⟩
  rw [Reader.datum, if_pos hopener, Tokens.following_append]
  exact hread

theorem readsAs_empty : ReadsAs [(.lparen, .text "("), (.rparen, .text ")")] .nil := by
  change ReadsAs ((.lparen, .text "(") :: [] ++ [(.rparen, .text ")")]) .nil
  refine readsAs_parens fun inner opener closer rest depth fuel hinner hcloser hfuel => ?_
  obtain rfl := List.map_eq_nil_iff.mp hinner
  refine ⟨.compoundAt .empty [] opener, ?_, nofun, .nil, rfl, rfl⟩
  change Reader.datumList (fuel + 1) opener depth (.more closer rest) = _
  rw [Reader.datumList, Reader.next, ok_bind]
  dsimp only
  rw [if_pos hcloser]
  rfl

/-- A list whose head is no quoting keyword. -/
theorem readsAs_pair (hhead : ∀ word ∈ words.head?, word.1.isQuoting = false)
    (h : ReadsAs words head) (hs : ReadsItems others tail) :
    ReadsAs ((.lparen, .text "(") :: (words ++ others) ++ [(.rparen, .text ")")])
      (.pair head tail) := by
  refine readsAs_parens fun inner opener closer rest depth fuel hinner hcloser hfuel => ?_
  obtain ⟨front, items, rfl, hwords, hothers⟩ := List.map_eq_append_iff.mp hinner
  rw [List.length_append] at hfuel
  obtain ⟨token, more, form, rfl, hparen, hdot, hread, hform⟩ :=
    h front (following items (.more closer rest)) depth fuel hwords (by omega)
  rw [List.length_cons] at hfuel
  obtain ⟨forms, w', hitems, hlist, hequal⟩ :=
    hs items closer opener rest depth fuel hothers hcloser (by omega)
  obtain ⟨hformDot, w, hdatum, hequal'⟩ := hform
  have hquoting : token.tag.isQuoting = false := by
    refine hhead token.said ?_
    rw [← hwords]
    rfl
  refine ⟨.compoundAt .list (form :: forms) opener, ?_, nofun, .pair w w', ?_,
    equal_pair hequal' hequal⟩
  · rw [Tokens.following_append]
    change Reader.datumList (fuel + 1) opener depth (.more token (following more _)) = _
    rw [Reader.datumList, Reader.next, ok_bind]
    dsimp only
    rw [if_neg hparen, hquoting, if_neg (by simp), if_neg hdot, hread, ok_bind, hitems]
    rfl
  · exact datumList_cons hformDot hdatum hlist

/-- A quotation that is spelled with its keyword. -/
theorem readsAs_quote (h : ReadsAs words v) :
    ReadsAs ((.lparen, .text "(") :: ((.quote, .text "quote") :: words) ++ [(.rparen, .text ")")])
      (.list [.symbol "quote", v]) := by
  refine readsAs_parens fun inner opener closer rest depth fuel hinner hcloser hfuel => ?_
  obtain ⟨quoting, front, rfl, hquoting, hwords⟩ := List.map_eq_cons_iff.mp hinner
  obtain ⟨tag, payload, place⟩ := quoting
  cases hquoting
  rw [List.length_cons] at hfuel
  obtain ⟨fuel, rfl⟩ : ∃ n, fuel = n + 1 := ⟨fuel - 1, by omega⟩
  obtain ⟨token, more, form, rfl, hparen, hdot, hread, hform⟩ :=
    h front (.more closer rest) depth fuel hwords (by omega)
  obtain ⟨hformDot, w, hdatum, hequal⟩ := hform
  refine ⟨.compoundAt .quote [form] ⟨.quote, .text "quote", place⟩, ?_, nofun,
    .list [.symbol "quote", w], ?_, equal_pair rfl (equal_pair hequal rfl)⟩
  · change Reader.datumList (fuel + 2) opener depth (.more ⟨.quote, .text "quote", place⟩
      (.more token (following more _))) = _
    rw [Reader.datumList, Reader.next, ok_bind]
    dsimp only
    rw [if_neg (by decide), if_pos (by rfl), Reader.datumQuoting, Reader.nextQuoted, ok_bind]
    dsimp only
    rw [if_neg (by simp), if_neg (by simp), if_neg (by decide), hread, ok_bind]
    change (do
      let tokens ← Reader.close opener _ (.more closer rest)
      return (_, tokens) : Except Fault (Form × Tokens)) = _
    rw [Reader.close, Reader.next, ok_bind]
    dsimp only
    rw [if_pos hcloser]
    rfl
  · rw [Form.compoundAt, Form.datum, if_neg (by decide), if_pos (by rfl), Form.datumFirst, hdatum]
    rfl

end Lists

end TowerLisp
