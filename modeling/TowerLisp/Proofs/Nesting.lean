import TowerLisp.Proofs.Programs
import TowerLisp.Proofs.ReaderRelabelling

/-!
Nesting and its limit. Tokens break off at the first one that stands too deep. A form leaves
as many parentheses open as it finds, so tokens behind forms break off where they would
without them, unless it is the forms that are too deep. Then nothing that comes later counts.
-/

namespace TowerLisp

open Tokens (following)

/-- The parentheses that are open, and the quoting prefixes in front of what comes next. -/
structure Nesting where
  opened : Nat
  quotes : Nat

/-- Tags of tokens that change no nesting. -/
def Tag.isWord (tag : Tag) : Bool :=
  !tag.isQuoting && tag != .lparen && tag != .rparen

theorem Tag.isWord_of_isAtom {tag : Tag} (h : tag.isAtom = true) : tag.isWord = true := by
  cases tag <;> first | rfl | cases h

theorem Tag.isAtom_of_isLiteral {tag : Tag} (h : tag.isLiteral = true) : tag.isAtom = true := by
  cases tag <;> first | rfl | cases h

theorem Tag.isSome_keyword_of_isQuoting {tag : Tag} (h : tag.isQuoting = true) :
    tag.keyword?.isSome = true := by
  cases tag <;> first | rfl | cases h

theorem Tag.ne_parens {tag : Tag} (h : tag.keyword?.isSome = true) :
    tag ≠ .lparen ∧ tag ≠ .rparen := by
  constructor
  · rintro rfl
    cases h
  · rintro rfl
    cases h

namespace Nesting

def depth (n : Nesting) : Nat :=
  n.opened + n.quotes

/-- The nesting behind a token. -/
def after (n : Nesting) (token : Token) : Nesting where
  opened :=
    if token.tag = .lparen then n.opened + 1
    else if token.tag = .rparen then n.opened - 1
    else n.opened
  quotes := if token.isPrefix then n.quotes + 1 else 0

theorem after_relabel (φ : Place → Option Place) (n : Nesting) (token : Token) :
    n.after (token.relabel φ) = n.after token := rfl

variable {token : Token} (opened quotes : Nat)

theorem after_lparen (h : token.tag = .lparen) :
    after ⟨opened, quotes⟩ token = ⟨opened + 1, 0⟩ := by
  simp [after, Token.isPrefix, h, Tag.isQuoting]

theorem after_rparen (h : token.tag = .rparen) :
    after ⟨opened, quotes⟩ token = ⟨opened - 1, 0⟩ := by
  simp [after, Token.isPrefix, h, Tag.isQuoting]

theorem after_mark (h : token.isPrefix = true) :
    after ⟨opened, quotes⟩ token = ⟨opened, quotes + 1⟩ := by
  obtain ⟨hopens, hcloses⟩ :=
    Tag.ne_parens (Tag.isSome_keyword_of_isQuoting (Token.isQuoting_of_isPrefix h))
  simp [after, h, hopens, hcloses]

theorem after_keyword (h : token.tag.keyword?.isSome = true) (hword : token.isPrefix = false) :
    after ⟨opened, quotes⟩ token = ⟨opened, 0⟩ := by
  obtain ⟨hopens, hcloses⟩ := Tag.ne_parens h
  simp [after, hword, hopens, hcloses]

theorem after_word {tag : Tag} (h : token.tag = tag) (hword : tag.isWord = true) :
    after ⟨opened, quotes⟩ token = ⟨opened, 0⟩ := by
  subst h
  simp only [Tag.isWord, Bool.and_eq_true, Bool.not_eq_true', bne_iff_ne] at hword
  obtain ⟨⟨hquoting, hopens⟩, hcloses⟩ := hword
  simp [after, Token.isPrefix, hquoting, hopens, hcloses]

theorem after_names {names : List Token} (h : ∀ name ∈ names, name.tag = .symbol) :
    names.foldl after ⟨opened, 0⟩ = ⟨opened, 0⟩ := by
  induction names with
  | nil => rfl
  | cons name names ih =>
    obtain ⟨hname, hnames⟩ := List.forall_mem_cons.mp h
    rw [List.foldl_cons, after_word _ _ hname rfl, ih hnames]

end Nesting

open Nesting

/-- A form leaves the parentheses around it as they are, and a row of forms closes one. -/
theorem Derives.nesting {phrase : Phrase} {front : List Token} {forms : List Form}
    (h : Derives phrase front forms) (opened quotes : Nat) :
    front.foldl after ⟨opened + phrase.isRow.toNat, quotes⟩ = ⟨opened, 0⟩ := by
  induction h generalizing opened quotes with
    simp only [Phrase.isRow, Bool.toNat_false, Bool.toNat_true, Nat.add_zero, List.foldl_cons,
      List.foldl_append, List.foldl_nil] at *
  | atom htag _ => exact after_word _ _ rfl (Tag.isWord_of_isAtom htag)
  | empty hopener hcloser =>
    rw [after_lparen _ _ hopener, after_rparen _ _ hcloser, Nat.add_sub_cancel]
  | mark hmark _ _ ih => rw [after_mark _ _ hmark, ih]
  | quotation hopener hquoting hword _ _ hcloser ih =>
    rw [after_lparen _ _ hopener,
      after_keyword _ _ (Tag.isSome_keyword_of_isQuoting hquoting) hword, ih,
      after_rparen _ _ hcloser, Nat.add_sub_cancel]
  | application hopener hhead _ _ ih ihrest => rw [after_lparen _ _ hopener, ih, ihrest]
  | @headed opener head _ _ hopener hhead _ ih =>
    have hword : head.tag.isWord = true := by
      rcases hhead with h | h | h <;> rw [h] <;> rfl
    rw [after_lparen _ _ hopener, after_word _ _ rfl hword, ih]
  | literals hopener hhead _ _ ih =>
    rw [after_lparen _ _ hopener,
      after_word _ _ rfl (Tag.isWord_of_isAtom (Tag.isAtom_of_isLiteral hhead)), ih]
  | lambda hopener hhead hlist hnames _ _ hcloser _ _ ih =>
    rw [after_lparen _ _ hopener, after_word _ _ hhead rfl, after_lparen _ _ hlist,
      after_names _ hnames, after_rparen _ _ hcloser, Nat.add_sub_cancel, ih]
  | define hopener hhead hname _ ih =>
    rw [after_lparen _ _ hopener, after_word _ _ hhead rfl,
      after_word _ _ hname rfl, ih]
  | cond hopener hhead _ ih =>
    rw [after_lparen _ _ hopener, after_word _ _ hhead rfl, ih]
  | @letPlain opener head _ _ _ _ _ hopener hhead hlist _ _ _ ih ihbody =>
    have hword : head.tag.isWord = true := by
      rcases hhead with h | h | h <;> rw [h] <;> rfl
    rw [after_lparen _ _ hopener, after_word _ _ rfl hword, after_lparen _ _ hlist, ih, ihbody]
  | letNamed hopener hhead hname hlist _ _ _ ih ihbody =>
    rw [after_lparen _ _ hopener, after_word _ _ hhead rfl,
      after_word _ _ hname rfl, after_lparen _ _ hlist, ih, ihbody]
  | word hkeyword hword => exact after_keyword _ _ hkeyword hword
  | list hopener _ _ _ ih ihrest => rw [after_lparen _ _ hopener, ih, ihrest]
  | close hrow hcloser =>
    rw [hrow, after_rparen _ _ hcloser]
    rfl
  | dotted hdot _ hcloser ih =>
    rw [after_word _ _ hdot rfl, ih, after_rparen _ _ hcloser, Nat.add_sub_cancel]
  | more _ _ ih ihrest => rw [ih, ihrest]
  | clause hopener _ _ _ ih ihrest => rw [after_lparen _ _ hopener, ih, ihrest]
  | binding hopener hname _ hcloser _ ih ihrest =>
    rw [after_lparen _ _ hopener, after_word _ _ hname rfl, ih, after_rparen _ _ hcloser,
      Nat.add_sub_cancel, ihrest]

theorem DerivesAll.nesting {front : List Token} {forms : List Form} (h : DerivesAll front forms) :
    front.foldl after ⟨0, 0⟩ = ⟨0, 0⟩ := by
  induction h with
  | nil => rfl
  | cons hform _ ih =>
    have hfirst : List.foldl after ⟨0, 0⟩ _ = ⟨0, 0⟩ := hform.nesting 0 0
    rw [List.foldl_append, hfirst, ih]

namespace Tokens

/-- The tokens up to the first one that stands deeper than `limit`, if they start at `n`. -/
def breakOff (limit : Nat) (n : Nesting) : Tokens → Tokens
  | more token rest =>
    if limit < (n.after token).depth then broken .tooDeep
    else more token (breakOff limit (n.after token) rest)
  | tokens => tokens

theorem withinLoop_eq (limit : Nat) (tokens : Tokens) (opened quotes : Nat)
    (reversed : List Token) :
    withinLoop limit (prepend reversed tokens) opened quotes reversed tokens =
      prepend reversed (tokens.breakOff limit ⟨opened, quotes⟩) := by
  induction tokens generalizing opened quotes reversed with
  | done eof => rfl
  | broken fault => rfl
  | more token rest ih =>
    by_cases hdeep : limit < (after ⟨opened, quotes⟩ token).depth
    · rw [breakOff, if_pos hdeep, withinLoop]
      exact if_pos hdeep
    · rw [breakOff, if_neg hdeep, withinLoop]
      exact (if_neg hdeep).trans (ih _ _ (token :: reversed))

theorem within_eq (limit : Nat) (tokens : Tokens) :
    tokens.within limit = tokens.breakOff limit ⟨0, 0⟩ :=
  withinLoop_eq limit tokens 0 0 []

theorem breakOff_relabel (φ : Place → Option Place) (limit : Nat) (n : Nesting) (tokens : Tokens) :
    (tokens.relabel φ).breakOff limit n = (tokens.breakOff limit n).relabel φ := by
  induction tokens generalizing n with
  | done eof => rfl
  | broken fault => rfl
  | more token rest ih =>
    rw [relabel, breakOff, breakOff, after_relabel, ih]
    split
    · rfl
    · rfl

theorem Plain.breakOff {tokens : Tokens} (h : tokens.Plain) (limit : Nat) (n : Nesting) :
    (tokens.breakOff limit n).Plain := by
  induction tokens generalizing n with
  | done eof => trivial
  | broken fault => trivial
  | more token rest ih =>
    rw [Tokens.breakOff]
    split
    · trivial
    · exact ⟨h.1, ih h.2 _⟩

/-- Tokens behind others break off as they would there, or the others break off before. -/
theorem breakOff_following (limit : Nat) (n : Nesting) (front : List Token) :
    (∀ rest, (following front rest).breakOff limit n =
      following front (rest.breakOff limit (front.foldl after n))) ∨
    ∃ kept, ∀ rest, (following front rest).breakOff limit n =
      following kept (broken .tooDeep) := by
  induction front generalizing n with
  | nil => exact Or.inl fun _ => rfl
  | cons token front ih =>
    by_cases hdeep : limit < (n.after token).depth
    · refine Or.inr ⟨[], fun rest => ?_⟩
      rw [following_cons, breakOff, if_pos hdeep, following_nil]
    · rcases ih (n.after token) with hwhole | ⟨kept, hkept⟩
      · refine Or.inl fun rest => ?_
        rw [following_cons, breakOff, if_neg hdeep, hwhole]
        rfl
      · refine Or.inr ⟨token :: kept, fun rest => ?_⟩
        rw [following_cons, breakOff, if_neg hdeep, hkept]
        rfl

/-- Forms in front of tokens do not change where these break off, unless it is the forms that
are too deep. -/
theorem within_following {front : List Token} {forms : List Form} (h : DerivesAll front forms)
    (limit : Nat) :
    (∀ rest, (following front rest).within limit = following front (rest.within limit)) ∨
    ∃ kept, ∀ rest, (following front rest).within limit = following kept (broken .tooDeep) := by
  simp only [within_eq]
  have hbreak := breakOff_following limit ⟨0, 0⟩ front
  rwa [h.nesting] at hbreak

theorem within_relabel (φ : Place → Option Place) (limit : Nat) (tokens : Tokens) :
    (tokens.relabel φ).within limit = (tokens.within limit).relabel φ := by
  rw [within_eq, within_eq, breakOff_relabel]

theorem Plain.within {tokens : Tokens} (h : tokens.Plain) (limit : Nat) :
    (tokens.within limit).Plain := by
  rw [within_eq]
  exact h.breakOff limit _

/-- Under a larger limit tokens break off later, or not at all. -/
theorem rows_breakOff {G : Fault → Prop} {htooDeep : G .tooDeep}
    {hnumber : ∀ {digits fault}, Number.parse digits = .error fault →
      (∀ issue, fault ≠ .literal issue) → G fault}
    {limit limit' : Nat} (hlimit : limit ≤ limit') {tokens : Tokens}
    (htokens : ∀ t ∈ tokens.toList, (Reader.Pairing.within G htooDeep hnumber).Fits t)
    (hending : ∀ fault, tokens.ending = .error fault → G fault) (n : Nesting) :
    (Reader.Pairing.within G htooDeep hnumber).Rows (tokens.breakOff limit n)
      (tokens.breakOff limit' n) := by
  induction tokens generalizing n with
  | done eof => exact .done_within eof
  | broken fault => exact .broken ⟨rfl, hending fault rfl⟩
  | more token rest ih =>
    obtain ⟨htoken, hrest⟩ := List.forall_mem_cons.mp htokens
    rw [breakOff, breakOff]
    by_cases hdeep : limit < (n.after token).depth
    · rw [if_pos hdeep]
      exact .cut _ trivial
    · rw [if_neg hdeep, if_neg (by omega)]
      exact .more_within htoken (ih hrest hending (n.after token))

end Tokens

end TowerLisp
