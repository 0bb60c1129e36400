import TowerLisp.Form.Reader
import TowerLisp.Proofs.Outcomes
import TowerLisp.Proofs.Scanning

/-!
Reading conserves tokens. `Form.flat` writes a form back as the tokens that it came
from. The forms of a text, written back one after another, are the tokens of the
text in their order and at their nesting level.
-/

namespace TowerLisp

namespace Token

def lparen : Token := ⟨.lparen, .text "(", none⟩

def rparen : Token := ⟨.rparen, .text ")", none⟩

/-- What a token says, wherever it stands. Numbers say their value, and keywords count as
the symbols that they are spelled as. -/
def key (t : Token) : Tag × Payload :=
  match t.tag, t.payload with
  | .number, .text digits =>
    match Number.parse digits.toList with
    | .ok value => (.number, .number value)
    | .error _ => (.number, .text digits)
  | tag, payload =>
    if tag.keyword?.isSome && !t.isPrefix then (.symbol, payload) else (tag, payload)

/-- A keyword counts as the symbol that it is spelled as. -/
theorem key_keyword {t : Token} (htag : t.tag.keyword?.isSome = true)
    (hmarked : ¬ t.isPrefix = true) :
    t.key = Token.key ⟨.symbol, t.payload, t.place⟩ := by
  obtain ⟨tag, payload, place⟩ := t
  have hnumber : tag ≠ .number := by
    rintro rfl
    cases htag
  simp_all [key, Tag.keyword?]

theorem Spelled.key_lparen {t : Token} (h : t.Spelled) (htag : t.tag = .lparen) :
    t.key = lparen.key := by
  obtain ⟨tag, payload, place⟩ := t
  cases htag
  cases Spelling.lparen_text h
  rfl

theorem Spelled.key_rparen {t : Token} (h : t.Spelled) (htag : t.tag = .rparen) :
    t.key = rparen.key := by
  obtain ⟨tag, payload, place⟩ := t
  cases htag
  cases Spelling.rparen_text h
  rfl

end Token

namespace Tag

/-- Forms that have parentheses and no head of their own. -/
def isGroup : Tag → Bool
  | apply | list | empty | params | bindings | binding | clause => true
  | _ => false

/-- Tokens that are the head of a form in parentheses. -/
def isHead (tag : Tag) : Bool :=
  tag = symbol || tag = operator || tag.keyword?.isSome

end Tag

namespace Form

/-- The tokens of a form with a token and parts. A prefix or a dot precedes its part;
other compound forms are in parentheses. -/
def around (token : Token) (compound : Bool) (inner : List Token) : List Token :=
  if !compound || token.tag = .dot || token.isPrefix then token :: inner
  else if token.tag.isGroup then .lparen :: inner ++ [.rparen]
  else .lparen :: token :: inner ++ [.rparen]

mutual

/-- The tokens that a form is read from. -/
def flat : Form → List Token
  | ⟨token, parts, compound⟩ => around token compound (flatAll parts)

def flatAll : List Form → List Token
  | [] => []
  | first :: rest => flat first ++ flatAll rest

end

@[simp] theorem flatAll_nil : flatAll [] = [] := by
  rw [flatAll]

@[simp] theorem flatAll_cons (first : Form) (rest : List Form) :
    flatAll (first :: rest) = first.flat ++ flatAll rest := by
  rw [flatAll]

theorem flatAll_eq_flatMap (forms : List Form) : flatAll forms = forms.flatMap flat := by
  induction forms with
  | nil => simp
  | cons first rest ih => simp [ih]

@[simp] theorem flatAll_append (forms others : List Form) :
    flatAll (forms ++ others) = flatAll forms ++ flatAll others := by
  simp [flatAll_eq_flatMap]

@[simp] theorem flat_leaf (token : Token) : (leaf token).flat = [token] := by
  simp [leaf, flat, around]

/-- A form in parentheses without a head. -/
theorem flat_group {tag : Tag} (h : tag.isGroup = true) (parts : List Form) (token : Token) :
    (compoundAt tag parts token).flat = .lparen :: flatAll parts ++ [.rparen] := by
  have hdot : tag ≠ .dot := by
    rintro rfl
    cases h
  have hquoting : tag.isQuoting = false := by
    cases tag <;> first | rfl | cases h
  simp [compoundAt, flat, around, Token.isPrefix, hdot, hquoting, h]

/-- A form in parentheses that starts with its token. -/
theorem flat_headed {head : Token} (htag : head.tag.isHead = true) (hmarked : head.isPrefix = false)
    (parts : List Form) :
    (Form.mk head parts true).flat = .lparen :: head :: flatAll parts ++ [.rparen] := by
  have hdot : head.tag ≠ .dot := by
    intro hdot
    rw [hdot] at htag
    cases htag
  have hgroup : head.tag.isGroup = false := by
    revert htag
    cases head.tag <;> decide
  simp [flat, around, hdot, hmarked, hgroup]

theorem flat_dot {dot : Token} (h : dot.tag = .dot) (tail : Form) :
    (compoundAt .dot [tail] dot).flat = dot :: tail.flat := by
  obtain ⟨tag, payload, place⟩ := dot
  cases h
  simp [compoundAt, flat, around]

theorem compoundAt_self (token : Token) (parts : List Form) :
    compoundAt token.tag parts token = ⟨token, parts, true⟩ := by
  simp [compoundAt]

/-- What a prefix quotes follows it. -/
theorem flat_prefixed {token : Token} (h : token.isPrefix = true) (quoted : Form) :
    (compoundAt token.tag [quoted] token).flat = token :: quoted.flat := by
  simp [compoundAt_self, flat, around, h]

end Form

namespace Tokens

def keys (tokens : Tokens) : List (Tag × Payload) :=
  tokens.toList.map Token.key

def Spelled (tokens : Tokens) : Prop :=
  ∀ t ∈ tokens.toList, t.Spelled

/-- The tokens in `written` are read and `rest` is left. -/
def Consumes (tokens : Tokens) (written : List Token) (rest : Tokens) : Prop :=
  tokens.Spelled → tokens.keys = written.map Token.key ++ rest.keys ∧
    rest.ending = tokens.ending ∧ rest.Spelled

theorem Consumes.refl (tokens : Tokens) : Consumes tokens [] tokens :=
  fun h => ⟨rfl, rfl, h⟩

theorem Consumes.append {a b c : Tokens} {u v : List Token} (h : Consumes a u b)
    (h' : Consumes b v c) : Consumes a (u ++ v) c := by
  intro ha
  obtain ⟨hkeys, hending, hb⟩ := h ha
  obtain ⟨hkeys', hending', hc⟩ := h' hb
  refine ⟨?_, hending'.trans hending, hc⟩
  rw [hkeys, hkeys', List.map_append, List.append_assoc]

/-- A token is read for another that says the same. -/
theorem Consumes.same {t t' : Token} {tokens rest : Tokens} {written : List Token}
    (hkey : t.Spelled → t.key = t'.key) (h : Consumes tokens written rest) :
    Consumes (.more t tokens) (t' :: written) rest := by
  intro hspelled
  obtain ⟨hkeys, hending, hrest⟩ := h fun t ht => hspelled t (List.mem_cons_of_mem _ ht)
  refine ⟨?_, hending, hrest⟩
  change t.key :: tokens.keys = t'.key :: (written.map Token.key ++ rest.keys)
  rw [hkeys, hkey (hspelled t List.mem_cons_self)]

theorem Consumes.cons {t : Token} {tokens rest : Tokens} {written : List Token}
    (h : Consumes tokens written rest) : Consumes (.more t tokens) (t :: written) rest :=
  h.same fun _ => rfl

theorem Consumes.lparen {t : Token} {tokens rest : Tokens} {written : List Token}
    (h : Consumes tokens written rest) (htag : t.tag = .lparen) :
    Consumes (.more t tokens) (.lparen :: written) rest :=
  h.same fun hspelled => hspelled.key_lparen htag

theorem consumes_rparen {t : Token} (tokens : Tokens) (htag : t.tag = .rparen) :
    Consumes (.more t tokens) [.rparen] tokens :=
  (Consumes.refl tokens).same fun hspelled => hspelled.key_rparen htag

end Tokens

namespace Reader

open Tokens (Consumes consumes_rparen)
open Form (flatAll)

/-- What follows a token inside a parenthesis had that token. -/
theorem next_bind {α : Type} {opener : Token} {tokens : Tokens}
    {f : Token × Tokens → Except Fault α} {a : α} (h : next opener tokens >>= f = .ok a) :
    ∃ token rest, tokens = .more token rest ∧ f (token, rest) = .ok a := by
  cases tokens with
  | done eof => cases h
  | broken fault => cases h
  | more token rest => exact ⟨token, rest, rfl, h⟩

theorem nextQuoted_bind {α : Type} {opener : Token} {tokens : Tokens}
    {f : Token × Tokens → Except Fault α} {a : α} (h : nextQuoted opener tokens >>= f = .ok a) :
    ∃ token rest, tokens = .more token rest ∧ f (token, rest) = .ok a := by
  cases tokens with
  | done eof => cases h
  | broken fault => cases h
  | more token rest => exact ⟨token, rest, rfl, h⟩

theorem failShowing_ne_ok {α : Type} {t : Token} {issue : String → SyntaxIssue} {a : α} :
    failShowing t issue ≠ .ok a := by
  intro h
  obtain ⟨text, -, hfail⟩ := bind_eq_ok h
  cases hfail

theorem close_consumes {opener : Token} {what : String} {tokens rest : Tokens}
    (h : close opener what tokens = .ok rest) : Consumes tokens [.rparen] rest := by
  obtain ⟨token, others, rfl, hread⟩ := next_bind h
  change (if token.tag = .rparen then _ else _) = _ at hread
  split at hread
  · cases hread
    exact consumes_rparen _ ‹_›
  · exact absurd hread failShowing_ne_ok

/-- A leaf is its token; the value of a number is that of its text. -/
theorem atom_consumes {t : Token} {f : Form} (h : atom t = .ok f) (tokens : Tokens) :
    Consumes (.more t tokens) f.flat tokens := by
  obtain ⟨tag, payload, place⟩ := t
  unfold atom at h
  split at h
  · rename_i digits htag hpayload
    cases htag
    cases hpayload
    split at h
    · rename_i value hparse
      cases h
      rw [Form.flat_leaf]
      refine (Consumes.refl tokens).same fun _ => ?_
      simp [Token.key, hparse, Tag.keyword?]
    · cases h
    · cases h
  · cases h
    rw [Form.flat_leaf]
    exact (Consumes.refl tokens).cons

theorem parameters_consumes {opener : Token} {seen : List String} {tokens rest : Tokens}
    {params : List Form} (h : parameters opener seen tokens = .ok (params, rest)) :
    Consumes tokens (flatAll params ++ [.rparen]) rest := by
  induction tokens generalizing seen params with
  | done eof => cases h
  | broken fault => cases h
  | more token others ih =>
    rw [parameters] at h
    split at h
    · cases h
      exact consumes_rparen _ ‹_›
    · split at h
      · obtain ⟨name, -, h⟩ := bind_eq_ok h
        dsimp only at h
        split at h
        · cases h
        · obtain ⟨⟨names, last⟩, hnames, h⟩ := bind_eq_ok h
          cases h
          simpa using (ih hnames).cons
      · exact absurd h failShowing_ne_ok

/-- A form in parentheses takes its opening parenthesis and all that follows up to the
closing one. -/
theorem group_consumes {tag : Tag} {opener token : Token} {parts : List Form}
    {tokens rest : Tokens} (hopener : opener.tag = .lparen) (hgroup : tag.isGroup = true)
    (h : Consumes tokens (flatAll parts ++ [.rparen]) rest) :
    Consumes (.more opener tokens) (Form.compoundAt tag parts token).flat rest := by
  rw [Form.flat_group hgroup]
  exact h.lparen hopener

theorem headed_consumes {opener head : Token} {parts : List Form} {tokens rest : Tokens}
    (hopener : opener.tag = .lparen) (htag : head.tag.isHead = true)
    (hmarked : head.isPrefix = false) (h : Consumes tokens (flatAll parts ++ [.rparen]) rest) :
    Consumes (.more opener (.more head tokens)) (Form.mk head parts true).flat rest := by
  rw [Form.flat_headed htag hmarked]
  exact h.cons.lparen hopener

/-- A quoting form that is spelled with a keyword. -/
theorem quoted_consumes {opener head : Token} {quoted : Form} {tokens rest : Tokens}
    (hopener : opener.tag = .lparen) (htag : head.tag.isQuoting = true)
    (hmarked : head.isPrefix = false) (h : Consumes tokens (quoted.flat ++ [.rparen]) rest) :
    Consumes (.more opener (.more head tokens)) (Form.compoundAt head.tag [quoted] head).flat
      rest := by
  rw [Form.compoundAt_self]
  refine headed_consumes hopener ?_ hmarked (by simpa using h)
  revert htag
  cases head.tag <;> decide

/-- What each part of the reader takes from the tokens, if it has `fuel` steps. -/
structure Conserves (fuel : Nat) : Prop where
  expression {token tokens f rest} : expression fuel token tokens = .ok (f, rest) →
    Consumes (.more token tokens) f.flat rest
  operands {opener dots tokens parts rest} : operands fuel opener dots tokens = .ok (parts, rest) →
    Consumes tokens (flatAll parts ++ [.rparen]) rest
  dottedTail {dot opener depth tokens f rest} : dot.tag = .dot →
    dottedTail fuel dot opener depth tokens = .ok (f, rest) →
    Consumes (.more dot tokens) (f.flat ++ [.rparen]) rest
  form {opener tokens f rest} : opener.tag = .lparen → form fuel opener tokens = .ok (f, rest) →
    Consumes (.more opener tokens) f.flat rest
  lambdaForm {head opener tokens f rest} : head.tag = .lambda →
    lambdaForm fuel head opener tokens = .ok (f, rest) →
    opener.tag = .lparen → Consumes (.more opener (.more head tokens)) f.flat rest
  defineForm {head opener tokens f rest} : head.tag = .define →
    defineForm fuel head opener tokens = .ok (f, rest) →
    opener.tag = .lparen → Consumes (.more opener (.more head tokens)) f.flat rest
  condClauses {opener tokens clauses rest} : condClauses fuel opener tokens = .ok (clauses, rest) →
    Consumes tokens (flatAll clauses ++ [.rparen]) rest
  letBindings {opener label tokens bindings rest} :
    letBindings fuel opener label tokens = .ok (bindings, rest) →
    Consumes tokens (flatAll bindings ++ [.rparen]) rest
  letForm {head opener tokens f rest} :
    (head.tag = .letAll ∨ head.tag = .letEach ∨ head.tag = .letRec) →
    letForm fuel head opener tokens = .ok (f, rest) →
    opener.tag = .lparen → Consumes (.more opener (.more head tokens)) f.flat rest
  quoting {token tokens f rest} : quoting fuel token tokens = .ok (f, rest) →
    ∃ quoted, f = .compoundAt token.tag [quoted] token ∧ Consumes tokens quoted.flat rest
  datum {token depth tokens f rest} : datum fuel token depth tokens = .ok (f, rest) →
    Consumes (.more token tokens) f.flat rest
  datumQuoting {token opener depth tokens f rest} :
    datumQuoting fuel token opener depth tokens = .ok (f, rest) →
    ∃ quoted, f = .compoundAt token.tag [quoted] token ∧ Consumes tokens quoted.flat rest
  datumList {opener depth tokens f rest} : opener.tag = .lparen →
    datumList fuel opener depth tokens = .ok (f, rest) →
    Consumes (.more opener tokens) f.flat rest
  datumItems {opener depth tokens items rest} :
    datumItems fuel opener depth tokens = .ok (items, rest) →
    Consumes tokens (flatAll items ++ [.rparen]) rest

namespace Conserves

variable {fuel : Nat} (ih : Conserves fuel)

include ih

theorem step_expression {token : Token} {tokens rest : Tokens} {f : Form}
    (h : Reader.expression (fuel + 1) token tokens = .ok (f, rest)) :
    Consumes (.more token tokens) f.flat rest := by
  rw [Reader.expression] at h
  split at h
  · exact ih.form ‹_› h
  split at h
  · obtain ⟨quoted, rfl, hquoted⟩ := ih.quoting h
    rw [Form.flat_prefixed ‹_›]
    exact hquoted.cons
  split at h
  · obtain ⟨leaf, hatom, h⟩ := bind_eq_ok h
    cases h
    exact atom_consumes hatom tokens
  · exact absurd h failShowing_ne_ok

theorem step_operands {opener : Token} {dots : Bool} {tokens rest : Tokens} {parts : List Form}
    (h : Reader.operands (fuel + 1) opener dots tokens = .ok (parts, rest)) :
    Consumes tokens (flatAll parts ++ [.rparen]) rest := by
  rw [Reader.operands] at h
  obtain ⟨token, others, rfl, hread⟩ := next_bind h
  dsimp only at hread
  split at hread
  · cases hread
    exact consumes_rparen _ ‹_›
  split at hread
  · split at hread
    · obtain ⟨⟨tail, after⟩, htail, hread⟩ := bind_eq_ok hread
      cases hread
      simpa using ih.dottedTail ‹_› htail
    · cases hread
  · obtain ⟨⟨first, after⟩, hfirst, hread⟩ := bind_eq_ok hread
    obtain ⟨⟨items, last⟩, hitems, hread⟩ := bind_eq_ok hread
    cases hread
    simpa using (ih.expression hfirst).append (ih.operands hitems)

theorem step_dottedTail {dot opener : Token} {depth : Option Nat} {tokens rest : Tokens}
    {f : Form} (hdot : dot.tag = .dot)
    (h : Reader.dottedTail (fuel + 1) dot opener depth tokens = .ok (f, rest)) :
    Consumes (.more dot tokens) (f.flat ++ [.rparen]) rest := by
  rw [Reader.dottedTail] at h
  obtain ⟨token, others, rfl, hread⟩ := next_bind h
  dsimp only at hread
  split at hread
  · cases hread
  have hclose : ∀ {tail : Form} {after : Tokens}, Consumes (.more token others) tail.flat after →
      (next opener after >>= fun closer =>
        if closer.1.tag = Tag.rparen then pure (Form.compoundAt .dot [tail] dot, closer.2)
        else failAt closer.1 .dotBeforeEnd) = .ok (f, rest) →
      Consumes (.more dot (.more token others)) (f.flat ++ [.rparen]) rest := by
    intro tail after htail hread
    obtain ⟨closer, last, rfl, hclose⟩ := next_bind hread
    dsimp only at hclose
    split at hclose
    · cases hclose
      rw [Form.flat_dot hdot]
      exact (htail.append (consumes_rparen _ ‹_›)).cons
    · cases hclose
  split at hread
  · obtain ⟨⟨tail, after⟩, htail, hread⟩ := bind_eq_ok hread
    exact hclose (ih.expression htail) hread
  · obtain ⟨⟨tail, after⟩, htail, hread⟩ := bind_eq_ok hread
    exact hclose (ih.datum htail) hread

theorem step_form {opener : Token} {tokens rest : Tokens} {f : Form}
    (hopener : opener.tag = .lparen)
    (h : Reader.form (fuel + 1) opener tokens = .ok (f, rest)) :
    Consumes (.more opener tokens) f.flat rest := by
  rw [Reader.form] at h
  obtain ⟨head, others, rfl, hread⟩ := next_bind h
  dsimp only at hread
  obtain ⟨htag, hread⟩ | ⟨-, hread⟩ := ite_eq_iff.mp hread
  · cases hread
    exact group_consumes hopener rfl (consumes_rparen _ htag)
  obtain ⟨-, hread⟩ | ⟨hmarked, hread⟩ := ite_eq_iff.mp hread
  · obtain ⟨⟨operator, after⟩, hoperator, hread⟩ := bind_eq_ok hread
    obtain ⟨⟨arguments, last⟩, harguments, hread⟩ := bind_eq_ok hread
    cases hread
    refine group_consumes hopener rfl ?_
    simpa using (ih.expression hoperator).append (ih.operands harguments)
  simp only [Bool.or_eq_true, not_or, Bool.not_eq_true] at hmarked
  obtain ⟨htag, hread⟩ | ⟨-, hread⟩ := ite_eq_iff.mp hread
  · obtain ⟨⟨arguments, last⟩, harguments, hread⟩ := bind_eq_ok hread
    cases hread
    refine headed_consumes hopener ?_ hmarked.2 (ih.operands harguments)
    revert htag
    cases head.tag <;> decide
  obtain ⟨-, hread⟩ | ⟨-, hread⟩ := ite_eq_iff.mp hread
  · obtain ⟨first, hfirst, hread⟩ := bind_eq_ok hread
    obtain ⟨⟨items, last⟩, hitems, hread⟩ := bind_eq_ok hread
    cases hread
    refine group_consumes hopener rfl ?_
    simpa using (atom_consumes hfirst others).append (ih.operands hitems)
  obtain ⟨htag, hread⟩ | ⟨-, hread⟩ := ite_eq_iff.mp hread
  · exact ih.lambdaForm htag hread hopener
  obtain ⟨htag, hread⟩ | ⟨-, hread⟩ := ite_eq_iff.mp hread
  · exact ih.defineForm htag hread hopener
  obtain ⟨htag, hread⟩ | ⟨-, hread⟩ := ite_eq_iff.mp hread
  · obtain ⟨⟨clauses, last⟩, hclauses, hread⟩ := bind_eq_ok hread
    cases hread
    refine headed_consumes hopener ?_ hmarked.2 (ih.condClauses hclauses)
    rw [htag]
    rfl
  obtain ⟨htag, hread⟩ | ⟨-, hread⟩ := ite_eq_iff.mp hread
  · simp only [Bool.or_eq_true, decide_eq_true_eq, or_assoc] at htag
    exact ih.letForm htag hread hopener
  obtain ⟨htag, hread⟩ | ⟨-, hread⟩ := ite_eq_iff.mp hread
  · obtain ⟨⟨f, after⟩, hquoting, hread⟩ := bind_eq_ok hread
    obtain ⟨last, hclose, hread⟩ := bind_eq_ok hread
    cases hread
    obtain ⟨quoted, rfl, hquoted⟩ := ih.quoting hquoting
    exact quoted_consumes hopener htag hmarked.2 (hquoted.append (close_consumes hclose))
  · exact absurd hread failShowing_ne_ok

theorem step_lambdaForm {head opener : Token} {tokens rest : Tokens} {f : Form}
    (htag : head.tag = .lambda)
    (h : Reader.lambdaForm (fuel + 1) head opener tokens = .ok (f, rest))
    (hopener : opener.tag = .lparen) :
    Consumes (.more opener (.more head tokens)) f.flat rest := by
  rw [Reader.lambdaForm] at h
  obtain ⟨token, others, rfl, hread⟩ := next_bind h
  dsimp only at hread
  split at hread
  · obtain ⟨⟨params, after⟩, hparams, hread⟩ := bind_eq_ok hread
    obtain ⟨⟨body, last⟩, hbody, hread⟩ := bind_eq_ok hread
    dsimp only at hread
    split at hread
    · cases hread
    · cases hread
      refine headed_consumes hopener (by rw [htag]; rfl) (by rw [Token.isPrefix, htag]; rfl) ?_
      have hlist :
          Consumes (.more token others) (Form.compoundAt .params params token).flat after :=
        group_consumes ‹_› rfl (parameters_consumes hparams)
      simpa using hlist.append (ih.operands hbody)
  · cases hread

theorem step_defineForm {head opener : Token} {tokens rest : Tokens} {f : Form}
    (htag : head.tag = .define)
    (h : Reader.defineForm (fuel + 1) head opener tokens = .ok (f, rest))
    (hopener : opener.tag = .lparen) :
    Consumes (.more opener (.more head tokens)) f.flat rest := by
  rw [Reader.defineForm] at h
  obtain ⟨name, others, rfl, hread⟩ := next_bind h
  dsimp only at hread
  split at hread
  · obtain ⟨⟨values, after⟩, hvalues, hread⟩ := bind_eq_ok hread
    dsimp only at hread
    split at hread
    · cases hread
      refine headed_consumes hopener (by rw [htag]; rfl) (by rw [Token.isPrefix, htag]; rfl) ?_
      simpa using (ih.operands hvalues).cons
    · cases hread
  · exact absurd hread failShowing_ne_ok

theorem step_condClauses {opener : Token} {tokens rest : Tokens} {clauses : List Form}
    (h : Reader.condClauses (fuel + 1) opener tokens = .ok (clauses, rest)) :
    Consumes tokens (flatAll clauses ++ [.rparen]) rest := by
  rw [Reader.condClauses] at h
  obtain ⟨token, others, rfl, hread⟩ := next_bind h
  dsimp only at hread
  split at hread
  · cases hread
    exact consumes_rparen _ ‹_›
  split at hread
  · obtain ⟨⟨items, after⟩, hitems, hread⟩ := bind_eq_ok hread
    dsimp only at hread
    split at hread
    · cases hread
    · obtain ⟨⟨clauses, last⟩, hclauses, hread⟩ := bind_eq_ok hread
      cases hread
      have hclause :
          Consumes (.more token others) (Form.compoundAt .clause items token).flat after :=
        group_consumes ‹_› rfl (ih.operands hitems)
      simpa using hclause.append (ih.condClauses hclauses)
  · exact absurd hread failShowing_ne_ok

theorem step_letBindings {opener : Token} {label : String} {tokens rest : Tokens}
    {bindings : List Form}
    (h : Reader.letBindings (fuel + 1) opener label tokens = .ok (bindings, rest)) :
    Consumes tokens (flatAll bindings ++ [.rparen]) rest := by
  rw [Reader.letBindings] at h
  obtain ⟨token, others, rfl, hread⟩ := next_bind h
  dsimp only at hread
  split at hread
  · cases hread
    exact consumes_rparen _ ‹_›
  split at hread
  · obtain ⟨name, others, rfl, hname⟩ := next_bind hread
    dsimp only at hname
    split at hname
    · obtain ⟨first, others, rfl, hfirst⟩ := next_bind hname
      dsimp only at hfirst
      split at hfirst
      · obtain ⟨text, -, hfirst⟩ := bind_eq_ok hfirst
        cases hfirst
      · obtain ⟨⟨value, after⟩, hvalue, hfirst⟩ := bind_eq_ok hfirst
        obtain ⟨closed, hclose, hfirst⟩ := bind_eq_ok hfirst
        obtain ⟨⟨bindings, last⟩, hbindings, hfirst⟩ := bind_eq_ok hfirst
        cases hfirst
        have hbinding : Consumes (.more token (.more name (.more first others)))
            (Form.compoundAt .binding [.leaf name, value] token).flat closed := by
          refine group_consumes ‹_› rfl ?_
          simpa using ((ih.expression hvalue).append (close_consumes hclose)).cons
        simpa using hbinding.append (ih.letBindings hbindings)
    · exact absurd hname failShowing_ne_ok
  · cases hread

theorem step_letForm {head opener : Token} {tokens rest : Tokens} {f : Form}
    (htag : head.tag = .letAll ∨ head.tag = .letEach ∨ head.tag = .letRec)
    (h : Reader.letForm (fuel + 1) head opener tokens = .ok (f, rest))
    (hopener : opener.tag = .lparen) :
    Consumes (.more opener (.more head tokens)) f.flat rest := by
  rw [Reader.letForm] at h
  obtain ⟨token, others, rfl, hread⟩ := next_bind h
  dsimp only at hread
  -- the bindings and the body follow the name, or the keyword if there is no name
  have hlist : ∀ {listOpener : Token} {after : Tokens} {name : List Form},
      (if listOpener.tag = .lparen then
        Reader.letBindings fuel opener head.tag.keyword after >>= fun bindings =>
          Reader.operands fuel opener false bindings.2 >>= fun body =>
            if body.1.isEmpty = true then failAt head (.emptyBody head.tag.keyword)
            else pure (⟨head, name ++ .compoundAt .bindings bindings.1 listOpener :: body.1, true⟩,
              body.2)
        else failAt listOpener (.bindingList head.tag.keyword)) = .ok (f, rest) →
      ∃ parts, f = ⟨head, name ++ parts, true⟩ ∧
        Consumes (.more listOpener after) (flatAll parts ++ [.rparen]) rest := by
    intro listOpener after name hlet
    split at hlet
    · obtain ⟨⟨bindings, after⟩, hbindings, hlet⟩ := bind_eq_ok hlet
      obtain ⟨⟨body, last⟩, hbody, hlet⟩ := bind_eq_ok hlet
      dsimp only at hlet
      split at hlet
      · cases hlet
      · cases hlet
        refine ⟨_, rfl, ?_⟩
        have hgroup : Consumes _ (Form.compoundAt .bindings bindings listOpener).flat after :=
          group_consumes ‹_› rfl (ih.letBindings hbindings)
        simpa using hgroup.append (ih.operands hbody)
    · cases hlet
  have hhead : head.tag.isHead = true ∧ head.isPrefix = false := by
    rw [Token.isPrefix]
    obtain htag | htag | htag := htag <;> exact ⟨by rw [htag]; rfl, by rw [htag]; rfl⟩
  split at hread
  · obtain ⟨listOpener, others, rfl, hread⟩ := next_bind hread
    obtain ⟨parts, rfl, hparts⟩ := hlist hread
    exact headed_consumes hopener hhead.1 hhead.2 (by simpa using hparts.cons)
  · obtain ⟨parts, rfl, hparts⟩ := hlist hread
    exact headed_consumes hopener hhead.1 hhead.2 hparts

theorem step_quoting {token : Token} {tokens rest : Tokens} {f : Form}
    (h : Reader.quoting (fuel + 1) token tokens = .ok (f, rest)) :
    ∃ quoted, f = .compoundAt token.tag [quoted] token ∧ Consumes tokens quoted.flat rest := by
  rw [Reader.quoting] at h
  split at h
  · cases h
  · obtain ⟨first, others, rfl, hread⟩ := nextQuoted_bind h
    obtain ⟨⟨quoted, after⟩, hquoted, hread⟩ := bind_eq_ok hread
    cases hread
    exact ⟨quoted, rfl, ih.datum hquoted⟩

theorem step_datum {token : Token} {depth : Nat} {tokens rest : Tokens} {f : Form}
    (h : Reader.datum (fuel + 1) token depth tokens = .ok (f, rest)) :
    Consumes (.more token tokens) f.flat rest := by
  rw [Reader.datum] at h
  split at h
  · exact ih.datumList ‹_› h
  split at h
  · obtain ⟨quoted, rfl, hquoted⟩ := ih.datumQuoting h
    rw [Form.flat_prefixed ‹_›]
    exact hquoted.cons
  split at h
  · obtain ⟨leaf, hatom, h⟩ := bind_eq_ok h
    cases h
    exact atom_consumes hatom tokens
  split at h
  · cases h
    rw [Form.flat_leaf]
    refine (Consumes.refl tokens).same fun _ => ?_
    exact Token.key_keyword ‹_› ‹_›
  · exact absurd h failShowing_ne_ok

theorem step_datumQuoting {token opener : Token} {depth : Nat} {tokens rest : Tokens} {f : Form}
    (h : Reader.datumQuoting (fuel + 1) token opener depth tokens = .ok (f, rest)) :
    ∃ quoted, f = .compoundAt token.tag [quoted] token ∧ Consumes tokens quoted.flat rest := by
  rw [Reader.datumQuoting] at h
  obtain ⟨first, others, rfl, hread⟩ := nextQuoted_bind h
  dsimp only at hread
  split at hread
  · obtain ⟨⟨quoted, after⟩, hquoted, hread⟩ := bind_eq_ok hread
    cases hread
    exact ⟨quoted, rfl, ih.expression hquoted⟩
  split at hread
  · obtain ⟨⟨quoted, after⟩, hquoted, hread⟩ := bind_eq_ok hread
    cases hread
    exact ⟨quoted, rfl, ih.datum hquoted⟩
  split at hread
  · obtain ⟨⟨quoted, after⟩, hquoted, hread⟩ := bind_eq_ok hread
    cases hread
    exact ⟨quoted, rfl, ih.datum hquoted⟩
  · obtain ⟨⟨quoted, after⟩, hquoted, hread⟩ := bind_eq_ok hread
    cases hread
    exact ⟨quoted, rfl, ih.datum hquoted⟩

theorem step_datumList {opener : Token} {depth : Nat} {tokens rest : Tokens} {f : Form}
    (hopener : opener.tag = .lparen)
    (h : Reader.datumList (fuel + 1) opener depth tokens = .ok (f, rest)) :
    Consumes (.more opener tokens) f.flat rest := by
  rw [Reader.datumList] at h
  obtain ⟨token, others, rfl, hread⟩ := next_bind h
  dsimp only at hread
  split at hread
  · cases hread
    exact group_consumes hopener rfl (consumes_rparen _ ‹_›)
  split at hread
  · rename_i htag
    rw [Bool.and_eq_true, Bool.not_eq_true'] at htag
    obtain ⟨⟨f, after⟩, hquoting, hread⟩ := bind_eq_ok hread
    obtain ⟨last, hclose, hread⟩ := bind_eq_ok hread
    cases hread
    obtain ⟨quoted, rfl, hquoted⟩ := ih.datumQuoting hquoting
    exact quoted_consumes hopener htag.1 htag.2 (hquoted.append (close_consumes hclose))
  split at hread
  · cases hread
  · obtain ⟨⟨first, after⟩, hfirst, hread⟩ := bind_eq_ok hread
    obtain ⟨⟨items, last⟩, hitems, hread⟩ := bind_eq_ok hread
    cases hread
    refine group_consumes hopener rfl ?_
    simpa using (ih.datum hfirst).append (ih.datumItems hitems)

theorem step_datumItems {opener : Token} {depth : Nat} {tokens rest : Tokens} {items : List Form}
    (h : Reader.datumItems (fuel + 1) opener depth tokens = .ok (items, rest)) :
    Consumes tokens (flatAll items ++ [.rparen]) rest := by
  rw [Reader.datumItems] at h
  obtain ⟨token, others, rfl, hread⟩ := next_bind h
  dsimp only at hread
  split at hread
  · cases hread
    exact consumes_rparen _ ‹_›
  split at hread
  · obtain ⟨⟨tail, after⟩, htail, hread⟩ := bind_eq_ok hread
    cases hread
    simpa using ih.dottedTail ‹_› htail
  · obtain ⟨⟨first, after⟩, hfirst, hread⟩ := bind_eq_ok hread
    obtain ⟨⟨items, last⟩, hitems, hread⟩ := bind_eq_ok hread
    cases hread
    simpa using (ih.datum hfirst).append (ih.datumItems hitems)

end Conserves

/-- The reader takes from the tokens what its forms are written as. -/
theorem conserves (fuel : Nat) : Conserves fuel := by
  induction fuel with
  | zero =>
    constructor <;> intros <;>
      simp_all [expression, operands, dottedTail, form, lambdaForm, defineForm, condClauses,
        letBindings, letForm, quoting, datum, datumQuoting, datumList, datumItems, exhausted]
  | succ fuel ih =>
    exact ⟨ih.step_expression, ih.step_operands, ih.step_dottedTail, ih.step_form,
      ih.step_lambdaForm, ih.step_defineForm, ih.step_condClauses, ih.step_letBindings,
      ih.step_letForm, ih.step_quoting, ih.step_datum, ih.step_datumQuoting, ih.step_datumList,
      ih.step_datumItems⟩

theorem readLoop_keys {fuel : Nat} {tokens : Tokens} {reversed forms : List Form}
    (hspelled : tokens.Spelled) (h : readLoop fuel tokens reversed = (forms, none)) :
    (flatAll forms).map Token.key = (flatAll reversed.reverse).map Token.key ++ tokens.keys ∧
      ∃ eof, tokens.ending = .ok eof := by
  induction fuel generalizing tokens reversed with
  | zero => cases h
  | succ fuel ih =>
    rw [readLoop] at h
    cases tokens with
    | done eof =>
      cases h
      exact ⟨by simp [Tokens.keys, Tokens.toList], eof, rfl⟩
    | broken fault => cases h
    | more token others =>
      rw [read] at h
      cases hread : expression (fuelFor (.more token others)) token others with
      | error fault =>
        rw [hread] at h
        cases h
      | ok result =>
        obtain ⟨form, rest⟩ := result
        obtain ⟨hkeys, hending, hrest⟩ := (conserves _).expression hread hspelled
        rw [hread] at h
        obtain ⟨hforms, eof, heof⟩ := ih hrest h
        refine ⟨?_, eof, by rw [← hending, heof]⟩
        rw [hforms, hkeys]
        simp

theorem allOrNone_eq_error_iff {result : List Form × Option Fault} {fault : Fault} :
    allOrNone result = .error fault ↔ result.2 = some fault := by
  obtain ⟨forms, fault?⟩ := result
  cases fault? <;> simp [allOrNone]

theorem allOrNone_eq_ok {result : List Form × Option Fault} {forms : List Form}
    (h : allOrNone result = .ok forms) : result = (forms, none) := by
  obtain ⟨found, _ | fault⟩ := result
  · cases h
    rfl
  · cases h

theorem readTokens_keys {tokens : Tokens} {forms : List Form} (hspelled : tokens.Spelled)
    (h : allOrNone (readTokens tokens) = .ok forms) :
    (flatAll forms).map Token.key = tokens.keys ∧ ∃ eof, tokens.ending = .ok eof :=
  readLoop_keys hspelled (allOrNone_eq_ok h)

/-- All of a text that nests within a limit is read as it is without a limit. -/
theorem readAll_of_within {limit : Nat} {source : List Char} {forms : List Form}
    (h : readAllWithin limit source = .ok forms) : readAll source = .ok forms := by
  unfold readAllWithin readFormsWithin at h
  obtain hwhole | ⟨cut, hcut, hmem⟩ := Tokens.within_cases limit (.ofSource source)
  · rw [hwhole] at h
    exact h
  · rw [hcut] at h
    have hspelled : (Tokens.prepend cut (.broken .tooDeep)).Spelled := by
      intro t ht
      rw [Tokens.toList_prepend] at ht
      exact Tokens.ofCursor_spelled _ t (hmem t (by simpa [Tokens.toList] using ht))
    obtain ⟨-, eof, heof⟩ := readTokens_keys hspelled h
    rw [Tokens.ending_prepend] at heof
    cases heof

/-- If all of a text can be read, then its forms, written back one after another, are its
tokens without their places, and no token of it is faulty. -/
theorem readAll_conserves_tokens {source : List Char} {forms : List Form}
    (h : readAll source = .ok forms ∨ ∃ limit, readAllWithin limit source = .ok forms) :
    (forms.flatMap Form.flat).map Token.key = (Tokens.ofSource source).toList.map Token.key ∧
      ∃ eof, (Tokens.ofSource source).ending = .ok eof := by
  have hall : readAll source = .ok forms := by
    obtain hall | ⟨limit, hwithin⟩ := h
    · exact hall
    · exact readAll_of_within hwithin
  rw [← Form.flatAll_eq_flatMap]
  exact readTokens_keys (Tokens.ofCursor_spelled _) hall

theorem readAll_conserves_tokens_dotted :
    ∃ forms, readAll "`(+1 . ,(cond (x 'y))) (quote (let))".toList = .ok forms ∧
      (forms.flatMap Form.flat).map Token.key =
        (Tokens.ofSource "`(+1 . ,(cond (x 'y))) (quote (let))".toList).toList.map Token.key := by
  obtain ⟨forms, hforms⟩ := exists_ok_of_isOk (by decide +kernel :
    (readAll "`(+1 . ,(cond (x 'y))) (quote (let))".toList).isOk = true)
  exact ⟨forms, hforms, (readAll_conserves_tokens (Or.inl hforms)).1⟩

end Reader

end TowerLisp
