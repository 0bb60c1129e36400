import TowerLisp.Proofs.DatumReading
import TowerLisp.Proofs.FormEchoes
import TowerLisp.Proofs.Nesting
import TowerLisp.Proofs.TemplateReading

/-!
Texts of data. `Tallied` reads all tokens as data and counts the quasiquotes around them, so that
it knows at which depths something is unquoted. Whatever the reader makes of tokens, as code or
as data, they are such a text, and they denote the datum of the form that was read.
-/

namespace TowerLisp

/-- Tags of what is put into a template in place of itself. -/
def Tag.unquotes (tag : Tag) : Bool :=
  tag = .unquote || tag = .splice

/-- The depth of what a quoting token quotes, if the token itself stands at a depth. -/
def Tag.depthInside (tag : Tag) (depth : Nat) : Nat :=
  if tag.unquotes then depth - 1 else if tag = .quasiquote then depth + 1 else depth

/-- The depth of an unquoting token is noted, that of others is not. -/
def Tag.tally (tag : Tag) (depth : Nat) : List Nat :=
  if tag.unquotes then [depth] else []

/-- A quoting word, and not a mark: it quotes only as the head of a list. -/
def Token.isQuotingWord (token : Token) : Bool :=
  token.tag.isQuoting && !token.isPrefix

/-- A token that may stand behind an opening parenthesis like any other. -/
def Token.isPlain (token : Token) : Bool :=
  !token.isQuotingWord && token.tag != .dot

/-- The first token, if there is one, is no dot and quotes nothing by itself. -/
def StartsPlain (front : List Token) : Prop :=
  ∀ token ∈ front.head?, token.isPlain = true

theorem StartsPlain.cons {token : Token} (h : token.isPlain = true) (rest : List Token) :
    StartsPlain (token :: rest) := by
  rintro _ ⟨⟩
  exact h

theorem StartsPlain.head {token : Token} {rest : List Token} (h : StartsPlain (token :: rest)) :
    token.isQuotingWord = false ∧ token.tag ≠ .dot := by
  have hplain := h token rfl
  rw [Token.isPlain, Bool.and_eq_true, Bool.not_eq_true', bne_iff_ne] at hplain
  exact hplain

/-- Tokens make up a datum or the rest of a list, if everything in them is data. They denote a
value, and the depths of all that is unquoted are given in order. -/
inductive Tallied : Phrase → List Token → Value → List Nat → Prop where
  | atom {depth : Nat} {token : Token} {form : Form} {v : Value} :
      token.tag.isAtom = true → Reader.atom token = .ok form → form.datum = .ok v →
      Tallied (.one (.data depth)) [token] v []
  | word {depth : Nat} {token : Token} {name : String} :
      token.tag.keyword?.isSome = true → token.isPrefix = false →
      token.payload = .text name → Tallied (.one (.data depth)) [token] (.symbol name) []
  | empty {depth : Nat} {opener closer : Token} :
      opener.tag = .lparen → closer.tag = .rparen →
      Tallied (.one (.data depth)) [opener, closer] .nil []
  | mark {depth : Nat} {token : Token} {front : List Token} {v : Value} {depths : List Nat} :
      token.isPrefix = true → Tallied (.one (.data (token.tag.depthInside depth))) front v depths →
      Tallied (.one (.data depth)) (token :: front) (Form.tagged token.tag v)
        (token.tag.tally depth ++ depths)
  | quotation {depth : Nat} {opener head closer : Token} {front : List Token} {v : Value}
      {depths : List Nat} :
      opener.tag = .lparen → head.isQuotingWord = true →
      Tallied (.one (.data (head.tag.depthInside depth))) front v depths → closer.tag = .rparen →
      Tallied (.one (.data depth)) (opener :: head :: (front ++ [closer]))
        (Form.tagged head.tag v) (head.tag.tally depth ++ depths)
  | list {depth : Nat} {opener head : Token} {front rest : List Token} {v tail : Value}
      {depths more : List Nat} :
      opener.tag = .lparen → head.isQuotingWord = false →
      Tallied (.one (.data depth)) (head :: front) v depths →
      Tallied (.items (.data depth) true) rest tail more →
      Tallied (.one (.data depth)) (opener :: head :: (front ++ rest)) (.pair v tail)
        (depths ++ more)
  | close {depth : Nat} {closer : Token} :
      closer.tag = .rparen → Tallied (.items (.data depth) true) [closer] .nil []
  | dotted {depth : Nat} {dot closer : Token} {front : List Token} {v : Value}
      {depths : List Nat} :
      dot.tag = .dot → Tallied (.one (.data depth)) front v depths → closer.tag = .rparen →
      Tallied (.items (.data depth) true) (dot :: (front ++ [closer])) v depths
  | more {depth : Nat} {front rest : List Token} {v tail : Value} {depths more : List Nat} :
      Tallied (.one (.data depth)) front v depths →
      Tallied (.items (.data depth) true) rest tail more →
      Tallied (.items (.data depth) true) (front ++ rest) (.pair v tail) (depths ++ more)

namespace Tallied

variable {depth : Nat} {opener head : Token} {front rest : List Token} {v tail : Value}
  {depths more : List Nat}

/-- A row behind its opening parenthesis. -/
theorem parens (h : Tallied (.items (.data depth) true) front tail depths)
    (hopener : opener.tag = .lparen) (hstart : StartsPlain front) :
    Tallied (.one (.data depth)) (opener :: front) tail depths := by
  cases h with
  | close hcloser => exact .empty hopener hcloser
  | dotted hdot => exact absurd hdot hstart.head.2
  | @more _ front rest _ _ _ _ hfirst hrest =>
    cases front with
    | nil => cases hfirst
    | cons head front => exact .list hopener hstart.head.1 hfirst hrest

/-- A row with a token in front of it that is a datum by itself. -/
theorem headed (hopener : opener.tag = .lparen) (hword : head.isQuotingWord = false)
    (hhead : Tallied (.one (.data depth)) [head] v [])
    (h : Tallied (.items (.data depth) true) rest tail more) :
    Tallied (.one (.data depth)) (opener :: head :: rest) (.pair v tail) more :=
  .list hopener hword hhead h

end Tallied

/-- What the forms of a phrase denote: a datum, or a list of them. -/
def Phrase.Says : Phrase → List Form → Value → Prop
  | .one _, forms, v => ∃ form, forms = [form] ∧ form.datum = .ok v
  | _, forms, v => Form.datumList forms = .ok v

/-- A phrase as a part of a datum. -/
def Phrase.asData (depth : Nat) : Phrase → Phrase
  | .one _ => .one (.data depth)
  | _ => .items (.data depth) true

namespace Phrase.Says

variable {mode : Mode} {phrase : Phrase} {token : Token} {first : Form} {forms others : List Form}
  {v tail : Value}

theorem datum (h : (Phrase.one mode).Says [first] v) : first.datum = .ok v := by
  obtain ⟨_, ⟨⟩, hdatum⟩ := h
  exact hdatum

theorem of_datum (h : first.datum = .ok v) : (Phrase.one mode).Says [first] v :=
  ⟨first, rfl, h⟩

theorem quoting (hquoting : token.tag.isQuoting = true) (h : first.datum = .ok v) :
    (Phrase.one mode).Says [.compoundAt token.tag [first] token] (Form.tagged token.tag v) :=
  of_datum (Form.datum_quoting hquoting h)

theorem group {tag : Tag} (hgroup : tag.isGroup = true) (hempty : tag ≠ .empty)
    (h : Form.datumList forms = .ok v) (token : Token) :
    (Phrase.one mode).Says [.compoundAt tag forms token] v :=
  of_datum (by rw [Form.datum_group hgroup hempty, h])

theorem head (hhead : token.tag.isHead = true) (hquoting : token.tag.isQuoting = false)
    (hleaf : Form.leafDatum token = .ok v) (h : Form.datumList forms = .ok tail) :
    (Phrase.one mode).Says [⟨token, forms, true⟩] (.pair v tail) := by
  have hempty : token.tag ≠ .empty := by
    intro heq
    rw [heq] at hhead
    cases hhead
  have hhead' : (token.tag = .symbol || token.tag = .operator ||
      token.tag.keyword?.isSome) = true := hhead
  refine of_datum ?_
  rw [Form.datum, if_neg (by decide), hquoting, if_neg (by decide), if_neg hempty, if_pos hhead',
    hleaf, ok_bind, h]
  rfl

end Phrase.Says

/-- The last item of a list, behind a dot, is its tail. -/
theorem datumList_dotted {last : Form} {v : Value} (h : last.datum = .ok v) (dot : Token) :
    Form.datumList [.compoundAt .dot [last] dot] = .ok v := by
  rw [Form.compoundAt, Form.datumList, if_pos rfl, Form.datumFirst, h]
  rfl

/-- An atom of a text denotes something. -/
theorem Reader.atom_says {token : Token} {form : Form} (hspelled : token.Spelled)
    (hatom : token.tag.isAtom = true) (h : atom token = .ok form) : ∃ v, form.datum = .ok v := by
  obtain ⟨tag, payload, place⟩ := token
  cases hspelled with
  | number text =>
    unfold atom at h
    dsimp only at h
    split at h
    · next value _ =>
      cases h
      exact ⟨.number value, by rw [Form.datum_leaf]; rfl⟩
    · cases h
    · cases h
  | string text | character text =>
    cases h
    exact ⟨.string text, by rw [Form.datum_leaf]; rfl⟩
  | boolean _ | operator _ | symbol _ =>
    cases h
    exact ⟨_, by rw [Form.datum_leaf]; rfl⟩
  | keyword hkeyword =>
    have hsome := Tag.keyword_of_ofKeyword? hkeyword
    cases tag <;> simp [Tag.isAtom, Tag.keyword?] at hatom hsome
  | lparen | rparen | dot | quote | quasiquote | unquote | splice => cases hatom

/-- A word that heads a form denotes the same symbol when it is quoted, if it has one spelling. -/
theorem Token.Spelled.text_eq_keyword {token : Token} (h : token.Spelled)
    (hkeyword : token.tag.keyword?.isSome = true) (hquoting : token.tag.isQuoting = false) :
    token.payload = .text token.tag.keyword := by
  obtain ⟨tag, payload, place⟩ := token
  cases h with
  | keyword htag =>
    unfold Tag.ofKeyword? at htag
    split at htag <;> cases htag <;> first | rfl | cases hquoting
  | quote | quasiquote | unquote | splice => cases hquoting
  | _ => cases hkeyword

theorem Form.leafDatum_keyword {token : Token} (h : token.tag.keyword?.isSome = true) :
    leafDatum token = .ok (.symbol token.tag.keyword) := by
  obtain ⟨tag, payload, place⟩ := token
  cases tag <;> first | rfl | cases h

theorem Reader.atom_name {token : Token} (h : token.tag = .symbol ∨ token.tag = .operator) :
    token.tag.isAtom = true ∧ atom token = .ok (.leaf token) := by
  obtain ⟨tag, payload, place⟩ := token
  rcases h with rfl | rfl
  · exact ⟨rfl, rfl⟩
  · exact ⟨rfl, rfl⟩

namespace Tallied

variable {depth : Nat} {opener head : Token} {front rest : List Token} {parts : List Form}
  {tail : Value} {depths : List Nat}

/-- The head of a form in front of its parts. -/
theorem form (hopener : opener.tag = .lparen) (hspelled : head.Spelled)
    (hhead : head.tag.isHead = true) (hquoting : head.tag.isQuoting = false)
    (h : Tallied (.items (.data depth) true) rest tail depths)
    (hparts : Form.datumList parts = .ok tail) (mode : Mode) :
    ∃ v, Tallied (.one (.data depth)) (opener :: head :: rest) v depths ∧
      (Phrase.one mode).Says [⟨head, parts, true⟩] v := by
  have hword : head.isQuotingWord = false := by rw [Token.isQuotingWord, hquoting, Bool.false_and]
  cases hkeyword : head.tag.keyword?.isSome with
  | true =>
    have htext := hspelled.text_eq_keyword hkeyword hquoting
    have hmarked : head.isPrefix = false := by rw [Token.isPrefix, hquoting, Bool.false_and]
    exact ⟨_, .headed hopener hword (.word hkeyword hmarked htext) h,
      .head hhead hquoting (Form.leafDatum_keyword hkeyword) hparts⟩
  | false =>
    have hname : head.tag = .symbol ∨ head.tag = .operator := by
      simpa [Tag.isHead, hkeyword] using hhead
    obtain ⟨hatom, hleaf⟩ := Reader.atom_name hname
    obtain ⟨v, hv⟩ := Reader.atom_says hspelled hatom hleaf
    exact ⟨_, .headed hopener hword (.atom hatom hleaf hv) h,
      .head hhead hquoting (by rw [← Form.datum_leaf, hv]) hparts⟩

/-- A name in front of other items. -/
theorem name {token : Token} {others : List Form} (hspelled : token.Spelled)
    (hsymbol : token.tag = .symbol) (h : Tallied (.items (.data depth) true) rest tail depths)
    (hothers : Form.datumList others = .ok tail) :
    ∃ v, Tallied (.items (.data depth) true) (token :: rest) v depths ∧
      Form.datumList (.leaf token :: others) = .ok v := by
  obtain ⟨hatom, hleaf⟩ := Reader.atom_name (Or.inl hsymbol)
  obtain ⟨v, hv⟩ := Reader.atom_says hspelled hatom hleaf
  have hdot : (Form.leaf token).token.tag ≠ .dot := by
    rw [show (Form.leaf token).token.tag = token.tag from rfl, hsymbol]
    decide
  exact ⟨_, .more (.atom hatom hleaf hv) h, datumList_cons hdot hv hothers⟩

/-- The names of a lambda, up to the parenthesis behind them. -/
theorem names (depth : Nat) {names : List Token} {closer : Token}
    (hspelled : ∀ name ∈ names, name.Spelled)
    (hsymbols : ∀ name ∈ names, name.tag = .symbol) (hcloser : closer.tag = .rparen) :
    ∃ v, Tallied (.items (.data depth) true) (names ++ [closer]) v [] ∧
      Form.datumList (names.map .leaf) = .ok v := by
  induction names with
  | nil => exact ⟨_, .close hcloser, rfl⟩
  | cons first others ih =>
    obtain ⟨hfirst, hothers⟩ := List.forall_mem_cons.mp hspelled
    obtain ⟨hsymbol, hmore⟩ := List.forall_mem_cons.mp hsymbols
    obtain ⟨v, hv, hdatum⟩ := ih hothers hmore
    exact hv.name hfirst hsymbol hdatum

end Tallied

/-- A row in parentheses, in front of other items. -/
theorem Tallied.group {depth : Nat} {opener : Token} {front rest : List Token}
    {forms others : List Form} {v tail : Value} {depths more : List Nat} {tag : Tag}
    (hopener : opener.tag = .lparen) (hstart : StartsPlain front)
    (h : Tallied (.items (.data depth) true) front v depths) (hforms : Form.datumList forms = .ok v)
    (hgroup : tag.isGroup = true) (hempty : tag ≠ .empty)
    (hrest : Tallied (.items (.data depth) true) rest tail more)
    (hothers : Form.datumList others = .ok tail) :
    ∃ w depths, Tallied (.items (.data depth) true) (opener :: (front ++ rest)) w depths ∧
      Form.datumList (.compoundAt tag forms opener :: others) = .ok w := by
  have hdot : (Form.compoundAt tag forms opener).token.tag ≠ .dot := by
    change tag ≠ .dot
    rintro rfl
    cases hgroup
  exact ⟨_, _, .more (h.parens hopener hstart) hrest,
    datumList_cons hdot (by rw [Form.datum_group hgroup hempty, hforms]) hothers⟩

theorem Token.isPlain_of_tag {token : Token} {tag : Tag} (h : token.tag = tag)
    (hplain : (!tag.isQuoting && tag != .dot) = true) : token.isPlain = true := by
  subst h
  rw [Bool.and_eq_true, Bool.not_eq_true'] at hplain
  rw [isPlain, isQuotingWord, hplain.1, hplain.2]
  rfl

/-- Code, and a row of code without a dot, starts with no quoting word. -/
theorem Derives.starts_plain {phrase : Phrase} {front : List Token} {forms : List Form}
    (h : Derives phrase front forms)
    (hphrase : phrase = .one .code ∨ phrase = .items .code false ∨ phrase = .clauses ∨
      phrase = .bindings) :
    StartsPlain front := by
  induction h with
  | @atom _ token _ hatom _ =>
    refine .cons (Token.isPlain_of_tag rfl ?_) _
    revert hatom
    cases token.tag <;> decide
  | @mark _ _ token _ _ hmarked _ _ _ =>
    have hquoting := Token.isQuoting_of_isPrefix hmarked
    refine .cons ?_ _
    rw [Token.isPlain, Token.isQuotingWord, hmarked, Bool.not_true, Bool.and_false,
      Bool.not_false, Bool.true_and]
    revert hquoting
    cases token.tag <;> decide
  | empty hopener | quotation hopener | application hopener | headed hopener | literals hopener
  | lambda hopener | define hopener | cond hopener | letPlain hopener | letNamed hopener
  | list hopener | clause hopener | binding hopener =>
    exact .cons (Token.isPlain_of_tag hopener rfl) _
  | close _ hcloser => exact .cons (Token.isPlain_of_tag hcloser rfl) _
  | word => simp at hphrase
  | dotted => simp at hphrase
  | @more mode _ front _ _ _ hfirst _ ih _ =>
    have hmode : mode = .code := by
      simp at hphrase
      exact hphrase.1
    obtain ⟨token, others, _, rfl, _⟩ := hfirst.first
    exact .cons (ih (Or.inl (by rw [hmode])) token rfl) _

/-- What was read from a text is a text of data, and denotes what the forms denote. -/
theorem Derives.tallied {phrase : Phrase} {front : List Token} {forms : List Form}
    (h : Derives phrase front forms) (hspelled : ∀ t ∈ front, t.Spelled) (depth : Nat) :
    ∃ v depths, Tallied (phrase.asData depth) front v depths ∧ phrase.Says forms v := by
  induction h generalizing depth with
    simp only [List.forall_mem_cons, List.forall_mem_append] at *
  | atom hatom hform =>
    obtain ⟨v, hv⟩ := Reader.atom_says hspelled.1 hatom hform
    exact ⟨v, [], .atom hatom hform hv, .of_datum hv⟩
  | @empty _ opener _ hopener hcloser =>
    exact ⟨.nil, [], .empty hopener hcloser, .of_datum (by rw [Form.compoundAt, Form.datum]; rfl)⟩
  | mark hprefix hinside hquoted ih =>
    obtain ⟨v, depths, hv, hsays⟩ := ih hspelled.2 _
    exact ⟨_, _, .mark hprefix hv,
      Phrase.Says.quoting (Token.isQuoting_of_isPrefix hprefix) hsays.datum⟩
  | quotation hopener hquoting hword hinside hquoted hcloser ih =>
    obtain ⟨v, depths, hv, hsays⟩ := ih hspelled.2.2.1 _
    refine ⟨_, _, .quotation hopener ?_ hv hcloser, .quoting hquoting hsays.datum⟩
    rw [Token.isQuotingWord, hquoting, hword]
    rfl
  | application hopener hhead hoperator harguments ih ihrest =>
    obtain ⟨v, depths, hv, hsays⟩ := ih ⟨hspelled.2.1, hspelled.2.2.1⟩ depth
    obtain ⟨tail, more, htail, hlist⟩ := ihrest hspelled.2.2.2 depth
    have hstart := (hoperator.starts_plain (Or.inl rfl)).head.1
    exact ⟨_, _, .list hopener hstart hv htail, .group rfl (by decide)
      (datumList_cons hoperator.tag_ne_dot hsays.datum hlist) _⟩
  | @headed opener head _ _ hopener hhead hrest ih =>
    obtain ⟨tail, depths, htail, hlist⟩ := ih hspelled.2.2 depth
    have htag : head.tag.isHead = true ∧ head.tag.isQuoting = false := by
      rcases hhead with hhead | hhead | hhead <;> rw [hhead] <;> decide
    obtain ⟨v, hv, hsays⟩ := htail.form hopener hspelled.2.1 htag.1 htag.2 hlist .code
    exact ⟨v, depths, hv, hsays⟩
  | @literals opener head _ first _ hopener hliteral hatom hrest ih =>
    obtain ⟨tail, depths, htail, hlist⟩ := ih hspelled.2.2 depth
    have hisAtom := Tag.isAtom_of_isLiteral hliteral
    obtain ⟨v, hv⟩ := Reader.atom_says hspelled.2.1 hisAtom hatom
    have hword : head.isQuotingWord = false := by
      rw [Token.isQuotingWord, Tag.isQuoting_of_isAtom hisAtom, Bool.false_and]
    have hone : Derives (.one .code) [head] [first] := .atom hisAtom hatom
    exact ⟨_, _, .headed hopener hword (.atom hisAtom hatom hv) htail,
      .group rfl (by decide) (datumList_cons hone.tag_ne_dot hv hlist) _⟩
  | @lambda _ _ _ closer names _ _ _ hopener hhead hlist hsymbols _ _ hcloser _ _ ih =>
    obtain ⟨-, hspelled, -, hnames, -, hrest⟩ := hspelled
    obtain ⟨params, hparams, hsaid⟩ := Tallied.names depth hnames hsymbols hcloser
    obtain ⟨tail, depths, htail, hdata⟩ := ih hrest depth
    have hstart : StartsPlain (names ++ [closer]) := by
      cases names with
      | nil => exact .cons (Token.isPlain_of_tag hcloser rfl) _
      | cons name names =>
        exact .cons (Token.isPlain_of_tag (hsymbols name List.mem_cons_self) rfl) _
    obtain ⟨row, more, hrow, hdatum⟩ :=
      hparams.group hlist hstart hsaid (show Tag.isGroup .params = true from rfl) (by decide)
        htail hdata
    rw [List.append_assoc] at hrow
    obtain ⟨v, hv, hsays⟩ := hrow.form hopener hspelled (by rw [hhead]; rfl) (by rw [hhead]; rfl)
      hdatum .code
    exact ⟨v, more, hv, hsays⟩
  | define hopener hhead hname hvalue ih =>
    obtain ⟨tail, depths, htail, hdata⟩ := ih hspelled.2.2.2 depth
    obtain ⟨row, hrow, hdatum⟩ := htail.name hspelled.2.2.1 hname hdata
    obtain ⟨v, hv, hsays⟩ := hrow.form hopener hspelled.2.1 (by rw [hhead]; rfl)
      (by rw [hhead]; rfl) hdatum .code
    exact ⟨v, depths, hv, hsays⟩
  | cond hopener hhead hclauses ih =>
    obtain ⟨tail, depths, htail, hdata⟩ := ih hspelled.2.2 depth
    obtain ⟨v, hv, hsays⟩ := htail.form hopener hspelled.2.1 (by rw [hhead]; rfl)
      (by rw [hhead]; rfl) hdata .code
    exact ⟨v, depths, hv, hsays⟩
  | @letPlain _ head _ _ _ _ _ hopener hhead hlist hbindings _ _ ih ihbody =>
    obtain ⟨-, hspelled, -, hpairs, hrest⟩ := hspelled
    obtain ⟨pairs, depths, hpairs, hsaid⟩ := ih hpairs depth
    obtain ⟨tail, more, htail, hdata⟩ := ihbody hrest depth
    have htag : head.tag.isHead = true ∧ head.tag.isQuoting = false := by
      rcases hhead with hhead | hhead | hhead <;> rw [hhead] <;> decide
    obtain ⟨row, depths, hrow, hdatum⟩ := hpairs.group hlist
      (hbindings.starts_plain (by simp)) hsaid (show Tag.isGroup .bindings = true from rfl)
      (by decide) htail hdata
    obtain ⟨v, hv, hsays⟩ := hrow.form hopener hspelled htag.1 htag.2 hdatum .code
    exact ⟨v, depths, hv, hsays⟩
  | letNamed hopener hhead hname hlist hbindings _ _ ih ihbody =>
    obtain ⟨-, hspelled, hlabel, -, hpairs, hrest⟩ := hspelled
    obtain ⟨pairs, depths, hpairs, hsaid⟩ := ih hpairs depth
    obtain ⟨tail, more, htail, hdata⟩ := ihbody hrest depth
    obtain ⟨row, depths, hrow, hdatum⟩ := hpairs.group hlist
      (hbindings.starts_plain (by simp)) hsaid (show Tag.isGroup .bindings = true from rfl)
      (by decide) htail hdata
    obtain ⟨named, hnamed, hdatum⟩ := hrow.name hlabel hname hdatum
    obtain ⟨v, hv, hsays⟩ := hnamed.form hopener hspelled (by rw [hhead]; rfl)
      (by rw [hhead]; rfl) hdatum .code
    exact ⟨v, depths, hv, hsays⟩
  | word hkeyword hword =>
    obtain ⟨text, htext⟩ := hspelled.1.text_of_keyword hkeyword
    refine ⟨.symbol text, [], .word hkeyword hword htext, .of_datum ?_⟩
    rw [Form.datum_leaf, htext]
    rfl
  | @list _ opener head _ _ _ _ hopener hhead hfirst hrest ih ihrest =>
    obtain ⟨v, depths, hv, hsays⟩ := ih ⟨hspelled.2.1, hspelled.2.2.1⟩ depth
    obtain ⟨tail, more, htail, hlist⟩ := ihrest hspelled.2.2.2 depth
    have hword : head.isQuotingWord = false := by
      simpa [Token.isQuotingWord] using hhead
    exact ⟨_, _, .list hopener hword hv htail, .group rfl (by decide)
      (datumList_cons hfirst.tag_ne_dot hsays.datum hlist) _⟩
  | @close phrase closer hrow hcloser =>
    cases phrase with
    | one mode => cases hrow
    | _ => exact ⟨.nil, [], .close hcloser, rfl⟩
  | @dotted _ dot _ _ _ hdot htail hcloser ih =>
    obtain ⟨v, depths, hv, hsays⟩ := ih hspelled.2.1 depth
    exact ⟨v, depths, .dotted hdot hv hcloser, datumList_dotted hsays.datum dot⟩
  | more hfirst hrest ih ihrest =>
    obtain ⟨v, depths, hv, hsays⟩ := ih hspelled.1 depth
    obtain ⟨tail, more, htail, hlist⟩ := ihrest hspelled.2 depth
    exact ⟨_, _, .more hv htail, datumList_cons hfirst.tag_ne_dot hsays.datum hlist⟩
  | clause hopener hitems hne hrest ih ihrest =>
    obtain ⟨v, depths, hv, hdata⟩ := ih hspelled.2.1 depth
    obtain ⟨tail, more, htail, hlist⟩ := ihrest hspelled.2.2 depth
    exact hv.group hopener (hitems.starts_plain (by simp)) hdata rfl (by decide) htail hlist
  | binding hopener hname hvalue hcloser hrest ih ihrest =>
    obtain ⟨-, hlabel, hvalues, -, hothers⟩ := hspelled
    obtain ⟨v, depths, hv, hsays⟩ := ih hvalues depth
    obtain ⟨tail, more, htail, hlist⟩ := ihrest hothers depth
    have hlast : Form.datumList [_] = .ok (.pair v .nil) :=
      datumList_cons hvalue.tag_ne_dot hsays.datum rfl
    obtain ⟨pair, hpair, hdatum⟩ := Tallied.name hlabel hname (.more hv (.close hcloser)) hlast
    obtain ⟨row, depths, hrow, hdatum⟩ := hpair.group hopener
      (.cons (Token.isPlain_of_tag hname rfl) _) hdatum
      (show Tag.isGroup .binding = true from rfl) (by decide) htail hlist
    rw [List.cons_append, List.append_assoc] at hrow
    exact ⟨row, depths, hrow, hdatum⟩

/-- What is open around a token, innermost first: lists, and marks in front of a datum, with the
depth around them. -/
inductive Around where
  | list (depth : Nat)
  | mark (depth : Nat)

/-- Where a token stands in quoted data: its depth, what is open around it, and whether it is the
first one behind an opening parenthesis. -/
structure Standing where
  depth : Nat
  around : List Around
  heads : Bool

namespace Standing

/-- Behind a datum, which ends all marks in front of it. -/
def behind : Nat → List Around → Standing
  | _, .mark outer :: around => behind outer around
  | depth, around => ⟨depth, around, false⟩

/-- Behind a token. Marks change the depth up to the end of a datum, and words that head a list
up to the end of the list. -/
def after (here : Standing) (token : Token) : Standing :=
  if token.tag = .lparen then ⟨here.depth, .list here.depth :: here.around, true⟩
  else if token.tag = .rparen then
    match here.around with
    | .list outer :: around => behind outer around
    | around => ⟨here.depth, around, false⟩
  else if token.isPrefix then
    ⟨token.tag.depthInside here.depth, .mark here.depth :: here.around, false⟩
  else if here.heads && token.isQuotingWord then
    ⟨token.tag.depthInside here.depth, here.around, false⟩
  else if token.tag = .dot then ⟨here.depth, here.around, false⟩
  else behind here.depth here.around

/-- The depths at which something is unquoted by tokens. -/
def unquoteDepths (here : Standing) : List Token → List Nat
  | [] => []
  | token :: rest =>
    (if token.isPrefix || here.heads && token.isQuotingWord then token.tag.tally here.depth
      else []) ++ (here.after token).unquoteDepths rest

theorem not_quoting {token : Token} {tag : Tag} (h : token.tag = tag)
    (hquoting : tag.isQuoting = false) : token.isPrefix = false ∧ token.isQuotingWord = false := by
  simp [Token.isPrefix, Token.isQuotingWord, h, hquoting]

section Steps

variable (depth : Nat) (around : List Around) (heads : Bool) {token : Token} (rest : List Token)

theorem unquoteDepths_lparen (h : token.tag = .lparen) :
    unquoteDepths ⟨depth, around, heads⟩ (token :: rest) =
      unquoteDepths ⟨depth, .list depth :: around, true⟩ rest := by
  have hquoting := not_quoting h rfl
  simp [unquoteDepths, after, h, hquoting]

theorem unquoteDepths_rparen (h : token.tag = .rparen) (outer : Nat) :
    unquoteDepths ⟨depth, .list outer :: around, heads⟩ (token :: rest) =
      (behind outer around).unquoteDepths rest := by
  have hquoting := not_quoting h rfl
  simp [unquoteDepths, after, h, hquoting]

theorem unquoteDepths_dot (h : token.tag = .dot) :
    unquoteDepths ⟨depth, around, heads⟩ (token :: rest) =
      unquoteDepths ⟨depth, around, false⟩ rest := by
  have hquoting := not_quoting h rfl
  simp [unquoteDepths, after, h, hquoting]

theorem unquoteDepths_mark (h : token.isPrefix = true) :
    unquoteDepths ⟨depth, around, heads⟩ (token :: rest) = token.tag.tally depth ++
      unquoteDepths ⟨token.tag.depthInside depth, .mark depth :: around, false⟩ rest := by
  have hparens := Tag.ne_parens (Tag.isSome_keyword_of_isQuoting (Token.isQuoting_of_isPrefix h))
  simp [unquoteDepths, after, h, hparens]

theorem unquoteDepths_quotingWord (h : token.isQuotingWord = true) :
    unquoteDepths ⟨depth, around, true⟩ (token :: rest) = token.tag.tally depth ++
      unquoteDepths ⟨token.tag.depthInside depth, around, false⟩ rest := by
  obtain ⟨hquoting, hmarked⟩ := (Bool.and_eq_true _ _).mp h
  have hparens := Tag.ne_parens (Tag.isSome_keyword_of_isQuoting hquoting)
  rw [Bool.not_eq_true'] at hmarked
  simp [unquoteDepths, after, h, hparens, hmarked]

/-- A token that is a datum by itself. -/
theorem unquoteDepths_datum
    (h : token.tag.isAtom = true ∨ token.tag.keyword?.isSome = true ∧ token.isPrefix = false)
    (hheads : heads = true → token.isQuotingWord = false) :
    unquoteDepths ⟨depth, around, heads⟩ (token :: rest) =
      (behind depth around).unquoteDepths rest := by
  have hplain : token.tag ≠ .lparen ∧ token.tag ≠ .rparen ∧ token.tag ≠ .dot := by
    refine ⟨?_, ?_, ?_⟩ <;> intro htag <;> rw [htag] at h <;> simp [Tag.isAtom, Tag.keyword?] at h
  have hmarked : token.isPrefix = false := by
    rcases h with hatom | ⟨-, hmarked⟩
    · exact (not_quoting rfl (Tag.isQuoting_of_isAtom hatom)).1
    · exact hmarked
  cases heads with
  | false => simp [unquoteDepths, after, hplain, hmarked]
  | true => simp [unquoteDepths, after, hplain, hmarked, hheads rfl]

end Steps

end Standing

/-- What is counted in a phrase: the depths in it, in front of those in what follows. -/
def Phrase.Counted : Phrase → List Token → List Nat → Prop
  | .one (.data depth), front, depths => ∀ around heads rest,
      (heads = true → ∀ token ∈ front.head?, token.isQuotingWord = false) →
      Standing.unquoteDepths ⟨depth, around, heads⟩ (front ++ rest) =
        depths ++ (Standing.behind depth around).unquoteDepths rest
  | .items (.data depth) _, front, depths => ∀ outer around rest,
      Standing.unquoteDepths ⟨depth, .list outer :: around, false⟩ (front ++ rest) =
        depths ++ (Standing.behind outer around).unquoteDepths rest
  | _, _, _ => True

open Standing in
theorem Tallied.counted {phrase : Phrase} {front : List Token} {v : Value} {depths : List Nat}
    (h : Tallied phrase front v depths) : phrase.Counted front depths := by
  induction h with
  | atom hatom _ _ =>
    intro around heads rest hheads
    exact unquoteDepths_datum _ _ _ _ (Or.inl hatom) fun h => hheads h _ rfl
  | word hkeyword hmarked _ =>
    intro around heads rest hheads
    exact unquoteDepths_datum _ _ _ _ (Or.inr ⟨hkeyword, hmarked⟩) fun h => hheads h _ rfl
  | @empty depth opener closer hopener hcloser =>
    intro around heads rest hheads
    exact (unquoteDepths_lparen _ _ _ (closer :: rest) hopener).trans
      (unquoteDepths_rparen _ _ _ _ hcloser _)
  | @mark depth token front _ _ hprefix _ ih =>
    intro around heads rest hheads
    have hquoted := ih (.mark depth :: around) false rest nofun
    rw [List.cons_append, unquoteDepths_mark _ _ _ _ hprefix, hquoted, List.append_assoc]
    rfl
  | @quotation depth opener head closer front _ _ hopener hword _ hcloser ih =>
    intro around heads rest hheads
    have hquoted := ih (.list depth :: around) false (closer :: rest) nofun
    have hclosed :=
      unquoteDepths_rparen (head.tag.depthInside depth) around false rest hcloser depth
    rw [List.cons_append, List.cons_append, List.append_assoc, List.singleton_append,
      unquoteDepths_lparen _ _ _ _ hopener, unquoteDepths_quotingWord _ _ _ hword, hquoted,
      List.append_assoc]
    exact congrArg (_ ++ ·) (congrArg (_ ++ ·) hclosed)
  | @list depth opener head front row _ _ _ _ hopener hword _ _ ih ihrest =>
    intro around heads rest hheads
    have hfirst := ih (.list depth :: around) true (row ++ rest) fun _ _ htoken => by
      cases htoken
      exact hword
    have hrest := ihrest depth around rest
    rw [List.cons_append, List.cons_append, List.append_assoc, ← List.cons_append,
      unquoteDepths_lparen _ _ _ _ hopener, hfirst, List.append_assoc]
    exact congrArg (_ ++ ·) hrest
  | close hcloser =>
    intro outer around rest
    exact unquoteDepths_rparen _ _ _ _ hcloser _
  | @dotted depth dot closer front _ _ hdot _ hcloser ih =>
    intro outer around rest
    have hlast := ih (.list outer :: around) false (closer :: rest) nofun
    rw [List.cons_append, List.append_assoc, List.singleton_append,
      unquoteDepths_dot _ _ _ _ hdot, hlast]
    exact congrArg (_ ++ ·) (unquoteDepths_rparen _ _ _ _ hcloser _)
  | @more depth front row _ _ _ _ _ _ ih ihrest =>
    intro outer around rest
    have hfirst := ih (.list outer :: around) false (row ++ rest) nofun
    rw [List.append_assoc, hfirst, List.append_assoc]
    exact congrArg (_ ++ ·) (ihrest outer around rest)

/-- The depths at which something is unquoted in a text of data, from depth one on. -/
def unquoteDepths (text : List Char) : List Nat :=
  Standing.unquoteDepths ⟨1, [], false⟩ (Tokens.ofSource text).toList

end TowerLisp
