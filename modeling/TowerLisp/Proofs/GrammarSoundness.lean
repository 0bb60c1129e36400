import TowerLisp.Proofs.Grammar
import TowerLisp.Proofs.TokenConservation

/-!
What the reader reads is in the grammar. Whatever one of its parts reads, with any number
of steps, is a phrase that stands in front of the tokens that are left.
-/

namespace TowerLisp

open Tokens (following)

/-- The tokens start with a phrase, which is read as `forms`, and `rest` is left. -/
def Phrase.Begins (phrase : Phrase) (tokens : Tokens) (forms : List Form) (rest : Tokens) : Prop :=
  ∃ front, tokens = following front rest ∧ Derives phrase front forms

theorem Phrase.Begins.tail {phrase : Phrase} {token : Token} {tokens rest : Tokens}
    {forms : List Form} (h : phrase.Begins (.more token tokens) forms rest) :
    ∃ others, tokens = following others rest ∧ Derives phrase (token :: others) forms := by
  obtain ⟨_ | ⟨first, others⟩, htokens, hderives⟩ := h
  · exact absurd hderives.length_pos (Nat.lt_irrefl 0)
  · cases htokens
    exact ⟨others, rfl, hderives⟩

namespace Reader

theorem close_eq_ok {opener : Token} {what : String} {tokens rest : Tokens}
    (h : close opener what tokens = .ok rest) :
    ∃ closer, tokens = .more closer rest ∧ closer.tag = .rparen := by
  obtain ⟨closer, others, rfl, hread⟩ := next_bind h
  dsimp only at hread
  split at hread
  · cases hread
    exact ⟨closer, rfl, ‹_›⟩
  · exact absurd hread failShowing_ne_ok

theorem parameters_eq_ok {opener : Token} {seen : List String} {tokens rest : Tokens}
    {params : List Form} (h : parameters opener seen tokens = .ok (params, rest)) :
    ∃ names closer texts, tokens = following names (.more closer rest) ∧
      params = names.map .leaf ∧ (∀ name ∈ names, name.tag = .symbol) ∧
      names.mapM (·.payload.written) = .ok texts ∧ texts.Nodup ∧ (∀ text ∈ texts, text ∉ seen) ∧
      closer.tag = .rparen := by
  induction tokens generalizing seen params with
  | done eof => cases h
  | broken fault => cases h
  | more token others ih =>
    rw [parameters] at h
    split at h
    · cases h
      exact ⟨[], token, [], rfl, rfl, List.forall_mem_nil _, rfl, .nil, List.forall_mem_nil _, ‹_›⟩
    · split at h
      · rename_i hsymbol
        obtain ⟨name, hname, h⟩ := bind_eq_ok h
        dsimp only at h
        split at h
        · cases h
        · rename_i hseen
          obtain ⟨⟨others, last⟩, hothers, h⟩ := bind_eq_ok h
          cases h
          obtain ⟨names, closer, texts, rfl, rfl, hsymbols, htexts, hnodup, hfresh, hcloser⟩ :=
            ih hothers
          refine ⟨token :: names, closer, name :: texts, rfl, rfl, ?_, ?_, ?_, ?_, hcloser⟩
          · exact List.forall_mem_cons.mpr ⟨hsymbol, hsymbols⟩
          · rw [List.mapM_cons, hname, htexts]
            rfl
          · exact List.nodup_cons.mpr ⟨fun hmem => hfresh name hmem List.mem_cons_self, hnodup⟩
          · refine List.forall_mem_cons.mpr ⟨by simpa using hseen, fun text hmem => ?_⟩
            exact fun hin => hfresh text hmem (List.mem_cons_of_mem _ hin)
      · exact absurd h failShowing_ne_ok

/-- What each part of the reader reads, if it has `fuel` steps. -/
structure Obeys (fuel : Nat) : Prop where
  expression {token tokens f rest} : expression fuel token tokens = .ok (f, rest) →
    (Phrase.one .code).Begins (.more token tokens) [f] rest
  operands {opener dots tokens parts rest} : operands fuel opener dots tokens = .ok (parts, rest) →
    (Phrase.items .code dots).Begins tokens parts rest
  dottedTail {dot opener depth tokens f rest} : dot.tag = .dot →
    dottedTail fuel dot opener depth tokens = .ok (f, rest) →
    (Phrase.items (depth.elim .code .data) true).Begins (.more dot tokens) [f] rest
  form {opener tokens f rest} : opener.tag = .lparen → form fuel opener tokens = .ok (f, rest) →
    (Phrase.one .code).Begins (.more opener tokens) [f] rest
  lambdaForm {head opener tokens f rest} : head.tag = .lambda →
    lambdaForm fuel head opener tokens = .ok (f, rest) →
    opener.tag = .lparen → (Phrase.one .code).Begins (.more opener (.more head tokens)) [f] rest
  defineForm {head opener tokens f rest} : head.tag = .define →
    defineForm fuel head opener tokens = .ok (f, rest) →
    opener.tag = .lparen → (Phrase.one .code).Begins (.more opener (.more head tokens)) [f] rest
  condClauses {opener tokens clauses rest} : condClauses fuel opener tokens = .ok (clauses, rest) →
    Phrase.clauses.Begins tokens clauses rest
  letBindings {opener label tokens bindings rest} :
    letBindings fuel opener label tokens = .ok (bindings, rest) →
    Phrase.bindings.Begins tokens bindings rest
  letForm {head opener tokens f rest} :
    (head.tag = .letAll ∨ head.tag = .letEach ∨ head.tag = .letRec) →
    letForm fuel head opener tokens = .ok (f, rest) →
    opener.tag = .lparen → (Phrase.one .code).Begins (.more opener (.more head tokens)) [f] rest
  quoting {token tokens f rest} : quoting fuel token tokens = .ok (f, rest) →
    ∃ quoted inner, f = .compoundAt token.tag [quoted] token ∧
      Mode.code.inside? token.tag = some inner ∧ (Phrase.one inner).Begins tokens [quoted] rest
  datum {token depth tokens f rest} : datum fuel token depth tokens = .ok (f, rest) →
    (Phrase.one (.data depth)).Begins (.more token tokens) [f] rest
  datumQuoting {token opener depth tokens f rest} :
    datumQuoting fuel token opener depth tokens = .ok (f, rest) →
    ∃ quoted inner, f = .compoundAt token.tag [quoted] token ∧
      (Mode.data depth).inside? token.tag = some inner ∧
      (Phrase.one inner).Begins tokens [quoted] rest
  datumList {opener depth tokens f rest} : opener.tag = .lparen →
    datumList fuel opener depth tokens = .ok (f, rest) →
    (Phrase.one (.data depth)).Begins (.more opener tokens) [f] rest
  datumItems {opener depth tokens items rest} :
    datumItems fuel opener depth tokens = .ok (items, rest) →
    (Phrase.items (.data depth) true).Begins tokens items rest

namespace Obeys

variable {fuel : Nat} (ih : Obeys fuel)

include ih

theorem step_expression {token : Token} {tokens rest : Tokens} {f : Form}
    (h : Reader.expression (fuel + 1) token tokens = .ok (f, rest)) :
    (Phrase.one .code).Begins (.more token tokens) [f] rest := by
  rw [Reader.expression] at h
  split at h
  · exact ih.form ‹_› h
  split at h
  · obtain ⟨quoted, inner, rfl, hinside, front, rfl, hquoted⟩ := ih.quoting h
    exact ⟨token :: front, rfl, .mark ‹_› hinside hquoted⟩
  split at h
  · obtain ⟨leaf, hatom, h⟩ := bind_eq_ok h
    cases h
    exact ⟨[token], rfl, .atom ‹_› hatom⟩
  · exact absurd h failShowing_ne_ok

theorem step_operands {opener : Token} {dots : Bool} {tokens rest : Tokens} {parts : List Form}
    (h : Reader.operands (fuel + 1) opener dots tokens = .ok (parts, rest)) :
    (Phrase.items .code dots).Begins tokens parts rest := by
  rw [Reader.operands] at h
  obtain ⟨token, others, rfl, hread⟩ := next_bind h
  dsimp only at hread
  split at hread
  · cases hread
    exact ⟨[token], rfl, .close rfl ‹_›⟩
  split at hread
  · split at hread
    · rename_i hdots
      obtain ⟨⟨tail, after⟩, htail, hread⟩ := bind_eq_ok hread
      cases hread
      rw [hdots]
      exact ih.dottedTail ‹_› htail
    · cases hread
  · obtain ⟨⟨first, after⟩, hfirst, hread⟩ := bind_eq_ok hread
    obtain ⟨⟨items, last⟩, hitems, hread⟩ := bind_eq_ok hread
    cases hread
    obtain ⟨front, hfront, hone⟩ := ih.expression hfirst
    obtain ⟨row, rfl, hrow⟩ := ih.operands hitems
    exact ⟨front ++ row, by rw [hfront, Tokens.following_append], .more hone hrow⟩

theorem step_dottedTail {dot opener : Token} {depth : Option Nat} {tokens rest : Tokens}
    {f : Form} (hdot : dot.tag = .dot)
    (h : Reader.dottedTail (fuel + 1) dot opener depth tokens = .ok (f, rest)) :
    (Phrase.items (depth.elim .code .data) true).Begins (.more dot tokens) [f] rest := by
  rw [Reader.dottedTail] at h
  obtain ⟨token, others, rfl, hread⟩ := next_bind h
  dsimp only at hread
  split at hread
  · cases hread
  have hclose : ∀ {tail : Form} {after : Tokens},
      (Phrase.one (depth.elim .code .data)).Begins (.more token others) [tail] after →
      (next opener after >>= fun closer =>
        if closer.1.tag = Tag.rparen then pure (Form.compoundAt .dot [tail] dot, closer.2)
        else failAt closer.1 .dotBeforeEnd) = .ok (f, rest) →
      (Phrase.items (depth.elim .code .data) true).Begins (.more dot (.more token others)) [f]
        rest := by
    intro tail after htail hread
    obtain ⟨closer, last, rfl, hclose⟩ := next_bind hread
    dsimp only at hclose
    split at hclose
    · cases hclose
      obtain ⟨front, hfront, htail⟩ := htail
      exact ⟨dot :: (front ++ [closer]), by simp [hfront, Tokens.following_append],
        .dotted hdot htail ‹_›⟩
    · cases hclose
  split at hread
  · obtain ⟨⟨tail, after⟩, htail, hread⟩ := bind_eq_ok hread
    exact hclose (ih.expression htail) hread
  · obtain ⟨⟨tail, after⟩, htail, hread⟩ := bind_eq_ok hread
    exact hclose (ih.datum htail) hread

theorem step_form {opener : Token} {tokens rest : Tokens} {f : Form}
    (hopener : opener.tag = .lparen)
    (h : Reader.form (fuel + 1) opener tokens = .ok (f, rest)) :
    (Phrase.one .code).Begins (.more opener tokens) [f] rest := by
  rw [Reader.form] at h
  obtain ⟨head, others, rfl, hread⟩ := next_bind h
  dsimp only at hread
  obtain ⟨htag, hread⟩ | ⟨-, hread⟩ := ite_eq_iff.mp hread
  · cases hread
    exact ⟨[opener, head], rfl, .empty hopener htag⟩
  obtain ⟨hhead, hread⟩ | ⟨hmarked, hread⟩ := ite_eq_iff.mp hread
  · obtain ⟨⟨operator, after⟩, hoperator, hread⟩ := bind_eq_ok hread
    obtain ⟨⟨arguments, last⟩, harguments, hread⟩ := bind_eq_ok hread
    cases hread
    obtain ⟨front, rfl, hone⟩ := (ih.expression hoperator).tail
    obtain ⟨row, rfl, hrow⟩ := ih.operands harguments
    rw [Bool.or_eq_true, decide_eq_true_eq] at hhead
    exact ⟨opener :: head :: (front ++ row), by simp [Tokens.following_append],
      .application hopener hhead hone hrow⟩
  simp only [Bool.or_eq_true, not_or, Bool.not_eq_true] at hmarked
  obtain ⟨htag, hread⟩ | ⟨-, hread⟩ := ite_eq_iff.mp hread
  · obtain ⟨⟨arguments, last⟩, harguments, hread⟩ := bind_eq_ok hread
    cases hread
    obtain ⟨row, rfl, hrow⟩ := ih.operands harguments
    simp only [Bool.or_eq_true, decide_eq_true_eq, or_assoc] at htag
    exact ⟨opener :: head :: row, rfl, .headed hopener htag hrow⟩
  obtain ⟨htag, hread⟩ | ⟨-, hread⟩ := ite_eq_iff.mp hread
  · obtain ⟨first, hfirst, hread⟩ := bind_eq_ok hread
    obtain ⟨⟨items, last⟩, hitems, hread⟩ := bind_eq_ok hread
    cases hread
    obtain ⟨row, rfl, hrow⟩ := ih.operands hitems
    exact ⟨opener :: head :: row, rfl, .literals hopener htag hfirst hrow⟩
  obtain ⟨htag, hread⟩ | ⟨-, hread⟩ := ite_eq_iff.mp hread
  · exact ih.lambdaForm htag hread hopener
  obtain ⟨htag, hread⟩ | ⟨-, hread⟩ := ite_eq_iff.mp hread
  · exact ih.defineForm htag hread hopener
  obtain ⟨htag, hread⟩ | ⟨-, hread⟩ := ite_eq_iff.mp hread
  · obtain ⟨⟨clauses, last⟩, hclauses, hread⟩ := bind_eq_ok hread
    cases hread
    obtain ⟨row, rfl, hrow⟩ := ih.condClauses hclauses
    exact ⟨opener :: head :: row, rfl, .cond hopener htag hrow⟩
  obtain ⟨htag, hread⟩ | ⟨-, hread⟩ := ite_eq_iff.mp hread
  · simp only [Bool.or_eq_true, decide_eq_true_eq, or_assoc] at htag
    exact ih.letForm htag hread hopener
  obtain ⟨htag, hread⟩ | ⟨-, hread⟩ := ite_eq_iff.mp hread
  · obtain ⟨⟨f, after⟩, hquoting, hread⟩ := bind_eq_ok hread
    obtain ⟨last, hclose, hread⟩ := bind_eq_ok hread
    cases hread
    obtain ⟨quoted, inner, rfl, hinside, front, rfl, hquoted⟩ := ih.quoting hquoting
    obtain ⟨closer, rfl, hcloser⟩ := close_eq_ok hclose
    exact ⟨opener :: head :: (front ++ [closer]), by simp [Tokens.following_append],
      .quotation hopener htag hmarked.2 hinside hquoted hcloser⟩
  · exact absurd hread failShowing_ne_ok

theorem step_lambdaForm {head opener : Token} {tokens rest : Tokens} {f : Form}
    (htag : head.tag = .lambda)
    (h : Reader.lambdaForm (fuel + 1) head opener tokens = .ok (f, rest))
    (hopener : opener.tag = .lparen) :
    (Phrase.one .code).Begins (.more opener (.more head tokens)) [f] rest := by
  rw [Reader.lambdaForm] at h
  obtain ⟨token, others, rfl, hread⟩ := next_bind h
  dsimp only at hread
  split at hread
  · obtain ⟨⟨params, after⟩, hparams, hread⟩ := bind_eq_ok hread
    obtain ⟨⟨body, last⟩, hbody, hread⟩ := bind_eq_ok hread
    dsimp only at hread
    split at hread
    · cases hread
    · rename_i hempty
      cases hread
      obtain ⟨names, closer, texts, rfl, rfl, hnames, htexts, hnodup, -, hcloser⟩ :=
        parameters_eq_ok hparams
      obtain ⟨row, rfl, hrow⟩ := ih.operands hbody
      exact ⟨opener :: head :: token :: (names ++ closer :: row), by simp [Tokens.following_append],
        .lambda hopener htag ‹_› hnames htexts hnodup hcloser hrow (by simpa using hempty)⟩
  · cases hread

theorem step_defineForm {head opener : Token} {tokens rest : Tokens} {f : Form}
    (htag : head.tag = .define)
    (h : Reader.defineForm (fuel + 1) head opener tokens = .ok (f, rest))
    (hopener : opener.tag = .lparen) :
    (Phrase.one .code).Begins (.more opener (.more head tokens)) [f] rest := by
  rw [Reader.defineForm] at h
  obtain ⟨name, others, rfl, hread⟩ := next_bind h
  dsimp only at hread
  split at hread
  · obtain ⟨⟨values, after⟩, hvalues, hread⟩ := bind_eq_ok hread
    dsimp only at hread
    split at hread
    · cases hread
      obtain ⟨row, rfl, hrow⟩ := ih.operands hvalues
      exact ⟨opener :: head :: name :: row, rfl, .define hopener htag ‹_› hrow⟩
    · cases hread
  · exact absurd hread failShowing_ne_ok

theorem step_condClauses {opener : Token} {tokens rest : Tokens} {clauses : List Form}
    (h : Reader.condClauses (fuel + 1) opener tokens = .ok (clauses, rest)) :
    Phrase.clauses.Begins tokens clauses rest := by
  rw [Reader.condClauses] at h
  obtain ⟨token, others, rfl, hread⟩ := next_bind h
  dsimp only at hread
  split at hread
  · cases hread
    exact ⟨[token], rfl, .close rfl ‹_›⟩
  split at hread
  · obtain ⟨⟨items, after⟩, hitems, hread⟩ := bind_eq_ok hread
    dsimp only at hread
    split at hread
    · cases hread
    · rename_i hempty
      obtain ⟨⟨clauses, last⟩, hclauses, hread⟩ := bind_eq_ok hread
      cases hread
      obtain ⟨front, rfl, hclause⟩ := ih.operands hitems
      obtain ⟨row, rfl, hrow⟩ := ih.condClauses hclauses
      exact ⟨token :: (front ++ row), by simp [Tokens.following_append],
        .clause ‹_› hclause (by simpa using hempty) hrow⟩
  · exact absurd hread failShowing_ne_ok

theorem step_letBindings {opener : Token} {label : String} {tokens rest : Tokens}
    {bindings : List Form}
    (h : Reader.letBindings (fuel + 1) opener label tokens = .ok (bindings, rest)) :
    Phrase.bindings.Begins tokens bindings rest := by
  rw [Reader.letBindings] at h
  obtain ⟨token, others, rfl, hread⟩ := next_bind h
  dsimp only at hread
  split at hread
  · cases hread
    exact ⟨[token], rfl, .close rfl ‹_›⟩
  split at hread
  · obtain ⟨name, others, rfl, hname⟩ := next_bind hread
    dsimp only at hname
    split at hname
    · obtain ⟨first, others, rfl, hfirst⟩ := next_bind hname
      dsimp only at hfirst
      split at hfirst
      · obtain ⟨text, -, hfirst⟩ := bind_eq_ok hfirst
        cases hfirst
      · obtain ⟨⟨value, after⟩, hvalue, hfirst⟩ := bind_eq_ok hfirst
        obtain ⟨closed, hclose, hfirst⟩ := bind_eq_ok hfirst
        obtain ⟨⟨bindings, last⟩, hbindings, hfirst⟩ := bind_eq_ok hfirst
        cases hfirst
        obtain ⟨front, hfront, hone⟩ := ih.expression hvalue
        obtain ⟨closer, rfl, hcloser⟩ := close_eq_ok hclose
        obtain ⟨row, rfl, hrow⟩ := ih.letBindings hbindings
        exact ⟨token :: name :: (front ++ closer :: row), by simp [hfront, Tokens.following_append],
          .binding ‹_› ‹_› hone hcloser hrow⟩
    · exact absurd hname failShowing_ne_ok
  · cases hread

theorem step_letForm {head opener : Token} {tokens rest : Tokens} {f : Form}
    (htag : head.tag = .letAll ∨ head.tag = .letEach ∨ head.tag = .letRec)
    (h : Reader.letForm (fuel + 1) head opener tokens = .ok (f, rest))
    (hopener : opener.tag = .lparen) :
    (Phrase.one .code).Begins (.more opener (.more head tokens)) [f] rest := by
  rw [Reader.letForm] at h
  obtain ⟨token, others, rfl, hread⟩ := next_bind h
  dsimp only at hread
  -- the bindings and the body follow the name, or the keyword if there is no name
  have hlist : ∀ {listOpener : Token} {after : Tokens} {name : List Form},
      (if listOpener.tag = .lparen then
        Reader.letBindings fuel opener head.tag.keyword after >>= fun bindings =>
          Reader.operands fuel opener false bindings.2 >>= fun body =>
            if body.1.isEmpty = true then failAt head (.emptyBody head.tag.keyword)
            else pure (⟨head, name ++ .compoundAt .bindings bindings.1 listOpener :: body.1, true⟩,
              body.2)
        else failAt listOpener (.bindingList head.tag.keyword)) = .ok (f, rest) →
      ∃ list bindings row body,
        f = ⟨head, name ++ .compoundAt .bindings bindings listOpener :: body, true⟩ ∧
        after = following (list ++ row) rest ∧ listOpener.tag = .lparen ∧
        Derives .bindings list bindings ∧ Derives (.items .code false) row body ∧ body ≠ [] := by
    intro listOpener after name hlet
    split at hlet
    · obtain ⟨⟨bindings, after⟩, hbindings, hlet⟩ := bind_eq_ok hlet
      obtain ⟨⟨body, last⟩, hbody, hlet⟩ := bind_eq_ok hlet
      dsimp only at hlet
      split at hlet
      · cases hlet
      · rename_i hempty
        cases hlet
        obtain ⟨list, rfl, hlist⟩ := ih.letBindings hbindings
        obtain ⟨row, rfl, hrow⟩ := ih.operands hbody
        exact ⟨list, bindings, row, body, rfl, (Tokens.following_append _ _ _).symm, ‹_›, hlist,
          hrow, by simpa using hempty⟩
    · cases hlet
  split at hread
  · rename_i hnamed
    rw [Bool.and_eq_true, decide_eq_true_eq, decide_eq_true_eq] at hnamed
    obtain ⟨listOpener, others, rfl, hread⟩ := next_bind hread
    obtain ⟨list, bindings, row, body, rfl, rfl, hopens, hbindings, hbody, hempty⟩ := hlist hread
    exact ⟨opener :: head :: token :: listOpener :: (list ++ row), rfl,
      .letNamed hopener hnamed.2 hnamed.1 hopens hbindings hbody hempty⟩
  · obtain ⟨list, bindings, row, body, rfl, rfl, hopens, hbindings, hbody, hempty⟩ := hlist hread
    exact ⟨opener :: head :: token :: (list ++ row), rfl,
      .letPlain hopener htag hopens hbindings hbody hempty⟩

theorem step_quoting {token : Token} {tokens rest : Tokens} {f : Form}
    (h : Reader.quoting (fuel + 1) token tokens = .ok (f, rest)) :
    ∃ quoted inner, f = .compoundAt token.tag [quoted] token ∧
      Mode.code.inside? token.tag = some inner ∧
      (Phrase.one inner).Begins tokens [quoted] rest := by
  rw [Reader.quoting] at h
  split at h
  · cases h
  · rename_i depth hdepth
    obtain ⟨first, others, rfl, hread⟩ := nextQuoted_bind h
    obtain ⟨⟨quoted, after⟩, hquoted, hread⟩ := bind_eq_ok hread
    cases hread
    exact ⟨quoted, .data depth, rfl, by rw [Mode.inside?, hdepth]; rfl, ih.datum hquoted⟩

theorem step_datum {token : Token} {depth : Nat} {tokens rest : Tokens} {f : Form}
    (h : Reader.datum (fuel + 1) token depth tokens = .ok (f, rest)) :
    (Phrase.one (.data depth)).Begins (.more token tokens) [f] rest := by
  rw [Reader.datum] at h
  split at h
  · exact ih.datumList ‹_› h
  split at h
  · obtain ⟨quoted, inner, rfl, hinside, front, rfl, hquoted⟩ := ih.datumQuoting h
    exact ⟨token :: front, rfl, .mark ‹_› hinside hquoted⟩
  split at h
  · obtain ⟨leaf, hatom, h⟩ := bind_eq_ok h
    cases h
    exact ⟨[token], rfl, .atom ‹_› hatom⟩
  split at h
  · rename_i hmarked _ hkeyword
    cases h
    exact ⟨[token], rfl, .word hkeyword (by simpa using hmarked)⟩
  · exact absurd h failShowing_ne_ok

theorem step_datumQuoting {token opener : Token} {depth : Nat} {tokens rest : Tokens} {f : Form}
    (h : Reader.datumQuoting (fuel + 1) token opener depth tokens = .ok (f, rest)) :
    ∃ quoted inner, f = .compoundAt token.tag [quoted] token ∧
      (Mode.data depth).inside? token.tag = some inner ∧
      (Phrase.one inner).Begins tokens [quoted] rest := by
  rw [Reader.datumQuoting] at h
  obtain ⟨first, others, rfl, hread⟩ := nextQuoted_bind h
  dsimp only at hread
  rw [Mode.inside?]
  split at hread
  · rename_i hunquotes
    rw [Bool.and_eq_true, decide_eq_true_eq] at hunquotes
    obtain ⟨⟨quoted, after⟩, hquoted, hread⟩ := bind_eq_ok hread
    cases hread
    exact ⟨quoted, .code, rfl, by rw [if_pos hunquotes.1, if_pos hunquotes.2],
      ih.expression hquoted⟩
  rename_i hcode
  split at hread
  · rename_i hunquotes
    obtain ⟨⟨quoted, after⟩, hquoted, hread⟩ := bind_eq_ok hread
    cases hread
    rw [hunquotes, Bool.true_and, decide_eq_true_eq] at hcode
    exact ⟨quoted, .data (depth - 1), rfl, by rw [if_pos hunquotes, if_neg hcode], ih.datum hquoted⟩
  rename_i hunquotes
  rw [if_neg hunquotes]
  split at hread
  · rename_i hquasi
    obtain ⟨⟨quoted, after⟩, hquoted, hread⟩ := bind_eq_ok hread
    cases hread
    exact ⟨quoted, .data (depth + 1), rfl, by rw [if_pos hquasi], ih.datum hquoted⟩
  · rename_i hquasi
    obtain ⟨⟨quoted, after⟩, hquoted, hread⟩ := bind_eq_ok hread
    cases hread
    exact ⟨quoted, .data depth, rfl, by rw [if_neg hquasi], ih.datum hquoted⟩

theorem step_datumList {opener : Token} {depth : Nat} {tokens rest : Tokens} {f : Form}
    (hopener : opener.tag = .lparen)
    (h : Reader.datumList (fuel + 1) opener depth tokens = .ok (f, rest)) :
    (Phrase.one (.data depth)).Begins (.more opener tokens) [f] rest := by
  rw [Reader.datumList] at h
  obtain ⟨token, others, rfl, hread⟩ := next_bind h
  dsimp only at hread
  split at hread
  · cases hread
    exact ⟨[opener, token], rfl, .empty hopener ‹_›⟩
  split at hread
  · rename_i htag
    rw [Bool.and_eq_true, Bool.not_eq_true'] at htag
    obtain ⟨⟨f, after⟩, hquoting, hread⟩ := bind_eq_ok hread
    obtain ⟨last, hclose, hread⟩ := bind_eq_ok hread
    cases hread
    obtain ⟨quoted, inner, rfl, hinside, front, rfl, hquoted⟩ := ih.datumQuoting hquoting
    obtain ⟨closer, rfl, hcloser⟩ := close_eq_ok hclose
    exact ⟨opener :: token :: (front ++ [closer]), by simp [Tokens.following_append],
      .quotation hopener htag.1 htag.2 hinside hquoted hcloser⟩
  rename_i hhead
  split at hread
  · cases hread
  · obtain ⟨⟨first, after⟩, hfirst, hread⟩ := bind_eq_ok hread
    obtain ⟨⟨items, last⟩, hitems, hread⟩ := bind_eq_ok hread
    cases hread
    obtain ⟨front, rfl, hone⟩ := (ih.datum hfirst).tail
    obtain ⟨row, rfl, hrow⟩ := ih.datumItems hitems
    rw [Bool.and_eq_true, Bool.not_eq_true'] at hhead
    exact ⟨opener :: token :: (front ++ row), by simp [Tokens.following_append],
      .list hopener hhead hone hrow⟩

theorem step_datumItems {opener : Token} {depth : Nat} {tokens rest : Tokens} {items : List Form}
    (h : Reader.datumItems (fuel + 1) opener depth tokens = .ok (items, rest)) :
    (Phrase.items (.data depth) true).Begins tokens items rest := by
  rw [Reader.datumItems] at h
  obtain ⟨token, others, rfl, hread⟩ := next_bind h
  dsimp only at hread
  split at hread
  · cases hread
    exact ⟨[token], rfl, .close rfl ‹_›⟩
  split at hread
  · obtain ⟨⟨tail, after⟩, htail, hread⟩ := bind_eq_ok hread
    cases hread
    exact ih.dottedTail ‹_› htail
  · obtain ⟨⟨first, after⟩, hfirst, hread⟩ := bind_eq_ok hread
    obtain ⟨⟨items, last⟩, hitems, hread⟩ := bind_eq_ok hread
    cases hread
    obtain ⟨front, hfront, hone⟩ := ih.datum hfirst
    obtain ⟨row, rfl, hrow⟩ := ih.datumItems hitems
    exact ⟨front ++ row, by rw [hfront, Tokens.following_append], .more hone hrow⟩

end Obeys

/-- Whatever the reader reads is a phrase. -/
theorem obeys (fuel : Nat) : Obeys fuel := by
  induction fuel with
  | zero =>
    constructor <;> intros <;>
      simp_all [expression, operands, dottedTail, form, lambdaForm, defineForm, condClauses,
        letBindings, letForm, quoting, datum, datumQuoting, datumList, datumItems, exhausted]
  | succ fuel ih =>
    exact ⟨ih.step_expression, ih.step_operands, ih.step_dottedTail, ih.step_form,
      ih.step_lambdaForm, ih.step_defineForm, ih.step_condClauses, ih.step_letBindings,
      ih.step_letForm, ih.step_quoting, ih.step_datum, ih.step_datumQuoting, ih.step_datumList,
      ih.step_datumItems⟩

end Reader

end TowerLisp
