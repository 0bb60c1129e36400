import TowerLisp.Proofs.FormEchoes
import TowerLisp.Proofs.Programs
import TowerLisp.Proofs.ReadBack

/-!
Code can be read back. A form that was read from a text, taken as data and printed, is read
again as the same form. The words that it is printed as are derived by the rule that the form
was derived by, so each rule of the grammar has a lemma here.
-/

namespace TowerLisp

open Token (said)

/-- Words are derived as forms of a phrase that echo `forms`. -/
def Phrase.Restores (phrase : Phrase) (forms : List Form) (words : List (Tag × Payload)) : Prop :=
  ∀ front : List Token, front.map said = words →
    ∃ again, Derives phrase front again ∧ Form.echoesAll forms again = true

theorem Phrase.Restores.single {mode : Mode} {form : Form} {words : List (Tag × Payload)}
    (h : (Phrase.one mode).Restores [form] words) {front : List Token}
    (hfront : front.map said = words) :
    ∃ again, Derives (.one mode) front [again] ∧ form.echoes again = true := by
  obtain ⟨_, hderives, hecho⟩ := h front hfront
  obtain ⟨_, _, again, -, rfl, -⟩ := hderives.first
  rw [Form.echoesAll_cons, Bool.and_eq_true] at hecho
  exact ⟨again, hderives, hecho.1⟩

/-- The first of the words is a parenthesis if the token opens a compound form, and quotes only
if the token is a quoting keyword. -/
def Token.OpensLike (token : Token) (words : List (Tag × Payload)) : Prop :=
  ∃ word more, words = word :: more ∧
    (token.tag = .lparen ∨ token.isPrefix = true → word.1 = .lparen) ∧
    (word.1.isQuoting = true → token.tag.isQuoting = true ∧ token.isPrefix = false)

/-- The forms of a phrase are printed as words that restore them. -/
def Phrase.ReadsBack (store : Store) (phrase : Phrase) (front : List Token) (forms : List Form) :
    Prop :=
  match phrase with
  | .one mode => ∃ token others form v words, front = token :: others ∧ forms = [form] ∧
      form.datum = .ok v ∧ v.Writes store words ∧ (Phrase.one mode).Restores [form] words ∧
      token.OpensLike words
  | phrase => ∃ values words, Form.datumList forms = .ok (.list values) ∧
      List.Forall₂ (Value.Writes store) values words ∧
      phrase.Restores forms (words.flatten ++ [(.rparen, .text ")")])

namespace Phrase.ReadsBack

variable {store : Store} {mode inner : Mode} {opener head token closer : Token}
  {front rest : List Token} {form quoted first : Form} {forms others arguments body : List Form}

theorem atom (hatom : token.tag.isAtom = true) (h : Reader.atom token = .ok form)
    (htext : token.OfText) (hprint : ∀ t ∈ form.flat, t.Printable) :
    (Phrase.one mode).ReadsBack store [token] [form] := by
  obtain ⟨word, ⟨⟨v, hdatum, hwrites⟩, hagain⟩, hword, -⟩ :=
    Reader.atom_readsBack store h hatom htext hprint
  refine ⟨token, [], form, v, [word], rfl, rfl, hdatum, hwrites, ?_, word, [], rfl, ?_, ?_⟩
  · intro front hfront
    obtain ⟨again, rfl, hsaid⟩ := List.map_eq_singleton_iff.mp hfront
    obtain ⟨form', hform', hecho⟩ := hagain again hsaid
    rw [← hsaid] at hword
    exact ⟨[form'], .atom hword hform', by simp [hecho]⟩
  · rintro (htag | hmarked)
    · rw [htag] at hatom
      cases hatom
    · rw [(Phrase.Accepts.plain hatom).2] at hmarked
      cases hmarked
  · intro hquoting
    rw [Tag.isQuoting_of_isAtom hword] at hquoting
    cases hquoting

/-- In data a keyword is a symbol that is spelled like it. -/
theorem word {depth : Nat} (hkeyword : token.tag.keyword?.isSome = true)
    (hmarked : token.isPrefix = false) (htext : token.OfText) :
    (Phrase.one (.data depth)).ReadsBack store [token]
      [.leaf ⟨.symbol, token.payload, token.place⟩] := by
  obtain ⟨name, hname, hpayload⟩ : ∃ name, Tag.ofKeyword? name = some token.tag ∧
      token.payload = .text name := by
    have hspelled := htext.spelled
    obtain ⟨tag, payload, place⟩ := token
    cases hspelled with
    | keyword hname => exact ⟨_, hname, rfl⟩
    | quote | quasiquote | unquote | splice => cases hmarked
    | _ => cases hkeyword
  have hdatum : (Form.leaf ⟨.symbol, token.payload, token.place⟩).datum = .ok (.symbol name) := by
    rw [Form.datum_leaf, hpayload]
    rfl
  refine ⟨token, [], _, .symbol name, [(token.tag, .text name)], rfl, rfl, hdatum,
    Value.writes_symbol fun rest hrest => lexes_keyword hname hrest, ?_, _, [], rfl, ?_, ?_⟩
  · intro front hfront
    obtain ⟨again, rfl, hsaid⟩ := List.map_eq_singleton_iff.mp hfront
    obtain ⟨htag, hagain⟩ := Prod.mk.inj hsaid
    have hmarked' : again.isPrefix = false := by
      rw [Token.isPrefix, htag, hagain, ← hpayload]
      exact hmarked
    refine ⟨_, .word (by rw [htag]; exact hkeyword) hmarked', ?_⟩
    rw [Form.echoesAll_cons, Form.echoes_leaf (by simp [Token.echoes, hpayload, hagain])]
    simp
  · rintro (htag | hprefix)
    · rw [htag] at hkeyword
      cases hkeyword
    · rw [hmarked] at hprefix
      cases hprefix
  · exact fun hquoting => ⟨hquoting, hmarked⟩

/-- A form that is printed as a list, if the items of the list and the parenthesis that closes
it are derived as such a form again. -/
theorem parens {values : List Value} {words : List (List (Tag × Payload))}
    (hdatum : form.datum = .ok (.list values))
    (hwrites : List.Forall₂ (Value.Writes store) values words)
    (hagain : ∀ opener' row, opener'.tag = .lparen →
      row.map said = words.flatten ++ [(.rparen, .text ")")] →
      ∃ again, Derives (.one mode) (opener' :: row) [again] ∧ form.echoes again = true)
    (start : Token) (others : List Token) :
    (Phrase.one mode).ReadsBack store (start :: others) [form] := by
  refine ⟨start, others, form, _, _, rfl, rfl, hdatum, Value.writes_list hwrites, ?_,
    _, _, rfl, fun _ => rfl, nofun⟩
  intro front hfront
  obtain ⟨opener', row, rfl, hopener', hrow⟩ := List.map_eq_cons_iff.mp hfront
  obtain ⟨again, hderives, hecho⟩ := hagain opener' row (congrArg Prod.fst hopener') hrow
  exact ⟨[again], hderives, by simp [hecho]⟩

theorem empty (hopener : opener.tag = .lparen) :
    (Phrase.one mode).ReadsBack store [opener, closer] [.compoundAt .empty [] opener] := by
  have hdatum : (Form.compoundAt .empty [] opener).datum = .ok (.list []) := by
    rw [Form.compoundAt, Form.datum]
    rfl
  refine parens hdatum .nil ?_ _ _
  intro opener' row hopener' hrow
  obtain ⟨closer', rfl, hcloser'⟩ := List.map_eq_singleton_iff.mp hrow
  refine ⟨_, .empty hopener' (congrArg Prod.fst hcloser'), Form.echoes_group ?_ ?_ (by simp)⟩
  · rw [hopener]
    decide
  · rw [hopener']
    decide

/-- A quotation is printed with its keyword, whichever way it was spelled. -/
theorem quotation (hquoting : token.tag.isQuoting = true)
    (hinside : mode.inside? token.tag = some inner)
    (h : (Phrase.one inner).ReadsBack store front [quoted]) (start : Token) (others : List Token) :
    (Phrase.one mode).ReadsBack store (start :: others) [.compoundAt token.tag [quoted] token] := by
  obtain ⟨_, _, _, v, words, -, ⟨⟩, hdatum, hwrites, hrestores, -⟩ := h
  refine parens (Form.datum_quoting hquoting hdatum)
    (.cons (Value.writes_keyword store hquoting) (.cons hwrites .nil)) ?_ start others
  intro opener' row hopener' hrow
  obtain ⟨head', row, rfl, hhead', hrow⟩ := List.map_eq_cons_iff.mp hrow
  obtain ⟨htag, hpayload⟩ := Prod.mk.inj hhead'
  change row.map said = [words].flatten ++ [(.rparen, .text ")")] at hrow
  rw [List.flatten_singleton] at hrow
  obtain ⟨quoted', last, rfl, hquoted', hlast⟩ := List.map_eq_append_iff.mp hrow
  obtain ⟨closer', rfl, hcloser'⟩ := List.map_eq_singleton_iff.mp hlast
  obtain ⟨again, hderives, hecho⟩ := hrestores.single hquoted'
  have hmarked : head'.isPrefix = false := by
    rw [Token.isPrefix, htag, hpayload]
    revert hquoting
    cases token.tag <;> decide
  have hquoting' : head'.tag.isQuoting = true := by rwa [htag]
  have hinside' : mode.inside? head'.tag = some inner := by rwa [htag]
  exact ⟨_, .quotation hopener' hquoting' hmarked hinside' hderives (congrArg Prod.fst hcloser'),
    Form.echoes_quoting htag hquoting (by simp [hecho])⟩

/-- A list of a form and the items behind it. -/
theorem group {tag : Tag} (hgroup : tag.isGroup = true) (hempty : tag ≠ .empty)
    {v : Value} {word : List (Tag × Payload)} (hdatum : first.datum = .ok v)
    (hwrites : v.Writes store word) (hdot : first.token.tag ≠ .dot)
    {values : List Value} {words : List (List (Tag × Payload))}
    (hothers : Form.datumList others = .ok (.list values))
    (hwritten : List.Forall₂ (Value.Writes store) values words)
    (htoken : token.tag ≠ tag)
    (hagain : ∀ opener' front' row', opener'.tag = .lparen → front'.map said = word →
      row'.map said = words.flatten ++ [(.rparen, .text ")")] → ∃ token' first' others',
        Derives (.one mode) (opener' :: (front' ++ row'))
          [.compoundAt tag (first' :: others') token'] ∧ token'.tag ≠ tag ∧
        first.echoes first' = true ∧ Form.echoesAll others others' = true)
    (start : Token) (rest : List Token) :
    (Phrase.one mode).ReadsBack store (start :: rest)
      [.compoundAt tag (first :: others) token] := by
  refine parens ?_ (.cons hwrites hwritten) ?_ start rest
  · rw [Form.datum_group hgroup hempty]
    exact datumList_cons hdot hdatum hothers
  · intro opener' row hopener' hrow
    rw [List.flatten_cons, List.append_assoc] at hrow
    obtain ⟨front', row', rfl, hfront', hrow'⟩ := List.map_eq_append_iff.mp hrow
    obtain ⟨token', first', others', hderives, htoken', hfirst, hothers'⟩ :=
      hagain opener' front' row' hopener' hfront' hrow'
    exact ⟨_, hderives, Form.echoes_group htoken htoken' (by simp [hfirst, hothers'])⟩

theorem application (hopener : opener.tag = .lparen)
    (hhead : head.tag = .lparen ∨ head.isPrefix = true) (hdot : form.token.tag ≠ .dot)
    (h : (Phrase.one .code).ReadsBack store (head :: front) [form])
    (hs : (Phrase.items .code false).ReadsBack store rest arguments) :
    (Phrase.one .code).ReadsBack store (opener :: head :: (front ++ rest))
      [.compoundAt .apply (form :: arguments) opener] := by
  obtain ⟨_, _, _, v, _, ⟨⟩, ⟨⟩, hdatum, hwrites, hrestores, word, more, rfl, hopens, -⟩ := h
  obtain ⟨values, words, hlist, hwritten, hagain⟩ := hs
  refine group (by rfl) (by decide) hdatum hwrites hdot hlist hwritten
    (by rw [hopener]; decide) ?_ _ _
  intro opener' front' row' hopener' hfront' hrow'
  obtain ⟨first', hone, hecho⟩ := hrestores.single hfront'
  obtain ⟨others', hrow, hechoes⟩ := hagain row' hrow'
  obtain ⟨head', front', rfl, hhead', -⟩ := List.map_eq_cons_iff.mp hfront'
  have hparen : head'.tag = .lparen := by
    rw [← hopens hhead, ← hhead']
    rfl
  exact ⟨opener', first', others', .application hopener' (Or.inl hparen) hone hrow,
    by rw [hopener']; decide, hecho, hechoes⟩

theorem literals (hhead : head.tag.isLiteral = true) (hfirst : Reader.atom head = .ok first)
    (htext : head.OfText) (hprint : ∀ t ∈ first.flat, t.Printable)
    (hs : (Phrase.items .code true).ReadsBack store rest others) :
    (Phrase.one .code).ReadsBack store (opener :: head :: rest)
      [.compoundAt .list (first :: others) head] := by
  have htags : head.tag.isAtom = true ∧ head.tag ≠ .list ∧ head.tag ≠ .dot := by
    revert hhead
    cases head.tag <;> decide
  obtain ⟨word, ⟨⟨v, hdatum, hwrites⟩, hagain⟩, -, hliteral⟩ :=
    Reader.atom_readsBack store hfirst htags.1 htext hprint
  obtain ⟨values, words, hlist, hwritten, hrows⟩ := hs
  have hdot : first.token.tag ≠ .dot := by
    obtain ⟨payload, rfl⟩ := Reader.atom_eq_ok hfirst
    exact htags.2.2
  refine group (by rfl) (by decide) hdatum hwrites hdot hlist hwritten htags.2.1 ?_ _ _
  intro opener' front' row' hopener' hfront' hrow'
  obtain ⟨head', rfl, hhead'⟩ := List.map_eq_singleton_iff.mp hfront'
  obtain ⟨first', hfirst', hecho⟩ := hagain head' hhead'
  obtain ⟨others', hrow, hechoes⟩ := hrows row' hrow'
  have hliteral' : head'.tag.isLiteral = true := by
    rw [← hhead'] at hliteral
    exact hliteral hhead
  refine ⟨head', first', others', .literals hopener' hliteral' hfirst' hrow, ?_, hecho, hechoes⟩
  intro htag
  rw [htag] at hliteral'
  cases hliteral'

theorem list {depth : Nat} (hopener : opener.tag = .lparen)
    (hhead : ¬ (head.tag.isQuoting = true ∧ head.isPrefix = false))
    (hdot : first.token.tag ≠ .dot)
    (h : (Phrase.one (.data depth)).ReadsBack store (head :: front) [first])
    (hs : (Phrase.items (.data depth) true).ReadsBack store rest others) :
    (Phrase.one (.data depth)).ReadsBack store (opener :: head :: (front ++ rest))
      [.compoundAt .list (first :: others) opener] := by
  obtain ⟨_, _, _, v, _, ⟨⟩, ⟨⟩, hdatum, hwrites, hrestores, word, more, rfl, -, hquotes⟩ := h
  obtain ⟨values, words, hlist, hwritten, hagain⟩ := hs
  refine group (by rfl) (by decide) hdatum hwrites hdot hlist hwritten
    (by rw [hopener]; decide) ?_ _ _
  intro opener' front' row' hopener' hfront' hrow'
  obtain ⟨first', hone, hecho⟩ := hrestores.single hfront'
  obtain ⟨others', hrow, hechoes⟩ := hagain row' hrow'
  obtain ⟨head', front', rfl, hhead', -⟩ := List.map_eq_cons_iff.mp hfront'
  have hplain : ¬ (head'.tag.isQuoting = true ∧ head'.isPrefix = false) := by
    rintro ⟨hquoting, -⟩
    rw [← hhead'] at hquotes
    exact hhead (hquotes hquoting)
  exact ⟨opener', first', others', .list hopener' hplain hone hrow, by rw [hopener']; decide, hecho,
    hechoes⟩

/-- A form in parentheses that starts with its own token. -/
theorem headForm {parts : List Form} (htag : head.tag.isHead = true)
    (hquoting : head.tag.isQuoting = false) (htext : head.OfText) (hprint : head.Printable)
    {values : List Value} {words : List (List (Tag × Payload))}
    (hparts : Form.datumList parts = .ok (.list values))
    (hwritten : List.Forall₂ (Value.Writes store) values words)
    (hagain : ∀ opener' head' row', opener'.tag = .lparen → head'.tag = head.tag →
      row'.map said = words.flatten ++ [(.rparen, .text ")")] →
      ∃ parts', Derives (.one .code) (opener' :: head' :: row') [⟨head', parts', true⟩] ∧
        Form.echoesAll parts parts' = true)
    (start : Token) (rest : List Token) :
    (Phrase.one .code).ReadsBack store (start :: rest) [⟨head, parts, true⟩] := by
  obtain ⟨v, hdatum, hwrites⟩ := htext.head_writes htag hquoting hprint store
  refine parens (Form.datum_headed htag hquoting hdatum hparts) (.cons hwrites hwritten) ?_ start
    rest
  intro opener' row hopener' hrow
  obtain ⟨head', row', rfl, hhead', hrow'⟩ := List.map_eq_cons_iff.mp hrow
  obtain ⟨parts', hderives, hecho⟩ :=
    hagain opener' head' row' hopener' (congrArg Prod.fst hhead') hrow'
  exact ⟨_, hderives, Form.echoes_headed hhead' hecho⟩

theorem headed (hhead : head.tag = .symbol ∨ head.tag = .operator ∨ head.tag = .sequence)
    (htext : head.OfText) (hprint : head.Printable)
    (hs : (Phrase.items .code false).ReadsBack store rest arguments) :
    (Phrase.one .code).ReadsBack store (opener :: head :: rest) [⟨head, arguments, true⟩] := by
  obtain ⟨values, words, hlist, hwritten, hagain⟩ := hs
  have htags : head.tag.isHead = true ∧ head.tag.isQuoting = false := by
    obtain htag | htag | htag := hhead <;> rw [htag] <;> decide
  refine headForm htags.1 htags.2 htext hprint hlist hwritten ?_ _ _
  intro opener' head' row' hopener' hhead' hrow'
  obtain ⟨again, hrow, hecho⟩ := hagain row' hrow'
  exact ⟨again, .headed hopener' (by rw [hhead']; exact hhead) hrow, hecho⟩

theorem cond {clauses : List Form} (hhead : head.tag = .cond) (htext : head.OfText)
    (hprint : head.Printable) (hs : Phrase.clauses.ReadsBack store rest clauses) :
    (Phrase.one .code).ReadsBack store (opener :: head :: rest) [⟨head, clauses, true⟩] := by
  obtain ⟨values, words, hlist, hwritten, hagain⟩ := hs
  refine headForm (by rw [hhead]; rfl) (by rw [hhead]; rfl) htext hprint hlist hwritten ?_ _ _
  intro opener' head' row' hopener' hhead' hrow'
  obtain ⟨again, hrow, hecho⟩ := hagain row' hrow'
  exact ⟨again, .cond hopener' (hhead'.trans hhead) hrow, hecho⟩

/-- A symbol that is bound is written as itself. -/
theorem name {name : Token} (htag : name.tag = .symbol) (htext : name.OfText)
    (hprint : name.Printable) (store : Store) :
    (∃ v, (Form.leaf name).datum = .ok v ∧ v.Writes store [name.said]) ∧
      ∀ name' : Token, name'.said = name.said → (Form.leaf name).echoes (.leaf name') = true := by
  obtain ⟨v, hdatum, hwrites⟩ :=
    htext.head_writes (by rw [htag]; rfl) (by rw [htag]; rfl) hprint store
  refine ⟨⟨v, by rw [Form.datum_leaf, hdatum], hwrites⟩, fun name' hname' => Form.echoes_leaf ?_⟩
  obtain ⟨htag', hpayload⟩ := Prod.mk.inj hname'
  have hspelled := htext.spelled
  obtain ⟨tag, payload, place⟩ := name
  cases htag
  cases hspelled with
  | symbol => simp [Token.echoes, htag', hpayload]
  | keyword hkeyword => cases Tag.keyword_of_ofKeyword? hkeyword

theorem define {name : Token} {value : Form} (hhead : head.tag = .define)
    (hname : name.tag = .symbol) (htext : head.OfText ∧ name.OfText)
    (hprint : head.Printable ∧ name.Printable)
    (hs : (Phrase.items .code false).ReadsBack store rest [value]) :
    (Phrase.one .code).ReadsBack store (opener :: head :: name :: rest)
      [⟨head, [.leaf name, value], true⟩] := by
  obtain ⟨⟨v, hdatum, hwrites⟩, hecho⟩ := Phrase.ReadsBack.name hname htext.2 hprint.2 store
  obtain ⟨values, words, hlist, hwritten, hagain⟩ := hs
  refine headForm (by rw [hhead]; rfl) (by rw [hhead]; rfl) htext.1 hprint.1
    (datumList_cons (by rw [Form.leaf, hname]; decide) hdatum hlist) (.cons hwrites hwritten) ?_ _ _
  intro opener' head' row' hopener' hhead' hrow'
  obtain ⟨name', row', rfl, hname', hrow'⟩ := List.map_eq_cons_iff.mp hrow'
  obtain ⟨again, hrow, hechoes⟩ := hagain row' hrow'
  obtain ⟨value', rfl⟩ : ∃ value', again = [value'] :=
    List.length_eq_one_iff.mp (Form.echoesAll_length hechoes).symm
  refine ⟨[.leaf name', value'], .define hopener' (hhead'.trans hhead) ?_ hrow, ?_⟩
  · rw [← hname]
    exact congrArg Prod.fst hname'
  · rw [Form.echoesAll_cons, hecho name' hname', hechoes]
    rfl

theorem names {names : List Token} (htag : ∀ name ∈ names, name.tag = .symbol)
    (htext : ∀ name ∈ names, name.OfText) (hprint : ∀ name ∈ names, name.Printable)
    (store : Store) : ∃ values words, Form.datumList (names.map .leaf) = .ok (.list values) ∧
      List.Forall₂ (Value.Writes store) values words ∧ words.flatten = names.map said ∧
      ∀ names' : List Token, names'.map said = names.map said →
        Form.echoesAll (names.map .leaf) (names'.map .leaf) = true := by
  induction names with
  | nil =>
    refine ⟨[], [], rfl, .nil, rfl, fun names' hnames' => ?_⟩
    rw [List.map_eq_nil_iff.mp hnames']
    simp
  | cons name names ih =>
    rw [List.forall_mem_cons] at htag htext hprint
    obtain ⟨⟨v, hdatum, hwrites⟩, hecho⟩ := Phrase.ReadsBack.name htag.1 htext.1 hprint.1 store
    obtain ⟨values, words, hlist, hwritten, hflat, hechoes⟩ := ih htag.2 htext.2 hprint.2
    have hdot : (Form.leaf name).token.tag ≠ .dot := by
      rw [Form.leaf, htag.1]
      decide
    refine ⟨v :: values, [name.said] :: words, datumList_cons hdot hdatum hlist,
      .cons hwrites hwritten, ?_, ?_⟩
    · rw [List.flatten_cons, hflat]
      rfl
    · intro names' hnames'
      obtain ⟨name', names', rfl, hname', hrest⟩ := List.map_eq_cons_iff.mp hnames'
      rw [List.map_cons, List.map_cons, Form.echoesAll_cons, hecho name' hname',
        hechoes names' hrest]
      rfl

/-- A row that follows a group in parentheses. -/
theorem map_said_group {row : List Token} {words more : List (Tag × Payload)}
    (h : row.map said = ((.lparen, .text "(") :: words ++ [(.rparen, .text ")")]) ++ more) :
    ∃ opener inner rest, row = opener :: (inner ++ rest) ∧ opener.tag = .lparen ∧
      inner.map said = words ++ [(.rparen, .text ")")] ∧ rest.map said = more := by
  rw [List.cons_append, List.cons_append] at h
  obtain ⟨opener, row, rfl, hopener, hrow⟩ := List.map_eq_cons_iff.mp h
  obtain ⟨inner, rest, rfl, hinner, hrest⟩ := List.map_eq_append_iff.mp hrow
  exact ⟨opener, inner, rest, rfl, congrArg Prod.fst hopener, hinner, hrest⟩

theorem ne_nil_of_echoes {forms again : List Form} (h : Form.echoesAll forms again = true)
    (hforms : forms ≠ []) : again ≠ [] := by
  rw [← List.length_pos_iff, ← Form.echoesAll_length h, List.length_pos_iff]
  exact hforms

theorem lambda {listOpener : Token} {names : List Token} {texts : List String}
    (hhead : head.tag = .lambda) (hlist : listOpener.tag = .lparen)
    (hnames : ∀ name ∈ names, name.tag = .symbol)
    (htexts : names.mapM (·.payload.written) = .ok texts) (hnodup : texts.Nodup)
    (hbody : body ≠ []) (htext : ∀ t ∈ head :: names, t.OfText)
    (hprint : ∀ t ∈ head :: names, t.Printable)
    (hs : (Phrase.items .code false).ReadsBack store rest body) (others : List Token) :
    (Phrase.one .code).ReadsBack store (opener :: others)
      [⟨head, .compoundAt .params (names.map .leaf) listOpener :: body, true⟩] := by
  rw [List.forall_mem_cons] at htext hprint
  obtain ⟨values, words, hdatum, hwritten, hflat, hecho⟩ :=
    Phrase.ReadsBack.names hnames htext.2 hprint.2 store
  obtain ⟨values', words', hdatum', hwritten', hagain⟩ := hs
  refine headForm (by rw [hhead]; rfl) (by rw [hhead]; rfl) htext.1 hprint.1
    (Form.datumList_group rfl (by decide) hdatum hdatum' listOpener)
    (.cons (Value.writes_list hwritten) hwritten') ?_ _ _
  intro opener' head' row' hopener' hhead' hrow'
  rw [List.flatten_cons, List.append_assoc] at hrow'
  obtain ⟨listOpener', inner', rest', rfl, hlist', hinner', hrest'⟩ := map_said_group hrow'
  rw [hflat] at hinner'
  obtain ⟨names', last, rfl, hnames', hlast⟩ := List.map_eq_append_iff.mp hinner'
  obtain ⟨closer', rfl, hcloser'⟩ := List.map_eq_singleton_iff.mp hlast
  obtain ⟨body', hrow, hechoes⟩ := hagain rest' hrest'
  have hsymbols : ∀ name ∈ names', name.tag = .symbol := by
    intro name hname
    have hmem : name.said ∈ names.map said := by
      rw [← hnames']
      exact List.mem_map_of_mem hname
    obtain ⟨original, horiginal, hsaid⟩ := List.mem_map.mp hmem
    rw [← hnames original horiginal]
    exact (congrArg Prod.fst hsaid).symm
  have htexts' : names'.mapM (·.payload.written) = .ok texts := by
    rw [← htexts]
    have hmapM (tokens : List Token) : tokens.mapM (·.payload.written) =
        (tokens.map said).mapM fun word => word.2.written := by
      rw [List.mapM_map]
      rfl
    rw [hmapM, hmapM, hnames']
  refine ⟨.compoundAt .params (names'.map .leaf) listOpener' :: body', ?_, ?_⟩
  · rw [List.append_assoc]
    exact .lambda hopener' (hhead'.trans hhead) hlist' hsymbols htexts' hnodup
      (congrArg Prod.fst hcloser') hrow (ne_nil_of_echoes hechoes hbody)
  · rw [Form.echoesAll_cons, hechoes, Form.echoes_group (by rw [hlist]; decide)
      (by rw [hlist']; decide) (hecho names' hnames')]
    rfl

/-- The bindings of a let and its body. -/
theorem bindingsBody {listOpener : Token} {list : List Token} {bindings : List Form}
    (hlist : listOpener.tag = .lparen) (h : Phrase.bindings.ReadsBack store list bindings)
    (hs : (Phrase.items .code false).ReadsBack store rest body) (hbody : body ≠ []) :
    ∃ values words,
      Form.datumList (.compoundAt .bindings bindings listOpener :: body) = .ok (.list values) ∧
      List.Forall₂ (Value.Writes store) values words ∧
      ∀ row : List Token, row.map said = words.flatten ++ [(.rparen, .text ")")] →
        ∃ listOpener' list' rest' bindings' body', row = listOpener' :: (list' ++ rest') ∧
          listOpener'.tag = .lparen ∧ Derives .bindings list' bindings' ∧
          Derives (.items .code false) rest' body' ∧ body' ≠ [] ∧
          Form.echoesAll (.compoundAt .bindings bindings listOpener :: body)
            (.compoundAt .bindings bindings' listOpener' :: body') = true := by
  obtain ⟨values, words, hdatum, hwritten, hrestores⟩ := h
  obtain ⟨values', words', hdatum', hwritten', hagain⟩ := hs
  refine ⟨_, _, Form.datumList_group rfl (by decide) hdatum hdatum' listOpener,
    .cons (Value.writes_list hwritten) hwritten', fun row hrow => ?_⟩
  rw [List.flatten_cons, List.append_assoc] at hrow
  obtain ⟨listOpener', list', rest', rfl, hlist', hinner', hrest'⟩ := map_said_group hrow
  obtain ⟨bindings', hbindings, hecho⟩ := hrestores list' hinner'
  obtain ⟨body', hrow, hechoes⟩ := hagain rest' hrest'
  refine ⟨listOpener', list', rest', bindings', body', rfl, hlist', hbindings, hrow,
    ne_nil_of_echoes hechoes hbody, ?_⟩
  rw [Form.echoesAll_cons, hechoes, Form.echoes_group (by rw [hlist]; decide)
    (by rw [hlist']; decide) hecho]
  rfl

theorem letPlain {listOpener : Token} {list : List Token} {bindings : List Form}
    (hhead : head.tag = .letAll ∨ head.tag = .letEach ∨ head.tag = .letRec)
    (hlist : listOpener.tag = .lparen) (htext : head.OfText) (hprint : head.Printable)
    (h : Phrase.bindings.ReadsBack store list bindings)
    (hs : (Phrase.items .code false).ReadsBack store rest body) (hbody : body ≠ [])
    (others : List Token) :
    (Phrase.one .code).ReadsBack store (opener :: others)
      [⟨head, .compoundAt .bindings bindings listOpener :: body, true⟩] := by
  obtain ⟨values, words, hdatum, hwritten, hagain⟩ := bindingsBody hlist h hs hbody
  have htags : head.tag.isHead = true ∧ head.tag.isQuoting = false := by
    obtain htag | htag | htag := hhead <;> rw [htag] <;> decide
  refine headForm htags.1 htags.2 htext hprint hdatum hwritten ?_ _ _
  intro opener' head' row' hopener' hhead' hrow'
  obtain ⟨listOpener', list', rest', bindings', body', rfl, hlist', hbindings, hrow, hbody',
    hecho⟩ := hagain row' hrow'
  exact ⟨_, .letPlain hopener' (by rw [hhead']; exact hhead) hlist' hbindings hrow hbody', hecho⟩

theorem letNamed {name listOpener : Token} {list : List Token} {bindings : List Form}
    (hhead : head.tag = .letAll) (hname : name.tag = .symbol) (hlist : listOpener.tag = .lparen)
    (htext : head.OfText ∧ name.OfText) (hprint : head.Printable ∧ name.Printable)
    (h : Phrase.bindings.ReadsBack store list bindings)
    (hs : (Phrase.items .code false).ReadsBack store rest body) (hbody : body ≠ [])
    (others : List Token) :
    (Phrase.one .code).ReadsBack store (opener :: others)
      [⟨head, .leaf name :: .compoundAt .bindings bindings listOpener :: body, true⟩] := by
  obtain ⟨⟨v, hleaf, hwrites⟩, hnameEcho⟩ := Phrase.ReadsBack.name hname htext.2 hprint.2 store
  obtain ⟨values, words, hdatum, hwritten, hagain⟩ := bindingsBody hlist h hs hbody
  refine headForm (by rw [hhead]; rfl) (by rw [hhead]; rfl) htext.1 hprint.1
    (datumList_cons (by rw [Form.leaf, hname]; decide) hleaf hdatum) (.cons hwrites hwritten) ?_ _ _
  intro opener' head' row' hopener' hhead' hrow'
  obtain ⟨name', row', rfl, hname', hrow'⟩ := List.map_eq_cons_iff.mp hrow'
  obtain ⟨listOpener', list', rest', bindings', body', rfl, hlist', hbindings, hrow, hbody',
    hecho⟩ := hagain row' hrow'
  have hsymbol : name'.tag = .symbol := by
    rw [← hname]
    exact congrArg Prod.fst hname'
  refine ⟨_, .letNamed hopener' (hhead'.trans hhead) hsymbol hlist' hbindings hrow hbody', ?_⟩
  rw [Form.echoesAll_cons, hnameEcho name' hname', hecho]
  rfl

theorem close {phrase : Phrase} (hrow : phrase.isRow = true) (closer : Token) :
    phrase.ReadsBack store [closer] [] := by
  have hempty : phrase.Restores [] [(.rparen, .text ")")] := by
    intro front hfront
    obtain ⟨closer', rfl, hcloser'⟩ := List.map_eq_singleton_iff.mp hfront
    exact ⟨[], .close hrow (congrArg Prod.fst hcloser'), by simp⟩
  cases phrase with
  | one mode => cases hrow
  | items mode dots => exact ⟨[], [], rfl, .nil, hempty⟩
  | clauses => exact ⟨[], [], rfl, .nil, hempty⟩
  | bindings => exact ⟨[], [], rfl, .nil, hempty⟩

theorem more {dots : Bool} (hdot : first.token.tag ≠ .dot)
    (h : (Phrase.one mode).ReadsBack store front [first])
    (hs : (Phrase.items mode dots).ReadsBack store rest others) :
    (Phrase.items mode dots).ReadsBack store (front ++ rest) (first :: others) := by
  obtain ⟨_, _, _, v, word, -, ⟨⟩, hdatum, hwrites, hrestores, -⟩ := h
  obtain ⟨values, words, hlist, hwritten, hagain⟩ := hs
  refine ⟨v :: values, word :: words, datumList_cons hdot hdatum hlist, .cons hwrites hwritten, ?_⟩
  intro row hrow
  rw [List.flatten_cons, List.append_assoc] at hrow
  obtain ⟨front', row', rfl, hfront', hrow'⟩ := List.map_eq_append_iff.mp hrow
  obtain ⟨first', hone, hecho⟩ := hrestores.single hfront'
  obtain ⟨others', hrow, hechoes⟩ := hagain row' hrow'
  exact ⟨first' :: others', .more hone hrow, by simp [hecho, hechoes]⟩

theorem clause {clauses : List Form} (hopener : opener.tag = .lparen)
    (h : (Phrase.items .code false).ReadsBack store front forms) (hforms : forms ≠ [])
    (hs : Phrase.clauses.ReadsBack store rest clauses) (tokens : List Token) :
    Phrase.clauses.ReadsBack store tokens (.compoundAt .clause forms opener :: clauses) := by
  obtain ⟨values, words, hdatum, hwritten, hrestores⟩ := h
  obtain ⟨values', words', hdatum', hwritten', hagain⟩ := hs
  refine ⟨_, _, Form.datumList_group rfl (by decide) hdatum hdatum' opener,
    .cons (Value.writes_list hwritten) hwritten', fun row hrow => ?_⟩
  rw [List.flatten_cons, List.append_assoc] at hrow
  obtain ⟨opener', front', rest', rfl, hopener', hfront', hrest'⟩ := map_said_group hrow
  obtain ⟨forms', hitems, hecho⟩ := hrestores front' hfront'
  obtain ⟨clauses', hclauses, hechoes⟩ := hagain rest' hrest'
  refine ⟨_, .clause hopener' hitems (ne_nil_of_echoes hecho hforms) hclauses, ?_⟩
  rw [Form.echoesAll_cons, hechoes, Form.echoes_group (by rw [hopener]; decide)
    (by rw [hopener']; decide) hecho]
  rfl

theorem binding {name : Token} {value : Form} {bindings : List Form}
    (hopener : opener.tag = .lparen) (hname : name.tag = .symbol) (htext : name.OfText)
    (hprint : name.Printable) (hdot : value.token.tag ≠ .dot)
    (h : (Phrase.one .code).ReadsBack store front [value])
    (hs : Phrase.bindings.ReadsBack store rest bindings) (tokens : List Token) :
    Phrase.bindings.ReadsBack store tokens
      (.compoundAt .binding [.leaf name, value] opener :: bindings) := by
  obtain ⟨⟨v, hleaf, hwrites⟩, hnameEcho⟩ := Phrase.ReadsBack.name hname htext hprint store
  obtain ⟨_, _, _, u, word, -, ⟨⟩, hdatum, hwrites', hrestores, -⟩ := h
  obtain ⟨values, words, hlist, hwritten, hagain⟩ := hs
  have hparts : Form.datumList [.leaf name, value] = .ok (.list [v, u]) :=
    datumList_cons (by rw [Form.leaf, hname]; decide) hleaf (datumList_cons hdot hdatum rfl)
  refine ⟨_, _, Form.datumList_group rfl (by decide) hparts hlist opener,
    .cons (Value.writes_list (.cons hwrites (.cons hwrites' .nil))) hwritten, fun row hrow => ?_⟩
  rw [List.flatten_cons, List.append_assoc] at hrow
  obtain ⟨opener', inner', rest', rfl, hopener', hinner', hrest'⟩ := map_said_group hrow
  obtain ⟨name', inner', rfl, hname', hinner'⟩ := List.map_eq_cons_iff.mp hinner'
  change inner'.map said = [word].flatten ++ [(.rparen, .text ")")] at hinner'
  rw [List.flatten_singleton] at hinner'
  obtain ⟨front', last, rfl, hfront', hlast⟩ := List.map_eq_append_iff.mp hinner'
  obtain ⟨closer', rfl, hcloser'⟩ := List.map_eq_singleton_iff.mp hlast
  obtain ⟨value', hvalue, hecho⟩ := hrestores.single hfront'
  obtain ⟨bindings', hbindings, hechoes⟩ := hagain rest' hrest'
  have hsymbol : name'.tag = .symbol := by
    rw [← hname]
    exact congrArg Prod.fst hname'
  refine ⟨.compoundAt .binding [.leaf name', value'] opener' :: bindings', ?_, ?_⟩
  · rw [List.cons_append, List.append_assoc]
    exact .binding hopener' hsymbol hvalue (congrArg Prod.fst hcloser') hbindings
  · rw [Form.echoesAll_cons, hechoes, Form.echoes_group (by rw [hopener]; decide)
      (by rw [hopener']; decide) (by simp [hnameEcho name' hname', hecho])]
    rfl

end Phrase.ReadsBack

/-- All tokens of some forms can be read back. -/
def Form.AllPrintable (forms : List Form) : Prop :=
  ∀ t ∈ flatAll forms, t.Printable

namespace Form.AllPrintable

variable {token : Token} {first : Form} {inner forms : List Form} {compound : Bool}

theorem cons (h : AllPrintable (first :: forms)) : AllPrintable [first] ∧ AllPrintable forms := by
  rw [AllPrintable, flatAll_cons, List.forall_mem_append] at h
  refine ⟨?_, h.2⟩
  rw [AllPrintable, flatAll_cons, flatAll_nil, List.append_nil]
  exact h.1

theorem flat (h : AllPrintable [first]) : ∀ t ∈ first.flat, t.Printable := by
  intro t ht
  exact h t (by simpa using ht)

theorem parts (h : AllPrintable [⟨token, inner, compound⟩]) : AllPrintable inner :=
  fun t ht => h.flat t (flatAll_subset_flat token inner compound t ht)

theorem head (h : AllPrintable [⟨token, inner, true⟩]) (htag : token.tag.isHead = true)
    (hquoting : token.tag.isQuoting = false) : token.Printable := by
  refine h.flat token ?_
  rw [flat_headed htag (by rw [Token.isPrefix, hquoting, Bool.false_and])]
  simp

theorem leaf (h : AllPrintable [.leaf token]) : token.Printable :=
  h.flat token (mem_flat_leaf token)

theorem leaves {names : List Token} (h : AllPrintable (names.map .leaf)) :
    ∀ name ∈ names, name.Printable := by
  intro name hname
  refine h name ?_
  rw [flatAll_eq_flatMap]
  exact List.mem_flatMap.mpr ⟨.leaf name, List.mem_map_of_mem hname, mem_flat_leaf name⟩

end Form.AllPrintable

/-- What is derived from the tokens of a text is read back. -/
theorem Derives.readsBack (store : Store) {phrase : Phrase} {front : List Token}
    {forms : List Form} (h : Derives phrase front forms) (htext : ∀ t ∈ front, t.OfText)
    (hprint : Form.AllPrintable forms) : phrase.ReadsBack store front forms := by
  induction h with
    simp only [List.forall_mem_cons, List.forall_mem_append] at *
  | atom hatom hform => exact .atom hatom hform htext.1 hprint.flat
  | empty hopener => exact .empty hopener
  | mark hmarked hinside _ ih =>
    exact .quotation (Token.isQuoting_of_isPrefix hmarked) hinside (ih htext.2 hprint.parts) _ _
  | quotation _ hquoting _ hinside _ _ ih =>
    obtain ⟨-, -, hfront, -⟩ := htext
    exact .quotation hquoting hinside (ih hfront hprint.parts) _ _
  | application hopener hhead hone _ ih ihs =>
    obtain ⟨_, _, _, -, ⟨⟩, -, hdot⟩ := hone.first
    obtain ⟨-, hstart, hfront, hrow⟩ := htext
    obtain ⟨hfirst, hothers⟩ := hprint.parts.cons
    exact .application hopener hhead hdot (ih ⟨hstart, hfront⟩ hfirst) (ihs hrow hothers)
  | @headed opener head _ _ _ hhead _ ih =>
    have htags : head.tag.isHead = true ∧ head.tag.isQuoting = false := by
      obtain htag | htag | htag := hhead <;> rw [htag] <;> decide
    obtain ⟨-, hstart, hrow⟩ := htext
    exact .headed hhead hstart (hprint.head htags.1 htags.2) (ih hrow hprint.parts)
  | literals _ hhead hfirst _ ih =>
    obtain ⟨-, hstart, hrow⟩ := htext
    obtain ⟨hleaf, hothers⟩ := hprint.parts.cons
    exact .literals hhead hfirst hstart hleaf.flat (ih hrow hothers)
  | lambda _ hhead hlist hnames htexts hnodup _ _ hbody ih =>
    obtain ⟨-, hstart, -, hnamed, -, hrow⟩ := htext
    obtain ⟨hparams, hrest⟩ := hprint.parts.cons
    refine .lambda hhead hlist hnames htexts hnodup hbody ?_ ?_ (ih hrow hrest) _
    · exact List.forall_mem_cons.mpr ⟨hstart, hnamed⟩
    · exact List.forall_mem_cons.mpr
        ⟨hprint.head (by rw [hhead]; rfl) (by rw [hhead]; rfl), hparams.parts.leaves⟩
  | define _ hhead hname _ ih =>
    obtain ⟨-, hstart, hnamed, hrow⟩ := htext
    obtain ⟨hleaf, hrest⟩ := hprint.parts.cons
    exact .define hhead hname ⟨hstart, hnamed⟩
      ⟨hprint.head (by rw [hhead]; rfl) (by rw [hhead]; rfl), hleaf.leaf⟩ (ih hrow hrest)
  | cond _ hhead _ ih =>
    obtain ⟨-, hstart, hrow⟩ := htext
    exact .cond hhead hstart (hprint.head (by rw [hhead]; rfl) (by rw [hhead]; rfl))
      (ih hrow hprint.parts)
  | @letPlain opener head _ _ _ _ _ _ hhead hlist _ _ hbody ih ihs =>
    have htags : head.tag.isHead = true ∧ head.tag.isQuoting = false := by
      obtain htag | htag | htag := hhead <;> rw [htag] <;> decide
    obtain ⟨-, hstart, -, hnamed, hrow⟩ := htext
    obtain ⟨hbindings, hrest⟩ := hprint.parts.cons
    exact .letPlain hhead hlist hstart (hprint.head htags.1 htags.2) (ih hnamed hbindings.parts)
      (ihs hrow hrest) hbody _
  | letNamed _ hhead hname hlist _ _ hbody ih ihs =>
    obtain ⟨-, hstart, hown, -, hnamed, hrow⟩ := htext
    obtain ⟨hleaf, hparts⟩ := hprint.parts.cons
    obtain ⟨hbindings, hrest⟩ := hparts.cons
    exact .letNamed hhead hname hlist ⟨hstart, hown⟩
      ⟨hprint.head (by rw [hhead]; rfl) (by rw [hhead]; rfl), hleaf.leaf⟩
      (ih hnamed hbindings.parts) (ihs hrow hrest) hbody _
  | word hkeyword hmarked => exact .word hkeyword hmarked htext.1
  | list hopener hhead hone _ ih ihs =>
    obtain ⟨_, _, _, -, ⟨⟩, -, hdot⟩ := hone.first
    obtain ⟨-, hstart, hfront, hrow⟩ := htext
    obtain ⟨hfirst, hothers⟩ := hprint.parts.cons
    exact .list hopener hhead hdot (ih ⟨hstart, hfront⟩ hfirst) (ihs hrow hothers)
  | close hrow _ => exact .close hrow _
  | dotted hdot _ _ _ =>
    have hmem := hprint.flat _ (by rw [Form.flat_dot hdot]; exact List.mem_cons_self)
    exact absurd hdot hmem.notDot
  | more hone _ ih ihs =>
    obtain ⟨_, _, _, -, ⟨⟩, -, hdot⟩ := hone.first
    obtain ⟨hfront, hrow⟩ := htext
    obtain ⟨hfirst, hothers⟩ := hprint.cons
    exact .more hdot (ih hfront hfirst) (ihs hrow hothers)
  | clause hopener _ hitems _ ih ihs =>
    obtain ⟨-, hfront, hrow⟩ := htext
    obtain ⟨hclause, hothers⟩ := hprint.cons
    exact .clause hopener (ih hfront hclause.parts) hitems (ihs hrow hothers) _
  | binding hopener hname hone _ _ ih ihs =>
    obtain ⟨_, _, _, -, ⟨⟩, -, hdot⟩ := hone.first
    obtain ⟨-, hnamed, hfront, -, hrow⟩ := htext
    obtain ⟨hbinding, hothers⟩ := hprint.cons
    obtain ⟨hleaf, hvalue⟩ := hbinding.parts.cons
    exact .binding hopener hname hnamed hleaf.leaf hdot (ih hfront hvalue) (ihs hrow hothers) _

namespace Reader

/-- A form that was read from the tokens of a text, or from some of them, is derived from
tokens of a text. -/
theorem exists_derives_of_mem {source : List Char} {e : Form}
    (h : e ∈ (readForms source).1 ∨ ∃ limit, e ∈ (readFormsWithin limit source).1) :
    ∃ front, Derives (.one .code) front [e] ∧ ∀ t ∈ front, t.OfText := by
  obtain ⟨tokens, hmem, htext⟩ : ∃ tokens, e ∈ (readTokens tokens).1 ∧
      ∀ t ∈ tokens.toList, t.OfText := by
    obtain hmem | ⟨limit, hmem⟩ := h
    · exact ⟨_, hmem, Tokens.ofCursor_ofText _⟩
    · refine ⟨_, hmem, ?_⟩
      obtain hwhole | ⟨cut, hcut, hsub⟩ := Tokens.within_cases limit (.ofSource source)
      · rw [hwhole]
        exact Tokens.ofCursor_ofText _
      · intro t ht
        rw [hcut, Tokens.toList_prepend] at ht
        exact Tokens.ofCursor_ofText _ t (hsub t (by simpa [Tokens.toList] using ht))
  obtain ⟨front, rest, htokens, hforms, -⟩ := readTokens_cases tokens
  obtain ⟨part, hpart, hsub⟩ := hforms.exists_mem hmem
  refine ⟨part, hpart, fun t ht => htext t ?_⟩
  rw [htokens, Tokens.toList_following]
  exact List.mem_append_left _ (hsub.subset ht)

theorem mem_readForms_of_readFirst {source : List Char} {e : Form} (h : readFirst source = .ok e)
    (heof : e.tag ≠ .eof) : e ∈ (readForms source).1 := by
  obtain ⟨top, hread, htop⟩ := bind_eq_ok h
  cases top with
  | form form rest =>
    cases htop
    rw [readForms, readTokens_form hread]
    exact List.mem_cons_self
  | eof token =>
    cases htop
    cases htokens : Tokens.ofSource source with
    | done eof =>
      rw [htokens] at hread
      cases hread
      exact absurd (Tokens.tag_of_ofCursor_done htokens) heof
    | broken fault =>
      rw [htokens] at hread
      cases hread
    | more token others =>
      rw [htokens] at hread
      obtain ⟨found, -, hread⟩ := bind_eq_ok hread
      cases hread

/-- A text that is split into words of one form is read as that form. -/
theorem readTokens_of_lexes {text : List Char} {words : List (Tag × Payload)} {e : Form}
    (hlexes : Lexes text [] words) (hrestores : (Phrase.one .code).Restores [e] words) :
    ∃ again eof, read (.ofSource text) = .ok (.form again (.done eof)) ∧
      e.echoes again = true := by
  obtain ⟨front, after, hfront, hsaid, hafter⟩ := hlexes (.start text) (List.append_nil _).symm
  obtain ⟨again, hderives, hecho⟩ := hrestores.single hsaid
  rw [Tokens.ofCursor_end hafter] at hfront
  exact ⟨again, _, read_eq_form_iff.mpr ⟨front, hfront, hderives⟩, hecho⟩

end Reader

/-- Code can be read back. A form that was read, other than the one for the end of the text,
denotes a datum whose printed text is read as one form again, and that is the same form. With a
limit on the depth it is so where the limit allows for the text. -/
theorem code_reads_back {source : List Char} {e : Form}
    (h : Reader.readFirst source = .ok e ∨ e ∈ (Reader.readForms source).1 ∨
      ∃ limit, e ∈ (Reader.readFormsWithin limit source).1)
    (heof : e.tag ≠ .eof) (hprint : ∀ t ∈ e.flat, t.Printable) (store : Store) :
    ∃ v text again, e.datum = .ok v ∧ v.printed store = .ok text ∧
      Reader.readFirst text.toList = .ok again ∧ Reader.readAll text.toList = .ok [again] ∧
      e.echoes again = true ∧
      ∃ enough, ∀ limit, enough ≤ limit → v.printedWithin limit store = .ok text ∧
        Reader.readAllWithin limit text.toList = .ok [again] := by
  have hmem : e ∈ (Reader.readForms source).1 ∨
      ∃ limit, e ∈ (Reader.readFormsWithin limit source).1 := by
    obtain hfirst | hmem := h
    · exact Or.inl (Reader.mem_readForms_of_readFirst hfirst heof)
    · exact hmem
  obtain ⟨front, hderives, htext⟩ := Reader.exists_derives_of_mem hmem
  have hall : Form.AllPrintable [e] := by
    intro t ht
    exact hprint t (by simpa using ht)
  obtain ⟨_, _, _, v, words, -, ⟨⟩, hdatum, ⟨text, hprinted, hlexes⟩, hrestores, -⟩ :=
    hderives.readsBack store htext hall
  obtain ⟨again, eof, hread, hecho⟩ :=
    Reader.readTokens_of_lexes (hlexes [] stops_nil) hrestores
  have hforms : Reader.readTokens (.ofSource text.toList) = ([again], none) :=
    Reader.readTokens_form hread
  obtain ⟨nested, hnested⟩ := v.exists_nestsWithin
  refine ⟨v, text, again, hdatum, hprinted, ?_, ?_, hecho,
    max nested (Tokens.ofSource text.toList).length, fun limit hlimit => ⟨?_, ?_⟩⟩
  · rw [Reader.readFirst, Reader.readFirstOf, hread]
    rfl
  · rw [Reader.readAll, Reader.readForms, hforms]
    rfl
  · rw [Value.printedWithin, hnested limit (by omega), if_pos rfl, hprinted]
  · rw [Reader.readAllWithin, Reader.readFormsWithin, Tokens.within_of_length_le (by omega), hforms]
    rfl

theorem code_reads_back_cond : ∃ e v again,
    Reader.readFirst "(cond (x `(,y #\\c 1/2)))".toList = .ok e ∧ e.tag ≠ .eof ∧
      (∀ t ∈ e.flat, t.Printable) ∧ e.datum = .ok v ∧
      v.printed Session.givenStore = .ok "(cond (x (quasi-quote ((unquote y) \"c\" 1/2))))" ∧
      Reader.readFirst "(cond (x (quasi-quote ((unquote y) \"c\" 1/2))))".toList = .ok again ∧
      e.echoes again = true := by
  -- asked together, so that the text is read once
  obtain ⟨hok, hsaid, htag, htext⟩ :
      let read := Reader.readFirst "(cond (x `(,y #\\c 1/2)))".toList
      read.isOk = true ∧
        read.toOption.map (fun e => e.flat.map said) = some
          [(.lparen, .text "("), (.cond, .text "cond"), (.lparen, .text "("),
            (.symbol, .text "x"), (.quasiquote, .text "\x60"), (.lparen, .text "("),
            (.unquote, .text ","), (.symbol, .text "y"), (.character, .text "c"),
            (.number, .number (.scalar (.rational (1 / 2)))), (.rparen, .text ")"),
            (.rparen, .text ")"), (.rparen, .text ")")] ∧
        read.toOption.map Form.tag = some .cond ∧
        (read.toOption.bind fun e => e.datum.toOption.bind fun v =>
          (v.printed Session.givenStore).toOption) =
            some "(cond (x (quasi-quote ((unquote y) \"c\" 1/2))))" := by
    decide +kernel
  obtain ⟨e, he⟩ := exists_ok_of_isOk hok
  rw [he] at hsaid htag htext
  have hwords : e.flat.map said = _ := Option.some.inj hsaid
  have heof : e.tag ≠ .eof := by
    rw [Option.some.inj htag]
    decide
  have hprint : ∀ t ∈ e.flat, t.Printable := by
    intro t ht
    have hmem := List.mem_map_of_mem (f := said) ht
    rw [hwords] at hmem
    simp only [List.mem_cons, List.not_mem_nil, or_false] at hmem
    rcases hmem with h | h | h | h | h | h | h | h | h | h | h | h | h
    case inr.inr.inr.inr.inr.inr.inr.inr.inr.inl =>
      obtain ⟨_, _, place⟩ := t
      cases h
      refine ⟨nofun, nofun, fun n hn => ?_, nofun⟩
      cases hn
      exact ⟨(by decide +kernel : 1 < (1 / 2 : ℚ).den), "1/2", by decide +kernel⟩
    all_goals exact .of_text h (by decide) (by decide) (by decide)
  obtain ⟨v, text, again, hdatum, hprinted, hagain, -, hecho, -⟩ :=
    code_reads_back (Or.inl he) heof hprint Session.givenStore
  change (e.datum.toOption.bind fun v => (v.printed Session.givenStore).toOption) = _ at htext
  rw [hdatum] at htext
  change (v.printed Session.givenStore).toOption = _ at htext
  rw [hprinted] at htext
  cases htext
  exact ⟨e, v, again, he, heof, hprint, hdatum, hprinted, hagain, hecho⟩

end TowerLisp
