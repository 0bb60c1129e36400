import TowerLisp.Proofs.QuotedTexts
import TowerLisp.Proofs.Quasiquotes
import TowerLisp.Proofs.ReadBack
import TowerLisp.Proofs.TextJoining

/-!
Quoting and quasiquoting. A text of data in which nothing is unquoted at depth one is the same
behind a quote and behind a quasiquote, if it can be read behind the quote. Quotes start the count
one below quasiquotes, so that a nested template in quoted data has code in it; where that has no
effect, as nothing is unquoted at depth two either, the two read the same texts.
-/

namespace TowerLisp

open Tokens (following)

/-- A phrase of data as it is read at a smaller depth. -/
def Phrase.lowered (levels : Nat) : Phrase → Phrase
  | .one (.data depth) => .one (.data (depth - levels))
  | .items (.data depth) dots => .items (.data (depth - levels)) dots
  | phrase => phrase

/-- The depth of a phrase of data. -/
def Phrase.depth : Phrase → Nat
  | .one (.data depth) => depth
  | .items (.data depth) _ => depth
  | _ => 0

/-- A quoting token above depth one, and not at the depth at which the lowered one unquotes code,
quotes data, both where it stands and in the lowered count. -/
theorem Tag.inside?_lowered {tag : Tag} {depth levels : Nat} {depths : List Nat}
    (hdepth : levels ≤ 1 ∧ 1 ≤ depth) (hone : 1 ∉ tag.tally depth ++ depths)
    (hcode : levels + 1 ∉ tag.tally depth ++ depths) :
    (Mode.data (depth - levels)).inside? tag = some (.data (tag.depthInside depth - levels)) ∧
      1 ≤ tag.depthInside depth ∧ 1 ∉ depths ∧ levels + 1 ∉ depths := by
  rw [List.mem_append, not_or] at hone hcode
  suffices
      (Mode.data (depth - levels)).inside? tag = some (.data (tag.depthInside depth - levels)) ∧
        1 ≤ tag.depthInside depth from ⟨this.1, this.2, hone.2, hcode.2⟩
  by_cases hunquotes : tag.unquotes = true
  · have hdeep : depth ≠ 1 ∧ depth ≠ levels + 1 := by
      simpa [tally, hunquotes, eq_comm] using And.intro hone.1 hcode.1
    have hlow : depth - levels ≠ 1 := by omega
    have hinside : tag = .unquote ∨ tag = .splice := by simpa [unquotes] using hunquotes
    simp only [Mode.inside?, depthInside, hunquotes, if_true]
    rw [if_pos (by simpa using hinside), if_neg hlow]
    exact ⟨congrArg (fun depth => some (Mode.data depth)) (by omega), by omega⟩
  · have hinside : ¬ (tag = .unquote ∨ tag = .splice) := by simpa [unquotes] using hunquotes
    rw [Bool.not_eq_true] at hunquotes
    simp only [Mode.inside?, depthInside, hunquotes, Bool.false_eq_true, if_false]
    rw [if_neg (by simpa using hinside)]
    by_cases hquasi : tag = .quasiquote
    · simp only [hquasi, if_true]
      exact ⟨congrArg (fun depth => some (Mode.data depth)) (by omega), by omega⟩
    · simp only [hquasi, if_false]
      exact ⟨trivial, hdepth.2⟩

/-- Data in which nothing is unquoted at depth one, nor where the lowered count is one, is read at
the lowered depth without any code, and denotes the same. -/
theorem Tallied.noted {phrase : Phrase} {front : List Token} {v : Value} {depths : List Nat}
    (h : Tallied phrase front v depths) (levels : Nat) (hlevels : levels ≤ 1)
    (hdepth : 1 ≤ phrase.depth) (hone : 1 ∉ depths) (hcode : levels + 1 ∉ depths) :
    ∃ forms notes, Noted (phrase.lowered levels) front forms notes ∧ codeOf notes = [] ∧
      phrase.Says forms v := by
  induction h with
  | atom hatom hform hv => exact ⟨_, _, .atom hatom hform, rfl, .of_datum hv⟩
  | word hkeyword hmarked htext =>
    refine ⟨_, _, .word hkeyword hmarked, rfl, .of_datum ?_⟩
    rw [Form.datum_leaf, htext]
    rfl
  | empty hopener hcloser =>
    exact ⟨_, _, .empty hopener hcloser, rfl, .of_datum (by rw [Form.compoundAt, Form.datum]; rfl)⟩
  | mark hprefix _ ih =>
    have hquoting := Token.isQuoting_of_isPrefix hprefix
    obtain ⟨hinside, hdepth', hone', hcode'⟩ :=
      Tag.inside?_lowered ⟨hlevels, hdepth⟩ hone hcode
    obtain ⟨_, notes, hnotes, hnone, form, rfl, hdatum⟩ := ih hdepth' hone' hcode'
    exact ⟨_, _, .mark hprefix hinside hnotes, by rw [codeOf_data, hnone],
      .quoting hquoting hdatum⟩
  | quotation hopener hword _ hcloser ih =>
    obtain ⟨hquoting, hmarked⟩ := (Bool.and_eq_true _ _).mp hword
    obtain ⟨hinside, hdepth', hone', hcode'⟩ :=
      Tag.inside?_lowered ⟨hlevels, hdepth⟩ hone hcode
    obtain ⟨_, notes, hnotes, hnone, form, rfl, hdatum⟩ := ih hdepth' hone' hcode'
    exact ⟨_, _, .quotation hopener hquoting (by simpa using hmarked) hinside hnotes hcloser,
      by rw [codeOf_data, hnone], .quoting hquoting hdatum⟩
  | list hopener hword _ _ ih ihrest =>
    rw [List.mem_append, not_or] at hone hcode
    obtain ⟨_, notes, hnotes, hnone, form, rfl, hdatum⟩ := ih hdepth hone.1 hcode.1
    obtain ⟨others, more, hmore, hnomore, hlist⟩ := ihrest hdepth hone.2 hcode.2
    refine ⟨_, _, .list hopener ?_ hnotes hmore, by simp [hnone, hnomore],
      .group rfl (by decide) (datumList_cons hnotes.derives.tag_ne_dot hdatum hlist) _⟩
    simpa [Token.isQuotingWord] using hword
  | close hcloser => exact ⟨[], [], .close hcloser, rfl, rfl⟩
  | @dotted _ dot _ _ _ _ hdot _ hcloser ih =>
    obtain ⟨_, notes, hnotes, hnone, form, rfl, hdatum⟩ := ih hdepth hone hcode
    exact ⟨_, _, .dotted hdot hnotes hcloser, hnone, datumList_dotted hdatum dot⟩
  | more _ _ ih ihrest =>
    rw [List.mem_append, not_or] at hone hcode
    obtain ⟨_, notes, hnotes, hnone, form, rfl, hdatum⟩ := ih hdepth hone.1 hcode.1
    obtain ⟨others, more, hmore, hnomore, hlist⟩ := ihrest hdepth hone.2 hcode.2
    exact ⟨_, _, .more hnotes hmore, by simp [hnone, hnomore],
      datumList_cons hnotes.derives.tag_ne_dot hdatum hlist⟩

/-- The counted depths do not depend on the places of tokens. -/
theorem Standing.unquoteDepths_congr {front others : List Token}
    (h : front.map Token.said = others.map Token.said) (here : Standing) :
    here.unquoteDepths front = here.unquoteDepths others := by
  induction front generalizing others here with
  | nil => rw [List.map_eq_nil_iff.mp h.symm]
  | cons token front ih =>
    obtain ⟨token', others, rfl, htoken, hrest⟩ := List.map_eq_cons_iff.mp h.symm
    obtain ⟨tag, payload, place⟩ := token
    obtain ⟨tag', payload', place'⟩ := token'
    cases htoken
    exact congrArg (_ ++ ·) (ih hrest.symm _)

namespace Cursor

/-- Before the same text the end is found at the same time. -/
theorem scan_end {c d after : Cursor} {t : Token} (hahead : d.ahead = c.ahead)
    (h : c.scan = (.ok t, after)) (heof : t.tag = .eof) :
    ∃ t' after', d.scan = (.ok t', after') ∧ t'.tag = .eof := by
  have htrivia : d.skipTrivia.ahead = c.skipTrivia.ahead := by
    rw [skipTrivia, skipTrivia, ahead_skip, ahead_skip, hahead]
  obtain ⟨hend, -, -⟩ | ⟨-, hscanned⟩ := scanHere_cases h
  · rw [current, ← htrivia] at hend
    refine ⟨d.skipTrivia.token .eof "EOF", d.skipTrivia, ?_, rfl⟩
    rw [scan, scanHere]
    exact if_pos hend
  · have hspelled := hscanned.spelled
    rw [Token.Spelled, heof] at hspelled
    exact hspelled.not_eof.elim

end Cursor

/-- Wherever a text stands, the same tokens are found in it. -/
theorem Tokens.said_ofCursor {c d : Cursor} (hahead : d.ahead = c.ahead) {front : List Token}
    {eof : Token} (h : ofCursor c = following front (.done eof)) :
    (ofCursor d).toList.map Token.said = front.map Token.said := by
  induction front generalizing c d with
  | nil =>
    obtain ⟨scanned, after, hscan⟩ : ∃ scanned after, c.scan = (scanned, after) := ⟨_, _, rfl⟩
    cases scanned with
    | error fault =>
      rw [ofCursor_broken hscan] at h
      cases h
    | ok t =>
      by_cases heof : t.tag = .eof
      · obtain ⟨t', after', hscan', heof'⟩ := Cursor.scan_end hahead hscan heof
        rw [ofCursor_done hscan' heof']
        rfl
      · rw [ofCursor_more hscan heof] at h
        cases h
  | cons token front ih =>
    obtain ⟨after, hscan⟩ := scan_of_ofCursor_more h
    have heof : token.tag ≠ .eof := by
      intro heof
      rw [ofCursor_done hscan heof] at h
      cases h
    obtain ⟨n, place, hn, rfl, hscan'⟩ :=
      Cursor.scan_repeats ⟨by rw [hahead, List.append_nil], stops_nil⟩ heof hscan
    rw [ofCursor_more hscan heof] at h
    have hrest := ih (c := c.skip n) (d := d.skip n)
      (by rw [Cursor.ahead_skip, Cursor.ahead_skip, hahead]) (Tokens.more.inj h).2
    rw [ofCursor_more hscan' heof, toList, List.map_cons, List.map_cons, hrest]
    rfl

theorem Tokens.relabel_some (tokens : Tokens) : tokens.relabel some = tokens := by
  induction tokens with
  | done eof => rw [relabel, Token.relabel_some]
  | broken fault => cases fault <;> simp [relabel, Fault.relabel]
  | more token rest ih => rw [relabel, Token.relabel_some, ih]

/-- The mark of a quote, in front of a text. -/
def quoteMark : Token := ⟨.quote, .text "'", some .first⟩

/-- The mark of a quasiquote, in front of a text. -/
def quasiquoteMark : Token := ⟨.quasiquote, .text "\x60", some .first⟩

/-- The tokens of a text behind one mark. -/
def Tokens.behindMark (text : List Char) : Tokens :=
  ofCursor (Cursor.start ('\x27' :: text)).advance

theorem Tokens.ofSource_quote (text : List Char) :
    ofSource ('\x27' :: text) = .more quoteMark (behindMark text) := by
  have hahead : (Cursor.start ('\x27' :: text)).ahead = '\x27' :: text := rfl
  refine ofCursor_more (t := quoteMark) ?_ (by decide)
  rw [Cursor.scan, Cursor.skipTrivia_of_start hahead (by decide) (by decide),
    Cursor.scanHere_mark (current_of_ahead hahead) (by decide) (by decide) (by decide) (by decide)
      (by decide) (by decide) (by decide)]
  rfl

theorem Tokens.ofSource_quasiquote (text : List Char) :
    ofSource ('\x60' :: text) = .more quasiquoteMark (behindMark text) := by
  have hahead : (Cursor.start ('\x60' :: text)).ahead = '\x60' :: text := rfl
  have hscan : (Cursor.start ('\x60' :: text)).scan =
      (.ok quasiquoteMark, (Cursor.start ('\x60' :: text)).advance) := by
    rw [Cursor.scan, Cursor.skipTrivia_of_start hahead (by decide) (by decide),
      Cursor.scanHere_mark (current_of_ahead hahead) (by decide) (by decide) (by decide)
        (by decide) (by decide) (by decide) (by decide)]
    rfl
  have hbelow : Cursor.Below 0 (Cursor.start ('\x27' :: text)).advance
      (Cursor.start ('\x60' :: text)).advance := ⟨rfl, rfl⟩
  have hnone : Place.lowered 0 = some := rfl
  rw [ofSource, ofCursor_more hscan (by decide), ofCursor_below hbelow, hnone, relabel_some,
    behindMark]

/-- Code that starts with a quoting mark is the form behind it, quoted. -/
theorem Derives.of_mark {mark : Token} {inner : Mode} (hmark : mark.isPrefix = true)
    (hinside : Mode.code.inside? mark.tag = some inner) {front : List Token} {form : Form}
    (h : Derives (.one .code) (mark :: front) [form]) :
    ∃ quoted, Derives (.one inner) front [quoted] ∧
      form = .compoundAt mark.tag [quoted] mark := by
  have hquoting := Token.isQuoting_of_isPrefix hmark
  obtain ⟨hopens, -⟩ := Tag.ne_parens (Tag.isSome_keyword_of_isQuoting hquoting)
  cases h with
  | atom hatom => rw [Tag.isQuoting_of_isAtom hatom] at hquoting; cases hquoting
  | mark _ hinside' hquoted =>
    cases hinside.symm.trans hinside'
    exact ⟨_, hquoted, rfl⟩
  | _ => contradiction

namespace Reader

/-- A quoting mark in front of tokens is read with one form that they make up. -/
theorem readTokens_marked {mark : Token} {inner : Mode} (hmark : mark.isPrefix = true)
    (hinside : Mode.code.inside? mark.tag = some inner) {rest : Tokens} {form : Form} :
    readTokens (.more mark rest) = ([form], none) ↔
      ∃ front eof quoted, rest = following front (.done eof) ∧
        Derives (.one inner) front [quoted] ∧ form = .compoundAt mark.tag [quoted] mark := by
  constructor
  · intro h
    obtain ⟨all, eof, htokens, hall⟩ := derivesAll_of_readTokens h
    cases hall with
    | @cons all _ _ _ hform hnone =>
      cases hnone
      obtain ⟨first, front, _, rfl, -⟩ := hform.first
      rw [List.append_nil] at htokens
      cases htokens
      obtain ⟨quoted, hquoted, rfl⟩ := hform.of_mark hmark hinside
      exact ⟨front, eof, quoted, rfl, hquoted, rfl⟩
  · rintro ⟨front, eof, quoted, rfl, hquoted, rfl⟩
    have hall := DerivesAll.cons (.mark hmark hinside hquoted) .nil
    rw [List.append_nil] at hall
    exact readTokens_following hall (.done eof)

end Reader

/-- Tokens that end well do not break off. -/
theorem Tokens.eq_of_breakOff {limit : Nat} {n : Nesting} {tokens : Tokens} {front : List Token}
    {eof : Token} (h : tokens.breakOff limit n = following front (.done eof)) :
    tokens = following front (.done eof) := by
  induction tokens generalizing n front with
  | done _ | broken _ => exact h
  | more token rest ih =>
    rw [breakOff] at h
    split at h
    · cases front with
      | nil => cases h
      | cons first others => cases h
    · cases front with
      | nil => cases h
      | cons first others =>
        obtain ⟨rfl, hrest⟩ := Tokens.more.inj h
        rw [ih hrest]
        rfl

/-- The tokens of a text that stays within a limit behind one mark. -/
def Tokens.EndsBehindMark (limit : Nat) (text : List Char) (front : List Token) : Prop :=
  1 ≤ limit ∧ ∃ eof, (behindMark text).breakOff limit ⟨0, 1⟩ = following front (.done eof)

namespace Reader

/-- A text behind a mark is read as one form that is quoted. -/
theorem readAllWithin_mark {char : Char} {text : List Char} {mark : Token} {inner : Mode}
    (htokens : Tokens.ofSource (char :: text) = .more mark (.behindMark text))
    (hmark : mark.isPrefix = true) (hinside : Mode.code.inside? mark.tag = some inner)
    {limit : Nat} {form : Form} :
    readAllWithin limit (char :: text) = .ok [form] ↔
      ∃ front quoted, Tokens.EndsBehindMark limit text front ∧
        Derives (.one inner) front [quoted] ∧ form = .compoundAt mark.tag [quoted] mark := by
  have hread : readAllWithin limit (char :: text) = .ok [form] ↔
      readFormsWithin limit (char :: text) = ([form], none) := by
    constructor
    · exact allOrNone_eq_ok
    · intro h
      rw [readAllWithin, h]
      rfl
  rw [hread, readFormsWithin, htokens, Tokens.within_eq, Tokens.breakOff,
    Nesting.after_mark _ _ hmark]
  by_cases hlimit : 1 ≤ limit
  · have hfits : ¬ limit < Nesting.depth ⟨0, 0 + 1⟩ := Nat.not_lt.mpr hlimit
    rw [if_neg hfits, readTokens_marked hmark hinside]
    constructor
    · rintro ⟨front, eof, quoted, hrest, hquoted, hform⟩
      exact ⟨front, quoted, ⟨hlimit, eof, hrest⟩, hquoted, hform⟩
    · rintro ⟨front, quoted, ⟨-, eof, hrest⟩, hquoted, hform⟩
      exact ⟨front, eof, quoted, hrest, hquoted, hform⟩
  · have hdeep : limit < Nesting.depth ⟨0, 0 + 1⟩ := Nat.lt_of_not_le hlimit
    rw [if_pos hdeep]
    constructor
    · intro h
      cases h
    · rintro ⟨_, _, ⟨hfits, -⟩, -⟩
      exact (hlimit hfits).elim

variable {limit : Nat} {text : List Char} {form : Form}

theorem readAllWithin_quote : readAllWithin limit ('\x27' :: text) = .ok [form] ↔
    ∃ front quoted, Tokens.EndsBehindMark limit text front ∧
      Derives (.one (.data 0)) front [quoted] ∧ form = .compoundAt .quote [quoted] quoteMark :=
  readAllWithin_mark (Tokens.ofSource_quote text) (by decide) rfl

theorem readAllWithin_quasiquote : readAllWithin limit ('\x60' :: text) = .ok [form] ↔
    ∃ front quoted, Tokens.EndsBehindMark limit text front ∧
      Derives (.one (.data 1)) front [quoted] ∧
      form = .compoundAt .quasiquote [quoted] quasiquoteMark :=
  readAllWithin_mark (Tokens.ofSource_quasiquote text) (by decide) rfl

theorem exists_of_single (h : ((readAllWithin limit text).toOption.map List.length) = some 1) :
    ∃ form, readAllWithin limit text = .ok [form] := by
  cases hread : readAllWithin limit text with
  | error _ => simp [hread, Except.toOption] at h
  | ok forms =>
    obtain ⟨form, rfl⟩ := List.length_eq_one_iff.mp (by simpa [hread, Except.toOption] using h)
    exact ⟨form, rfl⟩

end Reader

/-- What is read behind a mark is a datum in which the depths of the text are counted. -/
theorem Derives.tallied_behindMark {limit : Nat} {text : List Char} {front : List Token}
    {mode : Mode} {quoted : Form} (hfront : Tokens.EndsBehindMark limit text front)
    (h : Derives (.one mode) front [quoted]) :
    ∃ v, Tallied (.one (.data 1)) front v (unquoteDepths text) ∧ quoted.datum = .ok v := by
  obtain ⟨-, eof, hends⟩ := hfront
  have htokens := Tokens.eq_of_breakOff hends
  have hspelled : ∀ t ∈ front, t.Spelled := fun t ht =>
    Tokens.ofCursor_spelled _ t (by
      rw [show Tokens.ofCursor _ = following front (.done eof) from htokens,
        Tokens.toList_following]
      exact List.mem_append_left _ ht)
  obtain ⟨v, depths, hv, hsays⟩ := h.tallied hspelled 1
  have hcounted := hv.counted [] false [] nofun
  have hsaid : (Tokens.ofSource text).toList.map Token.said = front.map Token.said :=
    Tokens.said_ofCursor (c := (Cursor.start ('\x27' :: text)).advance) (d := .start text) rfl
      htokens
  rw [List.append_nil] at hcounted
  have hdepths : unquoteDepths text = depths :=
    (Standing.unquoteDepths_congr hsaid _).trans (hcounted.trans (List.append_nil depths))
  rw [hdepths]
  exact ⟨v, hv, hsays.datum⟩

/-- A form with a value that is found without evaluating anything else. -/
def Form.Constant (form : Form) (v : Value) : Prop :=
  ∀ (ev : Evaluator) (scope : ScopeId) (w : World), ev.next.run form scope w = .ok v w

theorem Noted.constant {front : List Token} {template : Form} {notes : List Note}
    (h : Noted (.one (.data 1)) front [template] notes) (hnone : codeOf notes = []) {v : Value}
    (hdatum : template.datum = .ok v) (mark : Token) (hmark : mark.tag = .quasiquote) :
    (Form.compoundAt mark.tag [template] mark).Constant v := by
  intro ev scope w
  have hfilled := h.filledAsRead
  have hquasi : ev.quasi scope 1 template w = .ok v w := by
    refine (hfilled.filled ev scope).mpr ⟨[], ?_, (hfilled.plain hnone).mpr hdatum⟩
    rw [hnone]
    rfl
  have heval : ev.next.eval (.compoundAt mark.tag [template] mark) scope true w =
      .ok (.done v) w := by
    rw [Form.compoundAt_self]
    change ev.evalForm ⟨mark, [template], true⟩ scope true w = _
    rw [ev.evalForm_quasiquote scope true hmark template]
    exact EvalM.bind_eq_ok_iff.mpr ⟨v, w, hquasi, rfl⟩
  refine EvalM.bind_eq_ok_iff.mpr ⟨.done v, w, heval, ?_⟩
  rw [Evaluator.finish, Evaluator.chase]
  rfl

/-- Text in which nothing is unquoted at depth one: if it can be read behind a quote it can be
read behind a quasiquote, and both are the same constant. If nothing is unquoted at depth two
either, both can be read or none. -/
theorem quote_agrees_with_quasiquote {text : List Char} (hone : 1 ∉ unquoteDepths text)
    (limit : Nat) :
    (∀ quotation, Reader.readAllWithin limit ('\x27' :: text) = .ok [quotation] →
      ∃ template v, Reader.readAllWithin limit ('\x60' :: text) = .ok [template] ∧
        quotation.Constant v ∧ template.Constant v) ∧
    (2 ∉ unquoteDepths text →
      ∀ template, Reader.readAllWithin limit ('\x60' :: text) = .ok [template] →
        ∃ quotation, Reader.readAllWithin limit ('\x27' :: text) = .ok [quotation]) := by
  constructor
  · intro quotation hquotation
    obtain ⟨front, quoted, hfront, hquoted, rfl⟩ := Reader.readAllWithin_quote.mp hquotation
    obtain ⟨v, htallied, hdatum⟩ := hquoted.tallied_behindMark hfront
    obtain ⟨_, notes, hnotes, hnone, template, rfl, htemplate⟩ :=
      htallied.noted 0 (by decide) (by decide) hone hone
    exact ⟨_, v, Reader.readAllWithin_quasiquote.mpr ⟨front, template, hfront, hnotes.derives, rfl⟩,
      fun ev => ev.run_quotation hdatum quoteMark,
      hnotes.constant hnone htemplate quasiquoteMark rfl⟩
  · intro htwo template htemplate
    obtain ⟨front, quoted, hfront, hquoted, rfl⟩ := Reader.readAllWithin_quasiquote.mp htemplate
    obtain ⟨v, htallied, -⟩ := hquoted.tallied_behindMark hfront
    obtain ⟨_, notes, hnotes, -, form, rfl, -⟩ :=
      htallied.noted 1 (by decide) (by decide) hone htwo
    exact ⟨_, Reader.readAllWithin_quote.mpr ⟨front, form, hfront, hnotes.derives, rfl⟩⟩

/-- A template two quasiquotes deeper, in a dotted list. -/
theorem quote_agrees_with_quasiquote_deeper :
    let text := "(a ``(b ,(c . d)) . e)".toList
    1 ∉ unquoteDepths text ∧ 2 ∉ unquoteDepths text ∧
      ∃ quotation template v, Reader.readAllWithin 9 ('\x27' :: text) = .ok [quotation] ∧
        Reader.readAllWithin 9 ('\x60' :: text) = .ok [template] ∧
        quotation.Constant v ∧ template.Constant v := by
  intro text
  obtain ⟨hone, htwo⟩ : 1 ∉ unquoteDepths text ∧ 2 ∉ unquoteDepths text := by decide +kernel
  obtain ⟨hagrees, hback⟩ := quote_agrees_with_quasiquote hone 9
  obtain ⟨form, hform⟩ : ∃ form, Reader.readAllWithin 9 ('\x60' :: text) = .ok [form] :=
    Reader.exists_of_single (by decide +kernel)
  obtain ⟨quotation, hquotation⟩ := hback htwo form hform
  obtain ⟨template, v, htemplate, hvalues⟩ := hagrees quotation hquotation
  exact ⟨hone, htwo, quotation, template, v, hquotation, htemplate, hvalues⟩

/-- Unquoted at depth two, behind a quote it is code, and cannot be read. -/
theorem dotted_pair_unreadable_as_quoted_code :
    let text := "`(a ,(b . c))".toList
    1 ∉ unquoteDepths text ∧
      (Reader.readAllWithin 9 ('\x27' :: text)).toOption.isNone = true ∧
      (Reader.readAllWithin 9 ('\x60' :: text)).toOption.map List.length = some 1 := by
  decide +kernel

end TowerLisp
