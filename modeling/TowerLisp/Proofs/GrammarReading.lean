import TowerLisp.Proofs.Grammar
import TowerLisp.Proofs.TokenConservation

/-!
The reader accepts the grammar. A phrase is read, with two steps for each of its tokens,
wherever it stands and whatever follows it.
-/

namespace TowerLisp

open Tokens (following)

namespace Reader

/-- Reads the form that starts with a token. -/
def readOne (fuel : Nat) (token : Token) : Mode → Tokens → Except Fault (Form × Tokens)
  | .code, tokens => expression fuel token tokens
  | .data depth, tokens => datum fuel token depth tokens

/-- Reads the items of a list up to its closing parenthesis. -/
def readItems (fuel : Nat) (opener : Token) (dots : Bool) :
    Mode → Tokens → Except Fault (List Form × Tokens)
  | .code, tokens => operands fuel opener dots tokens
  | .data depth, tokens => datumItems fuel opener depth tokens

end Reader

open Reader

/-- Tokens are read as forms of a phrase, with two steps for each token. -/
def Phrase.Accepts (phrase : Phrase) (front : List Token) (forms : List Form) : Prop :=
  match phrase with
  | .one mode => ∃ token others form, front = token :: others ∧ forms = [form] ∧
      token.tag.opensForm = true ∧
      ∀ fuel rest, 2 * front.length ≤ fuel →
        readOne fuel token mode (following others rest) = .ok (form, rest)
  | .items mode dots => ∀ fuel opener rest, 2 * front.length ≤ fuel →
      readItems fuel opener dots mode (following front rest) = .ok (forms, rest)
  | .clauses => ∀ fuel opener rest, 2 * front.length ≤ fuel →
      condClauses fuel opener (following front rest) = .ok (forms, rest)
  | .bindings => ∀ fuel opener label rest, 2 * front.length ≤ fuel →
      letBindings fuel opener label (following front rest) = .ok (forms, rest)

namespace Phrase.Accepts

variable {mode inner : Mode} {opener head token closer : Token} {front rest : List Token}
  {form quoted first : Form} {forms others arguments body : List Form}

/-- A token that is not a parenthesis or a prefix. -/
theorem plain (h : token.tag.isAtom = true) : token.tag ≠ .lparen ∧ token.isPrefix = false := by
  refine ⟨?_, ?_⟩
  · intro htag
    rw [htag] at h
    cases h
  · rw [Token.isPrefix, Bool.and_eq_false_iff]
    left
    revert h
    cases token.tag <;> decide

theorem atom (h : token.tag.isAtom = true) (hform : Reader.atom token = .ok form) :
    (Phrase.one mode).Accepts [token] [form] := by
  refine ⟨token, [], form, rfl, rfl, by rw [Tag.opensForm, h]; rfl, fun fuel rest hfuel => ?_⟩
  rw [List.length_singleton] at hfuel
  obtain ⟨fuel, rfl⟩ : ∃ n, fuel = n + 1 := ⟨fuel - 1, by omega⟩
  obtain ⟨hparen, hmarked⟩ := plain h
  cases mode with
  | code =>
    rw [readOne, expression, if_neg hparen, if_neg (by simp [hmarked]), if_pos h, hform]
    rfl
  | data depth =>
    rw [readOne, datum, if_neg hparen, if_neg (by simp [hmarked]), if_pos h, hform]
    rfl

/-- What stands behind an opening parenthesis is read by the steps that are left after one. -/
theorem parens (hopener : opener.tag = .lparen)
    (hcode : mode = .code → ∀ fuel others, 2 * front.length + 1 ≤ fuel →
      Reader.form fuel opener (following front others) = .ok (form, others))
    (hdata : ∀ depth, mode = .data depth → ∀ fuel others, 2 * front.length + 1 ≤ fuel →
      datumList fuel opener depth (following front others) = .ok (form, others)) :
    (Phrase.one mode).Accepts (opener :: front) [form] := by
  refine ⟨opener, front, form, rfl, rfl, by rw [hopener]; rfl, fun fuel others hfuel => ?_⟩
  rw [List.length_cons] at hfuel
  obtain ⟨fuel, rfl⟩ : ∃ n, fuel = n + 1 := ⟨fuel - 1, by omega⟩
  cases mode with
  | code =>
    rw [readOne, expression, if_pos hopener]
    exact hcode rfl fuel others (by omega)
  | data depth =>
    rw [readOne, datum, if_pos hopener]
    exact hdata depth rfl fuel others (by omega)

theorem empty (hopener : opener.tag = .lparen) (hcloser : closer.tag = .rparen) :
    (Phrase.one mode).Accepts [opener, closer] [.compoundAt .empty [] opener] := by
  refine parens hopener (fun _ fuel others hfuel => ?_) (fun depth _ fuel others hfuel => ?_)
  · obtain ⟨fuel, rfl⟩ : ∃ n, fuel = n + 1 := ⟨fuel - 1, by omega⟩
    change Reader.form (fuel + 1) opener (.more closer others) = _
    rw [Reader.form, next, ok_bind]
    dsimp only
    rw [if_pos hcloser]
    rfl
  · obtain ⟨fuel, rfl⟩ : ∃ n, fuel = n + 1 := ⟨fuel - 1, by omega⟩
    change datumList (fuel + 1) opener depth (.more closer others) = _
    rw [datumList, next, ok_bind]
    dsimp only
    rw [if_pos hcloser]
    rfl

/-- What a quoting token in code quotes. -/
theorem quoting (hinside : Mode.code.inside? token.tag = some inner)
    (h : (Phrase.one inner).Accepts front [quoted]) (fuel : Nat)
    (hfuel : 2 * front.length + 1 ≤ fuel) (others : Tokens) :
    Reader.quoting fuel token (following front others) =
      .ok (.compoundAt token.tag [quoted] token, others) := by
  obtain ⟨first, items, _, rfl, ⟨⟩, -, hread⟩ := h
  obtain ⟨fuel, rfl⟩ : ∃ n, fuel = n + 1 := ⟨fuel - 1, by omega⟩
  obtain ⟨depth, hdepth, rfl⟩ := Option.map_eq_some_iff.mp hinside
  have hquoted := hread fuel others (by omega)
  rw [readOne] at hquoted
  change Reader.quoting (fuel + 1) token (.more first (following items others)) = _
  rw [Reader.quoting, hdepth]
  dsimp only
  rw [nextQuoted, ok_bind]
  dsimp only
  rw [hquoted]
  rfl

/-- What a quoting token in data quotes. -/
theorem datumQuoting {depth : Nat} (hinside : (Mode.data depth).inside? token.tag = some inner)
    (h : (Phrase.one inner).Accepts front [quoted]) (opener : Token) (fuel : Nat)
    (hfuel : 2 * front.length + 1 ≤ fuel) (others : Tokens) :
    Reader.datumQuoting fuel token opener depth (following front others) =
      .ok (.compoundAt token.tag [quoted] token, others) := by
  obtain ⟨first, items, _, rfl, ⟨⟩, -, hread⟩ := h
  obtain ⟨fuel, rfl⟩ : ∃ n, fuel = n + 1 := ⟨fuel - 1, by omega⟩
  have hquoted := hread fuel others (by omega)
  change Reader.datumQuoting (fuel + 1) token opener depth
    (.more first (following items others)) = _
  rw [Reader.datumQuoting, nextQuoted, ok_bind]
  dsimp only [Mode.inside?] at hinside ⊢
  split at hinside
  · rename_i hunquotes
    cases hinside
    rw [hunquotes]
    by_cases hdepth : depth = 1
    · rw [if_pos hdepth, readOne] at hquoted
      simp only [hdepth, decide_true, Bool.and_true, if_true]
      rw [hquoted]
      rfl
    · rw [if_neg hdepth, readOne] at hquoted
      simp only [hdepth, decide_false, Bool.and_false, if_true, Bool.false_eq_true, if_false]
      rw [hquoted]
      rfl
  · rename_i hunquotes
    simp only [hunquotes, Bool.false_and, Bool.false_eq_true, if_false]
    split at hinside
    · rename_i hquasi
      cases hinside
      rw [readOne] at hquoted
      rw [if_pos hquasi, hquoted]
      rfl
    · rename_i hquasi
      cases hinside
      rw [readOne] at hquoted
      rw [if_neg hquasi, hquoted]
      rfl

theorem mark (hmarked : token.isPrefix = true) (hinside : mode.inside? token.tag = some inner)
    (h : (Phrase.one inner).Accepts front [quoted]) :
    (Phrase.one mode).Accepts (token :: front) [.compoundAt token.tag [quoted] token] := by
  have hquoting := Token.isQuoting_of_isPrefix hmarked
  have hparen : token.tag ≠ .lparen := by
    intro htag
    rw [htag] at hquoting
    cases hquoting
  refine ⟨token, front, _, rfl, rfl, Tag.opensForm_of_isQuoting hquoting,
    fun fuel others hfuel => ?_⟩
  rw [List.length_cons] at hfuel
  obtain ⟨fuel, rfl⟩ : ∃ n, fuel = n + 1 := ⟨fuel - 1, by omega⟩
  cases mode with
  | code =>
    rw [readOne, expression, if_neg hparen, if_pos hmarked]
    exact quoting hinside h fuel (by omega) others
  | data depth =>
    rw [readOne, datum, if_neg hparen, if_pos hmarked]
    exact datumQuoting hinside h token fuel (by omega) others

theorem close_more (opener : Token) (what : String) (hcloser : closer.tag = .rparen)
    (others : Tokens) : close opener what (.more closer others) = .ok others := by
  rw [close, next, ok_bind]
  dsimp only
  rw [if_pos hcloser]
  rfl

theorem quotation (hopener : opener.tag = .lparen) (hquoting : head.tag.isQuoting = true)
    (hmarked : head.isPrefix = false) (hinside : mode.inside? head.tag = some inner)
    (h : (Phrase.one inner).Accepts front [quoted]) (hcloser : closer.tag = .rparen) :
    (Phrase.one mode).Accepts (opener :: head :: (front ++ [closer]))
      [.compoundAt head.tag [quoted] head] := by
  refine parens hopener (fun hmode fuel others hfuel => ?_)
    (fun depth hmode fuel others hfuel => ?_)
  · subst hmode
    simp only [List.length_cons, List.length_append, List.length_nil] at hfuel
    obtain ⟨fuel, rfl⟩ : ∃ n, fuel = n + 1 := ⟨fuel - 1, by omega⟩
    have hread := quoting hinside h fuel (by omega) (.more closer others)
    have htags : head.tag ≠ .rparen ∧ head.tag ≠ .lparen ∧ head.tag ≠ .symbol ∧
        head.tag ≠ .operator ∧ head.tag ≠ .sequence ∧ head.tag.isLiteral = false ∧
        head.tag ≠ .lambda ∧ head.tag ≠ .define ∧ head.tag ≠ .cond ∧ head.tag ≠ .letAll ∧
        head.tag ≠ .letEach ∧ head.tag ≠ .letRec := by
      revert hquoting
      cases head.tag <;> decide
    change Reader.form (fuel + 1) opener (.more head (following (front ++ [closer]) others)) = _
    rw [Tokens.following_append, Reader.form, next, ok_bind]
    simp only [htags, hmarked, hquoting, decide_false, Bool.or_self, Bool.false_eq_true, if_false,
      if_true]
    rw [show following [closer] others = .more closer others from rfl, hread, ok_bind]
    dsimp only
    rw [close_more opener _ hcloser, ok_bind]
    rfl
  · subst hmode
    simp only [List.length_cons, List.length_append, List.length_nil] at hfuel
    obtain ⟨fuel, rfl⟩ : ∃ n, fuel = n + 1 := ⟨fuel - 1, by omega⟩
    have hread := datumQuoting hinside h opener fuel (by omega) (.more closer others)
    have hparen : head.tag ≠ .rparen := by
      intro htag
      rw [htag] at hquoting
      cases hquoting
    change datumList (fuel + 1) opener depth (.more head (following (front ++ [closer]) others)) = _
    rw [Tokens.following_append, datumList, next, ok_bind]
    simp only [hparen, hmarked, hquoting, Bool.not_false, Bool.and_self, if_false, if_true]
    rw [show following [closer] others = .more closer others from rfl, hread, ok_bind]
    dsimp only
    rw [close_more opener _ hcloser, ok_bind]
    rfl

/-- A form in code with a head, which is read by the steps that are left after two. -/
theorem headedForm (hopener : opener.tag = .lparen)
    (h : ∀ fuel others, 2 * rest.length + 2 ≤ fuel →
      Reader.form (fuel + 1) opener (.more head (following rest others)) = .ok (form, others)) :
    (Phrase.one .code).Accepts (opener :: head :: rest) [form] := by
  refine parens hopener (fun _ fuel others hfuel => ?_) nofun
  rw [List.length_cons] at hfuel
  obtain ⟨fuel, rfl⟩ : ∃ n, fuel = n + 1 := ⟨fuel - 1, by omega⟩
  exact h fuel others (by omega)

theorem application (hopener : opener.tag = .lparen)
    (hhead : head.tag = .lparen ∨ head.isPrefix = true)
    (h : (Phrase.one .code).Accepts (head :: front) [form])
    (hs : (Phrase.items .code false).Accepts rest arguments) :
    (Phrase.one .code).Accepts (opener :: head :: (front ++ rest))
      [.compoundAt .apply (form :: arguments) opener] := by
  obtain ⟨_, _, _, ⟨⟩, ⟨⟩, hopens, hread⟩ := h
  refine headedForm hopener fun fuel others hfuel => ?_
  rw [List.length_append] at hfuel
  have hoperator := hread fuel (following rest others) (by rw [List.length_cons]; omega)
  have harguments := hs fuel opener others (by omega)
  rw [readOne] at hoperator
  rw [readItems] at harguments
  rw [Tokens.following_append, Reader.form, next, ok_bind]
  dsimp only
  rw [if_neg (Tag.opensForm_ne hopens).1, if_pos (by simpa using hhead), hoperator, ok_bind]
  dsimp only
  rw [harguments]
  rfl

theorem headed (hopener : opener.tag = .lparen)
    (hhead : head.tag = .symbol ∨ head.tag = .operator ∨ head.tag = .sequence)
    (hs : (Phrase.items .code false).Accepts rest arguments) :
    (Phrase.one .code).Accepts (opener :: head :: rest) [⟨head, arguments, true⟩] := by
  refine headedForm hopener fun fuel others hfuel => ?_
  have harguments := hs fuel opener others (by omega)
  rw [readItems] at harguments
  have hmarked : head.isPrefix = false := by
    rw [Token.isPrefix]
    rcases hhead with hhead | hhead | hhead <;> rw [hhead] <;> rfl
  rw [Reader.form, next, ok_bind]
  rcases hhead with hhead | hhead | hhead <;> simp [hhead, hmarked, harguments, pure, Except.pure]

theorem literals (hopener : opener.tag = .lparen) (hhead : head.tag.isLiteral = true)
    (hfirst : Reader.atom head = .ok first)
    (hs : (Phrase.items .code true).Accepts rest others) :
    (Phrase.one .code).Accepts (opener :: head :: rest)
      [.compoundAt .list (first :: others) head] := by
  refine headedForm hopener fun fuel last hfuel => ?_
  have hothers := hs fuel opener last (by omega)
  rw [readItems] at hothers
  have htags : head.tag ≠ .rparen ∧ head.tag ≠ .lparen ∧ head.tag ≠ .symbol ∧
      head.tag ≠ .operator ∧ head.tag ≠ .sequence ∧ head.tag.isAtom = true := by
    revert hhead
    cases head.tag <;> decide
  have hmarked := (plain htags.2.2.2.2.2).2
  rw [Reader.form, next, ok_bind]
  simp only [htags, hmarked, hhead, decide_false, Bool.or_self, Bool.false_eq_true, if_false,
    if_true]
  rw [hfirst, ok_bind, hothers]
  rfl

/-- Names that differ from each other and from those seen before are parameters. -/
theorem parameters {names : List Token} {texts seen : List String}
    (hnames : ∀ name ∈ names, name.tag = .symbol)
    (htexts : names.mapM (·.payload.written) = .ok texts) (hnodup : texts.Nodup)
    (hseen : ∀ text ∈ texts, text ∉ seen) (hcloser : closer.tag = .rparen) (others : Tokens) :
    Reader.parameters opener seen (following names (.more closer others)) =
      .ok (names.map .leaf, others) := by
  induction names generalizing texts seen with
  | nil =>
    change Reader.parameters opener seen (.more closer others) = _
    rw [Reader.parameters, if_pos hcloser]
    rfl
  | cons name names ih =>
    rw [List.mapM_cons] at htexts
    obtain ⟨text, htext, htexts⟩ := bind_eq_ok htexts
    obtain ⟨texts, hrest, htexts⟩ := bind_eq_ok htexts
    cases htexts
    rw [List.nodup_cons] at hnodup
    rw [List.forall_mem_cons] at hseen hnames
    have hothers : ∀ other ∈ texts, other ∉ text :: seen := by
      intro other hother hmem
      rcases List.mem_cons.mp hmem with rfl | hmem
      · exact hnodup.1 hother
      · exact hseen.2 other hother hmem
    have hread := ih hnames.2 hrest hnodup.2 hothers
    change Reader.parameters opener seen (.more name (following names (.more closer others))) = _
    rw [Reader.parameters, if_neg (by rw [hnames.1]; decide), if_pos hnames.1, htext, ok_bind]
    simp only [List.contains_eq_mem, decide_eq_true_eq]
    rw [if_neg hseen.1, hread]
    rfl

theorem lambda {listOpener : Token} {names : List Token} {texts : List String}
    (hopener : opener.tag = .lparen) (hhead : head.tag = .lambda)
    (hlist : listOpener.tag = .lparen) (hnames : ∀ name ∈ names, name.tag = .symbol)
    (htexts : names.mapM (·.payload.written) = .ok texts) (hnodup : texts.Nodup)
    (hcloser : closer.tag = .rparen) (hs : (Phrase.items .code false).Accepts rest body)
    (hbody : body ≠ []) :
    (Phrase.one .code).Accepts (opener :: head :: listOpener :: (names ++ closer :: rest))
      [⟨head, .compoundAt .params (names.map .leaf) listOpener :: body, true⟩] := by
  refine headedForm hopener fun fuel others hfuel => ?_
  simp only [List.length_cons, List.length_append] at hfuel
  obtain ⟨fuel, rfl⟩ : ∃ n, fuel = n + 1 := ⟨fuel - 1, by omega⟩
  have hread := hs fuel opener others (by omega)
  rw [readItems] at hread
  have hmarked : head.isPrefix = false := by rw [Token.isPrefix, hhead]; rfl
  have hparams : Reader.parameters opener [] (following names (.more closer
      (following rest others))) = .ok (names.map .leaf, following rest others) :=
    parameters hnames htexts hnodup (fun _ _ => List.not_mem_nil) hcloser _
  have hform : Reader.form (fuel + 2) opener (.more head (.more listOpener
      (following names (.more closer (following rest others))))) =
      Reader.lambdaForm (fuel + 1) head opener (.more listOpener
        (following names (.more closer (following rest others)))) := by
    rw [Reader.form, next, ok_bind]
    simp [hhead, hmarked, Tag.isLiteral]
  change Reader.form (fuel + 2) opener (.more head (.more listOpener
    (following (names ++ closer :: rest) others))) = _
  rw [Tokens.following_append]
  refine hform.trans ?_
  rw [Reader.lambdaForm, next, ok_bind]
  dsimp only
  rw [if_pos hlist, hparams, ok_bind]
  dsimp only
  rw [hread, ok_bind]
  dsimp only
  rw [if_neg (by simpa using hbody)]
  rfl

theorem define {name : Token} {value : Form} (hopener : opener.tag = .lparen)
    (hhead : head.tag = .define) (hname : name.tag = .symbol)
    (hs : (Phrase.items .code false).Accepts rest [value]) :
    (Phrase.one .code).Accepts (opener :: head :: name :: rest)
      [⟨head, [.leaf name, value], true⟩] := by
  refine headedForm hopener fun fuel others hfuel => ?_
  rw [List.length_cons] at hfuel
  obtain ⟨fuel, rfl⟩ : ∃ n, fuel = n + 1 := ⟨fuel - 1, by omega⟩
  have hread := hs fuel opener others (by omega)
  rw [readItems] at hread
  have hmarked : head.isPrefix = false := by rw [Token.isPrefix, hhead]; rfl
  have hform : Reader.form (fuel + 2) opener (.more head (.more name (following rest others))) =
      Reader.defineForm (fuel + 1) head opener (.more name (following rest others)) := by
    rw [Reader.form, next, ok_bind]
    simp [hhead, hmarked, Tag.isLiteral]
  refine hform.trans ?_
  rw [Reader.defineForm, next, ok_bind]
  dsimp only
  rw [if_pos hname, hread]
  rfl

theorem cond {clauses : List Form} (hopener : opener.tag = .lparen) (hhead : head.tag = .cond)
    (hs : Phrase.clauses.Accepts rest clauses) :
    (Phrase.one .code).Accepts (opener :: head :: rest) [⟨head, clauses, true⟩] := by
  refine headedForm hopener fun fuel others hfuel => ?_
  have hread := hs fuel opener others (by omega)
  have hmarked : head.isPrefix = false := by rw [Token.isPrefix, hhead]; rfl
  rw [Reader.form, next, ok_bind]
  simp [hhead, hmarked, Tag.isLiteral, hread, pure, Except.pure]

/-- A let is read by `letForm`. -/
theorem letHead (hopener : opener.tag = .lparen)
    (hhead : head.tag = .letAll ∨ head.tag = .letEach ∨ head.tag = .letRec)
    (h : ∀ fuel others, 2 * rest.length ≤ fuel →
      Reader.letForm (fuel + 1) head opener (following rest others) = .ok (form, others)) :
    (Phrase.one .code).Accepts (opener :: head :: rest) [form] := by
  refine headedForm hopener fun fuel others hfuel => ?_
  obtain ⟨fuel, rfl⟩ : ∃ n, fuel = n + 1 := ⟨fuel - 1, by omega⟩
  have hmarked : head.isPrefix = false := by
    rw [Token.isPrefix]
    rcases hhead with hhead | hhead | hhead <;> rw [hhead] <;> rfl
  rw [← h fuel others (by omega), Reader.form, next, ok_bind]
  rcases hhead with hhead | hhead | hhead <;> simp [hhead, hmarked, Tag.isLiteral]

theorem letPlain {listOpener : Token} {list : List Token} {bindings : List Form}
    (hopener : opener.tag = .lparen)
    (hhead : head.tag = .letAll ∨ head.tag = .letEach ∨ head.tag = .letRec)
    (hlist : listOpener.tag = .lparen) (hbindings : Phrase.bindings.Accepts list bindings)
    (hs : (Phrase.items .code false).Accepts rest body) (hbody : body ≠ []) :
    (Phrase.one .code).Accepts (opener :: head :: listOpener :: (list ++ rest))
      [⟨head, .compoundAt .bindings bindings listOpener :: body, true⟩] := by
  refine letHead hopener hhead fun fuel others hfuel => ?_
  simp only [List.length_cons, List.length_append] at hfuel
  have hread := hbindings fuel opener head.tag.keyword (following rest others) (by omega)
  have hread' := hs fuel opener others (by omega)
  rw [readItems] at hread'
  change Reader.letForm (fuel + 1) head opener (.more listOpener
    (following (list ++ rest) others)) = _
  rw [Tokens.following_append, Reader.letForm, next, ok_bind]
  simp only [hlist, reduceCtorEq, decide_false, Bool.false_and, Bool.false_eq_true, if_false,
    pure_bind, if_true]
  rw [hread, ok_bind]
  dsimp only
  rw [hread', ok_bind]
  dsimp only
  rw [if_neg (by simpa using hbody)]
  rfl

theorem letNamed {name listOpener : Token} {list : List Token} {bindings : List Form}
    (hopener : opener.tag = .lparen) (hhead : head.tag = .letAll) (hname : name.tag = .symbol)
    (hlist : listOpener.tag = .lparen) (hbindings : Phrase.bindings.Accepts list bindings)
    (hs : (Phrase.items .code false).Accepts rest body) (hbody : body ≠ []) :
    (Phrase.one .code).Accepts (opener :: head :: name :: listOpener :: (list ++ rest))
      [⟨head, .leaf name :: .compoundAt .bindings bindings listOpener :: body, true⟩] := by
  refine letHead hopener (Or.inl hhead) fun fuel others hfuel => ?_
  simp only [List.length_cons, List.length_append] at hfuel
  have hread := hbindings fuel opener head.tag.keyword (following rest others) (by omega)
  have hread' := hs fuel opener others (by omega)
  rw [readItems] at hread'
  change Reader.letForm (fuel + 1) head opener (.more name (.more listOpener
    (following (list ++ rest) others))) = _
  rw [Tokens.following_append, Reader.letForm, next, ok_bind]
  simp only [hname, hhead, decide_true, Bool.and_self, if_true]
  rw [next, ok_bind]
  dsimp only
  rw [if_pos hlist, ← hhead, hread, ok_bind]
  dsimp only
  rw [hread', ok_bind]
  dsimp only
  rw [if_neg (by simpa using hbody)]
  rfl

theorem word {depth : Nat} (hkeyword : token.tag.keyword?.isSome = true)
    (hmarked : token.isPrefix = false) :
    (Phrase.one (.data depth)).Accepts [token] [.leaf ⟨.symbol, token.payload, token.place⟩] := by
  refine ⟨token, [], _, rfl, rfl, by rw [Tag.opensForm, hkeyword, Bool.or_true],
    fun fuel others hfuel => ?_⟩
  rw [List.length_singleton] at hfuel
  obtain ⟨fuel, rfl⟩ : ∃ n, fuel = n + 1 := ⟨fuel - 1, by omega⟩
  have htags : token.tag ≠ .lparen ∧ token.tag.isAtom = false := by
    revert hkeyword
    cases token.tag <;> decide
  change Reader.datum (fuel + 1) token depth others = _
  rw [datum]
  simp only [htags, hmarked, hkeyword, Bool.false_eq_true, if_false, if_true]

theorem list {depth : Nat} (hopener : opener.tag = .lparen)
    (hhead : ¬ (head.tag.isQuoting = true ∧ head.isPrefix = false))
    (h : (Phrase.one (.data depth)).Accepts (head :: front) [first])
    (hs : (Phrase.items (.data depth) true).Accepts rest others) :
    (Phrase.one (.data depth)).Accepts (opener :: head :: (front ++ rest))
      [.compoundAt .list (first :: others) opener] := by
  obtain ⟨_, _, _, ⟨⟩, ⟨⟩, hopens, hread⟩ := h
  refine parens hopener nofun fun depth' hdepth fuel last hfuel => ?_
  cases hdepth
  simp only [List.length_cons, List.length_append] at hfuel
  obtain ⟨fuel, rfl⟩ : ∃ n, fuel = n + 1 := ⟨fuel - 1, by omega⟩
  have hfirst := hread fuel (following rest last) (by rw [List.length_cons]; omega)
  have hothers := hs fuel opener last (by omega)
  rw [readOne] at hfirst
  rw [readItems] at hothers
  change datumList (fuel + 1) opener depth (.more head (following (front ++ rest) last)) = _
  rw [Tokens.following_append, datumList, next, ok_bind]
  dsimp only
  rw [if_neg (Tag.opensForm_ne hopens).1, if_neg (by simpa using hhead),
    if_neg (Tag.opensForm_ne hopens).2, hfirst, ok_bind]
  dsimp only
  rw [hothers]
  rfl

theorem close {phrase : Phrase} (hrow : phrase.isRow = true) (hcloser : closer.tag = .rparen) :
    phrase.Accepts [closer] [] := by
  have hsteps : ∀ fuel, 2 * [closer].length ≤ fuel → ∃ n, fuel = n + 1 := by
    intro fuel hfuel
    rw [List.length_singleton] at hfuel
    exact ⟨fuel - 1, by omega⟩
  cases phrase with
  | one mode => cases hrow
  | items mode dots =>
    intro fuel opener others hfuel
    obtain ⟨fuel, rfl⟩ := hsteps fuel hfuel
    cases mode with
    | code =>
      change operands (fuel + 1) opener dots (.more closer others) = _
      rw [operands, next, ok_bind]
      dsimp only
      rw [if_pos hcloser]
      rfl
    | data depth =>
      change datumItems (fuel + 1) opener depth (.more closer others) = _
      rw [datumItems, next, ok_bind]
      dsimp only
      rw [if_pos hcloser]
      rfl
  | clauses =>
    intro fuel opener others hfuel
    obtain ⟨fuel, rfl⟩ := hsteps fuel hfuel
    change condClauses (fuel + 1) opener (.more closer others) = _
    rw [condClauses, next, ok_bind]
    dsimp only
    rw [if_pos hcloser]
    rfl
  | bindings =>
    intro fuel opener label others hfuel
    obtain ⟨fuel, rfl⟩ := hsteps fuel hfuel
    change letBindings (fuel + 1) opener label (.more closer others) = _
    rw [letBindings, next, ok_bind]
    dsimp only
    rw [if_pos hcloser]
    rfl

theorem dotted {dot : Token} (hdot : dot.tag = .dot) (h : (Phrase.one mode).Accepts front [form])
    (hcloser : closer.tag = .rparen) :
    (Phrase.items mode true).Accepts (dot :: (front ++ [closer]))
      [.compoundAt .dot [form] dot] := by
  obtain ⟨token, items, _, rfl, ⟨⟩, hopens, hread⟩ := h
  intro fuel opener others hfuel
  simp only [List.length_cons, List.length_append] at hfuel
  obtain ⟨fuel, rfl⟩ : ∃ n, fuel = n + 2 := ⟨fuel - 2, by omega⟩
  have htail := hread fuel (.more closer others) (by rw [List.length_cons]; omega)
  have hfollowing : following (token :: items ++ [closer]) others =
      .more token (following items (.more closer others)) := by
    rw [Tokens.following_append]
    rfl
  have hends : dot.tag ≠ .rparen := by rw [hdot]; decide
  cases mode with
  | code =>
    rw [readOne] at htail
    change operands (fuel + 2) opener true
      (.more dot (following (token :: items ++ [closer]) others)) = _
    rw [hfollowing, operands, next, ok_bind]
    dsimp only
    rw [if_neg hends, if_pos hdot, if_pos rfl, dottedTail, next, ok_bind]
    dsimp only
    rw [if_neg (Tag.opensForm_ne hopens).1, htail, ok_bind]
    dsimp only
    rw [next, ok_bind]
    dsimp only
    rw [if_pos hcloser]
    rfl
  | data depth =>
    rw [readOne] at htail
    change datumItems (fuel + 2) opener depth
      (.more dot (following (token :: items ++ [closer]) others)) = _
    rw [hfollowing, datumItems, next, ok_bind]
    dsimp only
    rw [if_neg hends, if_pos hdot, dottedTail, next, ok_bind]
    dsimp only
    rw [if_neg (Tag.opensForm_ne hopens).1, htail, ok_bind]
    dsimp only
    rw [next, ok_bind]
    dsimp only
    rw [if_pos hcloser]
    rfl

theorem more {dots : Bool} (h : (Phrase.one mode).Accepts front [first])
    (hs : (Phrase.items mode dots).Accepts rest others) (hrest : 0 < rest.length) :
    (Phrase.items mode dots).Accepts (front ++ rest) (first :: others) := by
  obtain ⟨token, items, _, rfl, ⟨⟩, hopens, hread⟩ := h
  obtain ⟨hparen, hdot⟩ := Tag.opensForm_ne hopens
  intro fuel opener last hfuel
  simp only [List.length_cons, List.length_append] at hfuel
  obtain ⟨fuel, rfl⟩ : ∃ n, fuel = n + 1 := ⟨fuel - 1, by omega⟩
  have hfirst := hread fuel (following rest last) (by rw [List.length_cons]; omega)
  have hothers := hs fuel opener last (by omega)
  rw [Tokens.following_append]
  cases mode with
  | code =>
    rw [readOne] at hfirst
    rw [readItems] at hothers
    change operands (fuel + 1) opener dots (.more token (following items (following rest last))) = _
    rw [operands, next, ok_bind]
    dsimp only
    rw [if_neg hparen, if_neg hdot, hfirst, ok_bind]
    dsimp only
    rw [hothers]
    rfl
  | data depth =>
    rw [readOne] at hfirst
    rw [readItems] at hothers
    change datumItems (fuel + 1) opener depth
      (.more token (following items (following rest last))) = _
    rw [datumItems, next, ok_bind]
    dsimp only
    rw [if_neg hparen, if_neg hdot, hfirst, ok_bind]
    dsimp only
    rw [hothers]
    rfl

theorem clause {clauses : List Form} (hopener : opener.tag = .lparen)
    (h : (Phrase.items .code false).Accepts front forms) (hforms : forms ≠ [])
    (hs : Phrase.clauses.Accepts rest clauses) :
    Phrase.clauses.Accepts (opener :: (front ++ rest))
      (.compoundAt .clause forms opener :: clauses) := by
  intro fuel outer last hfuel
  simp only [List.length_cons, List.length_append] at hfuel
  obtain ⟨fuel, rfl⟩ : ∃ n, fuel = n + 1 := ⟨fuel - 1, by omega⟩
  have hitems := h fuel opener (following rest last) (by omega)
  have hothers := hs fuel outer last (by omega)
  rw [readItems] at hitems
  change condClauses (fuel + 1) outer (.more opener (following (front ++ rest) last)) = _
  rw [Tokens.following_append, condClauses, next, ok_bind]
  dsimp only
  rw [if_neg (by rw [hopener]; decide), if_pos hopener, hitems, ok_bind]
  dsimp only
  rw [if_neg (by simpa using hforms), hothers]
  rfl

theorem binding {name : Token} {value : Form} {bindings : List Form}
    (hopener : opener.tag = .lparen) (hname : name.tag = .symbol)
    (h : (Phrase.one .code).Accepts front [value]) (hcloser : closer.tag = .rparen)
    (hs : Phrase.bindings.Accepts rest bindings) :
    Phrase.bindings.Accepts (opener :: name :: (front ++ closer :: rest))
      (.compoundAt .binding [.leaf name, value] opener :: bindings) := by
  obtain ⟨token, items, _, rfl, ⟨⟩, hopens, hread⟩ := h
  intro fuel outer label last hfuel
  simp only [List.length_cons, List.length_append] at hfuel
  obtain ⟨fuel, rfl⟩ : ∃ n, fuel = n + 1 := ⟨fuel - 1, by omega⟩
  have hvalue := hread fuel (.more closer (following rest last)) (by rw [List.length_cons]; omega)
  have hothers := hs fuel outer label last (by omega)
  rw [readOne] at hvalue
  have hfollowing : following (token :: items ++ closer :: rest) last =
      .more token (following items (.more closer (following rest last))) := by
    rw [Tokens.following_append]
    rfl
  change letBindings (fuel + 1) outer label
    (.more opener (.more name (following (token :: items ++ closer :: rest) last))) = _
  rw [hfollowing, letBindings, next, ok_bind]
  dsimp only
  rw [if_neg (by rw [hopener]; decide), if_pos hopener, next, ok_bind]
  dsimp only
  rw [if_pos hname, next, ok_bind]
  dsimp only
  rw [if_neg (Tag.opensForm_ne hopens).1, hvalue, ok_bind]
  dsimp only
  rw [close_more outer _ hcloser, ok_bind, hothers]
  rfl

end Phrase.Accepts

/-- A phrase is read. -/
theorem Derives.accepts {phrase : Phrase} {front : List Token} {forms : List Form}
    (h : Derives phrase front forms) : phrase.Accepts front forms := by
  induction h with
  | atom hatom hform => exact .atom hatom hform
  | empty hopener hcloser => exact .empty hopener hcloser
  | mark hmarked hinside _ ih => exact .mark hmarked hinside ih
  | quotation hopener hquoting hmarked hinside _ hcloser ih =>
    exact .quotation hopener hquoting hmarked hinside ih hcloser
  | application hopener hhead _ _ ih ihs => exact .application hopener hhead ih ihs
  | headed hopener hhead _ ih => exact .headed hopener hhead ih
  | literals hopener hhead hfirst _ ih => exact .literals hopener hhead hfirst ih
  | lambda hopener hhead hlist hnames htexts hnodup hcloser _ hbody ih =>
    exact .lambda hopener hhead hlist hnames htexts hnodup hcloser ih hbody
  | define hopener hhead hname _ ih => exact .define hopener hhead hname ih
  | cond hopener hhead _ ih => exact .cond hopener hhead ih
  | letPlain hopener hhead hlist _ _ hbody ih ihs =>
    exact .letPlain hopener hhead hlist ih ihs hbody
  | letNamed hopener hhead hname hlist _ _ hbody ih ihs =>
    exact .letNamed hopener hhead hname hlist ih ihs hbody
  | word hkeyword hmarked => exact .word hkeyword hmarked
  | list hopener hhead _ _ ih ihs => exact .list hopener hhead ih ihs
  | close hrow hcloser => exact .close hrow hcloser
  | dotted hdot _ hcloser ih => exact .dotted hdot ih hcloser
  | more _ hs ih ihs => exact .more ih ihs hs.length_pos
  | clause hopener _ hitems _ ih ihs => exact .clause hopener ih hitems ihs
  | binding hopener hname _ hcloser _ ih ihs => exact .binding hopener hname ih hcloser ihs

end TowerLisp
