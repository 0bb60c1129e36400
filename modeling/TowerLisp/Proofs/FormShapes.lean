import Mathlib.Data.List.Forall2
import TowerLisp.Eval.Special
import TowerLisp.Proofs.ComputedFaults
import TowerLisp.Proofs.Programs

/-!
The shape of forms. Evaluation takes forms apart without looking whether the parts are there:
a quotation has one part, a clause has a test, a binding has a name and a value, and what
stands where a name is expected is one. `Form.Shaped` says so for a form that is read as code
and for one that is read as data, whose unquoted parts at depth one are code again. All that is
read has this shape, which does not speak of tokens in a text any more.
-/

namespace TowerLisp

/-- What a leaf carries fits its tag. -/
def Token.Readable (t : Token) : Prop :=
  match t.tag with
  | .number => ∃ n, t.payload = .number n
  | .string | .character | .symbol => ∃ text, t.payload = .text text
  | .boolean | .operator => True
  | _ => False

theorem Tag.isQuoting_cases {tag : Tag} (h : tag.isQuoting = true) :
    tag = .quote ∨ tag = .quasiquote ∨ tag = .unquote ∨ tag = .splice := by
  cases tag <;> simp [isQuoting] at h ⊢

namespace Form

/-- A form that holds a name. -/
def Holds (f : Form) (name : String) : Prop :=
  ∃ token, f = leaf token ∧ token.tag = .symbol ∧ token.payload = .text name

/-- A binding of a name to the value of a form. -/
def Binds (f : Form) (pair : String × Form) : Prop :=
  f.tag = .binding ∧ ∃ name, f.parts = [name, pair.2] ∧ name.Holds pair.1

/-- A list of bindings, with the names and the forms that they are bound to. -/
structure Lists (list : Form) (pairs : List (String × Form)) : Prop where
  tag : list.tag = .bindings
  binds : List.Forall₂ Binds list.parts pairs

/-- The shape of a form that is read in a mode. -/
inductive Shaped : Mode → Form → Prop where
  | leaf {mode : Mode} {token : Token} : token.Readable → Shaped mode (leaf token)
  | empty {mode : Mode} {token : Token} : token.tag = .empty → Shaped mode ⟨token, [], true⟩
  | quoting {mode inner : Mode} {token : Token} {quoted : Form} :
      token.tag.isQuoting = true → mode.inside? token.tag = some inner → Shaped inner quoted →
      Shaped mode ⟨token, [quoted], true⟩
  | list {mode : Mode} {token : Token} {items : List Form} :
      token.tag = .list → (∀ item ∈ items, Shaped mode item) → Shaped mode ⟨token, items, true⟩
  | dotted {mode : Mode} {token dot : Token} {items : List Form} {tail : Form} :
      token.tag = .list → (∀ item ∈ items, Shaped mode item) → dot.tag = .dot →
      Shaped mode tail → Shaped mode ⟨token, items ++ [⟨dot, [tail], true⟩], true⟩
  | headed {token : Token} {parts : List Form} :
      token.tag = .symbol ∨ token.tag = .operator ∨ token.tag = .sequence →
      (∀ part ∈ parts, Shaped .code part) → Shaped .code ⟨token, parts, true⟩
  | application {token : Token} {head : Form} {operands : List Form} :
      token.tag = .apply → Shaped .code head → (∀ operand ∈ operands, Shaped .code operand) →
      Shaped .code ⟨token, head :: operands, true⟩
  | lambda {token : Token} {params : Form} {formals : List String} {body : List Form} :
      token.tag = .lambda → params.tag = .params → List.Forall₂ Holds params.parts formals →
      formals.Nodup → body ≠ [] → (∀ form ∈ body, Shaped .code form) →
      Shaped .code ⟨token, params :: body, true⟩
  | define {token : Token} {target value : Form} {name : String} :
      token.tag = .define → target.Holds name → Shaped .code value →
      Shaped .code ⟨token, [target, value], true⟩
  | cond {token : Token} {clauses : List Form} :
      token.tag = .cond → (∀ clause ∈ clauses, clause.tag = .clause ∧ clause.parts ≠ []) →
      (∀ clause ∈ clauses, ∀ form ∈ clause.parts, Shaped .code form) →
      Shaped .code ⟨token, clauses, true⟩
  | letPlain {token : Token} {list : Form} {pairs : List (String × Form)} {body : List Form} :
      token.tag = .letAll ∨ token.tag = .letEach ∨ token.tag = .letRec → list.tag = .bindings →
      List.Forall₂ Binds list.parts pairs → (∀ pair ∈ pairs, Shaped .code pair.2) → body ≠ [] →
      (∀ form ∈ body, Shaped .code form) → Shaped .code ⟨token, list :: body, true⟩
  | letNamed {token : Token} {name list : Form} {label : String} {pairs : List (String × Form)}
      {body : List Form} :
      token.tag = .letAll → name.Holds label → list.tag = .bindings →
      List.Forall₂ Binds list.parts pairs → (∀ pair ∈ pairs, Shaped .code pair.2) → body ≠ [] →
      (∀ form ∈ body, Shaped .code form) → Shaped .code ⟨token, name :: list :: body, true⟩

end Form

namespace Phrase

/-- The shape of what a phrase is read as. -/
def Shapes : Phrase → List Form → Prop
  | one mode, forms => ∃ form, forms = [form] ∧ form.Shaped mode
  | items mode dots, forms =>
    (∀ form ∈ forms, form.Shaped mode) ∨
      dots = true ∧ ∃ front dot tail, forms = front ++ [⟨dot, [tail], true⟩] ∧ dot.tag = .dot ∧
        (∀ form ∈ front, form.Shaped mode) ∧ tail.Shaped mode
  | clauses, forms =>
    ∀ clause ∈ forms, (clause.tag = .clause ∧ clause.parts ≠ []) ∧
      ∀ form ∈ clause.parts, form.Shaped .code
  | bindings, forms =>
    ∃ pairs, List.Forall₂ Form.Binds forms pairs ∧ ∀ pair ∈ pairs, pair.2.Shaped .code

variable {mode : Mode} {dots : Bool} {first : Form} {others : List Form}

/-- Without a dotted tail a row is a row of forms. -/
theorem Shapes.plain (h : (items mode false).Shapes others) : ∀ form ∈ others, form.Shaped mode :=
  h.resolve_right nofun

theorem Shapes.more (hfirst : first.Shaped mode) (h : (items mode dots).Shapes others) :
    (items mode dots).Shapes (first :: others) := by
  rcases h with h | ⟨hdots, front, dot, tail, rfl, hdot, hfront, htail⟩
  · exact Or.inl (List.forall_mem_cons.mpr ⟨hfirst, h⟩)
  · exact Or.inr ⟨hdots, first :: front, dot, tail, rfl, hdot,
      List.forall_mem_cons.mpr ⟨hfirst, hfront⟩, htail⟩

/-- The items of a list with its first one. -/
theorem Shapes.list {token : Token} (htoken : token.tag = .list) (hfirst : first.Shaped mode)
    (h : (items mode dots).Shapes others) : Form.Shaped mode ⟨token, first :: others, true⟩ := by
  rcases h.more hfirst with h | ⟨-, front, dot, tail, hforms, hdot, hfront, htail⟩
  · exact .list htoken h
  · rw [hforms]
    exact .dotted htoken hfront hdot htail

end Phrase

theorem Token.Spelled.text_of_symbol {t : Token} (h : t.Spelled) (hsymbol : t.tag = .symbol) :
    ∃ text, t.payload = .text text := by
  obtain ⟨tag, payload, place⟩ := t
  cases h <;> first | exact ⟨_, rfl⟩ | cases hsymbol

theorem Token.Spelled.text_of_keyword {t : Token} (h : t.Spelled)
    (hkeyword : t.tag.keyword?.isSome = true) : ∃ text, t.payload = .text text := by
  obtain ⟨tag, payload, place⟩ := t
  cases h <;> first | exact ⟨_, rfl⟩ | cases hkeyword

/-- What is read from a token that is a form by itself. -/
theorem Reader.shaped_atom {token : Token} {form : Form} (hspelled : token.Spelled)
    (hatom : token.tag.isAtom = true) (h : atom token = .ok form) (mode : Mode) :
    form.Shaped mode := by
  obtain ⟨tag, payload, place⟩ := token
  cases hspelled with
  | number text =>
    unfold atom at h
    dsimp only at h
    split at h
    · cases h
      exact .leaf ⟨_, rfl⟩
    · cases h
    · cases h
  | string text | character text | symbol _ =>
    cases h
    exact .leaf ⟨_, rfl⟩
  | boolean _ | operator _ =>
    cases h
    exact .leaf trivial
  | keyword hkeyword =>
    have hsome := Tag.keyword_of_ofKeyword? hkeyword
    cases tag <;> simp [Tag.isAtom, Tag.keyword?] at hatom hsome
  | lparen | rparen | dot | quote | quasiquote | unquote | splice => cases hatom

/-- The names of a lambda, from the tokens of its parameters. -/
theorem Form.holds_names {names : List Token} {texts : List String}
    (hspelled : ∀ name ∈ names, name.Spelled) (hsymbols : ∀ name ∈ names, name.tag = .symbol)
    (h : names.mapM (·.payload.written) = .ok texts) :
    List.Forall₂ Form.Holds (names.map .leaf) texts := by
  induction names generalizing texts with
  | nil =>
    cases h
    exact .nil
  | cons name rest ih =>
    obtain ⟨hname, hrest⟩ := List.forall_mem_cons.mp hspelled
    obtain ⟨hsymbol, hothers⟩ := List.forall_mem_cons.mp hsymbols
    obtain ⟨text, htext⟩ := hname.text_of_symbol hsymbol
    rw [List.mapM_cons, htext] at h
    obtain ⟨_, hfirst, h⟩ := bind_eq_ok h
    obtain ⟨others, hmap, h⟩ := bind_eq_ok h
    cases hfirst
    cases h
    exact .cons ⟨name, rfl, hsymbol, htext⟩ (ih hrest hothers hmap)

/-- What is read from the tokens of a text has the shape of its phrase. -/
theorem Derives.shapes {phrase : Phrase} {front : List Token} {forms : List Form}
    (h : Derives phrase front forms) (hspelled : ∀ t ∈ front, t.Spelled) :
    phrase.Shapes forms := by
  induction h with
  | @atom mode token form hatom hform =>
    exact ⟨form, rfl, Reader.shaped_atom (hspelled token (by simp)) hatom hform mode⟩
  | empty _ _ => exact ⟨_, rfl, .empty rfl⟩
  | mark hprefix hinside _ ih =>
    obtain ⟨quoted, hquoted, hshaped⟩ := ih fun t ht => hspelled t (by simp [ht])
    cases hquoted
    have hquoting := Token.isQuoting_of_isPrefix hprefix
    exact ⟨_, rfl, .quoting hquoting hinside hshaped⟩
  | quotation _ hquoting _ hinside _ _ ih =>
    obtain ⟨quoted, hquoted, hshaped⟩ := ih fun t ht => hspelled t (by simp [ht])
    cases hquoted
    exact ⟨_, rfl, .quoting hquoting hinside hshaped⟩
  | application _ _ _ _ ih ihrest =>
    obtain ⟨operator, hoperator, hshaped⟩ := ih fun t ht => hspelled t (by grind)
    cases hoperator
    exact ⟨_, rfl, .application rfl hshaped (ihrest fun t ht => hspelled t (by simp [ht])).plain⟩
  | headed _ hhead _ ih =>
    exact ⟨_, rfl, .headed hhead (ih fun t ht => hspelled t (by simp [ht])).plain⟩
  | @literals opener head rest first others _ hliteral hfirst _ ih =>
    have hatom : head.tag.isAtom = true := by
      cases htag : head.tag <;> rw [htag] at hliteral <;> first | rfl | cases hliteral
    exact ⟨_, rfl, (ih fun t ht => hspelled t (by simp [ht])).list rfl
      (Reader.shaped_atom (hspelled head (by simp)) hatom hfirst _)⟩
  | lambda _ hhead _ hsymbols htexts hnodup _ _ hbody ih =>
    exact ⟨_, rfl, .lambda hhead rfl
      (Form.holds_names (fun t ht => hspelled t (by simp [ht])) hsymbols htexts) hnodup hbody
      (ih fun t ht => hspelled t (by simp [ht])).plain⟩
  | @define opener head name rest value _ hhead hsymbol _ ih =>
    obtain ⟨text, htext⟩ := (hspelled name (by simp)).text_of_symbol hsymbol
    have hvalue := (ih fun t ht => hspelled t (by simp [ht])).plain value (by simp)
    exact ⟨_, rfl, .define hhead ⟨name, rfl, hsymbol, htext⟩ hvalue⟩
  | cond _ hhead _ ih =>
    have hclauses := ih fun t ht => hspelled t (by simp [ht])
    exact ⟨_, rfl, .cond hhead (fun clause hclause => (hclauses clause hclause).1)
      fun clause hclause => (hclauses clause hclause).2⟩
  | letPlain _ hhead _ _ _ hbody ih ihbody =>
    obtain ⟨pairs, hpairs, hvalues⟩ := ih fun t ht => hspelled t (by simp [ht])
    exact ⟨_, rfl, .letPlain hhead rfl hpairs hvalues hbody
      (ihbody fun t ht => hspelled t (by simp [ht])).plain⟩
  | @letNamed opener head name _ _ _ _ _ _ hhead hsymbol _ _ _ hbody ih ihbody =>
    obtain ⟨text, htext⟩ := (hspelled name (by simp)).text_of_symbol hsymbol
    obtain ⟨pairs, hpairs, hvalues⟩ := ih fun t ht => hspelled t (by simp [ht])
    exact ⟨_, rfl, .letNamed hhead ⟨name, rfl, hsymbol, htext⟩ rfl hpairs hvalues hbody
      (ihbody fun t ht => hspelled t (by simp [ht])).plain⟩
  | @word depth token hkeyword _ =>
    obtain ⟨text, htext⟩ := (hspelled token (by simp)).text_of_keyword hkeyword
    exact ⟨_, rfl, .leaf ⟨text, htext⟩⟩
  | list _ _ _ _ ih ihrest =>
    obtain ⟨first, hfirst, hshaped⟩ := ih fun t ht => hspelled t (by grind)
    cases hfirst
    exact ⟨_, rfl, (ihrest fun t ht => hspelled t (by simp [ht])).list rfl hshaped⟩
  | @close phrase closer hrow _ =>
    cases phrase with
    | one mode => cases hrow
    | items mode dots => exact Or.inl nofun
    | clauses => exact nofun
    | bindings => exact ⟨[], .nil, nofun⟩
  | dotted hdot _ _ ih =>
    obtain ⟨tail, htail, hshaped⟩ := ih fun t ht => hspelled t (by simp [ht])
    cases htail
    exact Or.inr ⟨rfl, [], _, _, rfl, rfl, nofun, hshaped⟩
  | more _ _ ih ihrest =>
    obtain ⟨first, hfirst, hshaped⟩ := ih fun t ht => hspelled t (by simp [ht])
    cases hfirst
    exact (ihrest fun t ht => hspelled t (by simp [ht])).more hshaped
  | clause _ _ hitems _ ih ihrest =>
    exact List.forall_mem_cons.mpr
      ⟨⟨⟨rfl, hitems⟩, (ih fun t ht => hspelled t (by simp [ht])).plain⟩,
        ihrest fun t ht => hspelled t (by simp [ht])⟩
  | @binding opener name closer front rest value others _ hsymbol _ _ _ ih ihrest =>
    obtain ⟨text, htext⟩ := (hspelled name (by simp)).text_of_symbol hsymbol
    obtain ⟨_, hvalue, hshaped⟩ := ih fun t ht => hspelled t (by simp [ht])
    cases hvalue
    obtain ⟨pairs, hpairs, hvalues⟩ := ihrest fun t ht => hspelled t (by simp [ht])
    exact ⟨(text, value) :: pairs, .cons ⟨rfl, .leaf name, rfl, name, rfl, hsymbol, htext⟩ hpairs,
      List.forall_mem_cons.mpr ⟨hshaped, hvalues⟩⟩

namespace Reader

theorem shaped_of_derivesAll {front : List Token} {forms : List Form} (h : DerivesAll front forms)
    (hspelled : ∀ t ∈ front, t.Spelled) : ∀ form ∈ forms, form.Shaped .code := by
  induction h with
  | nil => exact nofun
  | cons hform _ ih =>
    obtain ⟨form, hform, hshaped⟩ := hform.shapes fun t ht => hspelled t (by simp [ht])
    cases hform
    exact List.forall_mem_cons.mpr ⟨hshaped, ih fun t ht => hspelled t (by simp [ht])⟩

/-- All that is read from the tokens of a text is shaped, also in front of a fault. -/
theorem shaped_of_readTokens {tokens : Tokens} (hspelled : ∀ t ∈ tokens.toList, t.Spelled) :
    ∀ form ∈ (readTokens tokens).1, form.Shaped .code := by
  obtain ⟨front, rest, rfl, hforms, -⟩ := readTokens_cases tokens
  refine shaped_of_derivesAll hforms fun t ht => hspelled t ?_
  rw [Tokens.toList_following]
  exact List.mem_append_left _ ht

theorem spelled_within (limit : Nat) (source : List Char) :
    ∀ t ∈ ((Tokens.ofSource source).within limit).toList, t.Spelled := by
  have hspelled := Tokens.ofCursor_spelled (.start source)
  rcases Tokens.within_cases limit (Tokens.ofSource source) with hwhole | ⟨cut, hcut, hmem⟩
  · rw [hwhole]
    exact hspelled
  · intro t ht
    rw [hcut, Tokens.toList_prepend] at ht
    exact hspelled t (hmem t (by simpa [Tokens.toList] using ht))

theorem shaped_of_readFormsWithin (limit : Nat) (source : List Char) :
    ∀ form ∈ (readFormsWithin limit source).1, form.Shaped .code :=
  shaped_of_readTokens (spelled_within limit source)

theorem shaped_of_readAllWithin {limit : Nat} {source : List Char} {forms : List Form}
    (h : readAllWithin limit source = .ok forms) : ∀ form ∈ forms, form.Shaped .code := by
  have hread : readFormsWithin limit source = (forms, none) := allOrNone_eq_ok h
  have hshaped := shaped_of_readFormsWithin limit source
  rwa [hread] at hshaped

end Reader

namespace Form

/-- The parts that a shaped form has because of its tag, where the tag alone decides on them. -/
def PartsByTag (mode : Mode) (form : Form) : Prop :=
  match form.tag with
  | .dot => False
  | .splice => ∃ token first inner, form = ⟨token, [first], true⟩ ∧
      mode.inside? .splice = some inner ∧ first.Shaped inner
  | .apply => ∃ token head operands, form = ⟨token, head :: operands, true⟩ ∧ token.tag = .apply
  | .list => ∃ token parts, form = ⟨token, parts, true⟩ ∧ token.tag = .list ∧
      ((∀ item ∈ parts, item.Shaped mode) ∨
        ∃ items dot last, parts = items ++ [⟨dot, [last], true⟩] ∧ dot.tag = .dot)
  | .letAll =>
    (∃ token list pairs body, form = ⟨token, list :: body, true⟩ ∧ token.tag = .letAll ∧
      list.Lists pairs ∧ body ≠ []) ∨
    ∃ token name list label pairs body, form = ⟨token, name :: list :: body, true⟩ ∧
      token.tag = .letAll ∧ name.Holds label ∧ list.Lists pairs ∧ body ≠ []
  | .letEach | .letRec => ∃ token list pairs body, form = ⟨token, list :: body, true⟩ ∧
      token.tag = form.tag ∧ list.Lists pairs ∧ body ≠ []
  | _ => True

namespace Shaped

variable {mode : Mode} {form : Form}

theorem partsByTag (h : form.Shaped mode) : form.PartsByTag mode := by
  unfold PartsByTag
  cases h with
  | @leaf _ token hreadable =>
    obtain ⟨tag, payload, place⟩ := token
    cases tag <;> first | exact trivial | exact hreadable.elim
  | @empty _ token htag =>
    obtain ⟨tag, payload, place⟩ := token
    cases htag
    exact trivial
  | @quoting _ inner token quoted hquoting hinside hquoted =>
    obtain ⟨tag, payload, place⟩ := token
    -- of the marks only the one that splices is asked for its part
    rcases Tag.isQuoting_cases hquoting with htag | htag | htag | htag <;> cases htag
    · exact trivial
    · exact trivial
    · exact trivial
    · exact ⟨_, quoted, inner, rfl, hinside, hquoted⟩
  | @list _ token items htag hitems =>
    obtain ⟨tag, payload, place⟩ := token
    cases htag
    exact ⟨_, items, rfl, rfl, .inl hitems⟩
  | @dotted _ token dot items last htag _ hdot _ =>
    obtain ⟨tag, payload, place⟩ := token
    cases htag
    exact ⟨_, _, rfl, rfl, .inr ⟨items, dot, last, rfl, hdot⟩⟩
  | @headed token parts hhead =>
    obtain ⟨tag, payload, place⟩ := token
    rcases hhead with hhead | hhead | hhead <;> cases hhead <;> exact trivial
  | @application token head operands htag =>
    obtain ⟨tag, payload, place⟩ := token
    cases htag
    exact ⟨_, head, operands, rfl, rfl⟩
  | @lambda token _ _ _ htag | @define token _ _ _ htag | @cond token _ htag =>
    obtain ⟨tag, payload, place⟩ := token
    cases htag
    exact trivial
  | @letPlain token list pairs body htag hlist hbinds _ hne =>
    obtain ⟨tag, payload, place⟩ := token
    rcases htag with htag | htag | htag <;> cases htag
    · exact .inl ⟨_, list, pairs, body, rfl, rfl, ⟨hlist, hbinds⟩, hne⟩
    · exact ⟨_, list, pairs, body, rfl, rfl, ⟨hlist, hbinds⟩, hne⟩
    · exact ⟨_, list, pairs, body, rfl, rfl, ⟨hlist, hbinds⟩, hne⟩
  | @letNamed token name list label pairs body htag hname hlist hbinds _ hne =>
    obtain ⟨tag, payload, place⟩ := token
    cases htag
    exact .inr ⟨_, name, list, label, pairs, body, rfl, rfl, hname, ⟨hlist, hbinds⟩, hne⟩

theorem tag_ne_dot (h : form.Shaped mode) : form.tag ≠ .dot := by
  intro htag
  have hparts := h.partsByTag
  rw [PartsByTag, htag] at hparts
  exact hparts

/-- A spliced part of a template is code. -/
theorem spliced (h : form.Shaped (.data 1)) (htag : form.tag = .splice) :
    ∃ token first, form = ⟨token, [first], true⟩ ∧ first.Shaped .code := by
  have hparts := h.partsByTag
  rw [PartsByTag, htag] at hparts
  obtain ⟨token, first, _, hform, ⟨⟩, hfirst⟩ := hparts
  exact ⟨token, first, hform, hfirst⟩

/-- An application has a form in front of its operands. -/
theorem application_parts (h : form.Shaped mode) (htag : form.tag = .apply) :
    ∃ token head operands, form = ⟨token, head :: operands, true⟩ ∧ token.tag = .apply := by
  have hparts := h.partsByTag
  rw [PartsByTag, htag] at hparts
  exact hparts

/-- A list has items, and at the end of them there may be a part behind a dot. -/
theorem list_parts (h : form.Shaped mode) (htag : form.tag = .list) :
    ∃ token parts, form = ⟨token, parts, true⟩ ∧ token.tag = .list ∧
      ((∀ item ∈ parts, item.tag ≠ .dot) ∨
        ∃ items dot last, parts = items ++ [⟨dot, [last], true⟩] ∧ dot.tag = .dot) := by
  have hparts := h.partsByTag
  rw [PartsByTag, htag] at hparts
  obtain ⟨token, parts, hform, htoken, hitems⟩ := hparts
  exact ⟨token, parts, hform, htoken,
    hitems.imp_left fun hitems item hitem => (hitems item hitem).tag_ne_dot⟩

/-- A let binds names of a list, or has a name in front of the list. -/
theorem letAll (h : form.Shaped mode) (htag : form.tag = .letAll) :
    (∃ token list pairs body, form = ⟨token, list :: body, true⟩ ∧ token.tag = .letAll ∧
      list.Lists pairs ∧ body ≠ []) ∨
    ∃ token name list label pairs body, form = ⟨token, name :: list :: body, true⟩ ∧
      token.tag = .letAll ∧ name.Holds label ∧ list.Lists pairs ∧ body ≠ [] := by
  have hparts := h.partsByTag
  rw [PartsByTag, htag] at hparts
  exact hparts

/-- The lets that bind one after another have a list and a body. -/
theorem letOther (h : form.Shaped mode) (htag : form.tag = .letEach ∨ form.tag = .letRec) :
    ∃ token list pairs body, form = ⟨token, list :: body, true⟩ ∧ token.tag = form.tag ∧
      list.Lists pairs ∧ body ≠ [] := by
  have hparts := h.partsByTag
  rcases htag with htag | htag <;> rw [PartsByTag, htag] at hparts <;> rw [htag] <;> exact hparts

end Shaped

end Form

namespace Evaluator

theorem nameOf_holds {form : Form} {name : String} (h : form.Holds name) :
    nameOf form = .ok name := by
  obtain ⟨token, rfl, -, htext⟩ := h
  rw [nameOf, show (Form.leaf token).token.payload = .text name from htext]
  rfl

theorem mapM_nameOf {forms : List Form} {names : List String}
    (h : List.Forall₂ Form.Holds forms names) : forms.mapM nameOf = .ok names := by
  induction h with
  | nil => rfl
  | cons hname _ ih =>
    rw [List.mapM_cons, nameOf_holds hname, ih]
    rfl

theorem bindingsOf_binds {list : Form} {pairs : List (String × Form)} (htag : list.tag = .bindings)
    (h : List.Forall₂ Form.Binds list.parts pairs) : bindingsOf list = .ok pairs := by
  rw [bindingsOf, if_pos htag]
  generalize list.parts = parts at h ⊢
  induction h with
  | nil => rfl
  | cons hbinds _ ih =>
    obtain ⟨-, name, hparts, hname⟩ := hbinds
    rw [List.mapM_cons, ih, bindingOf, hparts]
    dsimp only
    rw [nameOf_holds hname]
    rfl

end Evaluator

theorem Form.Lists.bindingsOf {list : Form} {pairs : List (String × Form)} (h : list.Lists pairs) :
    Evaluator.bindingsOf list = .ok pairs :=
  Evaluator.bindingsOf_binds h.tag h.binds

@[simp] theorem blameless_written (payload : Payload) : Blameless payload.written := by
  cases payload <;> simp [Payload.written]

theorem Token.Readable.leafDatum {token : Token} (h : token.Readable) :
    Blameless (Form.leafDatum token) := by
  obtain ⟨tag, payload, place⟩ := token
  cases tag <;> simp only [Readable] at h
  case number =>
    obtain ⟨n, rfl⟩ := h
    exact blameless_ok _
  case string | character =>
    obtain ⟨text, rfl⟩ := h
    exact blameless_ok _
  all_goals simp [Form.leafDatum]

namespace Form

/-- What is no literal has a word. -/
theorem blameless_leafDatum {token : Token} (h : token.tag.isLiteral = false) :
    Blameless (leafDatum token) := by
  obtain ⟨tag, payload, place⟩ := token
  cases tag <;> simp [Tag.isLiteral, leafDatum, Tag.keyword?] at h ⊢

theorem datumList_cons {first : Form} {rest : List Form} (h : first.tag ≠ .dot) :
    datumList (first :: rest) = do return .pair (← first.datum) (← datumList rest) := by
  obtain ⟨token, parts, compound⟩ := first
  cases rest with
  | nil =>
    rw [datumList]
    exact if_neg h
  | cons second rest => rw [datumList]

theorem blameless_datumList {front last : List Form}
    (hfront : ∀ form ∈ front, form.tag ≠ .dot ∧ Blameless form.datum)
    (hlast : Blameless (datumList last)) : Blameless (datumList (front ++ last)) := by
  induction front with
  | nil => exact hlast
  | cons first rest ih =>
    obtain ⟨⟨hdot, hfirst⟩, hrest⟩ := List.forall_mem_cons.mp hfront
    simp [datumList_cons hdot, hfirst, ih hrest]

/-- A row of forms that have data. -/
theorem blameless_datumRow {forms : List Form}
    (h : ∀ form ∈ forms, form.tag ≠ .dot ∧ Blameless form.datum) :
    Blameless (datumList forms) := by
  have hrow := blameless_datumList h (show Blameless (datumList []) by simp [datumList])
  rwa [List.append_nil] at hrow

/-- A form that is no quotation and no literal has a datum if its parts have. -/
theorem blameless_datum {form : Form}
    (hplain : (form.tag.isLiteral || form.tag.isQuoting) = false)
    (h : Blameless (datumList form.parts)) : Blameless form.datum := by
  obtain ⟨hliteral, hquoting⟩ := Bool.or_eq_false_iff.mp hplain
  obtain ⟨token, parts, compound⟩ := form
  have hhead : Blameless (leafDatum token) := blameless_leafDatum hliteral
  change token.tag.isQuoting = false at hquoting
  rw [datum]
  simp [hquoting, hhead, show Blameless (datumList parts) from h]

theorem Holds.blameless_datum {form : Form} {name : String} (h : form.Holds name) :
    form.tag ≠ .dot ∧ Blameless form.datum := by
  obtain ⟨token, rfl, htag, -⟩ := h
  change token.tag = .symbol at htag
  constructor
  · change token.tag ≠ .dot
    simp [htag]
  · rw [leaf, datum]
    simpa using blameless_leafDatum (by simp [htag, Tag.isLiteral])

theorem Binds.blameless_datum {form : Form} {pair : String × Form} (h : form.Binds pair)
    (hvalue : pair.2.tag ≠ .dot ∧ Blameless pair.2.datum) :
    form.tag ≠ .dot ∧ Blameless form.datum := by
  obtain ⟨htag, name, hparts, hname⟩ := h
  refine ⟨by simp [htag], Form.blameless_datum (by simp [htag, Tag.isLiteral, Tag.isQuoting]) ?_⟩
  rw [hparts]
  exact blameless_datumRow (by simp [hname.blameless_datum, hvalue])

theorem Binds.blameless_data {list : Form} {pairs : List (String × Form)}
    (htag : list.tag = .bindings) (h : List.Forall₂ Binds list.parts pairs)
    (hvalues : ∀ pair ∈ pairs, pair.2.tag ≠ .dot ∧ Blameless pair.2.datum) :
    list.tag ≠ .dot ∧ Blameless list.datum := by
  refine ⟨by simp [htag], Form.blameless_datum (by simp [htag, Tag.isLiteral, Tag.isQuoting])
    (blameless_datumRow ?_)⟩
  generalize list.parts = parts at h ⊢
  induction h with
  | nil => exact List.forall_mem_nil _
  | cons hbinds _ ih =>
    obtain ⟨hvalue, hothers⟩ := List.forall_mem_cons.mp hvalues
    exact List.forall_mem_cons.mpr ⟨hbinds.blameless_datum hvalue, ih hothers⟩

theorem Holds.blameless_data {forms : List Form} {names : List String}
    (h : List.Forall₂ Holds forms names) :
    ∀ form ∈ forms, form.tag ≠ .dot ∧ Blameless form.datum := by
  induction h with
  | nil => exact nofun
  | cons hname _ ih => exact List.forall_mem_cons.mpr ⟨hname.blameless_datum, ih⟩

/-- What is read has a datum, as far as its numbers have. -/
theorem Shaped.blameless_datum {mode : Mode} {form : Form} (h : form.Shaped mode) :
    Blameless form.datum := by
  induction h with
  | leaf hreadable =>
    rw [Form.leaf, datum]
    simpa using hreadable.leafDatum
  | empty htag =>
    rw [datum]
    simp [htag, Tag.isQuoting]
  | quoting hquoting _ _ ih =>
    rw [datum]
    simp [hquoting, datumFirst, ih]
  | list htag hitems ih =>
    exact Form.blameless_datum (by simp [Form.tag, htag, Tag.isLiteral, Tag.isQuoting])
      (blameless_datumRow fun item hitem => ⟨(hitems item hitem).tag_ne_dot, ih item hitem⟩)
  | dotted htag hitems hdot htail ih ihtail =>
    refine Form.blameless_datum (by simp [Form.tag, htag, Tag.isLiteral, Tag.isQuoting])
      (blameless_datumList (fun item hitem => ⟨(hitems item hitem).tag_ne_dot, ih item hitem⟩) ?_)
    simp [datumList, hdot, datumFirst, ihtail]
  | headed hhead hparts ih =>
    refine Form.blameless_datum ?_
      (blameless_datumRow fun part hpart => ⟨(hparts part hpart).tag_ne_dot, ih part hpart⟩)
    rcases hhead with hhead | hhead | hhead <;>
      simp [Form.tag, hhead, Tag.isLiteral, Tag.isQuoting]
  | application htag hhead hoperands ihhead ihoperands =>
    refine Form.blameless_datum (by simp [Form.tag, htag, Tag.isLiteral, Tag.isQuoting])
      (blameless_datumRow (List.forall_mem_cons.mpr ⟨⟨hhead.tag_ne_dot, ihhead⟩, ?_⟩))
    exact fun operand hmem => ⟨(hoperands operand hmem).tag_ne_dot, ihoperands operand hmem⟩
  | lambda htag hparams hnames hnodup hne hbody ih =>
    refine Form.blameless_datum (by simp [Form.tag, htag, Tag.isLiteral, Tag.isQuoting])
      (blameless_datumRow (List.forall_mem_cons.mpr ⟨⟨by simp [hparams], ?_⟩, ?_⟩))
    · exact Form.blameless_datum (by simp [hparams, Tag.isLiteral, Tag.isQuoting])
        (blameless_datumRow (Holds.blameless_data hnames))
    · exact fun form hform => ⟨(hbody form hform).tag_ne_dot, ih form hform⟩
  | define htag htarget hvalue ih =>
    exact Form.blameless_datum (by simp [Form.tag, htag, Tag.isLiteral, Tag.isQuoting])
      (blameless_datumRow (by simp [htarget.blameless_datum, hvalue.tag_ne_dot, ih]))
  | cond htag hclauses hforms ih =>
    refine Form.blameless_datum (by simp [Form.tag, htag, Tag.isLiteral, Tag.isQuoting])
      (blameless_datumRow fun clause hclause => ?_)
    have hclausetag := (hclauses clause hclause).1
    refine ⟨by simp [hclausetag], Form.blameless_datum
      (by simp [hclausetag, Tag.isLiteral, Tag.isQuoting])
      (blameless_datumRow fun form hform => ?_)⟩
    exact ⟨(hforms clause hclause form hform).tag_ne_dot, ih clause hclause form hform⟩
  | letPlain hhead htag hpairs hvalues hne hbody ihvalues ihbody =>
    refine Form.blameless_datum ?_ (blameless_datumRow (List.forall_mem_cons.mpr
      ⟨Binds.blameless_data htag hpairs fun pair hpair =>
        ⟨(hvalues pair hpair).tag_ne_dot, ihvalues pair hpair⟩, fun form hform =>
        ⟨(hbody form hform).tag_ne_dot, ihbody form hform⟩⟩))
    rcases hhead with hhead | hhead | hhead <;>
      simp [Form.tag, hhead, Tag.isLiteral, Tag.isQuoting]
  | letNamed htag hname hlist hpairs hvalues hne hbody ihvalues ihbody =>
    exact Form.blameless_datum (by simp [Form.tag, htag, Tag.isLiteral, Tag.isQuoting])
      (blameless_datumRow (List.forall_mem_cons.mpr
        ⟨hname.blameless_datum, List.forall_mem_cons.mpr
          ⟨Binds.blameless_data hlist hpairs fun pair hpair =>
            ⟨(hvalues pair hpair).tag_ne_dot, ihvalues pair hpair⟩, fun form hform =>
            ⟨(hbody form hform).tag_ne_dot, ihbody form hform⟩⟩⟩))

end Form

end TowerLisp
