import TowerLisp.Proofs.Lexing
import TowerLisp.Form.Reader

/-!
The grammar of the language. `Derives phrase tokens forms` tells that tokens make up a
phrase and are read as forms. A phrase is one form, as code or as data, or a row of forms
up to the parenthesis that closes them. The rules say what the reader accepts, without its
order of tests, its steps and its faults.
-/

namespace TowerLisp

/-- How a form is read: as code, or as data at a quasiquote depth. -/
inductive Mode where
  | code
  | data (depth : Nat)
deriving DecidableEq

/-- How that which a quoting token quotes is read. -/
def Mode.inside? : Mode → Tag → Option Mode
  | code, tag => (Reader.codeDepth? tag).map data
  | data depth, tag =>
    if tag = .unquote || tag = .splice then some (if depth = 1 then code else data (depth - 1))
    else if tag = .quasiquote then some (data (depth + 1))
    else some (data depth)

/-- What tokens make up: one form, or the rest of a list with its closing parenthesis. The
last item of a list may follow a dot where `dots` allows it. -/
inductive Phrase where
  | one (mode : Mode)
  | items (mode : Mode) (dots : Bool)
  | clauses
  | bindings

def Phrase.isRow : Phrase → Bool
  | one _ => false
  | _ => true

inductive Derives : Phrase → List Token → List Form → Prop where
  | atom {mode : Mode} {token : Token} {form : Form} :
      token.tag.isAtom = true → Reader.atom token = .ok form →
      Derives (.one mode) [token] [form]
  | empty {mode : Mode} {opener closer : Token} :
      opener.tag = .lparen → closer.tag = .rparen →
      Derives (.one mode) [opener, closer] [.compoundAt .empty [] opener]
  | mark {mode inner : Mode} {token : Token} {front : List Token} {quoted : Form} :
      token.isPrefix = true → mode.inside? token.tag = some inner →
      Derives (.one inner) front [quoted] →
      Derives (.one mode) (token :: front) [.compoundAt token.tag [quoted] token]
  | quotation {mode inner : Mode} {opener head closer : Token} {front : List Token}
      {quoted : Form} :
      opener.tag = .lparen → head.tag.isQuoting = true → head.isPrefix = false →
      mode.inside? head.tag = some inner → Derives (.one inner) front [quoted] →
      closer.tag = .rparen →
      Derives (.one mode) (opener :: head :: (front ++ [closer]))
        [.compoundAt head.tag [quoted] head]
  | application {opener head : Token} {front rest : List Token} {operator : Form}
      {arguments : List Form} :
      opener.tag = .lparen → head.tag = .lparen ∨ head.isPrefix = true →
      Derives (.one .code) (head :: front) [operator] →
      Derives (.items .code false) rest arguments →
      Derives (.one .code) (opener :: head :: (front ++ rest))
        [.compoundAt .apply (operator :: arguments) opener]
  | headed {opener head : Token} {rest : List Token} {arguments : List Form} :
      opener.tag = .lparen →
      head.tag = .symbol ∨ head.tag = .operator ∨ head.tag = .sequence →
      Derives (.items .code false) rest arguments →
      Derives (.one .code) (opener :: head :: rest) [⟨head, arguments, true⟩]
  | literals {opener head : Token} {rest : List Token} {first : Form} {others : List Form} :
      opener.tag = .lparen → head.tag.isLiteral = true → Reader.atom head = .ok first →
      Derives (.items .code true) rest others →
      Derives (.one .code) (opener :: head :: rest) [.compoundAt .list (first :: others) head]
  | lambda {opener head listOpener closer : Token} {names rest : List Token} {texts : List String}
      {body : List Form} :
      opener.tag = .lparen → head.tag = .lambda → listOpener.tag = .lparen →
      (∀ name ∈ names, name.tag = .symbol) →
      names.mapM (·.payload.written) = .ok texts → texts.Nodup → closer.tag = .rparen →
      Derives (.items .code false) rest body → body ≠ [] →
      Derives (.one .code) (opener :: head :: listOpener :: (names ++ closer :: rest))
        [⟨head, .compoundAt .params (names.map .leaf) listOpener :: body, true⟩]
  | define {opener head name : Token} {rest : List Token} {value : Form} :
      opener.tag = .lparen → head.tag = .define → name.tag = .symbol →
      Derives (.items .code false) rest [value] →
      Derives (.one .code) (opener :: head :: name :: rest) [⟨head, [.leaf name, value], true⟩]
  | cond {opener head : Token} {rest : List Token} {clauses : List Form} :
      opener.tag = .lparen → head.tag = .cond → Derives .clauses rest clauses →
      Derives (.one .code) (opener :: head :: rest) [⟨head, clauses, true⟩]
  | letPlain {opener head listOpener : Token} {list rest : List Token} {bindings body : List Form} :
      opener.tag = .lparen →
      head.tag = .letAll ∨ head.tag = .letEach ∨ head.tag = .letRec →
      listOpener.tag = .lparen → Derives .bindings list bindings →
      Derives (.items .code false) rest body → body ≠ [] →
      Derives (.one .code) (opener :: head :: listOpener :: (list ++ rest))
        [⟨head, .compoundAt .bindings bindings listOpener :: body, true⟩]
  | letNamed {opener head name listOpener : Token} {list rest : List Token}
      {bindings body : List Form} :
      opener.tag = .lparen → head.tag = .letAll → name.tag = .symbol →
      listOpener.tag = .lparen → Derives .bindings list bindings →
      Derives (.items .code false) rest body → body ≠ [] →
      Derives (.one .code) (opener :: head :: name :: listOpener :: (list ++ rest))
        [⟨head, .leaf name :: .compoundAt .bindings bindings listOpener :: body, true⟩]
  | word {depth : Nat} {token : Token} :
      token.tag.keyword?.isSome = true → token.isPrefix = false →
      Derives (.one (.data depth)) [token] [.leaf ⟨.symbol, token.payload, token.place⟩]
  | list {depth : Nat} {opener head : Token} {front rest : List Token} {first : Form}
      {others : List Form} :
      opener.tag = .lparen → ¬ (head.tag.isQuoting = true ∧ head.isPrefix = false) →
      Derives (.one (.data depth)) (head :: front) [first] →
      Derives (.items (.data depth) true) rest others →
      Derives (.one (.data depth)) (opener :: head :: (front ++ rest))
        [.compoundAt .list (first :: others) opener]
  | close {phrase : Phrase} {closer : Token} :
      phrase.isRow = true → closer.tag = .rparen → Derives phrase [closer] []
  | dotted {mode : Mode} {dot closer : Token} {front : List Token} {tail : Form} :
      dot.tag = .dot → Derives (.one mode) front [tail] → closer.tag = .rparen →
      Derives (.items mode true) (dot :: (front ++ [closer])) [.compoundAt .dot [tail] dot]
  | more {mode : Mode} {dots : Bool} {front rest : List Token} {first : Form}
      {others : List Form} :
      Derives (.one mode) front [first] → Derives (.items mode dots) rest others →
      Derives (.items mode dots) (front ++ rest) (first :: others)
  | clause {opener : Token} {front rest : List Token} {items others : List Form} :
      opener.tag = .lparen → Derives (.items .code false) front items → items ≠ [] →
      Derives .clauses rest others →
      Derives .clauses (opener :: (front ++ rest)) (.compoundAt .clause items opener :: others)
  | binding {opener name closer : Token} {front rest : List Token} {value : Form}
      {others : List Form} :
      opener.tag = .lparen → name.tag = .symbol → Derives (.one .code) front [value] →
      closer.tag = .rparen → Derives .bindings rest others →
      Derives .bindings (opener :: name :: (front ++ closer :: rest))
        (.compoundAt .binding [.leaf name, value] opener :: others)

theorem Reader.atom_eq_ok {token : Token} {form : Form} (h : atom token = .ok form) :
    ∃ payload, form = .leaf ⟨token.tag, payload, token.place⟩ := by
  obtain ⟨tag, payload, place⟩ := token
  unfold atom at h
  split at h
  · rename_i htag _
    cases htag
    split at h
    · cases h
      exact ⟨_, rfl⟩
    · cases h
    · cases h
  · cases h
    exact ⟨payload, rfl⟩

/-- The tags of the tokens that start a form. -/
def Tag.opensForm (tag : Tag) : Bool :=
  tag.isAtom || tag = .lparen || tag.keyword?.isSome

theorem Tag.opensForm_ne {tag : Tag} (h : tag.opensForm = true) : tag ≠ .rparen ∧ tag ≠ .dot := by
  constructor
  · rintro rfl
    cases h
  · rintro rfl
    cases h

theorem Tag.opensForm_of_isQuoting {tag : Tag} (h : tag.isQuoting = true) :
    tag.opensForm = true := by
  cases tag <;> first | rfl | cases h

theorem Token.isQuoting_of_isPrefix {token : Token} (h : token.isPrefix = true) :
    token.tag.isQuoting = true := by
  rw [isPrefix, Bool.and_eq_true] at h
  exact h.1

/-- One form starts with a token that opens it, and it is no dotted tail. -/
theorem Derives.first {mode : Mode} {front : List Token} {forms : List Form}
    (h : Derives (.one mode) front forms) :
    ∃ token others form, front = token :: others ∧ forms = [form] ∧
      token.tag.opensForm = true ∧ form.token.tag ≠ .dot := by
  cases h with
  | @atom _ token form hatom hform =>
    obtain ⟨payload, rfl⟩ := Reader.atom_eq_ok hform
    refine ⟨token, [], _, rfl, rfl, by rw [Tag.opensForm, hatom]; rfl, ?_⟩
    intro hdot
    rw [show token.tag = .dot from hdot] at hatom
    cases hatom
  | @mark _ _ token _ _ hmarked _ _ =>
    have hquoting := Token.isQuoting_of_isPrefix hmarked
    refine ⟨token, _, _, rfl, rfl, Tag.opensForm_of_isQuoting hquoting, ?_⟩
    intro hdot
    rw [show token.tag = .dot from hdot] at hquoting
    cases hquoting
  | @quotation _ _ opener head _ _ _ hopener hquoting _ _ _ _ =>
    refine ⟨opener, _, _, rfl, rfl, by rw [hopener]; rfl, ?_⟩
    intro hdot
    rw [show head.tag = .dot from hdot] at hquoting
    cases hquoting
  | @word _ token hkeyword _ =>
    exact ⟨token, [], _, rfl, rfl, by rw [Tag.opensForm, hkeyword, Bool.or_true], nofun⟩
  | @headed opener head _ _ hopener hhead _ =>
    refine ⟨opener, _, _, rfl, rfl, by rw [hopener]; rfl, ?_⟩
    intro hdot
    rw [show head.tag = .dot from hdot] at hhead
    rcases hhead with hhead | hhead | hhead <;> cases hhead
  | @letPlain opener head _ _ _ _ _ hopener hhead _ _ _ _ =>
    refine ⟨opener, _, _, rfl, rfl, by rw [hopener]; rfl, ?_⟩
    intro hdot
    rw [show head.tag = .dot from hdot] at hhead
    rcases hhead with hhead | hhead | hhead <;> cases hhead
  | @lambda opener head _ _ _ _ _ _ hopener hhead _ _ _ _ _ _ _ =>
    exact ⟨opener, _, _, rfl, rfl, by rw [hopener]; rfl, by rw [hhead]; decide⟩
  | @define opener head _ _ _ hopener hhead _ _ =>
    exact ⟨opener, _, _, rfl, rfl, by rw [hopener]; rfl, by rw [hhead]; decide⟩
  | @cond opener head _ _ hopener hhead _ =>
    exact ⟨opener, _, _, rfl, rfl, by rw [hopener]; rfl, by rw [hhead]; decide⟩
  | @letNamed opener head _ _ _ _ _ _ hopener hhead _ _ _ _ _ =>
    exact ⟨opener, _, _, rfl, rfl, by rw [hopener]; rfl, by rw [hhead]; decide⟩
  | empty hopener | application hopener | literals hopener | list hopener =>
    exact ⟨_, _, _, rfl, rfl, by rw [hopener]; rfl, nofun⟩
  | close hrow => cases hrow

/-- A phrase has a token. -/
theorem Derives.length_pos {phrase : Phrase} {front : List Token} {forms : List Form}
    (h : Derives phrase front forms) : 0 < front.length := by
  cases h with
  | more hfirst _ =>
    obtain ⟨token, others, _, rfl, _⟩ := hfirst.first
    simp
  | _ => simp

end TowerLisp
