import TowerLisp.Proofs.PrintedWords
import TowerLisp.Proofs.TokenConservation

/-!
Forms that come back from print. `Form.echoes` tells that a form is the same as another up to
places, the spelling of quotations and the kind of leaves. What a form denotes as data is
found part by part, and each of its tokens is printed as a word that is read as its echo.
-/

namespace TowerLisp

open Token (said)

namespace Token

/-- What a form that is to be read back may hold: no dots, symbols that stay symbols in
print, exact numbers that can be printed, and texts without the end mark. -/
structure Printable (t : Token) : Prop where
  notDot : t.tag ≠ .dot
  notLone : t.tag = .symbol → ∀ name, t.payload = .text name → isLone name = false
  number : ∀ n, t.payload = .number n → n.WellFormedExact ∧ ∃ text, n.text = .ok text
  text : t.tag = .string ∨ t.tag = .character →
    ∀ text, t.payload = .text text → Cursor.endMark ∉ text.toList

theorem Printable.of_text {t : Token} {tag : Tag} {text : String} (h : t.said = (tag, .text text))
    (hdot : tag ≠ .dot) (hlone : isLone text = false) (hmark : Cursor.endMark ∉ text.toList) :
    t.Printable := by
  obtain ⟨_, _, place⟩ := t
  cases h
  refine ⟨hdot, ?_, nofun, ?_⟩
  · rintro - _ ⟨⟩
    exact hlone
  · rintro - _ ⟨⟩
    exact hmark

/-- The token of a leaf and the one that is read for it from print. A character comes back as a
string, and a number as one of the same value. -/
def echoes (t again : Token) : Bool :=
  again.tag = (if t.tag = .character then .string else t.tag) &&
    match t.payload, again.payload with
    | .number n, .number m => (m.equal n).toOption = some true
    | payload, payload' => payload = payload'

end Token

namespace Form

mutual

/-- The same form at another place, up to the kind of its leaves. Quoting forms may be spelled
with a mark or with a keyword. -/
def echoes : Form → Form → Bool
  | ⟨token, parts, compound⟩, ⟨token', parts', compound'⟩ =>
    compound = compound' && echoesAll parts parts' &&
      if compound then
        token'.tag = token.tag && (token.tag.isQuoting || token'.payload = token.payload)
      else token.echoes token'

def echoesAll : List Form → List Form → Bool
  | [], [] => true
  | first :: rest, first' :: rest' => echoes first first' && echoesAll rest rest'
  | _, _ => false

end

variable {token token' : Token} {parts parts' : List Form}

@[simp] theorem echoesAll_nil : echoesAll [] [] = true := rfl

@[simp] theorem echoesAll_cons (f g : Form) (fs gs : List Form) :
    echoesAll (f :: fs) (g :: gs) = (f.echoes g && echoesAll fs gs) := rfl

theorem echoesAll_length {fs gs : List Form} (h : echoesAll fs gs = true) :
    fs.length = gs.length := by
  induction fs generalizing gs with
  | nil =>
    cases gs with
    | nil => rfl
    | cons g gs => exact absurd h Bool.false_ne_true
  | cons f fs ih =>
    cases gs with
    | nil => exact absurd h Bool.false_ne_true
    | cons g gs =>
      rw [echoesAll_cons, Bool.and_eq_true] at h
      rw [List.length_cons, List.length_cons, ih h.2]

theorem echoes_mk (compound compound' : Bool) :
    (Form.mk token parts compound).echoes ⟨token', parts', compound'⟩ =
      (compound = compound' && echoesAll parts parts' &&
        if compound then
          token'.tag = token.tag && (token.tag.isQuoting || token'.payload = token.payload)
        else token.echoes token') := rfl

theorem echoes_leaf (h : token.echoes token' = true) :
    (leaf token).echoes (leaf token') = true := by
  simp [leaf, echoes_mk, h]

theorem echoes_headed (h : token'.said = token.said) (hparts : echoesAll parts parts' = true) :
    (Form.mk token parts true).echoes ⟨token', parts', true⟩ = true := by
  obtain ⟨htag, hpayload⟩ := Prod.mk.inj h
  simp [echoes_mk, hparts, htag, hpayload]

theorem echoes_quoting (htag : token'.tag = token.tag) (hquoting : token.tag.isQuoting = true)
    (hparts : echoesAll parts parts' = true) :
    (compoundAt token.tag parts token).echoes (compoundAt token'.tag parts' token') = true := by
  rw [compoundAt_self, compoundAt_self]
  simp [echoes_mk, hparts, htag, hquoting]

/-- The text of a group does not depend on the token that it stands at. -/
theorem echoes_group {tag : Tag} (htag : token.tag ≠ tag) (htag' : token'.tag ≠ tag)
    (hparts : echoesAll parts parts' = true) :
    (compoundAt tag parts token).echoes (compoundAt tag parts' token') = true := by
  simp [compoundAt, echoes_mk, hparts, htag, htag']

theorem datum_leaf (token : Token) : (leaf token).datum = leafDatum token := by
  rw [leaf, datum, if_pos (by decide)]

theorem datum_group {tag : Tag} (h : tag.isGroup = true) (hempty : tag ≠ .empty)
    (token : Token) (parts : List Form) : (compoundAt tag parts token).datum = datumList parts := by
  have hquoting : tag.isQuoting = false ∧ tag ≠ .symbol ∧ tag ≠ .operator ∧
      tag.keyword? = none := by
    revert h
    cases tag <;> decide
  rw [compoundAt, datum]
  simp [hquoting, hempty]

/-- A group in front of other forms is a list in front of others. -/
theorem datumList_group {tag : Tag} (h : tag.isGroup = true) (hempty : tag ≠ .empty)
    {others : List Form} {values more : List Value} (hparts : datumList parts = .ok (.list values))
    (hothers : datumList others = .ok (.list more)) (token : Token) :
    datumList (compoundAt tag parts token :: others) = .ok (.list (.list values :: more)) := by
  refine datumList_cons ?_ ?_ hothers
  · change tag ≠ .dot
    rintro rfl
    cases h
  · rw [datum_group h hempty, hparts]

theorem datum_headed (htag : token.tag.isHead = true) (hquoting : token.tag.isQuoting = false)
    {v : Value} {values : List Value} (hhead : leafDatum token = .ok v)
    (hparts : datumList parts = .ok (.list values)) :
    (Form.mk token parts true).datum = .ok (.list (v :: values)) := by
  have hempty : token.tag ≠ .empty := by
    intro heq
    rw [heq] at htag
    cases htag
  have hhead' : (token.tag = .symbol || token.tag = .operator ||
      token.tag.keyword?.isSome) = true := htag
  rw [datum, if_neg (by decide), hquoting, if_neg (by decide), if_neg hempty, if_pos hhead', hhead,
    ok_bind, hparts]
  rfl

theorem datum_quoting (hquoting : token.tag.isQuoting = true) {quoted : Form} {v : Value}
    (h : quoted.datum = .ok v) :
    (compoundAt token.tag [quoted] token).datum = .ok (.list [.symbol token.tag.keyword, v]) := by
  rw [compoundAt_self, datum, if_neg (by decide), if_pos hquoting, datumFirst, h]
  rfl

theorem mem_flat_leaf (token : Token) : token ∈ (leaf token).flat := by
  rw [flat_leaf]
  exact List.mem_singleton_self token

theorem flatAll_subset_flat (token : Token) (parts : List Form) (compound : Bool) :
    ∀ t ∈ flatAll parts, t ∈ (Form.mk token parts compound).flat := by
  intro t ht
  rw [flat, around]
  split
  · exact List.mem_cons_of_mem _ ht
  split
  · exact List.mem_append_left _ (List.mem_cons_of_mem _ ht)
  · exact List.mem_append_left _ (List.mem_cons_of_mem _ (List.mem_cons_of_mem _ ht))

end Form

theorem Tag.isAtom_of_keyword {tag : Tag} (h : tag.keyword?.isSome = true) :
    tag.isAtom = false := by
  cases tag <;> first | rfl | cases h

namespace Reader

/-- The form of an atom is written as a word that is read as the same atom. -/
def AtomReadsBack (store : Store) (form : Form) (word : Tag × Payload) : Prop :=
  (∃ v, form.datum = .ok v ∧ v.Writes store [word]) ∧
    ∀ again : Token, again.said = word →
      ∃ form', atom again = .ok form' ∧ form.echoes form' = true

theorem leaf_readsBack {store : Store} {t : Token} {v : Value} {word : Tag × Payload}
    (hdatum : Form.leafDatum t = .ok v) (hwrites : v.Writes store [word])
    (hnumber : word.1 ≠ .number) (hecho : ∀ place, t.echoes ⟨word.1, word.2, place⟩ = true) :
    AtomReadsBack store (.leaf t) word := by
  refine ⟨⟨v, by rw [Form.datum_leaf, hdatum], hwrites⟩, ?_⟩
  rintro ⟨tag, payload, place⟩ rfl
  refine ⟨.leaf ⟨tag, payload, place⟩, ?_, Form.echoes_leaf (hecho place)⟩
  unfold atom
  split
  · rename_i htag _
    exact absurd htag hnumber
  · rfl

theorem atom_readsBack (store : Store) {t : Token} {form : Form} (h : atom t = .ok form)
    (hatom : t.tag.isAtom = true) (htext : t.OfText) (hprint : ∀ u ∈ form.flat, u.Printable) :
    ∃ word, AtomReadsBack store form word ∧ word.1.isAtom = true ∧
      (t.tag.isLiteral = true → word.1.isLiteral = true) := by
  have hspelled := htext.spelled
  obtain ⟨tag, payload, place⟩ := t
  cases hspelled with
  | number digits =>
    rw [atom] at h
    dsimp only at h
    split at h
    · rename_i n hparse
      cases h
      obtain ⟨hn, text, hwritten⟩ := (hprint _ (Form.mem_flat_leaf _)).number n rfl
      refine ⟨(.number, .text text), ⟨⟨.number n, by rw [Form.datum_leaf]; rfl,
        Value.writes_number hn hwritten⟩, ?_⟩, rfl, fun _ => rfl⟩
      rintro ⟨tag, payload, place'⟩ ⟨⟩
      refine ⟨.leaf ⟨.number, .number n.plain, place'⟩, ?_, Form.echoes_leaf ?_⟩
      · rw [atom]
        dsimp only
        rw [Number.parse_text hn hwritten]
      · simp [Token.echoes, Number.plain_equal hn, Except.toOption]
    · cases h
    · cases h
  | string text =>
    cases h
    have hmark := (hprint _ (Form.mem_flat_leaf _)).text (Or.inl rfl) text rfl
    exact ⟨(.string, .text text), leaf_readsBack rfl (Value.writes_string hmark) (by simp)
      (by simp [Token.echoes]), rfl, fun _ => rfl⟩
  | character text =>
    cases h
    have hmark := (hprint _ (Form.mem_flat_leaf _)).text (Or.inr rfl) text rfl
    exact ⟨(.string, .text text), leaf_readsBack rfl (Value.writes_string hmark) (by simp)
      (by simp [Token.echoes]), rfl, fun _ => rfl⟩
  | @boolean text htruth =>
    cases h
    have hdatum : Form.leafDatum ⟨.boolean, .text text, place⟩ = .ok (.symbol text) := by
      obtain rfl | rfl := htruth <;> rfl
    exact ⟨(.boolean, .text text), leaf_readsBack hdatum
      (Value.writes_symbol fun rest hrest => lexes_boolean htruth hrest) (by simp)
      (by simp [Token.echoes]), rfl, fun _ => rfl⟩
  | @symbol name _ =>
    cases h
    have hlone := (hprint _ (Form.mem_flat_leaf _)).notLone rfl name rfl
    exact ⟨(.symbol, .text name), leaf_readsBack rfl
      (Value.writes_symbol fun rest hrest => htext.lexes_symbol rfl rfl hlone hrest) (by simp)
      (by simp [Token.echoes]), rfl, id⟩
  | @operator char hchar =>
    cases h
    have hlexes (rest) (hrest : Stops rest) : Lexes (String.singleton char).toList rest
        [(.operator, .operator char)] := by
      rw [String.toList_singleton]
      exact lexes_operator hchar hrest
    exact ⟨(.operator, .operator char), leaf_readsBack rfl (Value.writes_symbol hlexes) (by simp)
      (by simp [Token.echoes]), rfl, id⟩
  | keyword hkeyword =>
    rw [Tag.isAtom_of_keyword (Tag.keyword_of_ofKeyword? hkeyword)] at hatom
    cases hatom
  | _ => cases hatom

end Reader

/-- A token that is the head of a form, and is no quotation, is written as itself. -/
theorem Token.OfText.head_writes {head : Token} (htext : head.OfText)
    (htag : head.tag.isHead = true) (hquoting : head.tag.isQuoting = false)
    (hprint : head.Printable) (store : Store) :
    ∃ v, Form.leafDatum head = .ok v ∧ v.Writes store [head.said] := by
  have hspelled := htext.spelled
  obtain ⟨tag, payload, place⟩ := head
  cases hspelled with
  | @symbol name _ =>
    have hlone := hprint.notLone rfl name rfl
    exact ⟨.symbol name, rfl, Value.writes_symbol fun rest hrest =>
      htext.lexes_symbol rfl rfl hlone hrest⟩
  | @operator char hchar =>
    refine ⟨.symbol (String.singleton char), rfl, Value.writes_symbol fun rest hrest => ?_⟩
    rw [String.toList_singleton]
    exact lexes_operator hchar hrest
  | @keyword tag word hkeyword =>
    refine ⟨.symbol word, ?_, Value.writes_symbol fun rest hrest => lexes_keyword hkeyword hrest⟩
    unfold Tag.ofKeyword? at hkeyword
    split at hkeyword <;> cases hkeyword <;> first | rfl | cases hquoting
  | quote | quasiquote | unquote | splice => cases hquoting
  | _ => cases htag

theorem Value.writes_keyword (store : Store) {tag : Tag} (h : tag.isQuoting = true) :
    (symbol tag.keyword).Writes store [(tag, .text tag.keyword)] := by
  have hkeyword := Tag.keyword?_eq_keyword (.inl h)
  exact writes_symbol fun rest hrest => lexes_keyword (Tag.ofKeyword?_of_keyword? hkeyword) hrest

end TowerLisp
