import TowerLisp.Proofs.DatumReading
import TowerLisp.Proofs.NumberTokens
import TowerLisp.Value.Printer

/-!
Atoms as data. A name that is one token when it stands alone, a string without the end
mark, an exact number and the empty list are printed as a text that is split into tokens
which are read as the same value.
-/

namespace TowerLisp

/-- Tags of the tokens that a quoted symbol is spelled with. -/
def Tag.isName (tag : Tag) : Bool :=
  tag = .symbol || tag = .operator || tag = .boolean || tag.keyword?.isSome

/-- Names that stand alone as one token with that text. -/
def isReadable (name : String) : Bool :=
  match Tokens.ofSource name.toList with
  | .more t (.done _) => t.tag.isName && t.payload.written.toOption == some name
  | _ => false

/-- The marks in front of quoted and unquoted data. -/
def quotingMarks : List String :=
  ["'", "\x60", ",", ",@"]

/-- The words that quote or unquote when a list starts with them. -/
def quotingWords : List String :=
  ["quote", "quasi-quote", "quasiquote", "unquote", "unquote-splicing", "unquote-splice"]

/-- A value is printed as a text in front of a stop that is split into words, and these
are read as the value. Only a symbol starts with a quoting word. -/
structure PrintsAs (store : Store) (v : Value) (text : String) (words : List (Tag × Payload)) :
    Prop where
  printed : v.printed store = .ok text
  lexes : ∀ rest, Stops rest → Lexes text.toList rest words
  reads : ReadsAs words v
  opens : ∀ word ∈ words.head?, word.1.isQuoting = true →
    ∃ name ∈ quotingWords, v = .symbol name

theorem Form.standsFor_leaf {tag : Tag} {payload : Payload} {place : Option Place} {w v : Value}
    (htag : tag ≠ .dot) (hdatum : leafDatum ⟨tag, payload, place⟩ = .ok w)
    (hequal : w.equal v = .ok true) : (leaf ⟨tag, payload, place⟩).StandsFor v := by
  refine ⟨htag, w, ?_, hequal⟩
  rw [leaf, datum, if_pos (by decide), hdatum]

theorem Tag.isQuoting_of_isAtom {tag : Tag} (h : tag.isAtom = true) : tag.isQuoting = false := by
  cases tag <;> first | rfl | cases h

theorem Reader.datum_of_isAtom {t : Token} (h : t.tag.isAtom = true) (fuel depth : Nat)
    (tokens : Tokens) :
    Reader.datum (fuel + 1) t depth tokens = (do return (← Reader.atom t, tokens)) := by
  have hparen : t.tag ≠ .lparen := by
    intro htag
    rw [htag] at h
    cases h
  have hmarked : t.isPrefix = false := by
    rw [Token.isPrefix, Tag.isQuoting_of_isAtom h, Bool.false_and]
  rw [Reader.datum, if_neg hparen, if_neg (by rw [hmarked]; decide), if_pos h]

theorem printsAs_nil (store : Store) :
    PrintsAs store .nil "()" [(.lparen, .text "("), (.rparen, .text ")")] where
  printed := rfl
  lexes := fun rest _ => (lexes_lparen (')' :: rest)).append (lexes_rparen rest)
  reads := readsAs_empty
  opens := by
    rintro _ ⟨⟩ hquoting
    cases hquoting

theorem printsAs_string (store : Store) {text : String} (h : Cursor.endMark ∉ text.toList) :
    PrintsAs store (.string text) (String.ofList (Text.quoted text.toList))
      [(.string, .text text)] where
  printed := rfl
  lexes := by
    intro rest _
    have hlexes := lexes_quoted h rest
    rw [String.ofList_toList] at hlexes
    rwa [String.toList_ofList]
  reads := by
    refine readsAs_token (by decide) fun fuel place depth tokens => ?_
    refine ⟨.leaf ⟨.string, .text text, place⟩, Reader.datum_of_isAtom rfl fuel depth tokens,
      Form.standsFor_leaf (by decide) rfl ?_⟩
    rw [Value.equal, beq_self_eq_true]
  opens := by
    rintro _ ⟨⟩ hquoting
    cases hquoting

/-- A number is read as one of the same value, though perhaps of a simpler kind. -/
theorem printsAs_number (store : Store) {n : Number} (hn : n.WellFormedExact) {text : String}
    (h : n.text = .ok text) : PrintsAs store (.number n) text [(.number, .text text)] where
  printed := h
  lexes := fun rest hrest => Number.lexes_text hn h hrest
  reads := by
    refine readsAs_token (by decide) fun fuel place depth tokens => ?_
    refine ⟨.leaf ⟨.number, .number n.plain, place⟩, ?_,
      Form.standsFor_leaf (w := .number n.plain) (by decide) rfl ?_⟩
    · rw [Reader.datum_of_isAtom rfl, Reader.atom]
      dsimp only
      rw [Number.parse_text hn h]
      rfl
    · rw [Value.equal, Number.plain_equal hn, ite_self]
  opens := by
    rintro _ ⟨⟩ hquoting
    cases hquoting

/-- The token of a name is read as the symbol of that name. -/
theorem Reader.datum_name {t : Token} {name : String} (hspelled : t.Spelled)
    (hname : t.tag.isName = true) (hwritten : t.payload.written = .ok name)
    (hmark : name ∉ quotingMarks) (fuel depth : Nat) (tokens : Tokens) :
    ∃ form, Reader.datum (fuel + 1) t depth tokens = .ok (form, tokens) ∧
      form.StandsFor (.symbol name) := by
  have hequal : (Value.symbol name).equal (.symbol name) = .ok true := by
    rw [Value.equal, beq_self_eq_true]
  obtain ⟨tag, payload, place⟩ := t
  cases hspelled with
  | number => cases hname
  | string => cases hname
  | character => cases hname
  | lparen => cases hname
  | rparen => cases hname
  | dot => cases hname
  | boolean htruth =>
    cases hwritten
    refine ⟨.leaf ⟨.boolean, _, place⟩, Reader.datum_of_isAtom rfl fuel depth tokens,
      Form.standsFor_leaf (by decide) ?_ hequal⟩
    obtain rfl | rfl := htruth <;> rfl
  | symbol =>
    cases hwritten
    exact ⟨.leaf ⟨.symbol, _, place⟩, Reader.datum_of_isAtom rfl fuel depth tokens,
      Form.standsFor_leaf (by decide) rfl hequal⟩
  | operator =>
    cases hwritten
    exact ⟨.leaf ⟨.operator, _, place⟩, Reader.datum_of_isAtom rfl fuel depth tokens,
      Form.standsFor_leaf (by decide) rfl hequal⟩
  | keyword hkeyword =>
    cases hwritten
    refine ⟨.leaf ⟨.symbol, .text name, place⟩, ?_,
      Form.standsFor_leaf (by decide) rfl hequal⟩
    have hsome := Tag.keyword_of_ofKeyword? hkeyword
    have hparen : tag ≠ .lparen := by
      rintro rfl
      cases hsome
    have hatom : tag.isAtom = false := by
      cases tag <;> first | rfl | cases hsome
    have hmarked : Token.isPrefix ⟨tag, .text name, place⟩ = false := by
      rw [quotingMarks, List.mem_cons, List.mem_cons, List.mem_cons, List.mem_singleton] at hmark
      simp only [Token.isPrefix]
      grind
    rw [Reader.datum, if_neg hparen, hmarked, if_neg (by decide), hatom, if_neg (by decide),
      if_pos hsome]
  | quote | quasiquote | unquote | splice =>
    cases hwritten
    exact absurd (by decide) hmark

theorem mem_quotingWords {name : String} {tag : Tag} (h : Tag.ofKeyword? name = some tag)
    (htag : tag.isQuoting = true) : name ∈ quotingWords := by
  unfold Tag.ofKeyword? at h
  split at h <;> cases h <;> first | decide | cases htag

/-- A token that quotes is spelled as a quoting word or mark. -/
theorem Token.Spelling.isQuoting {tag : Tag} {payload : Payload} (h : Token.Spelling tag payload)
    (htag : tag.isQuoting = true) :
    ∃ name, payload = .text name ∧ (name ∈ quotingWords ∨ name ∈ quotingMarks) := by
  cases h with
  | keyword hkeyword => exact ⟨_, rfl, Or.inl (mem_quotingWords hkeyword htag)⟩
  | quote | quasiquote | unquote | splice => exact ⟨_, rfl, Or.inr (by decide)⟩
  | _ => cases htag

/-- A readable name is scanned as one token that takes it up. -/
theorem exists_scan_of_isReadable {name : String} (h : isReadable name = true) :
    ∃ t after, (Cursor.start name.toList).scan = (.ok t, after) ∧ after.ahead = [] ∧
      t.Spelled ∧ t.tag.isName = true ∧ t.payload.written = .ok name := by
  unfold isReadable at h
  split at h
  · rename_i t eof htokens
    rw [Bool.and_eq_true, beq_iff_eq] at h
    obtain ⟨hname, hwritten⟩ := h
    have hok : t.payload.written = .ok name := by
      cases hpayload : t.payload.written with
      | error fault => rw [hpayload] at hwritten; cases hwritten
      | ok text => rw [hpayload] at hwritten; cases hwritten; rfl
    have hspelled : t.Spelled := by
      refine Tokens.ofCursor_spelled (.start name.toList) t ?_
      rw [← Tokens.ofSource, htokens]
      exact List.mem_singleton_self t
    have htag : t.tag ≠ .eof ∧ t.tag ≠ .string ∧ t.tag ≠ .character := by
      refine ⟨?_, ?_, ?_⟩ <;> intro heq <;> rw [heq] at hname <;> cases hname
    obtain ⟨after, hscan⟩ : ∃ after, (Cursor.start name.toList).scan = (.ok t, after) :=
      Tokens.scan_of_ofCursor_more htokens
    exact ⟨t, after, hscan, Cursor.scan_whole hscan htag hok rfl, hspelled, hname, hok⟩
  · cases h

/-- A name that is scanned as one token is read as the symbol of that name. -/
theorem printsAs_scanned (store : Store) {name : String} {t : Token} {after : Cursor}
    (hscan : (Cursor.start name.toList).scan = (.ok t, after)) (hafter : after.ahead = [])
    (hspelled : t.Spelled) (hname : t.tag.isName = true) (hwritten : t.payload.written = .ok name)
    (hmark : name ∉ quotingMarks) : PrintsAs store (.symbol name) name [t.said] := by
  have htag : t.tag ≠ .rparen ∧ t.tag ≠ .dot ∧ t.tag ≠ .eof := by
    refine ⟨?_, ?_, ?_⟩ <;> intro heq <;> rw [heq] at hname <;> cases hname
  refine ⟨rfl, fun rest hrest => lexes_again hscan htag.2.2 hafter hrest, ?_, ?_⟩
  · refine readsAs_token ⟨htag.1, htag.2.1⟩ fun fuel place depth tokens => ?_
    exact Reader.datum_name (t := ⟨t.tag, t.payload, place⟩) hspelled hname hwritten hmark fuel
      depth tokens
  · rintro _ ⟨⟩ hquoting
    obtain ⟨text, htext, hword | hmark'⟩ := hspelled.isQuoting hquoting
    · rw [htext] at hwritten
      cases hwritten
      exact ⟨name, hword, rfl⟩
    · rw [htext] at hwritten
      cases hwritten
      exact absurd hmark' hmark

theorem printsAs_symbol (store : Store) {name : String} (h : isReadable name = true)
    (hmark : name ∉ quotingMarks) : ∃ word, PrintsAs store (.symbol name) name [word] := by
  obtain ⟨t, after, hscan, hafter, hspelled, hname, hwritten⟩ := exists_scan_of_isReadable h
  exact ⟨t.said, printsAs_scanned store hscan hafter hspelled hname hwritten hmark⟩

theorem printsAs_quoteWord (store : Store) :
    PrintsAs store (.symbol "quote") "quote" [(.quote, .text "quote")] := by
  have hscan : (Cursor.start "quote".toList).scan =
      (.ok ⟨.quote, .text "quote", some .first⟩, (Cursor.start "quote".toList).skip 5) := by
    rfl
  exact printsAs_scanned store hscan rfl (.keyword rfl) rfl rfl (by decide)

end TowerLisp
