import TowerLisp.Proofs.Atoms
import TowerLisp.Session.Basic

/-!
Data that is printed can be read back. A list is printed item by item, and the text of
each item stands before a blank or a closing parenthesis, so that it is split into the
same tokens as when it stands alone. Behind a quote the tokens are read as the value
that was printed, except for lists that would be taken for a quotation.
-/

namespace TowerLisp

open Tokens (following)

namespace Value

/-- Data that is built from the empty list, symbols with certain names, strings without
the end mark, exact numbers that can be printed, and pairs. -/
inductive BuiltFrom (names : String → Prop) : Value → Prop where
  | nil : BuiltFrom names nil
  | symbol {name : String} : names name → BuiltFrom names (symbol name)
  | string {text : String} : Cursor.endMark ∉ text.toList → BuiltFrom names (string text)
  | number {n : Number} {text : String} : n.WellFormedExact → n.text = .ok text →
      BuiltFrom names (number n)
  | pair {head tail : Value} : BuiltFrom names head → BuiltFrom names tail →
      BuiltFrom names (pair head tail)

/-- A list that starts with a quoting word is a quotation of one element. -/
def opensWell (head tail : Value) : Bool :=
  match head, tail with
  | symbol "quote", pair _ nil => true
  | symbol name, _ => !quotingWords.contains name
  | _, _ => true

/-- All lists that are elements open well; the tail of a list is none. -/
def elementsOpenWell : (element : Bool) → Value → Bool
  | element, pair head tail =>
    (!element || opensWell head tail) && elementsOpenWell true head && elementsOpenWell false tail
  | _, _ => true

end Value

/-- The rest of a list is printed as a text that is split into words, and these are
read as the rest of the list. -/
structure PrintsTail (store : Store) (v : Value) (text : String) (words : List (Tag × Payload)) :
    Prop where
  printed : ∀ front, Value.printedTail store front v = .ok (front ++ text)
  stops : ∀ rest, Stops (text.toList ++ ')' :: rest)
  lexes : ∀ rest, Lexes text.toList (')' :: rest) words
  reads : ReadsItems words v

section Lists

variable {store : Store} {v head tail : Value} {text others : String}
  {words more : List (Tag × Payload)}

theorem printsTail_nil (store : Store) : PrintsTail store .nil "" [] where
  printed := fun front => by rw [Value.printedTail, String.append_empty]
  stops := stops_close
  lexes := fun rest => lexes_nil (')' :: rest)
  reads := readsItems_nil

theorem PrintsAs.cons (h : PrintsAs store head text words)
    (hs : PrintsTail store tail others more) :
    PrintsTail store (.pair head tail) (" " ++ text ++ others) (words ++ more) where
  printed := by
    intro front
    rw [Value.printedTail, h.printed, ok_bind, hs.printed]
    simp only [String.append_assoc]
  stops := by
    intro rest
    rw [String.toList_append, String.toList_append]
    exact stops_blank _
  lexes := by
    intro rest
    rw [String.toList_append, String.toList_append]
    exact ((h.lexes _ (hs.stops rest)).append (hs.lexes rest)).blank
  reads := readsItems_cons h.reads hs.reads

/-- An atom that ends a list stands behind a dot. -/
theorem PrintsAs.dotted (h : PrintsAs store v text words)
    (hatom : ∀ front, Value.printedTail store front v = (do
      return front ++ " . " ++ (← v.printed store))) :
    PrintsTail store v (" . " ++ text) ((.dot, .text ".") :: words) where
  printed := by
    intro front
    rw [hatom, h.printed, ok_bind, String.append_assoc]
    rfl
  stops := by
    intro rest
    rw [String.toList_append]
    exact stops_blank _
  lexes := by
    intro rest
    rw [String.toList_append]
    have hitem : Lexes (' ' :: text.toList) (')' :: rest) words :=
      (h.lexes _ (stops_close rest)).blank
    exact ((lexes_dot _).append hitem).blank
  reads := readsItems_dotted h.reads

/-- A list between parentheses, if its words are read as a list. -/
theorem PrintsAs.parens (h : PrintsAs store head text words)
    (hs : PrintsTail store tail others more)
    (hreads : ReadsAs ((.lparen, .text "(") :: (words ++ more) ++ [(.rparen, .text ")")])
      (.pair head tail)) :
    PrintsAs store (.pair head tail) ("(" ++ text ++ others ++ ")")
      ((.lparen, .text "(") :: (words ++ more) ++ [(.rparen, .text ")")]) where
  printed := by
    rw [Value.printed, h.printed, ok_bind, hs.printed]
    rfl
  lexes := by
    intro rest _
    have hinner : Lexes (text.toList ++ others.toList) (')' :: rest) (words ++ more) :=
      (h.lexes _ (hs.stops rest)).append (hs.lexes rest)
    simp only [String.toList_append]
    exact ((lexes_lparen _).append hinner).append (lexes_rparen rest)
  reads := hreads
  opens := by
    rintro _ ⟨⟩ hquoting
    cases hquoting

/-- A quotation of one element. -/
theorem PrintsAs.quote (h : PrintsAs store v text words) :
    ∃ text words, PrintsAs store (.list [.symbol "quote", v]) text words := by
  have hlist := (printsAs_quoteWord store).parens (h.cons (printsTail_nil store))
  rw [List.append_nil] at hlist
  exact ⟨_, _, hlist (readsAs_quote h.reads)⟩

/-- A list that does not start with a quoting word. -/
theorem PrintsAs.pair (h : PrintsAs store head text words) (hs : PrintsTail store tail others more)
    (hhead : ∀ name ∈ quotingWords, head ≠ .symbol name) :
    ∃ text words, PrintsAs store (.pair head tail) text words := by
  have hplain : ∀ word ∈ words.head?, word.1.isQuoting = false := by
    intro word hword
    rw [← Bool.not_eq_true]
    intro hquoting
    obtain ⟨name, hname, hsymbol⟩ := h.opens word hword hquoting
    exact hhead name hname hsymbol
  exact ⟨_, _, h.parens hs (readsAs_pair hplain h.reads hs.reads)⟩

end Lists

theorem Value.opensWell_cases {head tail : Value} (h : opensWell head tail = true) :
    (head = .symbol "quote" ∧ ∃ x, tail = .pair x .nil) ∨
      ∀ name ∈ quotingWords, head ≠ .symbol name := by
  unfold opensWell at h
  split at h
  · exact Or.inl ⟨rfl, _, rfl⟩
  · rename_i word tail hquote
    refine Or.inr fun name hname hsymbol => ?_
    cases hsymbol
    simp [hname] at h
  · rename_i hsymbol _
    exact Or.inr fun name _ hname => hsymbol name hname

/-- A value is printed as words for it, as an element and as the tail of a list. The element
of a quotation is found in its tail. -/
structure Prints (store : Store) (v : Value) : Prop where
  element : v.elementsOpenWell true = true → ∃ text words, PrintsAs store v text words
  tail : v.elementsOpenWell false = true → ∃ text words, PrintsTail store v text words
  single : v.elementsOpenWell false = true →
    ∀ x, v = .pair x .nil → ∃ text words, PrintsAs store x text words

/-- An atom is printed alike as an element and behind a dot. -/
theorem PrintsAs.prints {store : Store} {v : Value} {text : String}
    {words : List (Tag × Payload)} (h : PrintsAs store v text words)
    (hatom : ∀ front, Value.printedTail store front v = (do
      return front ++ " . " ++ (← v.printed store)))
    (hpair : ∀ x, v ≠ .pair x .nil) : Prints store v where
  element := fun _ => ⟨text, words, h⟩
  tail := fun _ => ⟨_, _, h.dotted hatom⟩
  single := fun _ x hx => absurd hx (hpair x)

theorem prints_nil (store : Store) : Prints store .nil where
  element := fun _ => ⟨_, _, printsAs_nil store⟩
  tail := fun _ => ⟨_, _, printsTail_nil store⟩
  single := fun _ _ hx => Value.noConfusion hx

theorem Prints.pair {store : Store} {head tail : Value} (h : Prints store head)
    (hs : Prints store tail) : Prints store (.pair head tail) := by
  have hparts (element : Bool)
      (hopens : (Value.pair head tail).elementsOpenWell element = true) :
      (element = true → Value.opensWell head tail = true) ∧
        head.elementsOpenWell true = true ∧ tail.elementsOpenWell false = true := by
    rw [Value.elementsOpenWell, Bool.and_eq_true, Bool.and_eq_true] at hopens
    obtain ⟨⟨hopens, hhead⟩, htail⟩ := hopens
    refine ⟨?_, hhead, htail⟩
    rintro rfl
    exact hopens
  refine ⟨fun hopens => ?_, fun hopens => ?_, fun hopens x hx => ?_⟩
  · obtain ⟨hstart, hhead, htail⟩ := hparts true hopens
    obtain ⟨rfl, x, rfl⟩ | hplain := Value.opensWell_cases (hstart rfl)
    · obtain ⟨text, words, hquoted⟩ := hs.single htail x rfl
      exact hquoted.quote
    · obtain ⟨text, words, hprints⟩ := h.element hhead
      obtain ⟨others, more, htails⟩ := hs.tail htail
      exact hprints.pair htails hplain
  · obtain ⟨-, hhead, htail⟩ := hparts false hopens
    obtain ⟨text, words, hprints⟩ := h.element hhead
    obtain ⟨others, more, htails⟩ := hs.tail htail
    exact ⟨_, _, hprints.cons htails⟩
  · obtain ⟨-, hhead, -⟩ := hparts false hopens
    cases hx
    exact h.element hhead

/-- Data is printed as words for it. -/
theorem Value.BuiltFrom.prints (store : Store) {v : Value}
    (h : v.BuiltFrom fun name => isReadable name = true ∧ name ∉ quotingMarks) :
    Prints store v := by
  induction h with
  | nil => exact prints_nil store
  | symbol hname =>
    obtain ⟨word, hprints⟩ := printsAs_symbol store hname.1 hname.2
    exact hprints.prints (fun _ => rfl) (fun _ => Value.noConfusion)
  | string htext =>
    exact (printsAs_string store htext).prints (fun _ => rfl) (fun _ => Value.noConfusion)
  | number hn htext =>
    exact (printsAs_number store hn htext).prints (fun _ => rfl) (fun _ => Value.noConfusion)
  | pair _ _ ihhead ihtail => exact ihhead.pair ihtail

namespace Reader

/-- A quoting mark in code and the datum after it. -/
theorem expression_mark {fuel : Nat} {token : Token} {rest after : Tokens} {quoted : Form}
    (place : Option Place) (h : datum fuel token 0 rest = .ok (quoted, after)) :
    expression (fuel + 2) ⟨.quote, .text "'", place⟩ (.more token rest) =
      .ok (.compoundAt .quote [quoted] ⟨.quote, .text "'", place⟩, after) := by
  rw [expression, if_neg (by simp), if_pos (by rfl), quoting]
  dsimp only [codeDepth?]
  rw [nextQuoted, ok_bind]
  dsimp only
  rw [h]
  rfl

/-- A quoting mark, a datum, and nothing after them. -/
theorem readTokens_mark {token eof : Token} {others : List Token} {quoted : Form}
    (place : Option Place)
    (h : datum (3 * (token :: others).length + 4) token 0 (following others (.done eof)) =
      .ok (quoted, .done eof)) :
    readTokens (following (⟨.quote, .text "'", place⟩ :: token :: others) (.done eof)) =
      ([.compoundAt .quote [quoted] ⟨.quote, .text "'", place⟩], none) := by
  have hlength : (following (⟨.quote, .text "'", place⟩ :: token :: others) (.done eof)).length =
      (token :: others).length + 1 := Tokens.length_following _ _
  have hread : read (following (⟨.quote, .text "'", place⟩ :: token :: others) (.done eof)) =
      .ok (.form (.compoundAt .quote [quoted] ⟨.quote, .text "'", place⟩) (.done eof)) := by
    change read (.more ⟨.quote, .text "'", place⟩ (.more token (following others (.done eof)))) = _
    rw [read, fuelFor]
    change (expression (3 * ((following (⟨.quote, .text "'", place⟩ :: token :: others)
      (.done eof)).length + 1)) _ _ >>= _) = _
    rw [hlength, Nat.mul_add, Nat.mul_add, expression_mark place h]
    rfl
  rw [readTokens, hlength, readLoop, hread]
  rfl

/-- A text that is split into a quoting mark and words for a value is read as one
quotation of it. -/
theorem readTokens_quotation {text : List Char} {words : List (Tag × Payload)} {v : Value}
    (hlexes : Lexes text [] words) (hreads : ReadsAs words v) : ∃ place quoted,
      Reader.readTokens (.ofSource ('\x27' :: text)) =
        ([.compoundAt .quote [quoted] ⟨.quote, .text "'", place⟩], none) ∧ quoted.StandsFor v := by
  have hwhole : Lexes ('\x27' :: text) [] ((.quote, .text "'") :: words) :=
    (lexes_quote (text ++ [])).append hlexes
  obtain ⟨front, after, hfront, hsaid, hafter⟩ :=
    hwhole (.start ('\x27' :: text)) (List.append_nil _).symm
  obtain ⟨mark, front, rfl, hmark, hwords⟩ := List.map_eq_cons_iff.mp hsaid
  obtain ⟨tag, payload, place⟩ := mark
  cases hmark
  obtain ⟨token, others, quoted, rfl, -, -, hread, hform⟩ :=
    hreads front (.done (after.token .eof "EOF")) 0 (3 * front.length + 4) hwords (by omega)
  refine ⟨place, quoted, ?_, hform⟩
  rw [Tokens.ofSource, hfront, Tokens.ofCursor_end hafter]
  exact readTokens_mark place hread

end Reader

/-- A quotation denotes what is quoted, in every scope, and leaves the world as it is. -/
theorem Evaluator.run_quotation {quoted : Form} {value : Value} (h : quoted.datum = .ok value)
    (ev : Evaluator) (mark : Token) (scope : ScopeId) (w : World) :
    ev.next.run (.compoundAt .quote [quoted] mark) scope w = .ok value w := by
  have hform : quoteForm [quoted] = pure (.done value) := by
    rw [quoteForm, h]
    rfl
  change (do ev.next.finish (← quoteForm [quoted])) w = _
  rw [hform, pure_bind, finish, chase]
  rfl

theorem Value.exists_nestsWithin (v : Value) :
    ∃ enough, ∀ limit, enough ≤ limit → v.nestsWithin limit = true := by
  induction v with
  | pair head tail ihhead ihtail =>
    obtain ⟨m, hm⟩ := ihhead
    obtain ⟨n, hn⟩ := ihtail
    refine ⟨max m n + 1, fun limit hlimit => ?_⟩
    obtain ⟨limit, rfl⟩ : ∃ k, limit = k + 1 := ⟨limit - 1, by omega⟩
    rw [nestsWithin, hm limit (by omega), hn (limit + 1) (by omega)]
    rfl
  | _ => exact ⟨0, fun limit _ => by cases limit <;> rfl⟩

/-- A text whose tokens are read as one form is evaluated as that form, under a limit on
the depth that is large enough. -/
theorem Session.evalText_single {source : List Char} {form : Form} {value : Value} {w : World}
    (hread : Reader.readTokens (.ofSource source) = ([form], none))
    (hlimit : (Tokens.ofSource source).length ≤ w.settings.depthLimit)
    (hrun : (evaluator chainLimit w.settings.depthLimit).run form top w = .ok value w) :
    evalText source w = .ok value w := by
  have hwithin : Reader.readFormsWithin w.settings.depthLimit source = ([form], none) := by
    rw [Reader.readFormsWithin, Tokens.within_of_length_le hlimit, hread]
  have hall : (evaluator chainLimit w.settings.depthLimit).runAll top .nil [form] w =
      .ok value w := by
    change EStateM.bind _ _ w = _
    rw [EStateM.bind, hrun]
    rfl
  have hev : currentEvaluator w = .ok (evaluator chainLimit w.settings.depthLimit) w := rfl
  have hget : (get : EvalM World) w = .ok w w := rfl
  simp only [evalText, bind, EStateM.bind, hev, hget, hwithin, hall]
  rfl

theorem Settings.depthLimit_pos (s : Settings) : 0 < s.depthLimit := by
  rw [depthLimit, defaultRecursionLimit]
  omega

/-- Data can be read back. What stands for a value in print, behind a quoting mark, is read
as one form, and that form denotes an equal value in every scope and every world. A session
does the same where its limit on the depth allows for the text. -/
theorem printed_reads_back {v : Value}
    (hbuilt : v.BuiltFrom fun name => isReadable name = true ∧ name ∉ quotingMarks)
    (hopens : v.elementsOpenWell true = true) (store : Store) :
    ∃ text form value, v.printed store = .ok text ∧
      Reader.readAll ('\x27' :: text.toList) = .ok [form] ∧
      (∀ steps depth scope w, (evaluator steps (depth + 1)).run form scope w = .ok value w) ∧
      value.equal v = .ok true ∧
      ∃ enough, ∀ w : World, enough ≤ w.settings.depthLimit →
        v.printedWithin w.settings.depthLimit store = .ok text ∧
        Session.evalText ('\x27' :: text.toList) w = .ok value w := by
  obtain ⟨text, words, hprints⟩ := (hbuilt.prints store).element hopens
  obtain ⟨place, quoted, hread, -, value, hdatum, hequal⟩ :=
    Reader.readTokens_quotation (hprints.lexes [] stops_nil) hprints.reads
  obtain ⟨nested, hnested⟩ := v.exists_nestsWithin
  have hrun (steps depth scope w) := Evaluator.run_quotation hdatum (evaluator steps depth)
    ⟨.quote, .text "'", place⟩ scope w
  refine ⟨text, .compoundAt .quote [quoted] ⟨.quote, .text "'", place⟩, value, hprints.printed,
    ?_, ?_, hequal, max nested (Tokens.ofSource ('\x27' :: text.toList)).length,
    fun w hlimit => ⟨?_, ?_⟩⟩
  · rw [Reader.readAll, Reader.readForms, hread]
    rfl
  · intro steps depth scope w
    rw [evaluator_succ]
    exact hrun steps depth scope w
  · rw [Value.printedWithin, hnested _ (by omega), if_pos rfl, hprints.printed]
  · refine Session.evalText_single hread (by omega) ?_
    obtain ⟨depth, hdepth⟩ : ∃ depth, w.settings.depthLimit = depth + 1 :=
      ⟨_, (Nat.succ_pred_eq_of_pos w.settings.depthLimit_pos).symm⟩
    rw [hdepth, evaluator_succ]
    exact hrun _ depth _ w

theorem printed_reads_back_dotted :
    let v : Value := .pair (.symbol "define") (.pair (.list [.symbol "quote", .symbol "+"])
      (.pair (.string "a\n\"b\"") (.pair (.number (.scalar (.rational (-7 / 2)))) (.symbol "#t"))))
    (v.BuiltFrom fun name => isReadable name = true ∧ name ∉ quotingMarks) ∧
      v.elementsOpenWell true = true ∧
      ∃ form value,
        Reader.readAll "'(define (quote +) \"a\\n\\\"b\\\"\" -7/2 . #t)".toList = .ok [form] ∧
        (∀ steps depth scope w, (evaluator steps (depth + 1)).run form scope w = .ok value w) ∧
        value.equal v = .ok true := by
  intro v
  have hbuilt : v.BuiltFrom fun name => isReadable name = true ∧ name ∉ quotingMarks := by
    have hrational : (Number.scalar (.rational (-7 / 2))).text = .ok "-7/2" := by decide +kernel
    refine .pair (.symbol ⟨by decide +kernel, by decide⟩) (.pair (.pair ?_ (.pair ?_ .nil))
      (.pair (.string (by decide)) (.pair (.number ?_ hrational) ?_)))
    · exact .symbol ⟨by decide +kernel, by decide⟩
    · exact .symbol ⟨by decide +kernel, by decide⟩
    · exact (by decide +kernel : 1 < (-7 / 2 : ℚ).den)
    · exact .symbol ⟨by decide +kernel, by decide⟩
  have hopens : v.elementsOpenWell true = true := by decide
  have hprinted : v.printed Session.givenStore =
      .ok "(define (quote +) \"a\\n\\\"b\\\"\" -7/2 . #t)" := by decide +kernel
  obtain ⟨text, form, value, htext, hread, hrun, hequal, -⟩ :=
    printed_reads_back hbuilt hopens Session.givenStore
  rw [hprinted] at htext
  cases htext
  exact ⟨hbuilt, hopens, form, value, hread, hrun, hequal⟩

/-- The marks themselves are names of one token each, but a mark is read as the start of
a quotation. -/
theorem quoting_mark_not_read_back :
    ((Value.symbol "'").BuiltFrom fun name => isReadable name = true) ∧
      (Value.symbol "'").elementsOpenWell true = true ∧
      (Value.symbol "'").printed Session.givenStore = .ok "'" ∧
      (Reader.readAll "''".toList).isOk = false :=
  ⟨.symbol (by decide +kernel), rfl, rfl, by decide +kernel⟩

end TowerLisp
