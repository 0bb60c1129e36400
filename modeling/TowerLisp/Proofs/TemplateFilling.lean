import TowerLisp.Proofs.FormEchoes
import TowerLisp.Proofs.TemplateNoting

/-!
The values of templates. `Fills` says what a template stands for, given one value for each form
in it that is code. It stands for its own datum, with values in place of what is unquoted and
elements in place of what is spliced. Evaluation finds these values in order, and nothing else.
-/

namespace TowerLisp

/-- What is quoted in a template is code only if it is unquoted at depth one. -/
theorem Mode.inside?_eq_code {depth : Nat} {tag : Tag}
    (h : (Mode.data depth).inside? tag = some .code) :
    depth = 1 ∧ (tag = .unquote ∨ tag = .splice) := by
  simp only [inside?] at h
  split at h
  case isTrue htag =>
    refine ⟨?_, by simpa using htag⟩
    by_contra hdeep
    simp [hdeep] at h
  case isFalse =>
    split at h <;> cases h

/-- The elements that a value stands for where it is spliced in. -/
inductive Value.Elements : Value → List Value → Prop where
  | list {v : Value} {items : List Value} : v.list? = some items → Elements v items
  | string (text : String) :
      Elements (.string text) (text.toList.map fun c => .string (String.singleton c))

theorem Value.Elements.unique {v : Value} {elements others : List Value} (h : v.Elements elements)
    (hothers : v.Elements others) : elements = others := by
  cases h with
  | list h =>
    cases hothers with
    | list hothers => exact Option.some.inj (h.symm.trans hothers)
    | string text => cases h
  | string text =>
    cases hothers with
    | list hothers => cases hothers
    | string _ => rfl

mutual

/-- A template at a depth, filled with values: what is unquoted at depth one is replaced by a
value, and all else is the datum that it is, with quotations as lists. -/
inductive Fills : Nat → Form → List Value → Value → Prop where
  | leaf {depth : Nat} {token : Token} {v : Value} :
      Form.leafDatum token = .ok v → Fills depth (.leaf token) [] v
  | empty {depth : Nat} {token : Token} :
      token.tag = .empty → Fills depth ⟨token, [], true⟩ [] .nil
  | unquote {token : Token} {code : Form} {v : Value} :
      token.tag = .unquote → Fills 1 ⟨token, [code], true⟩ [v] v
  | quotation {depth inner : Nat} {token : Token} {quoted : Form} {values : List Value}
      {v : Value} :
      token.tag.isQuoting = true → (Mode.data depth).inside? token.tag = some (.data inner) →
      Fills inner quoted values v →
      Fills depth ⟨token, [quoted], true⟩ values (Form.tagged token.tag v)
  | list {depth : Nat} {token : Token} {parts : List Form} {values items : List Value}
      {tail : Value} :
      token.tag = .list → FillsItems depth parts values items tail →
      Fills depth ⟨token, parts, true⟩ values (.ofList items tail)

/-- The items and the tail of a list in a template. What is spliced in at depth one is replaced
by the elements of a value. -/
inductive FillsItems : Nat → List Form → List Value → List Value → Value → Prop where
  | nil {depth : Nat} : FillsItems depth [] [] [] .nil
  | tail {depth : Nat} {dot : Token} {last : Form} {values : List Value} {v : Value} :
      dot.tag = .dot → Fills depth last values v →
      FillsItems depth [⟨dot, [last], true⟩] values [] v
  | splice {token : Token} {code : Form} {rest : List Form} {v tail : Value}
      {values elements items : List Value} :
      token.tag = .splice → v.Elements elements → FillsItems 1 rest values items tail →
      FillsItems 1 (⟨token, [code], true⟩ :: rest) (v :: values) (elements ++ items) tail
  | item {depth : Nat} {first : Form} {rest : List Form} {values more items : List Value}
      {v tail : Value} :
      first.tag ≠ .dot → ¬ (first.tag = .splice ∧ depth = 1) → Fills depth first values v →
      FillsItems depth rest more items tail →
      FillsItems depth (first :: rest) (values ++ more) (v :: items) tail

end

section Shapes

variable {depth : Nat} {token : Token} {quoted : Form} {parts rest : List Form}
  {values items : List Value} {v tail : Value}

@[simp] theorem fills_leaf_iff :
    Fills depth (.leaf token) values v ↔ values = [] ∧ Form.leafDatum token = .ok v := by
  constructor
  · rintro ⟨⟩
    exact ⟨rfl, ‹_›⟩
  · rintro ⟨rfl, h⟩
    exact .leaf h

theorem fills_empty_iff (htag : token.tag = .empty) :
    Fills depth ⟨token, [], true⟩ values v ↔ values = [] ∧ v = .nil := by
  constructor
  · intro h
    cases h with
    | empty _ => exact ⟨rfl, rfl⟩
    | list hlist _ => cases htag.symm.trans hlist
  · rintro ⟨rfl, rfl⟩
    exact .empty htag

theorem fills_unquote_iff (htag : token.tag = .unquote) :
    Fills 1 ⟨token, [quoted], true⟩ values v ↔ values = [v] := by
  constructor
  · intro h
    cases h with
    | unquote _ => rfl
    | quotation _ hinside _ =>
      rw [htag] at hinside
      cases hinside
    | list hlist _ => cases htag.symm.trans hlist
  · rintro rfl
    exact .unquote htag

theorem not_fills_splice (htag : token.tag = .splice) :
    ¬ Fills 1 ⟨token, [quoted], true⟩ values v := by
  intro h
  cases h with
  | unquote hunquote => cases htag.symm.trans hunquote
  | quotation _ hinside _ =>
    rw [htag] at hinside
    cases hinside
  | list hlist _ => cases htag.symm.trans hlist

theorem fills_quotation_iff {inner : Nat} (hquoting : token.tag.isQuoting = true)
    (hinside : (Mode.data depth).inside? token.tag = some (.data inner)) :
    Fills depth ⟨token, [quoted], true⟩ values v ↔
      ∃ a, Fills inner quoted values a ∧ Form.tagged token.tag a = v := by
  constructor
  · intro h
    cases h with
    | unquote htag =>
      rw [htag] at hinside
      cases hinside
    | quotation _ hinside' hfills =>
      cases hinside.symm.trans hinside'
      exact ⟨_, hfills, rfl⟩
    | list hlist _ =>
      rw [hlist] at hquoting
      cases hquoting
  · rintro ⟨a, hfills, rfl⟩
    exact .quotation hquoting hinside hfills

theorem fills_list_iff (htag : token.tag = .list) :
    Fills depth ⟨token, parts, true⟩ values v ↔
      ∃ row : List Value × Value, FillsItems depth parts values row.1 row.2 ∧
        Value.ofList row.1 row.2 = v := by
  constructor
  · intro h
    cases h with
    | empty hempty => cases htag.symm.trans hempty
    | unquote hunquote => cases htag.symm.trans hunquote
    | quotation hquoting _ _ =>
      rw [htag] at hquoting
      cases hquoting
    | list _ hfills => exact ⟨(_, _), hfills, rfl⟩
  · rintro ⟨row, hfills, rfl⟩
    exact .list htag hfills

@[simp] theorem fillsItems_nil_iff :
    FillsItems depth [] values items tail ↔ values = [] ∧ items = [] ∧ tail = .nil := by
  constructor
  · rintro ⟨⟩
    exact ⟨rfl, rfl, rfl⟩
  · rintro ⟨rfl, rfl, rfl⟩
    exact .nil

theorem fillsItems_tail_iff (htag : token.tag = .dot) :
    FillsItems depth [⟨token, [quoted], true⟩] values items tail ↔
      items = [] ∧ Fills depth quoted values tail := by
  constructor
  · intro h
    cases h with
    | tail _ hfills => exact ⟨rfl, hfills⟩
    | splice hsplice _ _ => cases htag.symm.trans hsplice
    | item hdot _ _ _ => exact absurd htag hdot
  · rintro ⟨rfl, hfills⟩
    exact .tail htag hfills

theorem fillsItems_splice_iff (htag : token.tag = .splice) :
    FillsItems 1 (⟨token, [quoted], true⟩ :: rest) values items tail ↔
      ∃ first more elements others, values = first :: more ∧ first.Elements elements ∧
        FillsItems 1 rest more others tail ∧ items = elements ++ others := by
  constructor
  · intro h
    cases h with
    | tail hdot _ => cases htag.symm.trans hdot
    | splice _ helements hrest => exact ⟨_, _, _, _, rfl, helements, hrest, rfl⟩
    | item _ hsplice _ _ => exact absurd ⟨htag, rfl⟩ hsplice
  · rintro ⟨first, more, elements, others, rfl, helements, hrest, rfl⟩
    exact .splice htag helements hrest

theorem fillsItems_item_iff {first : Form} (hdot : first.tag ≠ .dot)
    (hsplice : ¬ (first.tag = .splice ∧ depth = 1)) :
    FillsItems depth (first :: rest) values items tail ↔
      ∃ front more item others, values = front ++ more ∧ Fills depth first front item ∧
        FillsItems depth rest more others tail ∧ items = item :: others := by
  constructor
  · intro h
    cases h with
    | tail htag _ => exact absurd htag hdot
    | splice htag _ _ => exact absurd ⟨htag, rfl⟩ hsplice
    | item _ _ hfirst hrest => exact ⟨_, _, _, _, rfl, hfirst, hrest, rfl⟩
  · rintro ⟨front, more, item, others, rfl, hfirst, hrest, rfl⟩
    exact .item hdot hsplice hfirst hrest

end Shapes

namespace Evaluator

theorem spliced_cases (v : Value) :
    (∃ elements, v.Elements elements ∧ spliced v = pure elements) ∨
      (∀ elements, ¬ v.Elements elements) ∧
        spliced v = EvalM.withStore fun store => v.mistyped store .spliceNotList := by
  unfold spliced
  split
  case h_1 items hitems => exact .inl ⟨items, .list hitems, rfl⟩
  case h_2 text hnone => exact .inl ⟨_, .string text, rfl⟩
  case h_3 hstring hnone =>
    refine .inr ⟨fun elements h => ?_, rfl⟩
    cases h with
    | list h => cases hnone.symm.trans h
    | string text => exact hstring text rfl

theorem spliced_eq_ok_iff {v : Value} {elements : List Value} {w w' : World} :
    spliced v w = .ok elements w' ↔ v.Elements elements ∧ w = w' := by
  obtain ⟨others, hothers, hspliced⟩ | ⟨hnone, hspliced⟩ := spliced_cases v
  · rw [hspliced, EvalM.pure_eq_ok_iff]
    exact and_congr_left fun _ => ⟨fun h => h ▸ hothers, hothers.unique⟩
  · rw [hspliced]
    constructor
    · intro h
      exact absurd (EvalM.lift_eq_ok_iff.mp h).1 Value.mistyped_ne_ok
    · rintro ⟨h, -⟩
      exact absurd h (hnone elements)

theorem values_append (ev : Evaluator) (scope : ScopeId) (forms others : List Form) :
    ev.values scope (forms ++ others) = (do
      let first ← ev.values scope forms
      let rest ← ev.values scope others
      return first ++ rest) := by
  induction forms with
  | nil => simp [values]
  | cons form forms ih => simp [values, ih]

theorem length_of_values {ev : Evaluator} {scope : ScopeId} {forms : List Form}
    {values : List Value} {w w' : World} (h : ev.values scope forms w = .ok values w') :
    values.length = forms.length := by
  induction forms generalizing values w w' with
  | nil =>
    rw [Evaluator.values, EvalM.pure_eq_ok_iff] at h
    rw [← h.1]
    rfl
  | cons form forms ih =>
    obtain ⟨first, v, -, h⟩ := EvalM.bind_eq_ok h
    obtain ⟨rest, v', hrest, h⟩ := EvalM.bind_eq_ok h
    rw [EvalM.pure_eq_ok_iff] at h
    rw [← h.1, List.length_cons, List.length_cons, ih hrest]

/-- A computation that evaluates some code, form by form, and has a result that fits the
values. -/
structure Fitting {α : Type} (ev : Evaluator) (scope : ScopeId) (code : List Form)
    (Fits : List Value → α → Prop) (m : EvalM α) : Prop where
  count : ∀ {values a}, Fits values a → values.length = code.length
  run : ∀ {w a w'}, m w = .ok a w' ↔
    ∃ values, ev.values scope code w = .ok values w' ∧ Fits values a

namespace Fitting

variable {ev : Evaluator} {scope : ScopeId} {code others : List Form} {α β : Type}
  {Fits Fits' : List Value → α → Prop} {m : EvalM α}

theorem congr (h : ev.Fitting scope code Fits m)
    (hfits : ∀ values a, Fits' values a ↔ Fits values a) :
    ev.Fitting scope code Fits' m := by
  rwa [funext fun values => funext fun a => propext (hfits values a)]

theorem value (form : Form) :
    ev.Fitting scope [form] (fun values v => values = [v]) (ev.value form scope) where
  count := by
    rintro _ v rfl
    rfl
  run := by
    intro w v w'
    simp only [Evaluator.values, EvalM.bind_eq_ok_iff, EvalM.pure_eq_ok_iff]
    constructor
    · intro h
      exact ⟨[v], ⟨v, w', h, [], w', ⟨rfl, rfl⟩, rfl, rfl⟩, rfl⟩
    · rintro ⟨_, ⟨_, _, h, _, _, ⟨rfl, rfl⟩, rfl, rfl⟩, ⟨⟩⟩
      exact h

theorem quietly {Fits : α → Prop}
    (h : ∀ {w a w'}, m w = .ok a w' ↔ Fits a ∧ w = w') :
    ev.Fitting scope [] (fun values a => values = [] ∧ Fits a) m where
  count := by
    rintro _ a ⟨rfl, -⟩
    rfl
  run := by
    intro w a w'
    simp [h, Evaluator.values, EvalM.pure_eq_ok_iff, and_comm]

theorem bind (h : ev.Fitting scope code Fits m) {f : α → EvalM β} {R : α → List Value → β → Prop}
    (hf : ∀ a, ev.Fitting scope others (R a) (f a)) :
    ev.Fitting scope (code ++ others)
      (fun values b => ∃ first rest a, values = first ++ rest ∧ Fits first a ∧ R a rest b)
      (m >>= f) where
  count := by
    rintro _ b ⟨first, rest, a, rfl, hfirst, hrest⟩
    rw [List.length_append, List.length_append, h.count hfirst, (hf a).count hrest]
  run := by
    intro w b w'
    simp only [EvalM.bind_eq_ok_iff, h.run, (hf _).run, values_append, EvalM.pure_eq_ok_iff]
    constructor
    · rintro ⟨a, v, ⟨first, hfirst, ha⟩, rest, hrest, hb⟩
      exact ⟨first ++ rest, ⟨first, v, hfirst, rest, w', hrest, rfl, rfl⟩,
        first, rest, a, rfl, ha, hb⟩
    · rintro ⟨_, ⟨first, v, hfirst, rest, _, hrest, rfl, rfl⟩, first', rest', a, heq, ha, hb⟩
      obtain ⟨rfl, rfl⟩ := List.append_inj heq ((length_of_values hfirst).trans (h.count ha).symm)
      exact ⟨a, v, ⟨first, hfirst, ha⟩, rest, hrest, hb⟩

theorem map (h : ev.Fitting scope code Fits m) (f : α → β) :
    ev.Fitting scope code (fun values b => ∃ a, Fits values a ∧ f a = b)
      (do return f (← m)) where
  count := by
    rintro values b ⟨a, ha, rfl⟩
    exact h.count ha
  run := by
    intro w b w'
    simp only [EvalM.bind_eq_ok_iff, EvalM.pure_eq_ok_iff, h.run]
    constructor
    · rintro ⟨a, _, ⟨values, hvalues, ha⟩, rfl, rfl⟩
      exact ⟨values, hvalues, a, ha, rfl⟩
    · rintro ⟨values, hvalues, a, ha, rfl⟩
      exact ⟨a, w', ⟨values, hvalues, ha⟩, rfl, rfl⟩

end Fitting

variable (ev : Evaluator) (scope : ScopeId)

/-- How a phrase of a template is filled, if the reader noted `notes`. -/
def FitsPhrase : Phrase → List Form → List Note → Prop
  | .one (.data depth), forms, notes => ∀ {form}, forms = [form] →
      ev.Fitting scope (codeOf notes) (Fills depth form) (ev.quasi scope depth form)
  | .items (.data depth) _, forms, notes =>
      ev.Fitting scope (codeOf notes) (fun values row => FillsItems depth forms values row.1 row.2)
        (ev.quasiItems scope depth .nil forms)
  | _, _, _ => True

variable {ev scope} {token : Token} {depth : Nat}

theorem fits_leaf :
    ev.Fitting scope [] (Fills depth (.leaf token)) (ev.quasi scope depth (.leaf token)) := by
  rw [ev.quasi_leaf]
  exact (Fitting.quietly EvalM.lift_eq_ok_iff).congr fun _ _ => fills_leaf_iff

theorem fits_empty (htag : token.tag = .empty) :
    ev.Fitting scope [] (Fills depth ⟨token, [], true⟩)
      (ev.quasi scope depth ⟨token, [], true⟩) := by
  have hdatum : Form.datum ⟨token, [], true⟩ = .ok .nil := by
    rw [Form.datum]
    simp [htag, Tag.isQuoting]
  rw [ev.quasi_empty scope htag, hdatum]
  refine (Fitting.quietly EvalM.lift_eq_ok_iff).congr fun values v => ?_
  rw [fills_empty_iff htag, Except.ok.injEq, eq_comm (a := v)]

theorem fits_list (htag : token.tag = .list) {items : List Form} {notes : List Note}
    (hitems : ev.FitsPhrase scope (.items (.data depth) true) items notes) :
    ev.Fitting scope (codeOf notes) (Fills depth ⟨token, items, true⟩)
      (ev.quasi scope depth ⟨token, items, true⟩) := by
  rw [ev.quasi_list scope htag]
  exact (hitems.map fun row => Value.ofList row.1 row.2).congr fun _ _ => fills_list_iff htag

theorem quasi_quotation {inner : Nat} (hquoting : token.tag.isQuoting = true)
    (hinside : (Mode.data depth).inside? token.tag = some (.data inner)) (quoted : Form) :
    ev.quasi scope depth ⟨token, [quoted], true⟩ =
      do return Form.tagged token.tag (← ev.quasi scope inner quoted) := by
  obtain htag | htag | htag | htag := Tag.isQuoting_cases hquoting
  · rw [htag] at hinside ⊢
    cases hinside
    exact ev.quasi_quote scope quoted htag
  · rw [htag] at hinside ⊢
    cases hinside
    exact ev.quasi_quasiquote scope quoted htag
  all_goals
    have hdeep : depth ≠ 1 := by
      rintro rfl
      rw [htag] at hinside
      cases hinside
    have hinner : depth - 1 = inner := by simpa [htag, Mode.inside?, hdeep] using hinside
    subst hinner
    rw [htag]
  · exact ev.quasi_unquote_deep scope quoted htag hdeep
  · exact ev.quasi_splice_deep scope quoted htag hdeep

/-- A form that quotes another one. -/
theorem fits_quoting {inner : Mode} {quoted : Form} {front : List Token} {notes : List Note}
    (hquoting : token.tag.isQuoting = true)
    (hinside : (Mode.data depth).inside? token.tag = some inner)
    (hnoted : Noted (.one inner) front [quoted] notes)
    (hquoted : ev.FitsPhrase scope (.one inner) [quoted] notes) :
    ev.Fitting scope (codeOf notes) (Fills depth ⟨token, [quoted], true⟩)
      (ev.quasi scope depth ⟨token, [quoted], true⟩) := by
  cases inner with
  | data inner =>
    rw [quasi_quotation hquoting hinside quoted]
    exact ((hquoted rfl).map (Form.tagged token.tag)).congr fun _ _ =>
      fills_quotation_iff hquoting hinside
  | code =>
    cases hnoted
    obtain ⟨rfl, htag | htag⟩ := Mode.inside?_eq_code hinside
    · rw [ev.quasi_unquote scope quoted htag]
      exact (Fitting.value quoted).congr fun _ _ => fills_unquote_iff htag
    · rw [ev.quasi_splice scope quoted htag]
      refine ⟨fun h => absurd h (not_fills_splice htag), fun {_ _ _} => ⟨nofun, ?_⟩⟩
      rintro ⟨_, -, h⟩
      exact absurd h (not_fills_splice htag)

/-- An item of a list, in front of others. -/
theorem fits_item {front : List Token} {first : Form} {others : List Form}
    {notes more : List Note} (hnoted : Noted (.one (.data depth)) front [first] notes)
    (hfirst : ev.FitsPhrase scope (.one (.data depth)) [first] notes)
    (hrest : ev.FitsPhrase scope (.items (.data depth) true) others more) :
    ev.FitsPhrase scope (.items (.data depth) true) (first :: others) (notes ++ more) := by
  rw [FitsPhrase, codeOf_append]
  by_cases hsplice : first.tag = .splice ∧ depth = 1
  · obtain ⟨htag, rfl⟩ := hsplice
    obtain ⟨token, quoted, rfl, rfl⟩ := hnoted.spliced htag
    change token.tag = .splice at htag
    rw [ev.quasiItems_splice scope _ _ htag]
    have hspliced (v : Value) : ev.Fitting scope []
        (fun values elements => values = [] ∧ v.Elements elements) (spliced v) :=
      Fitting.quietly spliced_eq_ok_iff
    refine ((Fitting.value quoted).bind fun v => (hspliced v).bind fun elements =>
      hrest.map fun row => (elements ++ row.1, row.2)).congr fun values row => ?_
    rw [fillsItems_splice_iff htag]
    constructor
    · rintro ⟨v, more, elements, items, rfl, helements, hitems, hrow⟩
      exact ⟨[v], more, v, rfl, rfl, [], more, elements, rfl, ⟨rfl, helements⟩,
        (items, row.2), hitems, Prod.ext hrow.symm rfl⟩
    · rintro ⟨_, _, v, rfl, rfl, _, more, elements, rfl, ⟨rfl, helements⟩, items, hitems, rfl⟩
      exact ⟨v, more, elements, items.1, rfl, helements, hitems, rfl⟩
  · have hdot := hnoted.derives.tag_ne_dot
    rw [ev.quasiItems_item scope _ _ hdot hsplice]
    refine ((hfirst rfl).bind fun v => hrest.map fun row => (v :: row.1, row.2)).congr
      fun values row => ?_
    rw [fillsItems_item_iff hdot hsplice]
    constructor
    · rintro ⟨front, more, item, items, rfl, hitem, hitems, hrow⟩
      exact ⟨front, more, item, rfl, hitem, (items, row.2), hitems, Prod.ext hrow.symm rfl⟩
    · rintro ⟨front, more, item, rfl, hitem, items, hitems, rfl⟩
      exact ⟨front, more, item, items.1, rfl, hitem, hitems, rfl⟩

/-- A template is filled with the values of what was read as code in it, evaluated in order. -/
theorem fits_noted {phrase : Phrase} {front : List Token} {forms : List Form}
    {notes : List Note} (h : Noted phrase front forms notes) :
    ev.FitsPhrase scope phrase forms notes := by
  induction h with
  | code => trivial
  | atom hatom hform =>
    rintro form ⟨⟩
    obtain ⟨payload, rfl⟩ := Reader.atom_eq_ok hform
    rw [codeOf_data]
    exact fits_leaf
  | word hkeyword hword =>
    rintro form ⟨⟩
    rw [codeOf_data]
    exact fits_leaf
  | empty hopener hcloser =>
    rintro form ⟨⟩
    rw [codeOf_data]
    exact fits_empty rfl
  | mark hprefix hinside hquoted ih =>
    rintro form ⟨⟩
    rw [Form.compoundAt_self, codeOf_data]
    exact fits_quoting (Token.isQuoting_of_isPrefix hprefix) hinside hquoted ih
  | quotation hopener hquoting hword hinside hquoted hcloser ih =>
    rintro form ⟨⟩
    rw [Form.compoundAt_self, codeOf_data]
    exact fits_quoting hquoting hinside hquoted ih
  | list hopener hhead hfirst hrest ih ihrest =>
    rintro form ⟨⟩
    rw [codeOf_data]
    exact fits_list rfl (fits_item hfirst ih ihrest)
  | close hcloser =>
    rw [FitsPhrase, ev.quasiItems_nil]
    refine (Fitting.quietly EvalM.pure_eq_ok_iff).congr fun values row => ?_
    rw [fillsItems_nil_iff, eq_comm (b := row), Prod.ext_iff]
  | @dotted depth dot closer front last notes hdot hlast hcloser ih =>
    rw [FitsPhrase, Form.compoundAt, ev.quasiItems_dotted scope _ _ rfl]
    simp only [ev.quasiItems_nil]
    refine ((ih rfl).map fun v => (([] : List Value), v)).congr fun values row => ?_
    rw [fillsItems_tail_iff rfl]
    constructor
    · rintro ⟨hitems, hfills⟩
      exact ⟨row.2, hfills, Prod.ext hitems.symm rfl⟩
    · rintro ⟨v, hfills, rfl⟩
      exact ⟨rfl, hfills⟩
  | more hfirst hrest ih ihrest => exact fits_item hfirst ih ihrest

end Evaluator

theorem Form.datum_tagged {token : Token} (hquoting : token.tag.isQuoting = true) (quoted : Form) :
    (⟨token, [quoted], true⟩ : Form).datum = do return tagged token.tag (← quoted.datum) := by
  rw [datum, if_neg (by decide), if_pos hquoting, datumFirst]
  cases quoted.datum <;> rfl

/-- A phrase of a template that is filled with nothing stands for what it says. -/
def Phrase.StandsAsData : Phrase → List Form → Prop
  | one (.data depth), forms => ∀ {form}, forms = [form] →
      ∀ {v}, Fills depth form [] v ↔ form.datum = .ok v
  | items (.data depth) _, forms => ∀ {v}, (∃ row : List Value × Value,
      FillsItems depth forms [] row.1 row.2 ∧ Value.ofList row.1 row.2 = v) ↔
        Form.datumList forms = .ok v
  | _, _ => True

section Data

variable {token : Token} {depth : Nat} {notes more : List Note}

theorem data_leaf {v : Value} :
    Fills depth (.leaf token) [] v ↔ (Form.leaf token).datum = .ok v := by
  rw [fills_leaf_iff, Form.datum_leaf]
  exact and_iff_right rfl

theorem data_quoting {inner : Mode} {quoted : Form} {front : List Token}
    (hquoting : token.tag.isQuoting = true)
    (hinside : (Mode.data depth).inside? token.tag = some inner)
    (hnoted : Noted (.one inner) front [quoted] notes) (hnone : codeOf notes = [])
    (hquoted : (Phrase.one inner).StandsAsData [quoted]) {v : Value} :
    Fills depth ⟨token, [quoted], true⟩ [] v ↔
      (⟨token, [quoted], true⟩ : Form).datum = .ok v := by
  cases inner with
  | code =>
    cases hnoted
    cases hnone
  | data inner =>
    have hinner {a : Value} := hquoted rfl (v := a)
    rw [fills_quotation_iff hquoting hinside, Form.datum_tagged hquoting]
    constructor
    · rintro ⟨a, ha, rfl⟩
      rw [hinner.mp ha]
      rfl
    · intro h
      obtain ⟨a, ha, h⟩ := bind_eq_ok h
      cases h
      exact ⟨a, hinner.mpr ha, rfl⟩

theorem data_item {front : List Token} {first : Form} {others : List Form}
    (hnoted : Noted (.one (.data depth)) front [first] notes) (hnone : codeOf notes = [])
    (hfirst : (Phrase.one (.data depth)).StandsAsData [first])
    (hrest : (Phrase.items (.data depth) true).StandsAsData others) :
    (Phrase.items (.data depth) true).StandsAsData (first :: others) := by
  intro v
  have hdot := hnoted.derives.tag_ne_dot
  have hsplice : ¬ (first.tag = .splice ∧ depth = 1) := by
    rintro ⟨htag, rfl⟩
    obtain ⟨token, quoted, rfl, rfl⟩ := hnoted.spliced htag
    cases hnone
  rw [Form.datumList_cons hdot]
  constructor
  · rintro ⟨⟨items, tail⟩, hitems, rfl⟩
    obtain ⟨front, more, item, others, heq, hitem, hothers, rfl⟩ :=
      (fillsItems_item_iff hdot hsplice).mp hitems
    obtain ⟨rfl, rfl⟩ := List.append_eq_nil_iff.mp heq.symm
    rw [(hfirst rfl).mp hitem, hrest.mp ⟨(others, tail), hothers, rfl⟩]
    rfl
  · intro h
    obtain ⟨item, hitem, h⟩ := bind_eq_ok h
    obtain ⟨others, hothers, h⟩ := bind_eq_ok h
    cases h
    obtain ⟨⟨items, tail⟩, hitems, rfl⟩ := hrest.mpr hothers
    exact ⟨(item :: items, tail), (fillsItems_item_iff hdot hsplice).mpr
      ⟨[], [], item, items, rfl, (hfirst rfl).mpr hitem, hitems, rfl⟩, rfl⟩

/-- A template in which no code was read stands for what it says. -/
theorem Noted.standsAsData {phrase : Phrase} {front : List Token} {forms : List Form}
    (h : Noted phrase front forms notes) (hnone : codeOf notes = []) :
    phrase.StandsAsData forms := by
  induction h with
  | code => trivial
  | atom hatom hform =>
    rintro form ⟨⟩ v
    obtain ⟨payload, rfl⟩ := Reader.atom_eq_ok hform
    exact data_leaf
  | word hkeyword hword =>
    rintro form ⟨⟩ v
    exact data_leaf
  | empty hopener hcloser =>
    rintro form ⟨⟩ v
    rw [Form.compoundAt, fills_empty_iff rfl, Form.datum]
    simp [Tag.isQuoting, eq_comm]
  | mark hprefix hinside hquoted ih =>
    rintro form ⟨⟩ v
    rw [codeOf_data] at hnone
    rw [Form.compoundAt_self]
    exact data_quoting (Token.isQuoting_of_isPrefix hprefix) hinside hquoted hnone (ih hnone)
  | quotation hopener hquoting hword hinside hquoted hcloser ih =>
    rintro form ⟨⟩ v
    rw [codeOf_data] at hnone
    rw [Form.compoundAt_self]
    exact data_quoting hquoting hinside hquoted hnone (ih hnone)
  | list hopener hhead hfirst hrest ih ihrest =>
    rintro form ⟨⟩ v
    rw [codeOf_data, codeOf_append, List.append_eq_nil_iff] at hnone
    rw [Form.datum_group rfl (by decide), Form.compoundAt, fills_list_iff rfl]
    exact data_item hfirst hnone.1 (ih hnone.1) (ihrest hnone.2)
  | close hcloser =>
    intro v
    simp [Form.datumList, Value.ofList]
  | dotted hdot hlast hcloser ih =>
    intro v
    rw [Form.compoundAt, Form.datumList, if_pos rfl, Form.datumFirst]
    constructor
    · rintro ⟨⟨items, tail⟩, hitems, rfl⟩
      obtain ⟨rfl, hfills⟩ := (fillsItems_tail_iff rfl).mp hitems
      rw [(ih hnone rfl).mp hfills]
      rfl
    · intro h
      obtain ⟨quoted?, hquoted, h⟩ := bind_eq_ok h
      obtain ⟨a, ha, hsome⟩ := bind_eq_ok hquoted
      cases hsome
      cases h
      exact ⟨([], v), (fillsItems_tail_iff rfl).mpr ⟨rfl, (ih hnone rfl).mpr ha⟩, rfl⟩
  | more hfirst hrest ih ihrest =>
    rw [codeOf_append, List.append_eq_nil_iff] at hnone
    exact data_item hfirst hnone.1 (ih hnone.1) (ihrest hnone.2)

end Data

end TowerLisp
