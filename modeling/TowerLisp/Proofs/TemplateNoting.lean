import TowerLisp.Eval.Step
import TowerLisp.Proofs.TemplateReading
import TowerLisp.Proofs.TemplateSteps

/-!
Templates as they are filled. Evaluation counts the quasiquotes around a form anew. Here it notes
in which mode it takes each form that it meets, and these are the notes of the reader: the same
forms, in the same modes and the same order, up to a fault. So what it evaluates is what was read
as code, and its result is the template with the values in their places.
-/

namespace TowerLisp

open EvalM (lift)

/-- Computations that note what they meet. -/
abbrev NotingM := EStateM Fault (World × List Note)

namespace NotingM

variable {α : Type}

def note (n : Note) : NotingM Unit :=
  modify fun s => (s.1, s.2 ++ [n])

/-- A computation that meets nothing. -/
def quietly (m : EvalM α) : NotingM α := fun s =>
  match m s.1 with
  | .ok a w => .ok a (w, s.2)
  | .error fault w => .error fault (w, s.2)

end NotingM

namespace Evaluator

open NotingM (note quietly)

/-- Evaluates code that is met in a template. -/
def valueNoting (ev : Evaluator) (form : Form) (scope : ScopeId) : NotingM Value := do
  note (.code, form)
  quietly (ev.value form scope)

mutual

/-- Fills a template, and notes each form that is taken as data or handed on as code. -/
def quasiNoting (ev : Evaluator) (scope : ScopeId) (depth : Nat) : Form → NotingM Value
  | ⟨token, parts, compound⟩ => do
    note (.data depth, ⟨token, parts, compound⟩)
    if !compound then quietly (lift (Form.leafDatum token))
    else
      match token.tag, parts with
      | .quasiquote, first :: _ => do
        return Form.tagged token.tag (← quasiNoting ev scope (depth + 1) first)
      | .unquote, first :: _ =>
        if depth = 1 then ev.valueNoting first scope
        else do return Form.tagged token.tag (← quasiNoting ev scope (depth - 1) first)
      | .splice, first :: _ =>
        if depth = 1 then quietly (throw (.malformed .spliceOutsideList token.place))
        else do return Form.tagged token.tag (← quasiNoting ev scope (depth - 1) first)
      | .quote, first :: _ => do
        return Form.tagged token.tag (← quasiNoting ev scope depth first)
      | .splice, [] =>
        quietly (if depth = 1 then throw (.malformed .spliceOutsideList token.place)
          else missingPart)
      | .quasiquote, [] | .unquote, [] | .quote, [] => quietly missingPart
      | .list, parts => do
        let (items, tail) ← quasiItemsNoting ev scope depth .nil parts
        return .ofList items tail
      | _, _ => quietly (lift (Form.datum ⟨token, parts, compound⟩))

def quasiItemsNoting (ev : Evaluator) (scope : ScopeId) (depth : Nat) (tail : Value) :
    List Form → NotingM (List Value × Value)
  | [] => pure ([], tail)
  | ⟨token, parts, compound⟩ :: rest =>
    if token.tag = .dot then
      match parts with
      | [] => quietly missingPart
      | first :: _ => do
        let tail ← quasiNoting ev scope depth first
        quasiItemsNoting ev scope depth tail rest
    else if token.tag = .splice && depth = 1 then do
      note (.data depth, ⟨token, parts, compound⟩)
      match parts with
      | [] => quietly missingPart
      | first :: _ => do
        let items ← quietly (spliced (← ev.valueNoting first scope))
        let (others, tail) ← quasiItemsNoting ev scope depth tail rest
        return (items ++ others, tail)
    else do
      let item ← quasiNoting ev scope depth ⟨token, parts, compound⟩
      let (others, tail) ← quasiItemsNoting ev scope depth tail rest
      return (item :: others, tail)

end

end Evaluator

/-- `m` does what `n` does, and meets what `notes` lists, up to the point where there is a
fault. -/
def Meets {α : Type} (m : NotingM α) (n : EvalM α) (notes : List Note) : Prop :=
  ∀ w seen, match n w with
    | .ok a w' => m (w, seen) = .ok a (w', seen ++ notes)
    | .error fault w' =>
      ∃ met, met <+: notes ∧ m (w, seen) = .error fault (w', seen ++ met)

namespace Meets

variable {α β : Type} {m : NotingM α} {n : EvalM α} {notes more : List Note}

theorem value (a : α) : Meets (pure a) (pure a) [] := by
  intro w seen
  rw [List.append_nil]
  rfl

theorem quietly (n : EvalM α) : Meets (NotingM.quietly n) n [] := by
  intro w seen
  cases h : n w with
  | ok a w' => simp [NotingM.quietly, h]
  | error fault w' => exact ⟨[], List.prefix_rfl, by simp [NotingM.quietly, h]⟩

theorem fault {n : EvalM α} (h : ∀ w, ∃ fault, n w = .error fault w) (notes : List Note) :
    Meets (NotingM.quietly n) n notes := by
  intro w seen
  obtain ⟨fault, hfault⟩ := h w
  rw [hfault]
  exact ⟨[], List.nil_prefix, by simp [NotingM.quietly, hfault]⟩

theorem note (h : Meets m n notes) (x : Note) :
    Meets (do NotingM.note x; m) n (x :: notes) := by
  intro w seen
  have hrest := h w (seen ++ [x])
  change match n w with
    | .ok a w' => m (w, seen ++ [x]) = .ok a (w', seen ++ x :: notes)
    | .error fault w' =>
      ∃ met, met <+: x :: notes ∧ m (w, seen ++ [x]) = .error fault (w', seen ++ met)
  cases hn : n w with
  | ok a w' =>
    rw [hn] at hrest
    simpa using hrest
  | error fault w' =>
    rw [hn] at hrest
    obtain ⟨met, hmet, hrest⟩ := hrest
    exact ⟨x :: met, (List.prefix_cons_inj x).mpr hmet, by simpa using hrest⟩

theorem bind (h : Meets m n notes) {f : α → NotingM β} {g : α → EvalM β}
    (hfg : ∀ a, Meets (f a) (g a) more) : Meets (m >>= f) (n >>= g) (notes ++ more) := by
  intro w seen
  have hm := h w seen
  change match EStateM.bind n g w with
    | .ok a w' => EStateM.bind m f (w, seen) = .ok a (w', seen ++ (notes ++ more))
    | .error fault w' => ∃ met, met <+: notes ++ more ∧
        EStateM.bind m f (w, seen) = .error fault (w', seen ++ met)
  unfold EStateM.bind
  cases hn : n w with
  | error fault w' =>
    rw [hn] at hm
    obtain ⟨met, hmet, hm⟩ := hm
    rw [hm]
    exact ⟨met, hmet.trans (List.prefix_append notes more), rfl⟩
  | ok a w' =>
    rw [hn] at hm
    rw [hm]
    have hrest := hfg a w' (seen ++ notes)
    dsimp only
    cases hg : g a w' with
    | ok b v =>
      rw [hg] at hrest
      dsimp only
      rw [hrest, List.append_assoc]
    | error fault v =>
      rw [hg] at hrest
      obtain ⟨met, hmet, hrest⟩ := hrest
      refine ⟨notes ++ met, (List.prefix_append_right_inj notes).mpr hmet, ?_⟩
      rw [hrest, List.append_assoc]

theorem andThen (h : Meets m n notes) {f : α → NotingM β} {g : α → EvalM β}
    (hfg : ∀ a, Meets (f a) (g a) []) : Meets (m >>= f) (n >>= g) notes := by
  simpa using h.bind hfg

end Meets

namespace Evaluator

variable (ev : Evaluator) (scope : ScopeId)

/-- What is met in a phrase of a template, if the reader noted `notes`. -/
def MeetsPhrase : Phrase → List Form → List Note → Prop
  | .one .code, forms, notes => ∀ {form}, forms = [form] →
      Meets (ev.valueNoting form scope) (ev.value form scope) notes
  | .one (.data depth), forms, notes => ∀ {form}, forms = [form] →
      Meets (ev.quasiNoting scope depth form) (ev.quasi scope depth form) notes
  | .items (.data depth) _, forms, notes =>
      Meets (ev.quasiItemsNoting scope depth .nil forms) (ev.quasiItems scope depth .nil forms)
        notes
  | _, _, _ => True

theorem meets_leaf {token : Token} {depth : Nat} :
    Meets (ev.quasiNoting scope depth (.leaf token)) (ev.quasi scope depth (.leaf token))
      [(.data depth, .leaf token)] := by
  rw [ev.quasi_leaf, Form.leaf, quasiNoting.eq_def]
  exact (Meets.quietly _).note _

theorem meets_empty {token : Token} (htag : token.tag = .empty) {depth : Nat} :
    Meets (ev.quasiNoting scope depth ⟨token, [], true⟩) (ev.quasi scope depth ⟨token, [], true⟩)
      [(.data depth, ⟨token, [], true⟩)] := by
  rw [ev.quasi_empty scope htag, quasiNoting.eq_def]
  simp only [htag]
  exact (Meets.quietly _).note _

theorem meets_list {token : Token} (htag : token.tag = .list) {depth : Nat} {items : List Form}
    {notes : List Note} (hitems : ev.MeetsPhrase scope (.items (.data depth) true) items notes) :
    Meets (ev.quasiNoting scope depth ⟨token, items, true⟩)
      (ev.quasi scope depth ⟨token, items, true⟩)
      ((.data depth, ⟨token, items, true⟩) :: notes) := by
  rw [ev.quasi_list scope htag, quasiNoting.eq_def]
  simp only [htag]
  exact (hitems.andThen fun _ => .value _).note _

/-- A form that quotes another one, which is met in the mode in which it was read. -/
theorem meets_quoting {token : Token} {depth : Nat} {inner : Mode} {quoted : Form}
    {notes : List Note} (hquoting : token.tag.isQuoting = true)
    (hinside : (Mode.data depth).inside? token.tag = some inner)
    (hquoted : ev.MeetsPhrase scope (.one inner) [quoted] notes) :
    Meets (ev.quasiNoting scope depth ⟨token, [quoted], true⟩)
      (ev.quasi scope depth ⟨token, [quoted], true⟩)
      ((.data depth, ⟨token, [quoted], true⟩) :: notes) := by
  rw [quasiNoting.eq_def]
  obtain htag | htag | htag | htag := Tag.isQuoting_cases hquoting
  · rw [htag] at hinside
    cases hinside
    rw [ev.quasi_quote scope quoted htag]
    simp only [htag]
    exact ((hquoted rfl).andThen fun _ => .value _).note _
  · rw [htag] at hinside
    cases hinside
    rw [ev.quasi_quasiquote scope quoted htag]
    simp only [htag]
    exact ((hquoted rfl).andThen fun _ => .value _).note _
  · rw [htag] at hinside
    simp only [htag]
    by_cases hone : depth = 1
    · subst hone
      cases hinside
      rw [ev.quasi_unquote scope quoted htag]
      exact (hquoted rfl).note _
    · have hinner : Mode.data (depth - 1) = inner := by simpa [Mode.inside?, hone] using hinside
      subst hinner
      rw [ev.quasi_unquote_deep scope quoted htag hone, if_neg hone]
      exact ((hquoted rfl).andThen fun _ => .value _).note _
  · rw [htag] at hinside
    simp only [htag]
    by_cases hone : depth = 1
    · subst hone
      rw [ev.quasi_splice scope quoted htag]
      exact (Meets.fault (fun w => ⟨_, rfl⟩) _).note _
    · have hinner : Mode.data (depth - 1) = inner := by simpa [Mode.inside?, hone] using hinside
      subst hinner
      rw [ev.quasi_splice_deep scope quoted htag hone, if_neg hone]
      exact ((hquoted rfl).andThen fun _ => .value _).note _

/-- An item of a list, in front of others. -/
theorem meets_item {depth : Nat} {front : List Token} {first : Form} {others : List Form}
    {notes more : List Note} (hnoted : Noted (.one (.data depth)) front [first] notes)
    (hfirst : ev.MeetsPhrase scope (.one (.data depth)) [first] notes)
    (hrest : ev.MeetsPhrase scope (.items (.data depth) true) others more) :
    ev.MeetsPhrase scope (.items (.data depth) true) (first :: others) (notes ++ more) := by
  have hdot := hnoted.derives.tag_ne_dot
  by_cases hsplice : first.tag = .splice ∧ depth = 1
  · obtain ⟨htag, rfl⟩ := hsplice
    obtain ⟨token, quoted, rfl, rfl⟩ := hnoted.spliced htag
    change token.tag = .splice at htag
    have hcode : Meets (ev.valueNoting quoted scope) (ev.value quoted scope) [(.code, quoted)] :=
      (Meets.quietly _).note _
    rw [MeetsPhrase, quasiItemsNoting.eq_def, ev.quasiItems_splice scope _ _ htag]
    simp only [htag]
    rw [if_neg (by decide), if_pos (by decide)]
    exact (hcode.bind fun value => (Meets.quietly (spliced value)).bind fun _ =>
      hrest.andThen fun _ => .value _).note _
  · obtain ⟨token, parts, compound⟩ := first
    rw [MeetsPhrase, quasiItemsNoting.eq_def, ev.quasiItems_item scope _ _ hdot hsplice]
    change token.tag ≠ .dot at hdot
    change ¬ (token.tag = .splice ∧ depth = 1) at hsplice
    simp only [if_neg hdot, Bool.and_eq_true, decide_eq_true_eq, if_neg hsplice]
    exact (hfirst rfl).bind fun _ => hrest.andThen fun _ => .value _

/-- What evaluation meets in a template is what the reader noted. -/
theorem meets_noted {phrase : Phrase} {front : List Token} {forms : List Form}
    {notes : List Note} (h : Noted phrase front forms notes) :
    ev.MeetsPhrase scope phrase forms notes := by
  induction h with
  | code hcode =>
    rintro form ⟨⟩
    exact (Meets.quietly _).note _
  | atom hatom hform =>
    rintro form ⟨⟩
    obtain ⟨payload, rfl⟩ := Reader.atom_eq_ok hform
    exact ev.meets_leaf scope
  | word hkeyword hword =>
    rintro form ⟨⟩
    exact ev.meets_leaf scope
  | @empty depth opener closer hopener hcloser =>
    rintro form ⟨⟩
    exact ev.meets_empty scope rfl
  | @mark depth inner token front quoted notes hprefix hinside hquoted ih =>
    rintro form ⟨⟩
    rw [Form.compoundAt_self]
    exact ev.meets_quoting scope (Token.isQuoting_of_isPrefix hprefix) hinside ih
  | @quotation depth inner opener head closer front quoted notes hopener hquoting hword hinside
      hquoted hcloser ih =>
    rintro form ⟨⟩
    rw [Form.compoundAt_self]
    exact ev.meets_quoting scope hquoting hinside ih
  | @list depth opener head front rest first others notes more hopener hhead hfirst hrest ih
      ihrest =>
    rintro form ⟨⟩
    exact ev.meets_list scope rfl (ev.meets_item scope hfirst ih ihrest)
  | close hcloser =>
    rw [MeetsPhrase, ev.quasiItems_nil, quasiItemsNoting]
    exact .value _
  | dotted hdot hlast hcloser ih =>
    rw [MeetsPhrase, Form.compoundAt, ev.quasiItems_dotted scope _ _ rfl, quasiItemsNoting.eq_def]
    refine (ih rfl).andThen fun _ => ?_
    rw [ev.quasiItems_nil, quasiItemsNoting]
    exact .value _
  | more hfirst hrest ih ihrest => exact ev.meets_item scope hfirst ih ihrest

end Evaluator

end TowerLisp
