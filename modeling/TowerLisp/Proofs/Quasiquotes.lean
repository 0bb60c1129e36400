import TowerLisp.Proofs.FormSafety
import TowerLisp.Proofs.TemplateFilling

/-!
Quasiquotes of a program. Wherever one stands as code in what was read, its template is filled as
it was read: evaluation takes each form in it in the mode in which it was read, and evaluates
what was read as code, once and in order.
-/

namespace TowerLisp

/-- A template that was read from some tokens, with the modes in which its forms were read, is
filled in these modes. -/
structure Form.FilledAsRead (template : Form) (front : List Token) (notes : List Note) : Prop where
  noted : Noted (.one (.data 1)) front [template] notes
  read_as : ∀ {mode form}, (mode, form) ∈ notes →
    ∃ part, part <:+: front ∧ Derives (.one mode) part [form]
  in_order : ∃ parts,
    List.Forall₂ (fun part form => Derives (.one .code) part [form]) parts (codeOf notes) ∧
      parts.flatten.Sublist front
  not_unquoted : ∀ form ∈ codeOf notes, form.compound = true →
    form.tag ≠ .unquote ∧ form.tag ≠ .splice
  met : ∀ (ev : Evaluator) scope,
    Meets (ev.quasiNoting scope 1 template) (ev.quasi scope 1 template) notes
  filled : ∀ (ev : Evaluator) scope {w v w'}, ev.quasi scope 1 template w = .ok v w' ↔
    ∃ values, ev.values scope (codeOf notes) w = .ok values w' ∧ Fills 1 template values v
  plain : codeOf notes = [] → ∀ {v}, Fills 1 template [] v ↔ template.datum = .ok v

/-- What is unquoted is not read as code. -/
theorem Derives.not_unquoted {front : List Token} {form : Form}
    (h : Derives (.one .code) front [form]) (hcompound : form.compound = true) :
    form.tag ≠ .unquote ∧ form.tag ≠ .splice := by
  cases h with
  | atom _ hform =>
    obtain ⟨payload, rfl⟩ := Reader.atom_eq_ok hform
    cases hcompound
  | @mark _ _ token _ _ _ hinside _ | @quotation _ _ _ token _ _ _ _ _ _ hinside _ _ =>
    change token.tag ≠ .unquote ∧ token.tag ≠ .splice
    constructor <;> intro htag <;> rw [htag] at hinside <;> cases hinside
  | @headed _ head _ _ _ hhead _ | @letPlain _ head _ _ _ _ _ _ hhead _ _ _ _ =>
    change head.tag ≠ .unquote ∧ head.tag ≠ .splice
    obtain htag | htag | htag := hhead <;> rw [htag] <;> decide
  | @lambda _ head _ _ _ _ _ _ _ hhead | @define _ head _ _ _ _ hhead
  | @cond _ head _ _ _ hhead | @letNamed _ head _ _ _ _ _ _ _ hhead =>
    change head.tag ≠ .unquote ∧ head.tag ≠ .splice
    rw [hhead]
    decide
  | empty | application | literals => exact ⟨nofun, nofun⟩

theorem mem_codeOf {form : Form} {notes : List Note} :
    form ∈ codeOf notes ↔ (.code, form) ∈ notes := by
  simp [codeOf]

theorem Noted.filledAsRead {front : List Token} {template : Form} {notes : List Note}
    (h : Noted (.one (.data 1)) front [template] notes) : template.FilledAsRead front notes where
  noted := h
  read_as := h.read_as
  in_order := h.code_in_order
  not_unquoted form hform hcompound := by
    obtain ⟨part, -, hcode⟩ := h.read_as (mem_codeOf.mp hform)
    exact hcode.not_unquoted hcompound
  met ev scope := ev.meets_noted scope h rfl
  filled ev scope := (Evaluator.fits_noted h rfl).run
  plain hnone := h.standsAsData hnone rfl

/-- A quasiquote is read with its template. -/
theorem Derives.template {front : List Token} {quasi : Form}
    (h : Derives (.one .code) front [quasi]) (hcompound : quasi.compound = true)
    (htag : quasi.tag = .quasiquote) :
    ∃ token template part, quasi = ⟨token, [template], true⟩ ∧ part <:+: front ∧
      Derives (.one (.data 1)) part [template] := by
  cases h with
  | atom _ hform =>
    obtain ⟨payload, rfl⟩ := Reader.atom_eq_ok hform
    cases hcompound
  | @mark _ _ token part quoted _ hinside hquoted =>
    rw [show token.tag = .quasiquote from htag] at hinside
    cases hinside
    exact ⟨token, quoted, part, Form.compoundAt_self token _,
      (List.suffix_cons token part).isInfix, hquoted⟩
  | @quotation _ _ opener head closer part quoted _ _ _ hinside hquoted _ =>
    rw [show head.tag = .quasiquote from htag] at hinside
    cases hinside
    exact ⟨head, quoted, part, Form.compoundAt_self head _,
      ⟨[opener, head], [closer], by simp⟩, hquoted⟩
  | @headed _ head _ _ _ hhead _ | @letPlain _ head _ _ _ _ _ _ hhead _ _ _ _ =>
    rw [show head.tag = .quasiquote from htag] at hhead
    obtain hhead | hhead | hhead := hhead <;> cases hhead
  | @lambda _ head _ _ _ _ _ _ _ hhead | @define _ head _ _ _ _ hhead
  | @cond _ head _ _ _ hhead | @letNamed _ head _ _ _ _ _ _ _ hhead =>
    cases hhead.symm.trans htag
  | empty | application | literals => cases htag

theorem Evaluator.evalForm_quasiquote (ev : Evaluator) (scope : ScopeId) (tail : Bool)
    {token : Token} (htag : token.tag = .quasiquote) (template : Form) :
    ev.evalForm ⟨token, [template], true⟩ scope tail =
      do return .done (← ev.quasi scope 1 template) := by
  unfold evalForm
  simp only [Form.tag, htag]
  rfl

/-- The fault of an evaluation that finds something unquoted outside of a template. -/
def Fault.Unquoted (fault : Fault) : Prop :=
  ∃ place, fault = .malformed .unquoteForm place ∨ fault = .malformed .spliceForm place

/-- Evaluation that finds nothing unquoted outside of a template. -/
def Standard.unquotesNothing : Standard where
  Has _ := True
  Allows fault := ¬ fault.Unquoted
  Closes := False
  part _ _ := trivial
  innocent := by
    rintro fault h ⟨place, rfl | rfl⟩ <;> cases h
  splice := by
    rintro place ⟨_, h | h⟩ <;> cases h

theorem Standard.keeps_unquotesNothing (steps depth : Nat) :
    Standard.unquotesNothing.Keeps (evaluator steps depth) := by
  rw [← evaluatorBy_readAll]
  refine Standard.keeps_evaluatorBy (fun source => Standard.sound_readAll
    (fun _ _ _ => trivial) fun hread => ?_) steps depth
  have hfault := Reader.ofReading_of_readAllWithin hread
  rintro ⟨place, rfl | rfl⟩ <;> cases hfault

/-- Every quasiquote that stands as code in a form of a text was read with its template at depth
one. Evaluation meets the forms of the template in the order and in the modes in which they were
read, and hands on nothing that is unquoted. It comes to an end with a value exactly if all that
was read as code does, each form once and in order, and the values fit into the template; the
result is then the template with these values filled in. -/
theorem quasiquotes_filled_as_read {limit : Nat} {source : List Char} {whole quasi : Form}
    (hwhole : whole ∈ (Reader.readFormsWithin limit source).1) (hcode : quasi.HasCode .code whole)
    (hcompound : quasi.compound = true) (htag : quasi.tag = .quasiquote) :
    ∃ template front notes, quasi.parts = [template] ∧
      front <:+: ((Tokens.ofSource source).within limit).toList ∧
      template.FilledAsRead front notes ∧
      ∀ steps depth scope tail w,
        (evaluator steps (depth + 1)).eval quasi scope tail w =
          (do return Step.done (← (evaluator steps depth).quasi scope 1 template)) w ∧
        ∀ fault w', w.store.MadeOf (fun _ => True) →
          (evaluator steps (depth + 1)).eval quasi scope tail w = .error fault w' →
          ¬ fault.Unquoted := by
  have hspelled := Reader.spelled_within limit source
  rw [Reader.readFormsWithin] at hwhole
  generalize (Tokens.ofSource source).within limit = tokens at hwhole hspelled ⊢
  obtain ⟨read, rest, rfl, hforms, -⟩ := Reader.readTokens_cases tokens
  rw [Tokens.toList_following] at hspelled ⊢
  obtain ⟨part, hpart, hsub⟩ := hforms.exists_mem hwhole
  -- the quasiquote was read as code, and so its template was read at depth one
  obtain ⟨front, hfront, hquasi⟩ :=
    (List.forall_mem_singleton.mp (hpart.codeRead quasi)).whole hpart.isPart_of_one hcode
  have hwithin := (hfront.trans hsub).trans (List.prefix_append read rest.toList).isInfix
  obtain ⟨token, template, inner, rfl, hinner, htemplate⟩ := hquasi.template hcompound htag
  obtain ⟨notes, hnotes⟩ := htemplate.noted trivial
  refine ⟨template, inner, notes, rfl, hinner.trans hwithin, hnotes.filledAsRead,
    fun steps depth scope tail w => ⟨?_, fun fault w' hw hfault => ?_⟩⟩
  · exact congrFun ((evaluator steps depth).evalForm_quasiquote scope tail htag template) w
  · obtain ⟨_, hform, hshaped⟩ := hquasi.shapes fun t ht => hspelled t (hwithin.subset ht)
    cases hform
    have hsound := (Standard.keeps_unquotesNothing steps (depth + 1)).eval scope tail
      ⟨hshaped, trivial⟩ w ⟨hw, False.elim⟩ (Nat.zero_le _)
    rw [hfault] at hsound
    exact hsound.2.2

/-- A template with a nested one, a dotted tail and a spliced list. -/
theorem quasiquotes_filled_as_read_nested :
    let source := "`(a `(b ,(c ,d)) ,@e . ,f)".toList
    let quasi := (Reader.readFormsWithin 9 source).1.headD (.leaf ⟨.eof, .none, none⟩)
    quasi ∈ (Reader.readFormsWithin 9 source).1 ∧ quasi.HasCode .code quasi ∧
      quasi.compound = true ∧ quasi.tag = .quasiquote ∧
      ∃ template front notes, quasi.parts = [template] ∧
        front <:+: ((Tokens.ofSource source).within 9).toList ∧
        template.FilledAsRead front notes := by
  intro source quasi
  -- asked together, so that the text is read once
  obtain ⟨hread, hcompound, htag⟩ : (Reader.readFormsWithin 9 source).1.isEmpty = false ∧
      quasi.compound = true ∧ quasi.tag = .quasiquote := by decide +kernel
  have hquasi : quasi ∈ (Reader.readFormsWithin 9 source).1 := Reader.headD_mem hread _
  obtain ⟨template, front, notes, hparts, hfront, hfilled, -⟩ :=
    quasiquotes_filled_as_read hquasi .here hcompound htag
  exact ⟨hquasi, .here, hcompound, htag, template, front, notes, hparts, hfront, hfilled⟩

end TowerLisp
