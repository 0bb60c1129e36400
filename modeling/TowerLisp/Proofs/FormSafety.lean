import TowerLisp.Proofs.ReadingFaults
import TowerLisp.Proofs.RootFrames
import TowerLisp.Proofs.ShapedEvaluation

/-!
Safety of forms that are read. Evaluation never meets a form that is not shaped as it should be,
whatever text the form was read from and whatever the store holds. Procedures that read a text
while the program runs may find that text at fault; an evaluation that calls none of them can
only find a spliced part outside of a list. Whatever is fed to a session, its procedures were made
of forms that were read, and its names stand for procedures that there are.
-/

namespace TowerLisp

open EvalM (lift endWorld)
open Value (AllBounded)

namespace Builtin

section Reading

variable (read : List Char → EvalM (List Form)) (ev : Evaluator) (scope : ScopeId)

/-- Evaluates what `read` makes of a text. -/
def evalTextBy (source : List Char) : EvalM Value := do
  ev.runAll scope .nil (← read source)

def evalBy (v : Value) : EvalM Value := do
  let scope ← EvalM.fork scope
  let text ← EvalM.display v
  evalTextBy read ev scope text.toList

def readBy : EvalM Value := do
  let scope ← EvalM.fork scope
  let line ← takeInputLine
  evalTextBy read ev scope line

def importSourceBy (v : Value) : EvalM Value := do
  let name ← sourceName v
  match ← findSource name with
  | none => throw (.importNotFound name)
  | some p =>
    let forms ← read (← sourceText p)
    match (← get).store.root? scope, forms with
    | some root, forms => evaluateAtRoot ev root forms
    | none, [] => pure ()
    | none, _ :: _ => throw .noRoot
    return .trueSymbol

/-- Runs a procedure of the language; texts are read by `read`. -/
def runBy : Primitive → List Value → EvalM Value
  | .eval, [v] => evalBy read ev scope v
  | .read, [] => readBy read ev scope
  | .importSource, [v] => importSourceBy read ev scope v
  | p, args => run ev scope p args

theorem runBy_readAll : runBy readAll ev scope = run ev scope := by
  funext p args
  unfold runBy
  split <;> rfl

end Reading

end Builtin

namespace Evaluator

/-- Applies a value to arguments; texts are read by `read`. -/
def applyBy (read : List Char → EvalM (List Form)) (ev : Evaluator) (procedure : Value)
    (arguments : List Value) (scope : ScopeId) (tail : Bool) : EvalM Step :=
  match procedure with
  | .primitive p => do return .done (← Builtin.runBy read ev scope p arguments)
  | _ => ev.applyValue procedure arguments scope tail

/-- One level of evaluation in which procedures are applied by `apply`. -/
def evalFormBy (ev : Evaluator)
    (apply : Value → List Value → ScopeId → (tail : Bool) → EvalM Step) (form : Form)
    (scope : ScopeId) (tail : Bool) : EvalM Step :=
  if !form.compound then ev.evalForm form scope tail
  else
    match form.tag, form.parts with
    | .symbol, parts | .operator, parts => do
      let procedure ← EvalM.lookup scope (← lift form.token.payload.written)
      let arguments ← ev.values scope parts
      apply procedure arguments scope tail
    | .apply, head :: operands => do
      let procedure ← ev.value head scope
      let arguments ← ev.values scope operands
      apply procedure arguments scope tail
    | _, _ => ev.evalForm form scope tail

def nextBy (read : List Char → EvalM (List Form)) (ev : Evaluator) : Evaluator where
  steps := ev.steps
  eval := ev.evalFormBy (ev.applyBy read)
  apply := ev.applyBy read

end Evaluator

/-- The evaluator that reads texts by `read`. -/
def evaluatorBy (read : List Char → EvalM (List Form)) (steps : Nat) : (depth : Nat) → Evaluator
  | 0 => .refuse steps
  | depth + 1 => (evaluatorBy read steps depth).nextBy read

namespace Evaluator

theorem applyBy_readAll (ev : Evaluator) : ev.applyBy Builtin.readAll = ev.applyValue := by
  funext procedure arguments scope tail
  cases procedure with
  | primitive p => rw [applyBy, Builtin.runBy_readAll]; rfl
  | _ => rfl

theorem evalFormBy_applyValue (ev : Evaluator) : ev.evalFormBy ev.applyValue = ev.evalForm := by
  funext form scope tail
  obtain ⟨⟨tag, payload, place⟩, parts, compound⟩ := form
  cases compound
  · rfl
  · cases tag <;> first | rfl | (cases parts <;> rfl)

end Evaluator

/-- If texts are read as the language reads them, this is the evaluator of the language. -/
theorem evaluatorBy_readAll (steps depth : Nat) :
    evaluatorBy Builtin.readAll steps depth = evaluator steps depth := by
  induction depth with
  | zero => rfl
  | succ depth ih =>
    rw [evaluatorBy, evaluator_succ, ih, Evaluator.nextBy, Evaluator.applyBy_readAll,
      Evaluator.evalFormBy_applyValue]
    rfl

namespace Standard

variable {S : Standard} {ev : Evaluator} {n : Nat}
  {apply : Value → List Value → ScopeId → Bool → EvalM Step}

theorem finds_evalLeaf {token : Token} (h : token.Readable) (scope : ScopeId) :
    S.Finds n (Evaluator.evalLeaf token scope) := by
  obtain ⟨tag, payload, place⟩ := token
  cases tag <;> simp only [Token.Readable] at h
  case number =>
    obtain ⟨n, rfl⟩ := h
    exact finds_fixed (blameless_ok _) fun _ => rfl
  case string | character =>
    obtain ⟨text, rfl⟩ := h
    exact finds_fixed (blameless_ok _) fun _ => rfl
  case boolean => exact finds_ofBool _
  case symbol | operator =>
    exact (safe_lift (blameless_written payload)).andThen fun name _ => finds_lookup scope name

/-- The values of bindings are among the forms if the list of bindings is. -/
theorem has_of_binds {parts : List Form} {pairs : List (String × Form)}
    (hparts : ∀ part ∈ parts, S.Has part) (h : List.Forall₂ Form.Binds parts pairs) :
    ∀ pair ∈ pairs, S.Has pair.2 := by
  induction h with
  | nil => exact nofun
  | cons hbinds _ ih =>
    obtain ⟨hbinding, hrest⟩ := List.forall_mem_cons.mp hparts
    obtain ⟨-, name, hvalue, -⟩ := hbinds
    exact List.forall_mem_cons.mpr ⟨S.part hbinding (by simp [hvalue]), ih hrest⟩

/-- A level of evaluation keeps to the standard if applications do. -/
theorem Keeps.evalFormBy (h : S.Keeps ev) {scope : ScopeId} {tail : Bool}
    (happly : ∀ {k} procedure {arguments}, S.IfCloses AllBounded k arguments →
      S.Sound S.StepOf k (apply procedure arguments scope tail))
    {form : Form} (hform : S.Code form) :
    S.Sound S.StepOf n (ev.evalFormBy apply form scope tail) := by
  obtain ⟨hshaped, hhas⟩ := hform
  cases hshaped with
  | leaf hreadable => exact sound_done (finds_evalLeaf hreadable scope)
  | @empty _ token htag =>
    obtain ⟨_, payload, place⟩ := token
    cases htag
    exact sound_pure fun _ _ _ => trivial
  | @quoting _ _ token quoted hquoting hinside hquoted =>
    have hpart := S.part hhas (List.mem_singleton_self quoted)
    obtain ⟨tag, payload, place⟩ := token
    obtain rfl | rfl | rfl | rfl := Tag.isQuoting_cases hquoting
    · exact sound_done (finds_fixed hquoted.blameless_datum fun σ => Form.map_datum σ quoted)
    · cases hinside
      exact sound_done (h.quasi hquoted hpart)
    · cases hinside
    · cases hinside
  | @list _ token items htag hitems =>
    obtain ⟨_, payload, place⟩ := token
    cases htag
    exact sound_done (h.evalList (fun item hitem => ⟨hitems item hitem, S.part hhas hitem⟩) scope)
  | @dotted _ token dot items last htag hitems hdot hlast =>
    obtain ⟨_, payload, place⟩ := token
    cases htag
    have htail : S.Code last := ⟨hlast, S.part (S.part hhas (List.mem_append_right _
      (List.mem_singleton_self _))) (List.mem_singleton_self last)⟩
    exact sound_done (h.evalList_dotted
      (fun item hitem => ⟨hitems item hitem, S.part hhas (List.mem_append_left _ hitem)⟩) hdot htail
      scope)
  | @headed token parts hhead hparts =>
    have hcode : ∀ part ∈ parts, S.Code part :=
      fun part hpart => ⟨hparts part hpart, S.part hhas hpart⟩
    have hcall (payload : Payload) : S.Sound S.StepOf n (do
        let procedure ← EvalM.lookup scope (← lift payload.written)
        let arguments ← ev.values scope parts
        apply procedure arguments scope tail) :=
      (safe_lift (blameless_written payload)).andThen fun name _ =>
        (finds_lookup scope name).andThen fun procedure _ => (h.values hcode scope).bind
          fun _ harguments => happly procedure harguments
    obtain ⟨_, payload, place⟩ := token
    obtain rfl | rfl | rfl := hhead
    · exact hcall payload
    · exact hcall payload
    · exact h.body hcode scope tail
  | @application token head operands htag hhead hoperands =>
    obtain ⟨_, payload, place⟩ := token
    cases htag
    have hoperator : S.Code head := ⟨hhead, S.part hhas (List.mem_cons_self ..)⟩
    have hcode : ∀ operand ∈ operands, S.Code operand :=
      fun operand hmem => ⟨hoperands operand hmem, S.part hhas (List.mem_cons_of_mem _ hmem)⟩
    exact (h.value hoperator scope).andThen fun procedure _ =>
      (h.values hcode scope).bind fun _ harguments => happly procedure harguments
  | @lambda token params formals body htag hparams hnames hnodup hne hbody =>
    obtain ⟨_, payload, place⟩ := token
    cases htag
    exact lambdaForm hparams hnames hnodup hne
      (fun form hform => ⟨hbody form hform, S.part hhas (List.mem_cons_of_mem _ hform)⟩) scope
  | @define token target value name htag htarget hvalue =>
    obtain ⟨_, payload, place⟩ := token
    cases htag
    exact h.defineForm htarget ⟨hvalue, S.part hhas (by simp)⟩ scope
  | @cond token clauses htag hclauses hforms =>
    obtain ⟨_, payload, place⟩ := token
    cases htag
    exact h.condForm (fun clause hclause => (hclauses clause hclause).2)
      (fun clause hclause form hform =>
        ⟨hforms clause hclause form hform, S.part (S.part hhas hclause) hform⟩) scope tail
  | @letPlain token list pairs body hhead htag hpairs hvalues hne hbody =>
    have hcode : ∀ form ∈ body, S.Code form :=
      fun form hform => ⟨hbody form hform, S.part hhas (List.mem_cons_of_mem _ hform)⟩
    have hlist : S.Has list := S.part hhas (List.mem_cons_self ..)
    have hbound : ∀ pair ∈ pairs, S.Code pair.2 := fun pair hpair =>
      ⟨hvalues pair hpair, has_of_binds (fun _ => S.part hlist) hpairs pair hpair⟩
    obtain ⟨_, payload, place⟩ := token
    obtain rfl | rfl | rfl := hhead
    · exact h.letAllForm ⟨htag, hpairs⟩ hbound hcode scope tail
    · exact h.letEachForm ⟨htag, hpairs⟩ hbound hcode scope tail
    · exact h.letRecForm ⟨htag, hpairs⟩ hbound hcode scope tail
  | @letNamed token name list label pairs body htag hname hlist hpairs hvalues hne hbody =>
    have hcode : ∀ form ∈ body, S.Code form :=
      fun form hform => ⟨hbody form hform, S.part hhas (by simp [hform])⟩
    have hhaslist : S.Has list := S.part hhas (by simp)
    have hbound : ∀ pair ∈ pairs, S.Code pair.2 := fun pair hpair =>
      ⟨hvalues pair hpair, has_of_binds (fun _ => S.part hhaslist) hpairs pair hpair⟩
    obtain ⟨_, payload, place⟩ := token
    cases htag
    exact h.namedLet ⟨hlist, hpairs⟩ hbound hcode rfl hname hhas hne scope tail

section Reading

variable {read : List Char → EvalM (List Form)}
  (hread : ∀ {k} source, S.Sound (fun _ forms => ∀ form ∈ forms, S.Code form) k (read source))

include hread

theorem finds_evalTextBy (h : S.Keeps ev) (scope : ScopeId) (source : List Char) :
    S.Finds n (Builtin.evalTextBy read ev scope source) :=
  (hread source).bind fun _ hforms => h.runAll hforms scope fun _ => Value.bounded_nil

theorem finds_importSourceBy (h : S.Keeps ev) (scope : ScopeId) (v : Value) :
    S.Finds n (Builtin.importSourceBy read ev scope v) := by
  refine (safe_sourceName v).andThen fun name _ => (safe_findSource name).andThen fun path? _ => ?_
  cases path? with
  | none => exact sound_fault rfl
  | some path =>
    refine (safe_sourceText path).andThen fun source _ => ?_
    refine (hread source).bind fun _ hforms => sound_get fun w _ _ => ?_
    dsimp only
    split
    · exact (h.evaluateAtRoot hforms _).andThen fun _ _ => finds_pure fun _ => trivial
    · exact finds_pure fun _ => trivial
    · exact sound_fault rfl

theorem finds_runBy (h : S.Keeps ev) (scope : ScopeId) (p : Primitive) {args : List Value}
    (hargs : S.IfCloses AllBounded n args) : S.Finds n (Builtin.runBy read ev scope p args) := by
  unfold Builtin.runBy
  split
  case h_1 v =>
    exact (safe_fork scope).andThen fun inner _ => (safe_display v).andThen fun text _ =>
      finds_evalTextBy hread h inner text.toList
  case h_2 =>
    exact (safe_fork scope).andThen fun inner _ => safe_takeInputLine.andThen fun line _ =>
      finds_evalTextBy hread h inner line
  case h_3 v => exact finds_importSourceBy hread h scope v
  case h_4 heval hread himport =>
    refine h.builtin scope ?_ hargs
    unfold Builtin.readsText
    split <;> simp_all

namespace Keeps

theorem applyBy (h : S.Keeps ev) (procedure : Value) {arguments : List Value} (scope : ScopeId)
    (tail : Bool) (harguments : S.IfCloses AllBounded n arguments) :
    S.Sound S.StepOf n (ev.applyBy read procedure arguments scope tail) := by
  cases procedure with
  | primitive p => exact sound_done (finds_runBy hread h scope p harguments)
  | closure id =>
    refine sound_get fun w hw hle => ?_
    cases hclosure : w.store.closure? id with
    | none => exact sound_fault rfl
    | some closure =>
      exact h.applyClosure (hw.madeOf id closure hclosure)
        (fun hcloses => (harguments hcloses).mono hle) tail
  | _ => exact (safe_printed _).andThen fun _ _ => sound_fault rfl

theorem nextBy (h : S.Keeps ev) : S.Keeps (ev.nextBy read) where
  eval scope tail hform :=
    h.evalFormBy (fun procedure _ => h.applyBy hread procedure scope tail) hform
  apply procedure _ scope tail := h.applyBy hread procedure scope tail

end Keeps

/-- Evaluation keeps to a standard if the reading of texts does. -/
theorem keeps_evaluatorBy (steps depth : Nat) : S.Keeps (evaluatorBy read steps depth) := by
  induction depth with
  | zero => exact ⟨fun _ _ _ => sound_fault rfl, fun _ _ _ _ _ => sound_fault rfl⟩
  | succ depth ih => exact ih.nextBy hread

end Reading

end Standard

/-- A form that is another one, or a part of it. -/
inductive Form.Occurs (whole : Form) : Form → Prop where
  | whole : Occurs whole whole
  | part {form part : Form} : Occurs whole form → part ∈ form.parts → Occurs whole part

/-- A form that occurs in what is read from some texts. -/
def Form.ReadFrom (Texts : List Char → Prop) (form : Form) : Prop :=
  ∃ source limit whole, Texts source ∧ whole ∈ (Reader.readFormsWithin limit source).1 ∧
    whole.Occurs form

theorem Form.ReadFrom.part {Texts : List Char → Prop} {form part : Form}
    (h : form.ReadFrom Texts) (hpart : part ∈ form.parts) : part.ReadFrom Texts := by
  obtain ⟨source, limit, whole, hsource, hwhole, hoccurs⟩ := h
  exact ⟨source, limit, whole, hsource, hwhole, hoccurs.part hpart⟩

/-- A fault that one of some texts is at. -/
def Fault.ReportedOf (Texts : List Char → Prop) (fault : Fault) : Prop :=
  ∃ source limit, Texts source ∧ Reader.readAllWithin limit source = .error fault

/-- What may be met and found if a program consists of `Texts` and reads `Read` as it runs. -/
def Standard.ofTexts (Texts Read : List Char → Prop) : Standard where
  Has := Form.ReadFrom fun source => Texts source ∨ Read source
  Allows fault := fault.blamesForm = false ∨
    (∃ place, fault = .malformed .spliceOutsideList place) ∨ fault.ReportedOf Read
  Closes := False
  part := Form.ReadFrom.part
  innocent := Or.inl
  splice place := Or.inr (Or.inl ⟨place, rfl⟩)

/-- A text is read as a standard asks if the standard has what is read, and allows the fault. -/
theorem Standard.sound_readAll {S : Standard} {source : List Char} {n : Nat}
    (hhas : ∀ {limit forms}, Reader.readAllWithin limit source = .ok forms →
      ∀ form ∈ forms, S.Has form)
    (hallows : ∀ {limit fault}, Reader.readAllWithin limit source = .error fault →
      S.Allows fault) :
    S.Sound (fun _ forms => ∀ form ∈ forms, S.Code form) n (Builtin.readAll source) := by
  refine sound_get fun w _ _ => ?_
  cases hread : Reader.readAllWithin w.settings.depthLimit source with
  | error fault => exact sound_throw (hallows hread)
  | ok forms =>
    exact sound_pure fun _ _ form hform =>
      ⟨Reader.shaped_of_readAllWithin hread form hform, hhas hread form hform⟩

/-- The texts of `Read` are read as the standard asks. -/
theorem Standard.sound_readOf {Texts Read : List Char → Prop} {source : List Char} {n : Nat}
    (hsource : Read source) :
    (Standard.ofTexts Texts Read).Sound
      (fun _ forms => ∀ form ∈ forms, (Standard.ofTexts Texts Read).Code form) n
      (Builtin.readAll source) := by
  refine Standard.sound_readAll (fun {limit forms} hread form hform => ?_)
    fun hread => Or.inr (Or.inr ⟨source, _, hsource, hread⟩)
  have hall : Reader.readFormsWithin limit source = (forms, none) := Reader.allOrNone_eq_ok hread
  exact ⟨source, limit, form, Or.inr hsource, by rwa [hall], .whole⟩

/-- All texts that a run reads are in `Read`: whatever is done in place of reading another
text, it comes out the same. -/
def ReadsOnly {α : Type} (Read : List Char → Prop) (m : Evaluator → EvalM α) (steps depth : Nat)
    (w : World) : Prop :=
  ∀ read, (∀ source, Read source → read source = Builtin.readAll source) →
    m (evaluatorBy read steps depth) w = m (evaluator steps depth) w

/-- Every run reads some texts. -/
theorem readsOnly_any {α : Type} (m : Evaluator → EvalM α) (steps depth : Nat) (w : World) :
    ReadsOnly (fun _ => True) m steps depth w := by
  intro read hread
  rw [funext fun source => hread source trivial, evaluatorBy_readAll]

/-- A run whose procedures, at its end, were made of forms in some texts, and that blames no form
but for a spliced part outside of a list, or because it read a text that has a fault. -/
structure FindsNoMalformedForm {α : Type} (Texts Read : List Char → Prop)
    (result : EStateM.Result Fault World α) : Prop where
  closures : (endWorld result).store.MadeOf (Form.ReadFrom fun source => Texts source ∨ Read source)
  fault : ∀ fault w, result = .error fault w → fault.blamesForm = false ∨
    (∃ place, fault = .malformed .spliceOutsideList place) ∨
      fault.ReportedOf Read ∧ fault.ofReading = true

section Evaluations

variable {Texts Read : List Char → Prop} {w : World} {α : Type} {Q : Nat → α → Prop}

theorem Standard.Sound.findsNoMalformedForm {m : EvalM α}
    (h : (Standard.ofTexts Texts Read).Sound Q 0 m)
    (hw : w.store.MadeOf (Form.ReadFrom fun source => Texts source ∨ Read source)) :
    FindsNoMalformedForm Texts Read (m w) := by
  obtain ⟨hstore, -, hresult⟩ := h w ⟨hw, False.elim⟩ (Nat.zero_le _)
  refine ⟨hstore.madeOf, fun fault v hfault => ?_⟩
  rw [hfault] at hresult
  refine hresult.imp_right fun hblames => hblames.imp_right fun hreported => ⟨hreported, ?_⟩
  obtain ⟨source, limit, -, hread⟩ := hreported
  exact Reader.ofReading_of_readAllWithin hread

open Classical in
/-- What keeps to the standard of its texts finds no malformed form. -/
theorem ReadsOnly.findsNoMalformedForm {m : Evaluator → EvalM α} {steps depth : Nat}
    (h : ReadsOnly Read m steps depth w) (hw : w.store.MadeOf (Form.ReadFrom Texts))
    (hm : ∀ {ev}, (Standard.ofTexts Texts Read).Keeps ev →
      (Standard.ofTexts Texts Read).Sound Q 0 (m ev)) :
    FindsNoMalformedForm Texts Read (m (evaluator steps depth) w) := by
  -- a text that is never read may as well break down
  let read (source : List Char) : EvalM (List Form) :=
    if Read source then Builtin.readAll source else throw .tooDeep
  have hread {k : Nat} (source : List Char) : (Standard.ofTexts Texts Read).Sound
      (fun _ forms => ∀ form ∈ forms, (Standard.ofTexts Texts Read).Code form) k (read source) :=
    Standard.sound_ite Standard.sound_readOf fun _ => Standard.sound_fault rfl
  rw [← h read fun source hsource => if_pos hsource]
  refine (hm (Standard.keeps_evaluatorBy hread steps depth)).findsNoMalformedForm (hw.mono ?_)
  rintro form ⟨source, limit, whole, hsource, hwhole⟩
  exact ⟨source, limit, whole, Or.inl hsource, hwhole⟩

end Evaluations

/-- What a session keeps to: it meets forms that were read, and may end in any fault. -/
def Standard.ofSession (Closes : Prop) : Standard where
  Has := Form.ReadFrom fun _ => True
  Allows _ := True
  Closes := Closes
  part := Form.ReadFrom.part
  innocent _ := trivial
  splice _ := trivial

namespace Session

open Standard

variable {Closes : Prop} {n : Nat}

theorem keeps_evaluator (steps depth : Nat) :
    (Standard.ofSession Closes).Keeps (evaluator steps depth) := by
  rw [← evaluatorBy_readAll]
  refine keeps_evaluatorBy (fun source => sound_readAll (fun {limit forms} hread form hform => ?_)
    fun _ => trivial) steps depth
  have hall : Reader.readFormsWithin limit source = (forms, none) := Reader.allOrNone_eq_ok hread
  exact ⟨source, limit, form, trivial, by rwa [hall], .whole⟩

theorem finds_evalText (source : List Char) :
    (Standard.ofSession Closes).Finds n (evalText source) := by
  intro w hw hle
  rw [evalText_eq]
  have hev : (Standard.ofSession Closes).Keeps (evaluator chainLimit w.settings.depthLimit) :=
    keeps_evaluator _ _
  have hforms : ∀ form ∈ (Reader.readFormsWithin w.settings.depthLimit source).1,
      (Standard.ofSession Closes).Code form := fun form hform =>
    ⟨Reader.shaped_of_readFormsWithin _ _ form hform, source, _, form, trivial, hform, .whole⟩
  refine ((hev.runAll hforms top fun _ => Value.bounded_nil).bind fun _ hvalue => ?_) w hw hle
  cases (Reader.readFormsWithin w.settings.depthLimit source).2 with
  | none => exact finds_pure hvalue
  | some fault => exact sound_throw trivial

theorem safe_start (prelude : Prelude) :
    (Standard.ofSession Closes).Safe n (start prelude) := by
  refine sound_get fun w _ _ => ?_
  dsimp only
  split
  · exact sound_throw trivial
  refine (safe_demandFiles _).andThen fun _ _ => ?_
  cases prelude.text w.settings w.files with
  | error fault => exact sound_throw trivial
  | ok text =>
    exact (safe_pure text).andThen fun text _ => (finds_evalText text).andThen fun _ _ =>
      safe_pure ()

/-- However many texts are fed to a session, it keeps to its standard. -/
theorem satisfies_feed (sources : List (List Char)) (w : World)
    (hw : w.store.Satisfies (.ofSession Closes)) :
    (feed w sources).store.Satisfies (.ofSession Closes) := by
  induction sources generalizing w with
  | nil => exact hw
  | cons source rest ih => exact ih _ (finds_evalText source w hw (Nat.zero_le _)).1

/-- However many texts are fed to a session, its procedures were made of forms that were read. -/
theorem madeOf_feed (sources : List (List Char)) (w : World)
    (hw : w.store.MadeOf (Form.ReadFrom fun _ => True)) :
    (feed w sources).store.MadeOf (Form.ReadFrom fun _ => True) := by
  have h : (feed w sources).store.Satisfies (.ofSession False) :=
    satisfies_feed sources w ⟨hw, False.elim⟩
  exact h.madeOf

/-- At the start of a session no procedure has been made. -/
theorem madeOf_initial (Has : Form → Prop) (files : FileTree) (settings : Settings)
    (input : List Char) : (initial files settings input).store.MadeOf Has := by
  intro id c hc
  simp [Store.closure?, initial, givenStore] at hc

/-- At the start of a session no name stands for a procedure that was made. -/
theorem closed_initial (files : FileTree) (settings : Settings) (input : List Char) :
    (initial files settings input).store.Closed := by
  intro frame entry hentry
  cases frame with
  | zero =>
    change entry ∈ givenBindings at hentry
    rcases List.mem_append.mp hentry with hentry | hentry
    · obtain ⟨p, -, rfl⟩ := List.mem_map.mp hentry
      trivial
    · simp only [List.mem_cons, List.not_mem_nil, or_false] at hentry
      rcases hentry with rfl | rfl | rfl <;> trivial
  | succ frame =>
    rw [Store.bindings_of_size_le _ _ (Nat.le_add_left 1 frame)] at hentry
    cases hentry

/-- Whatever is fed to a session, its names stand for procedures that there are. -/
theorem closed_feed (prelude : Prelude) (files : FileTree) (settings : Settings)
    (input : List Char) (sources : List (List Char)) :
    (feed (endWorld (start prelude (initial files settings input))) sources).store.Closed := by
  have hinitial : (initial files settings input).store.Satisfies (.ofSession True) :=
    ⟨madeOf_initial _ files settings input, fun _ => closed_initial files settings input⟩
  have hstarted := (safe_start prelude _ hinitial (Nat.zero_le _)).1
  exact (satisfies_feed sources _ hstarted).closed trivial

end Session

/-- A form that is read from a text of `T`, evaluated in any scope of any store whose procedures
were made of such forms, is never found to be malformed. The only forms at fault are spliced
parts outside of a list and what stands in the texts of `R`, which are read meanwhile. The
procedures that are made have bodies, and parameters that are all different but for those of a
named let. -/
theorem read_forms_evaluate_well_shaped {T R : List Char → Prop} {source : List Char}
    (hsource : T source) {limit : Nat} {form : Form}
    (hform : form ∈ (Reader.readFormsWithin limit source).1) (scope : ScopeId)
    (steps depth : Nat) {w : World} (hw : w.store.MadeOf (Form.ReadFrom T)) :
    (∀ tail, ReadsOnly R (fun ev => ev.eval form scope tail) steps depth w →
      FindsNoMalformedForm T R ((evaluator steps depth).eval form scope tail w)) ∧
    (ReadsOnly R (fun ev => ev.run form scope) steps depth w →
      FindsNoMalformedForm T R ((evaluator steps depth).run form scope w)) := by
  have hcode : (Standard.ofTexts T R).Code form :=
    ⟨Reader.shaped_of_readFormsWithin limit source form hform,
      source, limit, form, Or.inl hsource, hform, .whole⟩
  constructor
  · intro tail hreads
    exact hreads.findsNoMalformedForm hw fun hkeeps => hkeeps.eval scope tail hcode
  · intro hreads
    exact hreads.findsNoMalformedForm hw fun hkeeps => hkeeps.run hcode scope

/-- A named let that binds a name twice, and so makes a procedure with a parameter twice. -/
theorem read_forms_evaluate_well_shaped_twice :
    let source := "(let f ((x 1) (x 2)) x)".toList
    let form := (Reader.readFormsWithin 9 source).1.headD (.leaf ⟨.eof, .none, none⟩)
    let w := Session.initial .empty ⟨[]⟩ []
    form ∈ (Reader.readFormsWithin 9 source).1 ∧ w.store.MadeOf (Form.ReadFrom (· = source)) ∧
      ReadsOnly (fun _ => True) (fun ev => ev.eval form 0 true) 3 3 w ∧
      ReadsOnly (fun _ => True) (fun ev => ev.run form 0) 3 3 w ∧
      (endWorld ((evaluator 3 3).run form 0 w)).store.closures.map (·.formals) = #[["x", "x"]] ∧
      FindsNoMalformedForm (· = source) (fun _ => True) ((evaluator 3 3).eval form 0 true w) ∧
      FindsNoMalformedForm (· = source) (fun _ => True) ((evaluator 3 3).run form 0 w) := by
  intro source form w
  -- asked together, so that the text is read once
  obtain ⟨hread, hformals⟩ : (Reader.readFormsWithin 9 source).1.isEmpty = false ∧
      (endWorld ((evaluator 3 3).run form 0 w)).store.closures.map (·.formals) =
        #[["x", "x"]] := by
    decide +kernel
  have hform : form ∈ (Reader.readFormsWithin 9 source).1 := Reader.headD_mem hread _
  have hw : w.store.MadeOf (Form.ReadFrom (· = source)) := Session.madeOf_initial _ _ _ _
  have heval := readsOnly_any (fun ev => ev.eval form 0 true) 3 3 w
  have hrun := readsOnly_any (fun ev => ev.run form 0) 3 3 w
  obtain ⟨hevals, hruns⟩ := read_forms_evaluate_well_shaped (T := (· = source))
    (R := fun _ => True) rfl hform 0 3 3 hw
  exact ⟨hform, hw, heval, hrun, hformals, hevals true heval, hruns hrun⟩

end TowerLisp
