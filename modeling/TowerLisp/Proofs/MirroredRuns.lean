import TowerLisp.Builtin.Effect
import TowerLisp.Eval.Special
import TowerLisp.Proofs.PlaceBlindness
import TowerLisp.Proofs.Renumbering

/-!
Runs in two stores. A mirror says when one store shows another: the procedures agree along a
renumbering, and new scopes and frames get the same numbers on both sides. It also says in which
scopes forms may be evaluated and which frames may be filled, once and for all. Computations in
worlds that are the same but for such stores end alike: with the same fault, or with a value and
the renumbered one, and again in such worlds. A mirror of equal stores tells what stays true of
one store.
-/

namespace TowerLisp

/-- When one store shows another, and what evaluation may do to both. -/
structure Mirror where
  renumber : ClosureId → ClosureId
  Shows : Store → Store → Prop
  Admits : ScopeId → Prop
  Opens : FrameId → Prop
  injective : Function.Injective renumber
  sizes : ∀ {s t}, Shows s t → t.scopes.size = s.scopes.size ∧ t.frames.size = s.frames.size
  follows : ∀ {s t}, Shows s t → Value.Follows renumber s t
  admits_new : ∀ {s t}, Shows s t → Admits s.scopes.size
  opens_new : ∀ {s t}, Shows s t → Opens s.frames.size
  addClosure : ∀ {s t}, Shows s t → ∀ closure, renumber s.closures.size = t.closures.size ∧
    Shows (s.addClosure closure).2 (t.addClosure closure).2
  nameClosure : ∀ {s t}, Shows s t → ∀ id name,
    Shows (s.nameClosure id name) (t.nameClosure (renumber id) name)
  withFrame : ∀ {s t}, Shows s t → ∀ scope bindings, Shows (s.withFrame scope bindings).2
    (t.withFrame scope (bindings.renumber renumber)).2
  fork : ∀ {s t scope}, Shows s t → Admits scope → Shows (s.fork scope).2 (t.fork scope).2
  define : ∀ {s t scope}, Shows s t → Admits scope → ∀ name value,
    Shows (s.define scope name value) (t.define scope name (value.renumber renumber))
  bindIn : ∀ {s t frame}, Shows s t → Opens frame → ∀ name value,
    Shows (s.bindIn frame name value) (t.bindIn frame name (value.renumber renumber))

namespace Mirror

/-- A value and the renumbered one. -/
abbrev Image (M : Mirror) (a b : Value) : Prop :=
  b = a.renumber M.renumber

/-- Values and the renumbered ones. -/
abbrev Images (M : Mirror) (as bs : List Value) : Prop :=
  bs = as.map (Value.renumber M.renumber)

/-- A scope that both sides make, and in which forms may be evaluated. -/
def SameScope (M : Mirror) (scope scope' : ScopeId) : Prop :=
  scope' = scope ∧ M.Admits scope

/-- A value and the renumbered one, or a call of one form in a scope that is admitted. -/
inductive SameStep (M : Mirror) : Step → Step → Prop where
  | done (value : Value) : SameStep M (.done value) (.done (value.renumber M.renumber))
  | call (form : Form) {scope : ScopeId} : M.Admits scope →
      SameStep M (.call form scope) (.call form scope)

variable {α β : Type} (M : Mirror)

/-- Results that are related, or one fault, in worlds that differ in the store only. -/
inductive Ends (R : α → α → Prop) :
    EStateM.Result Fault World α → EStateM.Result Fault World α → Prop where
  | value {a b : α} {w : World} {t : Store} : M.Shows w.store t → R a b →
      Ends R (.ok a w) (.ok b { w with store := t })
  | fault (fault : Fault) {w : World} {t : Store} : M.Shows w.store t →
      Ends R (.error fault w) (.error fault { w with store := t })

/-- Computations that end alike wherever one store shows the other. -/
def Runs (R : α → α → Prop) (m n : EvalM α) : Prop :=
  ∀ (w : World) (t : Store), M.Shows w.store t → M.Ends R (m w) (n { w with store := t })

namespace Runs

variable {M} {R : α → α → Prop} {S : β → β → Prop} {m n : EvalM α} {f g : α → EvalM β}

theorem pure {a b : α} (hR : R a b) : M.Runs R (pure a) (pure b) :=
  fun _ _ h => .value h hR

theorem throw (fault : Fault) : M.Runs R (throw fault) (throw fault) :=
  fun _ _ h => .fault fault h

theorem bind (hmn : M.Runs R m n) (hfg : ∀ {a b}, R a b → M.Runs S (f a) (g b)) :
    M.Runs S (m >>= f) (n >>= g) := by
  intro w t h
  have hends := hmn w t h
  change M.Ends S (EStateM.bind m f w) (EStateM.bind n g { w with store := t })
  rw [EStateM.bind, EStateM.bind]
  generalize m w = r at hends ⊢
  generalize n { w with store := t } = r' at hends ⊢
  cases hends with
  | value h' hR => exact hfg hR _ _ h'
  | fault fault h' => exact .fault fault h'

/-- The result on the other side is known from the one on this side. -/
theorem andThen {φ : α → α} (hmn : M.Runs (fun a b => b = φ a) m n)
    (hfg : ∀ a, M.Runs S (f a) (g (φ a))) : M.Runs S (m >>= f) (n >>= g) :=
  hmn.bind fun {a _} hab => hab ▸ hfg a

/-- The same result is handed on on both sides. -/
theorem both (hmn : M.Runs Eq m n) (hfg : ∀ a, M.Runs S (f a) (g a)) :
    M.Runs S (m >>= f) (n >>= g) :=
  hmn.bind fun {a _} hab => hab ▸ hfg a

/-- Both sides look at their worlds. -/
theorem get {f g : World → EvalM α}
    (hfg : ∀ w t, M.Shows w.store t → M.Runs R (f w) (g { w with store := t })) :
    M.Runs R (get >>= f) (get >>= g) :=
  fun w t h => hfg w t h w t h

theorem lift {φ : α → α} (result : Except Fault α) :
    M.Runs (fun a b => b = φ a) (EvalM.lift result) (EvalM.lift (φ <$> result)) := by
  cases result with
  | ok a => exact .pure rfl
  | error fault => exact .throw fault

theorem liftSame (result : Except Fault α) :
    M.Runs Eq (EvalM.lift result) (EvalM.lift result) := by
  cases result with
  | ok a => exact .pure rfl
  | error fault => exact .throw fault

/-- What is computed holds no procedures. -/
theorem liftFixed {result : Except Fault Value}
    (h : Value.renumber M.renumber <$> result = result) :
    M.Runs M.Image (EvalM.lift result) (EvalM.lift result) := by
  have hlift : M.Runs M.Image (EvalM.lift result)
      (EvalM.lift (Value.renumber M.renumber <$> result)) := .lift result
  rwa [h] at hlift

theorem updateStore {f g : Store → α × Store}
    (h : ∀ s t, M.Shows s t → M.Shows (f s).2 (g t).2 ∧ R (f s).1 (g t).1) :
    M.Runs R (EvalM.updateStore f) (EvalM.updateStore g) :=
  fun _ _ hst => .value (h _ _ hst).1 (h _ _ hst).2

theorem modifyStore {f g : Store → Store} (h : ∀ s t, M.Shows s t → M.Shows (f s) (g t)) :
    M.Runs Eq (EvalM.modifyStore f) (EvalM.modifyStore g) :=
  fun _ _ hst => .value (h _ _ hst) rfl

/-- A change of the world that leaves the store alone. -/
theorem modifyGet {f g : World → α × World} (hkeeps : ∀ w, (f w).2.store = w.store)
    (h : ∀ w t, (g { w with store := t }).2 = { (f w).2 with store := t } ∧
      R (f w).1 (g { w with store := t }).1) :
    M.Runs R (modifyGet f) (modifyGet g) := by
  intro w t hst
  obtain ⟨hworld, hR⟩ := h w t
  change M.Ends R (.ok (f w).1 (f w).2)
    (.ok (g { w with store := t }).1 (g { w with store := t }).2)
  rw [hworld]
  exact .value ((hkeeps w).symm ▸ hst) hR

theorem modify {f : World → World} (h : ∀ w t, f { w with store := t } = { f w with store := t })
    (hkeeps : ∀ w, (f w).store = w.store) :
    M.Runs Eq (modify f) (modify f) := by
  intro w t hst
  have hend : M.Ends Eq (.ok () (f w)) (.ok () { f w with store := t }) :=
    .value ((hkeeps w).symm ▸ hst) rfl
  change M.Ends Eq (.ok () (f w)) (.ok () (f { w with store := t }))
  rwa [h w t]

theorem done {m n : EvalM Value} (hmn : M.Runs M.Image m n) :
    M.Runs M.SameStep (do return .done (← m)) (do return .done (← n)) :=
  hmn.andThen fun value => .pure (.done value)

end Runs

section Steps

variable {M} {R : α → α → Prop}

open EvalM (newFrame nameValue modifyStore)

theorem runs_newFrame (scope : ScopeId) (bindings : Bindings) :
    M.Runs M.SameScope (newFrame scope bindings) (newFrame scope (bindings.renumber M.renumber)) :=
  .updateStore fun s _ h => ⟨M.withFrame h scope bindings, (M.sizes h).1,
    show M.Admits s.scopes.size from M.admits_new h⟩

theorem runs_openFrame (scope : ScopeId) :
    let openFrame := EvalM.updateStore fun s =>
      let (inner, frame, s) := s.withOpenFrame scope
      ((inner, frame), s)
    M.Runs (fun opened opened' => opened' = opened ∧ M.Admits opened.1 ∧ M.Opens opened.2)
      openFrame openFrame :=
  .updateStore fun s _ h => ⟨M.withFrame h scope [], Prod.ext (M.sizes h).1 (M.sizes h).2,
    show M.Admits s.scopes.size from M.admits_new h,
    show M.Opens s.frames.size from M.opens_new h⟩

theorem runs_fork {scope : ScopeId} (hscope : M.Admits scope) :
    M.Runs M.SameScope (EvalM.fork scope) (EvalM.fork scope) :=
  .updateStore fun _ _ h => ⟨M.fork h hscope, (M.sizes h).1, M.admits_new h⟩

theorem runs_newClosure (closure : Closure) :
    M.Runs (fun id id' => id' = M.renumber id) (Evaluator.newClosure closure)
      (Evaluator.newClosure closure) :=
  .updateStore fun _ _ h => ⟨(M.addClosure h closure).2, (M.addClosure h closure).1.symm⟩

theorem runs_nameValue (name : String) (value : Value) :
    M.Runs Eq (nameValue name value) (nameValue name (value.renumber M.renumber)) := by
  cases value with
  | closure id => exact .modifyStore fun _ _ h => M.nameClosure h id name
  | _ => exact .pure rfl

theorem runs_define {scope : ScopeId} (hscope : M.Admits scope) (name : String) (value : Value) :
    M.Runs Eq (modifyStore (·.define scope name value))
      (modifyStore (·.define scope name (value.renumber M.renumber))) :=
  .modifyStore fun _ _ h => M.define h hscope name value

theorem runs_bindIn {frame : FrameId} (hframe : M.Opens frame) (name : String) (value : Value) :
    M.Runs Eq (modifyStore (·.bindIn frame name value))
      (modifyStore (·.bindIn frame name (value.renumber M.renumber))) :=
  .modifyStore fun _ _ h => M.bindIn h hframe name value

theorem runs_demand (d : Demand) : M.Runs Eq (EvalM.demand d) (EvalM.demand d) :=
  .modify (fun _ _ => rfl) fun _ => rfl

theorem runs_demandFiles (paths : List Path) :
    M.Runs Eq (EvalM.demandFiles paths) (EvalM.demandFiles paths) := by
  induction paths with
  | nil => exact .pure rfl
  | cons p rest ih => exact (runs_demand (.file p)).both fun _ => ih

theorem runs_write (text : String) : M.Runs Eq (EvalM.write text) (EvalM.write text) :=
  .modify (fun _ _ => rfl) fun _ => rfl

theorem runs_mark (value : Value) :
    M.Runs M.Image (EvalM.mark value) (EvalM.mark (value.renumber M.renumber)) := by
  unfold EvalM.mark
  rw [Value.lacksMarks_renumber]
  split
  · refine .modifyGet (fun _ => rfl) fun w t => ?_
    dsimp only
    rw [Value.fillMarks_renumber]
    exact ⟨rfl, rfl⟩
  · exact .pure rfl

theorem runs_printed (value : Value) :
    M.Runs Eq (EvalM.printed value) (EvalM.printed (value.renumber M.renumber)) :=
  .get fun w t h => by
    rw [show (value.renumber M.renumber).printedWithin _ t = _ from
      Value.printedWithin_renumber (M.follows h) w.settings.depthLimit value]
    exact .liftSame _

theorem runs_display (value : Value) :
    M.Runs Eq (EvalM.display value) (EvalM.display (value.renumber M.renumber)) :=
  .get fun w t h => by
    rw [show (value.renumber M.renumber).displayWithin _ t = _ from
      Value.displayWithin_renumber (M.follows h) w.settings.depthLimit value]
    exact .liftSame _

/-- A fault of type is the same on both sides, whatever is expected instead. -/
theorem runs_mistyped (issue : String → TypeIssue) (value : Value) :
    M.Runs R (EvalM.withStore fun store => value.mistyped store issue)
      (EvalM.withStore fun store => (value.renumber M.renumber).mistyped store issue) :=
  .get fun w t h => by
    dsimp only
    rw [Value.mistyped_renumber (M.follows h) issue value, Value.mistyped]
    cases value.shown w.store <;> exact .throw _

theorem runs_spliced (value : Value) :
    M.Runs M.Images (Evaluator.spliced value)
      (Evaluator.spliced (value.renumber M.renumber)) := by
  have hlist := Value.list?_renumber M.renumber value
  unfold Evaluator.spliced
  rw [hlist]
  cases value.list? with
  | some items => exact .pure rfl
  | none =>
    cases value with
    | string text =>
      refine .pure ?_
      rw [Images, List.map_map]
      rfl
    | _ => exact runs_mistyped _ _

end Steps

section Aside

variable {M}

open Builtin

theorem path?_renumber (value : Value) : path? (value.renumber M.renumber) = path? value := by
  have htext := Value.text?_renumber M.renumber value
  cases value with
  | pair head tail =>
    exact congrArg (fun text => (Option.filter (· != "") text).map Path.ofText) htext
  | _ => rfl

theorem runs_readAll (source : List Char) : M.Runs Eq (readAll source) (readAll source) :=
  .get fun _ _ _ => .liftSame _

theorem runs_takeInputLine : M.Runs Eq takeInputLine takeInputLine := by
  refine .get fun w t _ => ?_
  dsimp only
  split
  · exact (runs_demand .line).both fun _ => .modifyGet (fun _ => rfl) fun _ _ => ⟨rfl, rfl⟩
  · exact .modifyGet (fun _ => rfl) fun _ _ => ⟨rfl, rfl⟩

theorem runs_asPath (procedure : String) (value : Value) :
    M.Runs Eq (asPath procedure value) (asPath procedure (value.renumber M.renumber)) := by
  unfold asPath
  rw [path?_renumber]
  cases path? value with
  | some p => exact (runs_demand _).both fun _ => .pure rfl
  | none => exact runs_mistyped _ _

theorem runs_fileLines? (p : Path) : M.Runs Eq (fileLines? p) (fileLines? p) :=
  (runs_demand _).both fun _ => .get fun _ _ _ => (Runs.liftSame _).both fun _ => .pure rfl

theorem runs_readFromFile (value : Value) :
    M.Runs M.Image (readFromFile value) (readFromFile (value.renumber M.renumber)) := by
  unfold readFromFile
  rw [path?_renumber]
  cases path? value with
  | none => exact .pure rfl
  | some p =>
    refine (runs_fileLines? p).both fun lines => ?_
    cases lines <;> exact .pure rfl

theorem runs_readLines (value : Value) :
    M.Runs M.Image (readLines value) (readLines (value.renumber M.renumber)) := by
  unfold readLines
  rw [path?_renumber]
  cases path? value with
  | none => exact .pure rfl
  | some p =>
    refine (runs_fileLines? p).both fun lines => ?_
    cases lines with
    | none => exact .pure rfl
    | some lines =>
      refine .pure ?_
      rw [Image, Value.renumber_list, List.map_map]
      rfl

theorem runs_setFiles (files : FileTree) :
    M.Runs Eq (modify fun w => { w with files } : EvalM Unit)
      (modify fun w => { w with files } : EvalM Unit) :=
  .modify (fun _ _ => rfl) fun _ => rfl

theorem runs_changeFiles (change : FileTree → Except Fault (Option FileTree)) :
    M.Runs Eq (changeFiles change) (changeFiles change) := by
  refine .get fun w t _ => (Runs.liftSame _).both fun changed => ?_
  cases changed with
  | none => exact .pure rfl
  | some files => exact (runs_setFiles _).both fun _ => .pure rfl

theorem runs_makeFile (value : Value) :
    M.Runs M.Image (makeFile value) (makeFile (value.renumber M.renumber)) := by
  refine (runs_asPath _ value).both fun p => (runs_changeFiles _).both fun made => ?_
  cases made <;> exact .pure rfl

theorem runs_answer (b : Bool) :
    M.Runs M.Image (Pure.pure (Value.ofBool b)) (Pure.pure (Value.ofBool b)) :=
  .pure (Value.renumber_ofBool _ b).symm

theorem runs_makeDirectory (value : Value) :
    M.Runs M.Image (makeDirectory value) (makeDirectory (value.renumber M.renumber)) := by
  refine (runs_asPath _ value).both fun p => .get fun w t _ => ?_
  refine (Runs.liftSame _).both fun entry => ?_
  cases entry with
  | some entry => exact runs_answer _
  | none =>
    exact (Runs.liftSame _).both fun made =>
      (runs_setFiles _).both fun _ => runs_answer _

theorem runs_writeToFile (target value : Value) :
    M.Runs M.Image (writeToFile target value)
      (writeToFile (target.renumber M.renumber) (value.renumber M.renumber)) :=
  (runs_asPath _ target).both fun _ => (runs_display value).both fun _ =>
    (runs_changeFiles _).both fun _ => runs_answer _

theorem runs_writeRows (p : Path) (written : String) (rows : List Value) :
    M.Runs M.Image (writeLines.writeRows p written rows)
      (writeLines.writeRows p written (rows.map (Value.renumber M.renumber))) := by
  induction rows generalizing written with
  | nil => exact (runs_changeFiles _).both fun _ => runs_answer _
  | cons row rest ih =>
    refine .get fun w t h => ?_
    dsimp only
    rw [Value.displayWithin_renumber (M.follows h)]
    cases row.displayWithin w.settings.depthLimit w.store with
    | ok text => exact ih _
    | error fault => exact (runs_changeFiles _).both fun _ => .throw fault

theorem runs_writeLines (target value : Value) :
    M.Runs M.Image (writeLines target value)
      (writeLines (target.renumber M.renumber) (value.renumber M.renumber)) := by
  refine (runs_asPath _ target).both fun p => ?_
  rw [Value.list?_renumber]
  cases value.list? with
  | none => exact runs_mistyped _ _
  | some rows =>
    refine (runs_changeFiles _).both fun written => ?_
    cases written with
    | false => exact .pure rfl
    | true => exact runs_writeRows p "" rows

theorem runs_sourceName (value : Value) :
    M.Runs Eq (sourceName value) (sourceName (value.renumber M.renumber)) := by
  unfold sourceName
  cases value with
  | symbol name => exact .pure rfl
  | _ => exact (runs_display _).both fun _ => .pure rfl

theorem runs_findSource (name : String) : M.Runs Eq (findSource name) (findSource name) :=
  .get fun _ _ _ => (runs_demandFiles _).both fun _ => .liftSame _

theorem runs_sourceText (p : Path) : M.Runs Eq (sourceText p) (sourceText p) :=
  .get fun _ _ _ => (Runs.liftSame _).both fun _ => .pure rfl

theorem runs_print (value : Value) :
    M.Runs M.Image (print value) (print (value.renumber M.renumber)) :=
  (runs_display value).both fun _ => (runs_write _).both fun _ => .pure rfl

theorem runs_printf (value : Value) :
    M.Runs M.Image (printf value) (printf (value.renumber M.renumber)) :=
  (runs_display value).both fun _ => (runs_write _).both fun _ => .pure rfl

end Aside

end Mirror

/-- What stays true of a store, where forms may be evaluated and what frames may be filled. -/
structure StoreInvariant where
  Holds : Store → Prop
  Admits : ScopeId → Prop
  Opens : FrameId → Prop
  admits_new : ∀ {s}, Holds s → Admits s.scopes.size
  opens_new : ∀ {s}, Holds s → Opens s.frames.size
  addClosure : ∀ {s}, Holds s → ∀ closure, Holds (s.addClosure closure).2
  nameClosure : ∀ {s}, Holds s → ∀ id name, Holds (s.nameClosure id name)
  withFrame : ∀ {s}, Holds s → ∀ scope bindings, Holds (s.withFrame scope bindings).2
  fork : ∀ {s scope}, Holds s → Admits scope → Holds (s.fork scope).2
  define : ∀ {s scope}, Holds s → Admits scope → ∀ name value, Holds (s.define scope name value)
  bindIn : ∀ {s frame}, Holds s → Opens frame → ∀ name value, Holds (s.bindIn frame name value)

namespace StoreInvariant

/-- Two stores that are one and the same, of which the invariant holds. -/
def mirror (I : StoreInvariant) : Mirror where
  renumber := id
  Shows s t := t = s ∧ I.Holds s
  Admits := I.Admits
  Opens := I.Opens
  injective := Function.injective_id
  sizes := by
    rintro s _ ⟨rfl, -⟩
    exact ⟨rfl, rfl⟩
  follows := by
    rintro s _ ⟨rfl, -⟩ id
    rfl
  admits_new h := I.admits_new h.2
  opens_new h := I.opens_new h.2
  addClosure := by
    rintro s _ ⟨rfl, h⟩ closure
    exact ⟨rfl, rfl, I.addClosure h closure⟩
  nameClosure := by
    rintro s _ ⟨rfl, h⟩ id name
    exact ⟨rfl, I.nameClosure h id name⟩
  withFrame := by
    rintro s _ ⟨rfl, h⟩ scope bindings
    rw [Bindings.renumber_id]
    exact ⟨rfl, I.withFrame h scope bindings⟩
  fork := by
    rintro s _ scope ⟨rfl, h⟩ hscope
    exact ⟨rfl, I.fork h hscope⟩
  define := by
    rintro s _ scope ⟨rfl, h⟩ hscope name value
    rw [Value.renumber_id]
    exact ⟨rfl, I.define h hscope name value⟩
  bindIn := by
    rintro s _ frame ⟨rfl, h⟩ hframe name value
    rw [Value.renumber_id]
    exact ⟨rfl, I.bindIn h hframe name value⟩

variable {I : StoreInvariant} {α : Type} {R : α → α → Prop} {m n : EvalM α} {w : World}

/-- What ends alike on both sides is the same, and the invariant holds afterwards. -/
theorem run_eq (h : I.mirror.Runs R m n) (hR : ∀ {a b}, R a b → b = a) (hw : I.Holds w.store) :
    n w = m w ∧ I.Holds (EvalM.endWorld (m w)).store := by
  have hends := h w w.store ⟨rfl, hw⟩
  change I.mirror.Ends R (m w) (n w) at hends
  generalize m w = r at hends ⊢
  generalize n w = r' at hends ⊢
  cases hends with
  | value hshows hab =>
    obtain ⟨rfl, hholds⟩ := hshows
    exact ⟨by rw [hR hab], hholds⟩
  | fault fault hshows =>
    obtain ⟨rfl, hholds⟩ := hshows
    exact ⟨rfl, hholds⟩

theorem renumber_eq (value : Value) : value.renumber I.mirror.renumber = value :=
  congrFun Value.renumber_id value

theorem map_renumber (values : List Value) :
    values.map (Value.renumber I.mirror.renumber) = values := by
  change values.map (Value.renumber id) = values
  rw [Value.renumber_id, List.map_id]

theorem eq_of_image {a b : Value} (h : I.mirror.Image a b) : b = a :=
  h.trans (renumber_eq a)

theorem eq_of_sameStep {a b : Step} (h : I.mirror.SameStep a b) : b = a := by
  cases h with
  | done value => exact congrArg Step.done (renumber_eq value)
  | call => rfl

end StoreInvariant

end TowerLisp
