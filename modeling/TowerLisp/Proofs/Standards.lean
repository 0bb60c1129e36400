import TowerLisp.Eval.Step
import TowerLisp.Proofs.ClosedStores
import TowerLisp.Proofs.FormShapes
import TowerLisp.Proofs.PlaceBlindness

/-!
Standards for evaluation. A standard tells which forms are met, in which faults a computation may
end, and whether names and values are to stand only for procedures that there are. The procedures
of a store that satisfies it have bodies, and names that are all different unless they come from
a named let. There is one rule for each verb of the store and for each procedure that writes or
reads.
-/

namespace TowerLisp

open EvalM (lift endWorld)
open Value (Bounded AllBounded)

/-- A let with a name, whose bindings bind `formals` and whose body is `body`. -/
def Form.NamesLet (form : Form) (formals : List String) (body : List Form) : Prop :=
  form.tag = .letAll ∧ ∃ name list pairs, form.parts = name :: list :: body ∧
    name.tag = .symbol ∧ list.tag = .bindings ∧ List.Forall₂ Form.Binds list.parts pairs ∧
    pairs.map (·.1) = formals

/-- A procedure that was made of some forms: it has a body, and its parameters are all different
if it was not made by a let with a name. -/
structure Closure.MadeOf (Has : Form → Prop) (c : Closure) : Prop where
  body_ne_nil : c.body ≠ []
  body : ∀ form ∈ c.body, form.Shaped .code ∧ Has form
  formals : c.formals.Nodup ∨ ∃ form, Has form ∧ form.NamesLet c.formals c.body

/-- A store whose procedures were made of some forms. -/
def Store.MadeOf (Has : Form → Prop) (s : Store) : Prop :=
  ∀ id c, s.closure? id = some c → c.MadeOf Has

namespace Store.MadeOf

variable {Has : Form → Prop} {s : Store}

theorem of_closures_eq {s' : Store} (h : s.MadeOf Has) (heq : s'.closures = s.closures) :
    s'.MadeOf Has := by
  intro id c hc
  rw [closure?, heq] at hc
  exact h id c hc

theorem addClosure (h : s.MadeOf Has) {c : Closure} (hc : c.MadeOf Has) :
    (s.addClosure c).2.MadeOf Has := by
  intro id d hd
  rw [closure?, Store.addClosure, Array.getElem?_push] at hd
  split at hd
  · cases hd
    exact hc
  · exact h id d hd

theorem nameClosure (h : s.MadeOf Has) (id : ClosureId) (name : String) :
    (s.nameClosure id name).MadeOf Has := by
  intro id' d hd
  rw [closure?, Store.nameClosure, Array.getElem?_modify] at hd
  split at hd
  · obtain ⟨c, hc, rfl⟩ := Option.map_eq_some_iff.mp hd
    have hmade := h id' c hc
    exact ⟨hmade.body_ne_nil, hmade.body, hmade.formals⟩
  · exact h id' d hd

theorem mono {Has' : Form → Prop} (h : s.MadeOf Has) (hsub : ∀ form, Has form → Has' form) :
    s.MadeOf Has' := by
  intro id c hc
  have hmade := h id c hc
  refine ⟨hmade.body_ne_nil, fun form hform => ?_, hmade.formals.imp_right ?_⟩
  · exact ⟨(hmade.body form hform).1, hsub form (hmade.body form hform).2⟩
  · rintro ⟨form, hform, hlet⟩
    exact ⟨form, hsub form hform, hlet⟩

end Store.MadeOf

/-- What evaluation is to keep to. -/
structure Standard where
  /-- The forms that it meets. -/
  Has : Form → Prop
  /-- The faults that it may end in. -/
  Allows : Fault → Prop
  /-- Whether names and values are to stand only for procedures that there are. -/
  Closes : Prop
  part : ∀ {form part}, Has form → part ∈ form.parts → Has part
  innocent : ∀ {fault}, fault.blamesForm = false → Allows fault
  splice : ∀ place, Allows (.malformed .spliceOutsideList place)

/-- A store as a standard asks for it. -/
structure Store.Satisfies (S : Standard) (s : Store) : Prop where
  madeOf : s.MadeOf S.Has
  closed : S.Closes → s.Closed

namespace Standard

variable (S : Standard)

/-- A form that may be evaluated. -/
def Code (form : Form) : Prop :=
  form.Shaped .code ∧ S.Has form

/-- What is asked only if names and values are to stand for procedures that there are. -/
def IfCloses {α : Type} (Q : Nat → α → Prop) (n : Nat) (a : α) : Prop :=
  S.Closes → Q n a

/-- A computation that keeps to the standard if there are at least `n` procedures. No procedure
is lost, and of the number of procedures at the end and the result `Q` holds. -/
def Sound {α : Type} (Q : Nat → α → Prop) (n : Nat) (m : EvalM α) : Prop :=
  ∀ w : World, w.store.Satisfies S → n ≤ w.store.closures.size →
    (endWorld (m w)).store.Satisfies S ∧ n ≤ (endWorld (m w)).store.closures.size ∧
      match m w with
      | .ok a w' => Q w'.store.closures.size a
      | .error fault _ => S.Allows fault

/-- A computation that keeps to the standard. -/
abbrev Safe {α : Type} (n : Nat) (m : EvalM α) : Prop :=
  S.Sound (fun _ _ => True) n m

/-- A computation that keeps to the standard and finds a value that does as well. -/
abbrev Finds (n : Nat) (m : EvalM Value) : Prop :=
  S.Sound (S.IfCloses Bounded) n m

/-- A step that leaves a form that may be evaluated to the caller. -/
def StepOf (n : Nat) : Step → Prop
  | .done value => S.IfCloses Bounded n value
  | .call form _ => S.Code form

end Standard

namespace Store.Satisfies

variable {S : Standard} {s : Store}

theorem addScope (h : s.Satisfies S) (chain : List FrameId) : (s.addScope chain).2.Satisfies S :=
  ⟨h.madeOf.of_closures_eq rfl, fun hcloses => (h.closed hcloses).addScope chain⟩

theorem withFrame (h : s.Satisfies S) {bindings : Bindings}
    (hbindings : S.IfCloses Bindings.Bounded s.closures.size bindings) (scope : ScopeId) :
    (s.withFrame scope bindings).2.Satisfies S :=
  ⟨h.madeOf.of_closures_eq rfl,
    fun hcloses => (h.closed hcloses).withFrame (hbindings hcloses) scope⟩

theorem bindIn (h : s.Satisfies S) (frame : FrameId) (name : String) {value : Value}
    (hvalue : S.IfCloses Bounded s.closures.size value) : (s.bindIn frame name value).Satisfies S :=
  ⟨h.madeOf.of_closures_eq rfl,
    fun hcloses => (h.closed hcloses).bindIn frame name (hvalue hcloses)⟩

theorem define (h : s.Satisfies S) (scope : ScopeId) (name : String) {value : Value}
    (hvalue : S.IfCloses Bounded s.closures.size value) :
    (s.define scope name value).Satisfies S :=
  ⟨h.madeOf.of_closures_eq (closures_define scope name value),
    fun hcloses => (h.closed hcloses).define scope name (hvalue hcloses)⟩

theorem addClosure (h : s.Satisfies S) {c : Closure} (hc : c.MadeOf S.Has) :
    (s.addClosure c).2.Satisfies S :=
  ⟨h.madeOf.addClosure hc, fun hcloses => (h.closed hcloses).addClosure c⟩

theorem nameClosure (h : s.Satisfies S) (id : ClosureId) (name : String) :
    (s.nameClosure id name).Satisfies S :=
  ⟨h.madeOf.nameClosure id name, fun hcloses => (h.closed hcloses).nameClosure id name⟩

end Store.Satisfies

namespace Standard

variable {S : Standard} {α β : Type} {Q : Nat → α → Prop} {R : Nat → β → Prop} {n : Nat}

section Sequences

variable {m : EvalM α} {f : α → EvalM β}

theorem sound_pure {a : α} (h : ∀ n', n ≤ n' → Q n' a) : S.Sound Q n (pure a) :=
  fun _ hw hle => ⟨hw, hle, h _ hle⟩

theorem safe_pure (a : α) : S.Safe n (pure a) :=
  sound_pure fun _ _ => trivial

theorem finds_pure {v : Value} (h : S.IfCloses Bounded n v) : S.Finds n (pure v) :=
  sound_pure fun _ hle hcloses => (h hcloses).mono hle

theorem finds_ofBool (b : Bool) : S.Finds n (pure (.ofBool b)) :=
  finds_pure fun _ => Value.bounded_ofBool b

theorem sound_throw {fault : Fault} (h : S.Allows fault) : S.Sound Q n (throw fault) :=
  fun _ hw hle => ⟨hw, hle, h⟩

/-- A fault that blames no form. -/
theorem sound_fault {fault : Fault} (h : fault.blamesForm = false) :
    S.Sound Q n (throw fault) :=
  sound_throw (S.innocent h)

theorem Sound.bind (hm : S.Sound Q n m)
    (hf : ∀ {n' a}, n ≤ n' → Q n' a → S.Sound R n' (f a)) : S.Sound R n (m >>= f) := by
  intro w hw hle
  have h := hm w hw hle
  change (endWorld (EStateM.bind m f w)).store.Satisfies S ∧
    n ≤ (endWorld (EStateM.bind m f w)).store.closures.size ∧ match EStateM.bind m f w with
      | .ok b w' => R w'.store.closures.size b
      | .error fault _ => S.Allows fault
  unfold EStateM.bind
  cases hmw : m w with
  | error fault v =>
    rw [hmw] at h
    exact h
  | ok a v =>
    rw [hmw] at h
    obtain ⟨hv, hle', hQ⟩ := h
    obtain ⟨hend, hsize, hR⟩ := hf hle' hQ v hv (Nat.le_refl _)
    exact ⟨hend, Nat.le_trans hle' hsize, hR⟩

/-- What comes next does not depend on the result. -/
theorem Sound.andThen (hm : S.Sound Q n m) (hf : ∀ {n'} a, n ≤ n' → S.Sound R n' (f a)) :
    S.Sound R n (m >>= f) :=
  hm.bind fun hle _ => hf _ hle

/-- A value that is found is a finished step. -/
theorem sound_done {m : EvalM Value} (hm : S.Finds n m) :
    S.Sound S.StepOf n (do return .done (← m)) :=
  hm.bind fun _ hv => sound_pure fun _ hle hcloses => (hv hcloses).mono hle

theorem sound_ite {p : Prop} [Decidable p] {m m' : EvalM α} (hm : p → S.Sound Q n m)
    (hm' : ¬ p → S.Sound Q n m') : S.Sound Q n (if p then m else m') := by
  split
  · exact hm ‹_›
  · exact hm' ‹_›

theorem sound_get {f : World → EvalM α} (h : ∀ w, w.store.Satisfies S →
    n ≤ w.store.closures.size → S.Sound Q w.store.closures.size (f w)) :
    S.Sound Q n (get >>= f) := by
  intro w hw hle
  obtain ⟨hend, hsize, hQ⟩ := h w hw hle w hw (Nat.le_refl _)
  exact ⟨hend, Nat.le_trans hle hsize, hQ⟩

theorem sound_updateStore {f : Store → α × Store}
    (h : ∀ s : Store, s.Satisfies S → n ≤ s.closures.size → (f s).2.Satisfies S ∧
      s.closures.size ≤ (f s).2.closures.size ∧ Q (f s).2.closures.size (f s).1) :
    S.Sound Q n (EvalM.updateStore f) := by
  intro w hw hle
  obtain ⟨hend, hsize, hQ⟩ := h w.store hw hle
  exact ⟨hend, Nat.le_trans hle hsize, hQ⟩

theorem safe_modifyStore {f : Store → Store} (h : ∀ s : Store, s.Satisfies S →
    n ≤ s.closures.size → (f s).Satisfies S ∧ s.closures.size ≤ (f s).closures.size) :
    S.Safe n (EvalM.modifyStore f) := by
  intro w hw hle
  obtain ⟨hend, hsize⟩ := h w.store hw hle
  exact ⟨hend, Nat.le_trans hle hsize, trivial⟩

/-- A change of the world that leaves the store alone. -/
theorem sound_modifyGet {f : World → α × World} (hkeeps : ∀ w, (f w).2.store = w.store)
    (h : ∀ w n', n ≤ n' → Q n' (f w).1) : S.Sound Q n (modifyGet f) := by
  intro w hw hle
  change (f w).2.store.Satisfies S ∧ n ≤ (f w).2.store.closures.size ∧
    Q (f w).2.store.closures.size (f w).1
  rw [hkeeps w]
  exact ⟨hw, hle, h w _ hle⟩

theorem safe_modify {f : World → World} (hkeeps : ∀ w, (f w).store = w.store) :
    S.Safe n (modify f : EvalM Unit) :=
  sound_modifyGet hkeeps fun _ _ _ => trivial

theorem sound_lift {result : Except Fault α} (h : Blameless result)
    (hQ : ∀ a, result = .ok a → ∀ n', n ≤ n' → Q n' a) : S.Sound Q n (lift result) := by
  cases result with
  | ok a => exact sound_pure (hQ a rfl)
  | error fault => exact sound_fault (h fault rfl)

theorem safe_lift {result : Except Fault α} (h : Blameless result) : S.Safe n (lift result) :=
  sound_lift h fun _ _ _ _ => trivial

/-- What ends well for sure. -/
theorem sound_lift_ok {result : Except Fault α} {a : α} (h : result = .ok a)
    (hQ : ∀ n', n ≤ n' → Q n' a) : S.Sound Q n (lift result) := by
  rw [h]
  exact sound_pure hQ

/-- A value that holds no procedures. -/
theorem finds_fixed {result : Except Fault Value} (h : Blameless result)
    (hfixed : ∀ σ, Value.renumber σ <$> result = result) : S.Finds n (lift result) :=
  sound_lift h fun _ hv n' _ _ => Value.bounded_of_fixed hfixed hv n'

end Sequences

section Basics

variable {v : Value}

theorem safe_newFrame (scope : ScopeId) {bindings : Bindings}
    (h : S.IfCloses Bindings.Bounded n bindings) : S.Safe n (EvalM.newFrame scope bindings) :=
  sound_updateStore fun _ hs hle =>
    ⟨hs.withFrame (fun hcloses => (h hcloses).mono hle) scope, Nat.le_refl _, trivial⟩

theorem safe_addScope (chain : List FrameId) :
    S.Safe n (EvalM.updateStore (·.addScope chain)) :=
  sound_updateStore fun _ hs _ => ⟨hs.addScope chain, Nat.le_refl _, trivial⟩

theorem safe_fork (scope : ScopeId) : S.Safe n (EvalM.fork scope) :=
  sound_updateStore fun _ hs _ => ⟨hs.addScope _, Nat.le_refl _, trivial⟩

theorem safe_openFrame (scope : ScopeId) :
    S.Safe n (EvalM.updateStore fun s =>
      let (inner, frame, s) := s.withOpenFrame scope
      ((inner, frame), s)) :=
  sound_updateStore fun _ hs _ =>
    ⟨hs.withFrame (fun _ => List.forall_mem_nil _) scope, Nat.le_refl _, trivial⟩

theorem safe_bindIn (frame : FrameId) (name : String) (hv : S.IfCloses Bounded n v) :
    S.Safe n (EvalM.modifyStore (·.bindIn frame name v)) :=
  safe_modifyStore fun _ hs hle =>
    ⟨hs.bindIn frame name fun hcloses => (hv hcloses).mono hle, Nat.le_refl _⟩

theorem safe_define (scope : ScopeId) (name : String) (hv : S.IfCloses Bounded n v) :
    S.Safe n (EvalM.modifyStore (·.define scope name v)) :=
  safe_modifyStore fun _ hs hle =>
    ⟨hs.define scope name fun hcloses => (hv hcloses).mono hle, by simp [Store.closures_define]⟩

/-- A new procedure gets the next number. -/
theorem finds_newClosure {c : Closure} (hc : c.MadeOf S.Has) :
    S.Sound (fun n id => id < n) n (Evaluator.newClosure c) :=
  sound_updateStore fun _ hs _ =>
    ⟨hs.addClosure hc, by simp [Store.addClosure], by simp [Store.addClosure]⟩

theorem safe_nameValue (name : String) (v : Value) : S.Safe n (EvalM.nameValue name v) := by
  unfold EvalM.nameValue
  split
  · exact safe_modifyStore fun _ hs _ => ⟨hs.nameClosure _ _, by simp [Store.nameClosure]⟩
  · exact safe_pure ()

theorem safe_demand (d : Demand) : S.Safe n (EvalM.demand d) :=
  safe_modify fun _ => rfl

theorem safe_demandFiles (paths : List Path) : S.Safe n (EvalM.demandFiles paths) := by
  induction paths generalizing n with
  | nil => exact safe_pure ()
  | cons p rest ih => exact (safe_demand (.file p)).andThen fun _ _ => ih

theorem finds_mark (hv : S.IfCloses Bounded n v) : S.Finds n (EvalM.mark v) := by
  unfold EvalM.mark
  split
  · exact sound_modifyGet (fun _ => rfl) fun w _ hle hcloses =>
      ((hv hcloses).mono hle).fillMarks w.nextMark
  · exact finds_pure hv

theorem safe_write (text : String) : S.Safe n (EvalM.write text) :=
  safe_modify fun _ => rfl

theorem safe_printed (v : Value) : S.Safe n (EvalM.printed v) :=
  sound_get fun w _ _ => safe_lift (v.blameless_printedWithin w.store _)

theorem safe_display (v : Value) : S.Safe n (EvalM.display v) :=
  sound_get fun w _ _ => safe_lift (v.blameless_displayWithin w.store _)

theorem finds_lookup (scope : ScopeId) (name : String) : S.Finds n (EvalM.lookup scope name) := by
  refine sound_get fun w hw _ => ?_
  cases hlookup : w.store.lookup? scope name with
  | none => exact sound_fault rfl
  | some value => exact finds_pure fun hcloses => (hw.closed hcloses).lookup? hlookup

theorem sound_mistyped {issue : String → TypeIssue} (v : Value) :
    S.Sound Q n (EvalM.withStore fun store => v.mistyped store issue) := by
  refine sound_get fun w _ _ => ?_
  have hblameless := v.blameless_mistyped (α := α) w.store issue
  dsimp only
  rw [Value.mistyped] at hblameless ⊢
  cases hshown : v.shown w.store with
  | ok text => exact sound_fault rfl
  | error fault =>
    rw [hshown] at hblameless
    exact sound_fault (hblameless fault rfl)

theorem sound_spliced (hv : S.IfCloses Bounded n v) :
    S.Sound (S.IfCloses AllBounded) n (Evaluator.spliced v) := by
  unfold Evaluator.spliced
  split
  · rename_i hitems
    exact sound_pure fun _ hle hcloses => ((hv hcloses).list? hitems).mono hle
  · refine sound_pure fun _ _ _ item hitem => ?_
    obtain ⟨c, -, rfl⟩ := List.mem_map.mp hitem
    trivial
  · exact sound_mistyped _

end Basics

section Files

theorem safe_takeInputLine : S.Safe n Builtin.takeInputLine := by
  refine sound_get fun w _ _ => ?_
  dsimp only
  split
  · exact (safe_demand .line).andThen fun _ _ => sound_modifyGet (fun _ => rfl) fun _ _ _ => trivial
  · exact sound_modifyGet (fun _ => rfl) fun _ _ _ => trivial

theorem safe_asPath (procedure : String) (v : Value) : S.Safe n (Builtin.asPath procedure v) := by
  unfold Builtin.asPath
  split
  · exact (safe_demand _).andThen fun _ _ => safe_pure _
  · exact sound_mistyped v

theorem safe_fileLines? (p : Path) : S.Safe n (Builtin.fileLines? p) :=
  (safe_demand _).andThen fun _ _ => sound_get fun w _ _ =>
    (safe_lift (w.files.blameless_readText p)).andThen fun _ _ => safe_pure _

theorem finds_print (v : Value) : S.Finds n (Builtin.print v) :=
  (safe_display v).andThen fun _ _ => (safe_write _).andThen fun _ _ => finds_pure fun _ => trivial

theorem finds_printf (v : Value) : S.Finds n (Builtin.printf v) :=
  (safe_display v).andThen fun _ _ => (safe_write _).andThen fun _ _ => finds_pure fun _ => trivial

theorem finds_readFromFile (v : Value) : S.Finds n (Builtin.readFromFile v) := by
  unfold Builtin.readFromFile
  split
  · exact finds_pure fun _ => trivial
  · refine (safe_fileLines? _).andThen fun lines _ => ?_
    cases lines <;> exact finds_pure fun _ => trivial

theorem finds_readLines (v : Value) : S.Finds n (Builtin.readLines v) := by
  unfold Builtin.readLines
  split
  · exact finds_pure fun _ => trivial
  · refine (safe_fileLines? _).andThen fun lines _ => ?_
    cases lines with
    | none => exact finds_pure fun _ => trivial
    | some lines =>
      refine finds_pure fun _ => Bounded.ofList (fun item hitem => ?_) trivial
      obtain ⟨line, -, rfl⟩ := List.mem_map.mp hitem
      trivial

theorem safe_setFiles (files : FileTree) :
    S.Safe n (modify fun w => { w with files } : EvalM Unit) :=
  safe_modify fun _ => rfl

theorem safe_changeFiles {change : FileTree → Except Fault (Option FileTree)}
    (h : ∀ files, Blameless (change files)) : S.Safe n (Builtin.changeFiles change) := by
  refine sound_get fun w _ _ => (safe_lift (h w.files)).andThen fun changed _ => ?_
  cases changed with
  | none => exact safe_pure _
  | some files => exact (safe_setFiles files).andThen fun _ _ => safe_pure _

theorem finds_makeFile (v : Value) : S.Finds n (Builtin.makeFile v) := by
  refine (safe_asPath _ v).andThen fun p _ =>
    (safe_changeFiles fun files => files.blameless_touch p).andThen fun made _ => ?_
  cases made <;> exact finds_pure fun _ => trivial

theorem finds_makeDirectory (v : Value) : S.Finds n (Builtin.makeDirectory v) := by
  refine (safe_asPath _ v).andThen fun p _ => sound_get fun w _ _ => ?_
  refine (safe_lift (w.files.blameless_lookUp p)).andThen fun entry _ => ?_
  cases entry with
  | some entry => exact finds_ofBool _
  | none =>
    exact (safe_lift (w.files.blameless_makeDirectory p)).andThen fun made _ =>
      (safe_setFiles made.1).andThen fun _ _ => finds_ofBool _

theorem safe_writeText (p : Path) (text : String) :
    S.Safe n (Builtin.changeFiles (·.writeText p text)) :=
  safe_changeFiles fun files => files.blameless_writeText p text

theorem finds_writeToFile (target v : Value) : S.Finds n (Builtin.writeToFile target v) :=
  (safe_asPath _ target).andThen fun p _ => (safe_display v).andThen fun text _ =>
    (safe_writeText p text).andThen fun _ _ => finds_ofBool _

theorem finds_writeRows (p : Path) (written : String) (rows : List Value) :
    S.Finds n (Builtin.writeLines.writeRows p written rows) := by
  induction rows generalizing written n with
  | nil => exact (safe_writeText p written).andThen fun _ _ => finds_ofBool _
  | cons row rest ih =>
    refine sound_get fun w _ _ => ?_
    have hrow := row.blameless_displayWithin w.store w.settings.depthLimit
    split
    · exact ih _
    · rename_i fault hfault
      exact (safe_writeText p written).andThen fun _ _ => sound_fault (hrow fault hfault)

theorem finds_writeLines (target v : Value) : S.Finds n (Builtin.writeLines target v) := by
  refine (safe_asPath _ target).andThen fun p _ => ?_
  split
  · exact sound_mistyped v
  · refine (safe_writeText p "").andThen fun written _ => ?_
    cases written with
    | false => exact finds_pure fun _ => trivial
    | true => exact finds_writeRows _ _ _

theorem safe_sourceName (v : Value) : S.Safe n (Builtin.sourceName v) := by
  unfold Builtin.sourceName
  cases v with
  | symbol name => exact safe_pure _
  | _ => exact (safe_display _).andThen fun _ _ => safe_pure _

theorem safe_findSource (name : String) : S.Safe n (Builtin.findSource name) :=
  sound_get fun w _ _ => (safe_demandFiles _).andThen fun _ _ =>
    safe_lift (w.files.blameless_firstFile _)

theorem safe_sourceText (p : Path) : S.Safe n (Builtin.sourceText p) :=
  sound_get fun w _ _ => (safe_lift (w.files.blameless_readText p)).andThen fun _ _ => safe_pure _

end Files

end Standard

end TowerLisp
