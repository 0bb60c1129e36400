import TowerLisp.Eval.Step
import TowerLisp.Proofs.PlaceBlindness

/-!
Two runs side by side. Forms that differ in places only, evaluated in worlds that differ
in places only, end alike; and on the way the store changes only as a discipline allows.
A discipline says which stores may follow one another, in which scopes forms may be
evaluated and which frames may be filled. One pass over the evaluator serves every
discipline. What a call of `import` does is left open here, so that a discipline may
forbid it.
-/

namespace TowerLisp

/-- How the store may change. Scopes that are admitted and frames that are open stay so. -/
structure Discipline where
  Leads : Store → Store → Prop
  Admits : Store → ScopeId → Prop
  Opens : Store → FrameId → Prop
  refl : ∀ s, Leads s s
  trans : ∀ {s s' s''}, Leads s s' → Leads s' s'' → Leads s s''
  admits_of_leads : ∀ {s s' scope}, Leads s s' → Admits s scope → Admits s' scope
  opens_of_leads : ∀ {s s' frame}, Leads s s' → Opens s frame → Opens s' frame
  addClosure : ∀ s closure, Leads s (s.addClosure closure).2
  nameClosure : ∀ s id name, Leads s (s.nameClosure id name)
  withFrame : ∀ s scope bindings, Leads s (s.withFrame scope bindings).2 ∧
    Admits (s.withFrame scope bindings).2 (s.withFrame scope bindings).1
  withOpenFrame : ∀ s scope, Leads s (s.withOpenFrame scope).2.2 ∧
    Admits (s.withOpenFrame scope).2.2 (s.withOpenFrame scope).1 ∧
    Opens (s.withOpenFrame scope).2.2 (s.withOpenFrame scope).2.1
  fork : ∀ {s scope}, Admits s scope → Leads s (s.fork scope).2 ∧
    Admits (s.fork scope).2 (s.fork scope).1
  define : ∀ {s scope}, Admits s scope → ∀ name value, Leads s (s.define scope name value)
  bindIn : ∀ {s frame}, Opens s frame → ∀ name value, Leads s (s.bindIn frame name value)

namespace Discipline

/-- From `w` the discipline leads to `w'`, which is alike to `v'`. -/
structure Reaches (D : Discipline) (w w' v' : World) : Prop where
  leads : D.Leads w.store w'.store
  settings_eq : w'.settings = w.settings
  alike : w'.Alike v'

/-- Two worlds that are alike, and a scope that is admitted. -/
structure Starts (D : Discipline) (w v : World) (scope : ScopeId) : Prop where
  alike : w.Alike v
  admits : D.Admits w.store scope

variable {D : Discipline} {w w' v v' w'' v'' : World} {scope : ScopeId}

theorem Reaches.refl (h : w.Alike v) : D.Reaches w w v :=
  ⟨D.refl _, rfl, h⟩

theorem Reaches.trans (h : D.Reaches w w' v') (h' : D.Reaches w' w'' v'') :
    D.Reaches w w'' v'' :=
  ⟨D.trans h.leads h'.leads, h'.settings_eq.trans h.settings_eq, h'.alike⟩

theorem Starts.after (h : D.Starts w v scope) (hreach : D.Reaches w w' v') :
    D.Starts w' v' scope :=
  ⟨hreach.alike, D.admits_of_leads hreach.leads h.admits⟩

end Discipline

variable {α β : Type} {D : Discipline} {w w' v v' : World} {scope : ScopeId}

/-- Two results that are alike, in worlds that are reached. -/
inductive EndsAlike (D : Discipline) (R : Store → α → α → Prop) (w : World) :
    EStateM.Result Fault World α → EStateM.Result Fault World α → Prop where
  | value {a b : α} {w' v' : World} : D.Reaches w w' v' → R w'.store a b →
      EndsAlike D R w (.ok a w') (.ok b v')
  | fault {f g : Fault} {w' v' : World} : D.Reaches w w' v' → f.Alike g →
      EndsAlike D R w (.error f w') (.error g v')

/-- Two computations, from one world each, end alike. -/
def Parallel (D : Discipline) (R : Store → α → α → Prop) (w v : World) (m n : EvalM α) : Prop :=
  EndsAlike D R w (m w) (n v)

/-- The same value on both sides. -/
def Same (_ : Store) (a b : α) : Prop :=
  a = b

/-- The same value on both sides, or a call of forms that are alike in a scope that is
admitted. -/
inductive SameStep (D : Discipline) (s : Store) : Step → Step → Prop where
  | done (value : Value) : SameStep D s (.done value) (.done value)
  | call {form form' : Form} {scope : ScopeId} : form.Alike form' → D.Admits s scope →
      SameStep D s (.call form scope) (.call form' scope)

namespace Parallel

variable {R : Store → α → α → Prop} {S : Store → β → β → Prop}

theorem pure {a b : α} (h : w.Alike v) (hR : R w.store a b) :
    Parallel D R w v (pure a) (pure b) :=
  .value (.refl h) hR

theorem throw {f g : Fault} (h : w.Alike v) (hfault : f.Alike g) :
    Parallel D R w v (throw f) (throw g) :=
  .fault (.refl h) hfault

theorem bind {m n : EvalM α} {f g : α → EvalM β} (hmn : Parallel D R w v m n)
    (hfg : ∀ {a b w' v'}, D.Reaches w w' v' → R w'.store a b →
      Parallel D S w' v' (f a) (g b)) :
    Parallel D S w v (m >>= f) (n >>= g) := by
  change EndsAlike D S w (EStateM.bind m f w) (EStateM.bind n g v)
  unfold Parallel at hmn
  rw [EStateM.bind, EStateM.bind]
  generalize m w = r at hmn ⊢
  generalize n v = r' at hmn ⊢
  cases hmn with
  | fault hreach hfault => exact .fault hreach hfault
  | value hreach hR =>
    have hrest := hfg hreach hR
    unfold Parallel at hrest
    dsimp only
    generalize f _ _ = r at hrest ⊢
    generalize g _ _ = r' at hrest ⊢
    cases hrest with
    | value hreach' hS => exact .value (hreach.trans hreach') hS
    | fault hreach' hfault => exact .fault (hreach.trans hreach') hfault

/-- The same value is handed on on both sides. -/
theorem andThen {m n : EvalM α} {f g : α → EvalM β} (hmn : Parallel D Same w v m n)
    (hfg : ∀ a {w' v'}, D.Reaches w w' v' → Parallel D S w' v' (f a) (g a)) :
    Parallel D S w v (m >>= f) (n >>= g) := by
  refine hmn.bind fun {a b w' v'} hreach hsame => ?_
  cases hsame
  exact hfg a hreach

/-- What has nothing to do with the store goes alike on both sides. -/
theorem aside {m : EvalM α} (hm : m.Aside) (h : w.Alike v) : Parallel D Same w v m m := by
  have hblind : EvalM.eraseResult (m w) = EvalM.eraseResult (m v) := by
    rw [← hm.blind, ← hm.blind]
    exact congrArg m h
  have hstore := hm.store_eq w
  have hsettings := hm.settings_eq w
  unfold Parallel
  cases hw : m w with
  | ok a w' =>
    rw [hw] at hblind hstore hsettings
    cases hv : m v with
    | error fault v' => rw [hv] at hblind; cases hblind
    | ok b v' =>
      rw [hv] at hblind
      obtain ⟨rfl, halike⟩ := EStateM.Result.ok.inj hblind
      refine .value ⟨?_, hsettings, halike⟩ rfl
      exact (show w'.store = w.store from hstore) ▸ D.refl _
  | error fault w' =>
    rw [hw] at hblind hstore hsettings
    cases hv : m v with
    | ok b v' => rw [hv] at hblind; cases hblind
    | error fault' v' =>
      rw [hv] at hblind
      obtain ⟨rfl, halike⟩ := EStateM.Result.error.inj hblind
      refine .fault ⟨?_, hsettings, halike⟩ rfl
      exact (show w'.store = w.store from hstore) ▸ D.refl _

theorem lift (result : Except Fault α) (h : w.Alike v) :
    Parallel D Same w v (EvalM.lift result) (EvalM.lift result) :=
  aside (EvalM.aside_lift result) h

/-- A change of the store that the discipline allows, and that does not see places. -/
theorem updateStore {f : Store → α × Store} (h : w.Alike v)
    (hleads : D.Leads w.store (f w.store).2)
    (hblind : ∀ s : Store, f s.erase = ((f s).1, (f s).2.erase))
    (hR : R (f w.store).2 (f w.store).1 (f w.store).1) :
    Parallel D R w v (EvalM.updateStore f) (EvalM.updateStore f) := by
  have hboth : ((f w.store).1, (f w.store).2.erase) = ((f v.store).1, (f v.store).2.erase) := by
    rw [← hblind, ← hblind, h.store]
  obtain ⟨hresult, hstore⟩ := Prod.mk.inj hboth
  refine .value ⟨hleads, rfl, h.withStore hstore⟩ ?_
  rw [← hresult]
  exact hR

theorem modifyStore {f : Store → Store} (h : w.Alike v) (hleads : D.Leads w.store (f w.store))
    (hblind : ∀ s : Store, (f s).erase = f s.erase) :
    Parallel D Same w v (EvalM.modifyStore f) (EvalM.modifyStore f) := by
  refine .value ⟨hleads, rfl, h.withStore ?_⟩ rfl
  rw [hblind, hblind, h.store]

/-- The same value is a finished step on both sides. -/
theorem done {m n : EvalM Value} (h : Parallel D Same w v m n) :
    Parallel D (SameStep D) w v (do return .done (← m)) (do return .done (← n)) :=
  h.andThen fun value _ _ hreach => .value (.refl hreach.alike) (.done value)

end Parallel

section Faults

variable {R : Store → α → α → Prop}

/-- A syntax fault is alike wherever it is found. -/
theorem parallel_malformed (h : w.Alike v) (issue : SyntaxIssue) (p q : Option Place) :
    Parallel D R w v (throw (.malformed issue p)) (throw (.malformed issue q)) :=
  .throw h (Fault.alike_malformed issue p q)

/-- Any other fault is the same on both sides. -/
theorem parallel_throw (h : w.Alike v) (fault : Fault) :
    Parallel D R w v (throw fault) (throw fault) :=
  .throw h rfl

/-- Both sides look at their worlds. -/
theorem parallel_get {f g : World → EvalM α} (h : Parallel D R w v (f w) (g v)) :
    Parallel D R w v (get >>= f) (get >>= g) :=
  h

theorem parallel_corresponds {x y : Except Fault α} (h : w.Alike v)
    (hxy : Corresponds Fault.Alike (R w.store) x y) :
    Parallel D R w v (EvalM.lift x) (EvalM.lift y) := by
  cases hxy with
  | ok hR => exact .pure h hR
  | error hfault => exact .throw h hfault

end Faults

section Scopes

/-- A scope that both sides make, which is admitted. -/
def SameScope (D : Discipline) (s : Store) (scope scope' : ScopeId) : Prop :=
  scope = scope' ∧ D.Admits s scope

/-- A scope and a frame that both sides make; the scope is admitted and the frame open. -/
def SameFrame (D : Discipline) (s : Store) (opened opened' : ScopeId × FrameId) : Prop :=
  opened = opened' ∧ D.Admits s opened.1 ∧ D.Opens s opened.2

theorem parallel_newFrame (h : w.Alike v) (scope : ScopeId) (bindings : Bindings) :
    Parallel D (SameScope D) w v (EvalM.newFrame scope bindings)
      (EvalM.newFrame scope bindings) :=
  .updateStore h (D.withFrame _ _ _).1 (fun _ => rfl) ⟨rfl, (D.withFrame _ _ _).2⟩

theorem parallel_fork (h : D.Starts w v scope) :
    Parallel D (SameScope D) w v (EvalM.fork scope) (EvalM.fork scope) :=
  .updateStore h.alike (D.fork h.admits).1 (fun _ => rfl) ⟨rfl, (D.fork h.admits).2⟩

theorem parallel_openFrame (h : w.Alike v) (scope : ScopeId) :
    let openFrame := EvalM.updateStore fun s =>
      let (inner, frame, s) := s.withOpenFrame scope
      ((inner, frame), s)
    Parallel D (SameFrame D) w v openFrame openFrame :=
  .updateStore h (D.withOpenFrame _ _).1 (fun _ => rfl) ⟨rfl, (D.withOpenFrame _ _).2⟩

theorem parallel_newClosure (h : w.Alike v) {c d : Closure} (hcd : c.erase = d.erase) :
    Parallel D Same w v (Evaluator.newClosure c) (Evaluator.newClosure d) := by
  have hstore : (w.store.addClosure c).2.erase = (v.store.addClosure d).2.erase := by
    rw [Store.erase_addClosure, Store.erase_addClosure, h.store, hcd]
  have hsize : w.store.closures.size = v.store.closures.size := by
    simpa [Store.erase] using congrArg (fun s : Store => s.closures.size) h.store
  exact .value ⟨D.addClosure _ _, rfl, h.withStore hstore⟩ hsize

theorem parallel_nameValue (h : w.Alike v) (name : String) (value : Value) :
    Parallel D Same w v (EvalM.nameValue name value) (EvalM.nameValue name value) := by
  unfold EvalM.nameValue
  split
  · exact .modifyStore h (D.nameClosure _ _ _) fun s => Store.erase_nameClosure s _ _
  · exact .pure h rfl

theorem parallel_define (h : D.Starts w v scope) (name : String) (value : Value) :
    Parallel D Same w v (EvalM.modifyStore (·.define scope name value))
      (EvalM.modifyStore (·.define scope name value)) :=
  .modifyStore h.alike (D.define h.admits _ _) fun s => Store.erase_define s _ _ _

theorem parallel_bindIn (h : w.Alike v) {frame : FrameId} (hopen : D.Opens w.store frame)
    (name : String) (value : Value) :
    Parallel D Same w v (EvalM.modifyStore (·.bindIn frame name value))
      (EvalM.modifyStore (·.bindIn frame name value)) :=
  .modifyStore h (D.bindIn hopen _ _) fun _ => rfl

end Scopes

end TowerLisp
