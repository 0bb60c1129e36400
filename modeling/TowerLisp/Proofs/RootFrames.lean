import TowerLisp.Proofs.ParallelEvaluation
import TowerLisp.Session.Basic

/-!
Root frames. Evaluation in a scope that is not a root leaves all roots as they are, unless
it calls `import`: procedures run in scopes of their own, and what is evaluated for a
procedure of the language runs in a copy of the scope of the call. At the top level of a
session, names are bound and never lost.
-/

namespace TowerLisp

open EvalM (endWorld)

namespace Store

variable (s : Store) (scope : ScopeId) (frame f : FrameId)

/-- A scope is no root if the first frame of its chain is none. -/
theorem isRoot_eq_false_iff :
    s.isRoot scope = false ↔ ∀ f ∈ (s.chain scope).head?, s.isRootFrame f = false := by
  rw [isRoot]
  cases s.chain scope <;> simp

/-- What evaluation in a scope that is not a root may do to the store. -/
structure KeepsRoots (s s' : Store) : Prop where
  isRootFrame_eq : ∀ f, s'.isRootFrame f = s.isRootFrame f
  bindings_eq : ∀ f, s.isRootFrame f = true → s'.bindings f = s.bindings f
  inner : ∀ scope, s.isRoot scope = false → s'.isRoot scope = false

variable {s}

/-- A change of the bindings of a frame that is no root. -/
theorem keepsRoots_bindIn (h : s.isRootFrame frame = false) (name : String) (value : Value) :
    KeepsRoots s (s.bindIn frame name value) where
  isRootFrame_eq f := by simp
  bindings_eq f hf := by
    refine bindings_bindIn_of_ne s frame f name value ?_
    rintro rfl
    rw [h] at hf
    cases hf
  inner scope hscope := by
    rw [isRoot_eq_false_iff] at hscope ⊢
    simpa using hscope

/-- A new frame that is no root, and a new scope that starts with it. -/
theorem keepsRoots_addFrame (s : Store) (bindings : Bindings) (chain : List FrameId) :
    KeepsRoots s ((s.addFrame ⟨false, bindings⟩).2.addScope (s.frames.size :: chain)).2 := by
  have hroots : ∀ f, ((s.addFrame ⟨false, bindings⟩).2.addScope
      (s.frames.size :: chain)).2.isRootFrame f = s.isRootFrame f := by
    intro f
    rw [isRootFrame_addScope, isRootFrame_addFrame]
    split
    · rename_i hf
      rw [isRootFrame_of_size_le s f (Nat.le_of_eq hf.symm)]
    · rfl
  refine ⟨hroots, fun f hf => ?_, fun scope hscope => ?_⟩
  · have hlt := lt_size_of_isRootFrame s f hf
    simp [Nat.ne_of_lt hlt]
  · rw [isRoot_eq_false_iff] at hscope ⊢
    intro f hf
    rw [chain_addScope] at hf
    rw [hroots]
    split at hf
    · cases hf
      exact isRootFrame_of_size_le s _ (Nat.le_refl _)
    · exact hscope f hf

theorem isRoot_addFrame (s : Store) (bindings : Bindings) (chain : List FrameId) :
    ((s.addFrame ⟨false, bindings⟩).2.addScope (s.frames.size :: chain)).2.isRoot
      s.scopes.size = false := by
  rw [isRoot_eq_false_iff]
  simp

/-- A scope on the chain of one that is no root. -/
theorem keepsRoots_fork (h : s.isRoot scope = false) : KeepsRoots s (s.fork scope).2 where
  isRootFrame_eq _ := rfl
  bindings_eq _ _ := rfl
  inner other hother := by
    rw [isRoot_eq_false_iff] at h hother ⊢
    intro f hf
    rw [fork, chain_addScope] at hf
    split at hf
    · exact h f hf
    · exact hother f hf

theorem keepsRoots_define (h : s.isRoot scope = false) (name : String) (value : Value) :
    KeepsRoots s (s.define scope name value) := by
  rw [define_of_inner s scope name value h]
  refine ⟨fun f => by simp, fun f hf => ?_, fun other hother => ?_⟩
  · have hlt := lt_size_of_isRootFrame s f hf
    simp [Nat.ne_of_lt hlt]
  · rw [isRoot_eq_false_iff] at hother ⊢
    intro f hf
    rw [isRootFrame_pushBinding]
    by_cases hscope : scope < s.scopes.size
    · rw [chain_pushBinding s scope other name value hscope] at hf
      split at hf
      · cases hf
        exact isRootFrame_of_size_le s _ (Nat.le_refl _)
      · exact hother f hf
    · rw [chain_pushBinding_of_size_le s scope other name value (Nat.le_of_not_lt hscope)] at hf
      exact hother f hf

/-- What a session may do to the store: the top level stays the root that it is, and no
frame loses a name. -/
structure Grows (s s' : Store) : Prop where
  top_eq : s.isRoot Session.top = true → s'.chain Session.top = s.chain Session.top
  isRootFrame : ∀ f, s.isRootFrame f = true → s'.isRootFrame f = true
  names : ∀ f, ∀ name ∈ (s.bindings f).names, name ∈ (s'.bindings f).names

theorem mem_names_insert {bindings : Bindings} {name : String} (h : name ∈ bindings.names)
    (key : String) (value : Value) : name ∈ (bindings.insert key value).names := by
  induction bindings with
  | nil => cases h
  | cons entry rest ih =>
    obtain ⟨first, old⟩ := entry
    rw [Bindings.names, List.map_cons, List.mem_cons] at h
    unfold Bindings.insert
    split
    · exact List.mem_cons.mpr h
    · exact List.mem_cons.mpr (h.imp_right ih)

theorem Grows.refl (s : Store) : Grows s s :=
  ⟨fun _ => rfl, fun _ h => h, fun _ _ h => h⟩

theorem Grows.isRoot_top {s s' : Store} (h : Grows s s') (htop : s.isRoot Session.top = true) :
    s'.isRoot Session.top = true := by
  have hchain := h.top_eq htop
  rw [isRoot] at htop ⊢
  rw [hchain]
  split at htop
  · exact h.isRootFrame _ htop
  · cases htop

theorem Grows.trans {s s' s'' : Store} (h : Grows s s') (h' : Grows s' s'') : Grows s s'' where
  top_eq htop := (h'.top_eq (h.isRoot_top htop)).trans (h.top_eq htop)
  isRootFrame f hf := h'.isRootFrame f (h.isRootFrame f hf)
  names f name hname := h'.names f name (h.names f name hname)

/-- The top level is among the scopes if it is a root. -/
theorem top_lt_size (h : s.isRoot Session.top = true) : Session.top < s.scopes.size := by
  refine Nat.lt_of_not_le fun hle => ?_
  rw [isRoot, chain_of_size_le s _ hle] at h
  cases h

theorem grows_addScope (s : Store) (chain : List FrameId) : Grows s (s.addScope chain).2 where
  top_eq htop := by
    rw [chain_addScope, if_neg (Nat.ne_of_lt (top_lt_size htop))]
  isRootFrame _ hf := hf
  names _ _ hname := hname

theorem grows_addFrame (s : Store) (frame : Frame) : Grows s (s.addFrame frame).2 where
  top_eq _ := rfl
  isRootFrame f hf := by
    rw [isRootFrame_addFrame, if_neg (Nat.ne_of_lt (lt_size_of_isRootFrame s f hf)), hf]
  names f name hname := by
    rw [bindings_addFrame]
    split
    · rename_i hf
      rw [bindings_of_size_le s f (Nat.le_of_eq hf.symm)] at hname
      cases hname
    · exact hname

theorem grows_bindIn (s : Store) (frame : FrameId) (key : String) (value : Value) :
    Grows s (s.bindIn frame key value) where
  top_eq _ := rfl
  isRootFrame f hf := by rwa [isRootFrame_bindIn]
  names f name hname := by
    by_cases hlt : frame < s.frames.size
    · rw [bindings_bindIn s frame f key value hlt]
      split
      · exact mem_names_insert hname key value
      · exact hname
    · have hf : f ≠ frame := by
        rintro rfl
        rw [bindings_of_size_le s f (Nat.le_of_not_lt hlt)] at hname
        cases hname
      rwa [bindings_bindIn_of_ne s frame f key value hf]

/-- A definition binds at a root, or it moves a scope that is no root. -/
theorem grows_define (s : Store) (scope : ScopeId) (key : String) (value : Value) :
    Grows s (s.define scope key value) := by
  obtain ⟨frame, rest, -, -, hdefine⟩ | ⟨hinner, hdefine⟩ := define_cases s scope key value
  · rw [hdefine]
    exact grows_bindIn s frame key value
  · rw [hdefine]
    have hframe := grows_addFrame s ⟨false, [(key, value)]⟩
    refine ⟨fun htop => ?_, hframe.isRootFrame, hframe.names⟩
    have hscope : Session.top ≠ scope := by
      rintro rfl
      rw [hinner] at htop
      cases htop
    by_cases hlt : scope < s.scopes.size
    · rw [chain_pushBinding s scope _ key value hlt, if_neg hscope]
    · exact chain_pushBinding_of_size_le s scope _ key value (Nat.le_of_not_lt hlt)

end Store

open Store

namespace Discipline

/-- Evaluation away from the roots. -/
def rootsKept : Discipline where
  Leads := KeepsRoots
  Admits s scope := s.isRoot scope = false
  Opens s frame := s.isRootFrame frame = false
  refl _ := ⟨fun _ => rfl, fun _ _ => rfl, fun _ h => h⟩
  trans h h' := {
    isRootFrame_eq := fun f => (h'.isRootFrame_eq f).trans (h.isRootFrame_eq f)
    bindings_eq := fun f hf =>
      (h'.bindings_eq f (by rw [h.isRootFrame_eq, hf])).trans (h.bindings_eq f hf)
    inner := fun scope hscope => h'.inner scope (h.inner scope hscope) }
  admits_of_leads h hscope := h.inner _ hscope
  opens_of_leads h hframe := by rw [h.isRootFrame_eq, hframe]
  addClosure _ _ := ⟨fun _ => rfl, fun _ _ => rfl, fun _ h => h⟩
  nameClosure _ _ _ := ⟨fun _ => rfl, fun _ _ => rfl, fun _ h => h⟩
  withFrame s scope bindings :=
    ⟨keepsRoots_addFrame s bindings (s.chain scope), isRoot_addFrame s bindings (s.chain scope)⟩
  withOpenFrame s scope :=
    ⟨keepsRoots_addFrame s [] (s.chain scope), isRoot_addFrame s [] (s.chain scope), by
      change ((s.addFrame ⟨false, []⟩).2.addScope _).2.isRootFrame s.frames.size = false
      simp⟩
  fork {s scope} h := by
    refine ⟨keepsRoots_fork scope h, ?_⟩
    rw [isRoot_eq_false_iff] at h ⊢
    simpa [Store.fork] using h
  define h name value := keepsRoots_define _ h name value
  bindIn h name value := keepsRoots_bindIn _ h name value

/-- Evaluation anywhere in a session. -/
def topGrows : Discipline where
  Leads := Grows
  Admits _ _ := True
  Opens _ _ := True
  refl := Grows.refl
  trans := Grows.trans
  admits_of_leads _ _ := trivial
  opens_of_leads _ _ := trivial
  addClosure _ _ := ⟨fun _ => rfl, fun _ h => h, fun _ _ h => h⟩
  nameClosure _ _ _ := ⟨fun _ => rfl, fun _ h => h, fun _ _ h => h⟩
  withFrame s _ bindings :=
    ⟨(grows_addFrame s ⟨false, bindings⟩).trans (grows_addScope _ _), trivial⟩
  withOpenFrame s _ :=
    ⟨(grows_addFrame s ⟨false, []⟩).trans (grows_addScope _ _), trivial, trivial⟩
  fork _ := ⟨grows_addScope _ _, trivial⟩
  define _ name value := grows_define _ _ name value
  bindIn _ name value := grows_bindIn _ _ name value

end Discipline

/-- What runs under a discipline leads to a store that the discipline allows. -/
theorem Parallel.leads {α : Type} {D : Discipline} {R : Store → α → α → Prop} {w v : World}
    {m n : EvalM α} (h : Parallel D R w v m n) : D.Leads w.store (endWorld (m w)).store := by
  unfold Parallel at h
  generalize m w = r at h ⊢
  generalize n v = r' at h
  cases h with
  | value hreach _ => exact hreach.leads
  | fault hreach _ => exact hreach.leads

/-- An evaluation that comes out the same whatever a call of `import` does: it makes no
such call. -/
def ImportFree {α : Type} (m : Evaluator → EvalM α) (steps depth : Nat) (w : World) : Prop :=
  ∀ sub, m (evaluatorWith sub steps depth) w = m (evaluator steps depth) w

/-- Without calls of `import` the roots are kept. -/
theorem ImportFree.keepsRoots {α : Type} {m : Evaluator → EvalM α} {steps depth : Nat} {w : World}
    (h : ImportFree m steps depth w) {R : Store → α → α → Prop}
    (hm : ∀ ev, ev.Steady .rootsKept → Parallel .rootsKept R w w (m ev) (m ev)) :
    KeepsRoots w.store (endWorld (m (evaluator steps depth) w)).store := by
  -- any `import` will do, so take one that does nothing at all
  rw [← h fun _ _ _ => pure .nil]
  exact (hm _ (steady_evaluatorWith (fun _ _ hs => .pure hs.alike rfl) steps depth)).leads

theorem steady_topGrows (steps depth : Nat) : (evaluator steps depth).Steady .topGrows :=
  steady_evaluator (fun s frame => ⟨grows_addScope s [frame], trivial⟩) steps depth

namespace Session

/-- Evaluates forms at the top level, after one with the value `last`, and then gives the
fault that ended their reading. -/
def runForms (ev : Evaluator) (last : Value) (read : List Form × Option Fault) : EvalM Value := do
  let value ← ev.runAll top last read.1
  match read.2 with
  | none => return value
  | some fault => throw fault

theorem evalText_eq (source : List Char) (w : World) :
    evalText source w = runForms (evaluator chainLimit w.settings.depthLimit) .nil
      (Reader.readFormsWithin w.settings.depthLimit source) w := by
  have hget : (get : EvalM World) w = .ok w w := rfl
  have hev : currentEvaluator w = .ok (evaluator chainLimit w.settings.depthLimit) w := by
    rw [currentEvaluator, EvalM.bind_of_ok hget]
    rfl
  rw [evalText, EvalM.bind_of_ok hev, EvalM.bind_of_ok hget]
  -- the kernel would otherwise try to read the text
  obtain ⟨forms, fault?⟩ := Reader.readFormsWithin w.settings.depthLimit source
  rfl

theorem parallel_runForms {D : Discipline} {ev : Evaluator} (hev : ev.Steady D) {w v : World}
    (hs : D.Starts w v top) (last : Value) {read read' : List Form × Option Fault}
    (hforms : List.Forall₂ Form.Alike read.1 read'.1)
    (hfault : Option.Rel Fault.Alike read.2 read'.2) :
    Parallel D Same w v (runForms ev last read) (runForms ev last read') := by
  refine (hev.runAll hforms hs last).andThen fun value _ _ hreach => ?_
  generalize read.2 = fault? at hfault ⊢
  generalize read'.2 = fault?' at hfault ⊢
  cases hfault with
  | none => exact .pure hreach.alike rfl
  | some halike => exact .throw hreach.alike halike

theorem parallel_evalText (source : List Char) (w : World) :
    Parallel .topGrows Same w w (evalText source) (evalText source) := by
  rw [Parallel, evalText_eq]
  generalize Reader.readFormsWithin w.settings.depthLimit source = read
  have hforms : List.Forall₂ Form.Alike read.1 read.1 :=
    List.forall₂_same.mpr fun form _ => .refl form
  have hfault : Option.Rel Fault.Alike read.2 read.2 := by
    cases read.2 with
    | none => exact .none
    | some fault => exact .some (.refl fault)
  exact parallel_runForms (steady_topGrows _ _) ⟨.refl w, trivial⟩ .nil hforms hfault

/-- The world after some texts have been evaluated one after another, whether or not any
of them ended in a fault. -/
def feed (w : World) (sources : List (List Char)) : World :=
  sources.foldl (fun w source => endWorld (evalText source w)) w

theorem grows_evalText (source : List Char) (w : World) :
    Grows w.store (endWorld (evalText source w)).store :=
  (parallel_evalText source w).leads

theorem grows_feed (w : World) (sources : List (List Char)) :
    Grows w.store (feed w sources).store := by
  induction sources generalizing w with
  | nil => exact .refl _
  | cons source rest ih => exact (grows_evalText source w).trans (ih _)

end Session

/-- Evaluation in a scope that is not a root, of any form and in either position, changes
the bindings of no root unless it calls `import`. And however many texts are fed to a
session, its top level stays a root with the same frame, which loses no name. -/
theorem root_bindings_preserved :
    (∀ (form : Form) (scope : ScopeId) (steps depth : Nat) (w : World) (root : FrameId),
      w.store.isRoot scope = false → w.store.isRootFrame root = true →
      (∀ tail, ImportFree (fun ev => ev.eval form scope tail) steps depth w →
        (endWorld ((evaluator steps depth).eval form scope tail w)).store.bindings root =
          w.store.bindings root) ∧
      (ImportFree (fun ev => ev.run form scope) steps depth w →
        (endWorld ((evaluator steps depth).run form scope w)).store.bindings root =
          w.store.bindings root)) ∧
    (∀ (sources : List (List Char)) (w : World), w.store.isRoot Session.top = true →
      let w' := Session.feed w sources
      w'.store.isRoot Session.top = true ∧
      w'.store.chain Session.top = w.store.chain Session.top ∧
      ∀ root ∈ w.store.chain Session.top,
        ∀ name ∈ (w.store.bindings root).names, name ∈ (w'.store.bindings root).names) := by
  constructor
  · intro form scope steps depth w root hscope hroot
    have hstart : Discipline.rootsKept.Starts w w scope := ⟨.refl w, hscope⟩
    constructor
    · intro tail hfree
      have hkeeps := hfree.keepsRoots fun ev hev => hev.eval tail (.refl form) hstart
      exact hkeeps.bindings_eq root hroot
    · intro hfree
      have hkeeps := hfree.keepsRoots fun ev hev => hev.run (.refl form) hstart
      exact hkeeps.bindings_eq root hroot
  · intro sources w htop
    have hgrows := Session.grows_feed w sources
    exact ⟨hgrows.isRoot_top htop, hgrows.top_eq htop, fun root _ => hgrows.names root⟩

/-- A procedure that was made at the root and defines a name, called from another scope. -/
theorem root_bindings_preserved_captured :
    let body : Form := ⟨⟨.define, .text "define", none⟩,
      [.leaf ⟨.symbol, .text "x", none⟩, .leaf ⟨.string, .text "inner", none⟩], true⟩
    let call : Form := ⟨⟨.symbol, .text "f", none⟩, [], true⟩
    let store : Store := ⟨#[⟨true, [("x", .string "outer")]⟩, ⟨false, [("f", .closure 0)]⟩],
      #[[0], [1, 0]], #[⟨[], [body], 0, some "f"⟩]⟩
    let w : World := { Session.initial ⟨[]⟩ ⟨[]⟩ [] with store := store }
    (w.store.isRoot 1 = false ∧ w.store.isRootFrame 0 = true ∧ w.store.isRoot Session.top = true) ∧
      ImportFree (fun ev => ev.eval call 1 false) 3 3 w ∧
      (evaluator 3 3).eval call 1 false w matches .ok (.done (.symbol "x")) _ ∧
      (endWorld ((evaluator 3 3).eval call 1 false w)).store.bindings 0 =
        [("x", .string "outer")] ∧
      ∀ source, "x" ∈ ((Session.feed w [source]).store.bindings 0).names := by
  intro body call store w
  have hstore : w.store.isRoot 1 = false ∧ w.store.isRootFrame 0 = true ∧
      w.store.isRoot Session.top = true := by decide
  -- the call leaves a frame for its arguments and one for what the body defines
  let called : Store := ⟨store.frames ++ #[⟨false, []⟩, ⟨false, [("x", .string "inner")]⟩],
    store.scopes.push [3, 2, 0], store.closures⟩
  have hcall : ∀ sub, (evaluatorWith sub 3 3).eval call 1 false w =
      .ok (.done (.symbol "x")) { w with store := called } := fun _ => rfl
  have hrun : (evaluator 3 3).eval call 1 false w =
      .ok (.done (.symbol "x")) { w with store := called } := rfl
  have hfree : ImportFree (fun ev => ev.eval call 1 false) 3 3 w :=
    fun sub => (hcall sub).trans hrun.symm
  obtain ⟨hinner, htop⟩ := root_bindings_preserved
  refine ⟨hstore, hfree, by simp only [hrun], ?_, ?_⟩
  · exact (hinner call 1 3 3 w 0 hstore.1 hstore.2.1).1 false hfree
  · intro source
    exact (htop [source] w hstore.2.2).2.2 0 (List.mem_singleton_self 0) "x"
      (List.mem_singleton_self "x")

end TowerLisp
