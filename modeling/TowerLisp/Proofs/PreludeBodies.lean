import TowerLisp.Proofs.PreludeFolds
import TowerLisp.Proofs.Sketches

/-!
The bodies of the prelude. Its text is read into procedures, and each of them is of a sketch. A call
of such a procedure ends in what its sketch ends in, in a scope that binds the parameters and sees
the root behind them. What is known there stays so as long as no binding changes.
-/

namespace TowerLisp

namespace Store

/-- Names stand for what they stood for. -/
def Keeps (s s' : Store) : Prop :=
  ∀ scope name v, s.Placed scope → s.lookup? scope name = some v → s'.lookup? scope name = some v

/-- A store that evaluation may come to without changing a binding. -/
structure Continues (s s' : Store) : Prop where
  store_extends : s.Extends s'
  keeps : s.Keeps s'

variable {s s' s'' : Store}

theorem Continues.refl (s : Store) : s.Continues s :=
  ⟨.refl s, fun _ _ _ _ h => h⟩

theorem Continues.trans (h : s.Continues s') (h' : s'.Continues s'') : s.Continues s'' where
  store_extends := h.store_extends.trans h'.store_extends
  keeps scope name v hplaced hname :=
    h'.keeps scope name v (hplaced.after h.store_extends) (h.keeps scope name v hplaced hname)

theorem continues_withFrame (s : Store) (scope : ScopeId) (bindings : Bindings) :
    s.Continues (s.withFrame scope bindings).2 where
  store_extends := extends_withFrame s scope bindings
  keeps _ name _ hplaced h := (lookup?_withFrame_of_placed hplaced name).trans h

theorem continues_addClosure (s : Store) (closure : Closure) :
    s.Continues (s.addClosure closure).2 where
  store_extends := extends_addClosure s closure
  keeps _ _ _ _ h := h

end Store

/-- A program stays laid out if no binding changes. -/
theorem Program.Laid.later {prog : Program} {L : Layout} {s s' : Store} (h : prog.Laid L s)
    (hcontinues : s.Continues s') : prog.Laid L s' where
  placed := h.placed.after hcontinues.store_extends
  made p hp := by
    obtain ⟨_, hclosure⟩ := h.made p hp
    exact hcontinues.store_extends.closure hclosure
  bound p hp := hcontinues.keeps L.root p.name _ h.placed (h.bound p hp)
  given name v hv hnone := hcontinues.keeps L.root name v h.placed (h.given name v hv hnone)

namespace Prelude

open Sketch in
/-- `(head xs)` -/
def first : Sketch := call "head" [name "xs"]

open Sketch in
/-- `(tail xs)` -/
def others : Sketch := call "tail" [name "xs"]

open Sketch in
/-- `((null? xs) value)` -/
def ifNone (value : Sketch) : Sketch := clause (call "null?" [name "xs"]) value

open Sketch in
/-- `(else value)` -/
def otherwise (value : Sketch) : Sketch := clause (name "else") value

open Sketch in
/-- The procedures of the prelude with their parameters and the sketches of their bodies. -/
def sketches : List (String × List String × Sketch) :=
  [("map", ["f", "xs"], cond [ifNone empty,
      otherwise (call "cons" [call "f" [first], call "map" [name "f", others]])]),
    ("filter", ["p", "xs"], cond [ifNone empty,
      clause (call "p" [first]) (call "cons" [first, call "filter" [name "p", others]]),
      otherwise (call "filter" [name "p", others])]),
    ("foldl", ["f", "acc", "xs"], cond [ifNone (name "acc"),
      otherwise (call "foldl" [name "f", call "f" [name "acc", first], others])]),
    ("reverse", ["xs"], call "foldl"
      [lambda ["acc", "x"] (call "cons" [name "x", name "acc"]), empty, name "xs"]),
    ("append", ["xs", "ys"], cond [ifNone (name "ys"),
      otherwise (call "cons" [first, call "append" [others, name "ys"]])]),
    ("nth", ["n", "xs"], cond [clause (call "=" [name "n", number 0]) first,
      otherwise (call "nth" [call "-" [name "n", number 1], others])])]

/-- The procedures that the prelude defines. -/
def procedures : List Procedure :=
  ((Reader.readAll core.toList).toOption.bind (·.mapM Form.definition?)).getD []

/-- The prelude, over what is given at the top level. -/
def program : Program :=
  ⟨Session.givenBindings, procedures⟩

theorem exists_forms : ∃ forms, Reader.readAll core.toList = .ok forms ∧
    forms.mapM Form.definition? = some procedures := by
  obtain ⟨forms, procedures', hread, hforms, -⟩ := exists_procedures
  refine ⟨forms, hread, ?_⟩
  rw [procedures, hread]
  exact hforms.trans (by simp [Except.toOption, hforms])

theorem procedures_names : procedures.map Procedure.name = names := by
  obtain ⟨forms, procedures', hread, hforms, hnames, -⟩ := exists_procedures
  obtain ⟨forms', hread', hforms'⟩ := exists_forms
  cases hread.symm.trans hread'
  rw [← Option.some.inj (hforms.symm.trans hforms')]
  exact hnames

set_option maxRecDepth 20000 in
theorem exists_sketched : ∀ entry ∈ sketches, ∃ p ∈ procedures,
    p.name = entry.1 ∧ p.formals = entry.2.1 ∧ p.body.fits entry.2.2 = true := by
  obtain ⟨text, htext, hcheck⟩ : ∃ text, core = String.ofList text ∧
      sketches.all (fun entry =>
        (((Reader.readAll text).toOption.bind (·.mapM Form.definition?)).getD []).any fun p =>
          p.name = entry.1 && p.formals = entry.2.1 && p.body.fits entry.2.2) = true :=
    ⟨_, rfl, by decide +kernel⟩
  intro entry hentry
  have hany := List.all_eq_true.mp hcheck entry hentry
  rw [← String.toList_ofList (l := text), ← htext] at hany
  obtain ⟨p, hp, hsketched⟩ := List.any_eq_true.mp hany
  simp only [Bool.and_eq_true, decide_eq_true_eq] at hsketched
  exact ⟨p, hp, hsketched.1.1, hsketched.1.2, hsketched.2⟩

-- the text of the prelude is read once, above
attribute [irreducible] procedures

variable {L : Layout} {s s' : Store} {scope : ScopeId} {bindings : Bindings} {w : World}

/-- What a name stands for at the top level. -/
def global (L : Layout) (name : String) : Option Value :=
  if name ∈ names then some (.closure (L.ids name)) else Session.givenBindings.lookup name

theorem lookup?_root {name : String} {v : Value} (h : program.Laid L s)
    (hname : global L name = some v) : s.lookup? L.root name = some v := by
  unfold global at hname
  split at hname
  · rename_i hmem
    rw [← procedures_names] at hmem
    obtain ⟨p, hp, rfl⟩ := List.mem_map.mp hmem
    cases hname
    exact h.bound p hp
  · rename_i hnotMem
    refine h.given name v hname fun p hp hp' => hnotMem ?_
    rw [← procedures_names, ← hp']
    exact List.mem_map_of_mem hp

/-- A scope that binds some names in front of the root. -/
structure Inside (L : Layout) (bindings : Bindings) (scope : ScopeId) (s : Store) : Prop where
  laid : program.Laid L s
  placed : s.Placed scope
  sees : ∀ name v, (bindings.find? name).or (global L name) = some v →
    s.lookup? scope name = some v

/-- A scope goes on to see what it sees. -/
theorem Inside.later (h : Inside L bindings scope s) (hcontinues : s.Continues s') :
    Inside L bindings scope s' where
  laid := h.laid.later hcontinues
  placed := h.placed.after hcontinues.store_extends
  sees name v hname := hcontinues.keeps scope name v h.placed (h.sees name v hname)

/-- The scope of a body. -/
theorem inside_withFrame (h : program.Laid L w.store) (formals : List String)
    (arguments : List Value) :
    Inside L (.ofPairs (formals.zip arguments)) (w.withFrame L.root formals arguments).1
      (w.withFrame L.root formals arguments).2.store where
  laid := h.later (Store.continues_withFrame ..)
  placed := Store.placed_withFrame h.placed
  sees name v hname := by
    refine (Store.lookup?_withFrame h.placed name).trans ?_
    cases hfound : Bindings.find? name (.ofPairs (formals.zip arguments)) with
    | some u =>
      rw [hfound] at hname
      exact hname
    | none =>
      rw [hfound] at hname
      exact lookup?_root h hname

/-- The procedure of a name ends so when it is called with arguments, wherever that is. -/
def Meets (L : Layout) (name : String) (arguments : List Value) (w : World)
    (result : EStateM.Result Fault World Value) : Prop :=
  ∀ scope, EndsIn (fun ev => ev.applied (.closure (L.ids name)) arguments scope) w result

/-- A procedure ends in what its body ends in. -/
theorem exists_body (name : String) {formals : List String} {sketch : Sketch}
    (hentry : sketches.lookup name = some (formals, sketch)) :
    ∃ body : Form, body.fits sketch = true ∧ ∀ w arguments result, program.Laid L w.store →
      arguments.length = formals.length →
      EndsIn (fun ev => ev.value body (w.withFrame L.root formals arguments).1)
        (w.withFrame L.root formals arguments).2 result → Meets L name arguments w result := by
  obtain ⟨_, _, hfound, -⟩ := List.lookup_eq_some_iff.mp hentry
  obtain ⟨p, hp, rfl, rfl, hfits⟩ := exists_sketched (name, formals, sketch) (by simp [hfound])
  refine ⟨p.body, hfits, fun w arguments result hlaid hlength hbody scope => ?_⟩
  obtain ⟨label, hclosure⟩ := hlaid.made p hp
  exact .applied_closure hclosure rfl hlength hbody

/-- So it ends in what all bodies of its sketch end in. -/
theorem meets_of_gives {name : String} {formals : List String} {sketch : Sketch}
    {arguments : List Value} {result : EStateM.Result Fault World Value}
    (hentry : sketches.lookup name = some (formals, sketch)) (hlaid : program.Laid L w.store)
    (hlength : arguments.length = formals.length)
    (hgives : sketch.Gives (w.withFrame L.root formals arguments).1
      (w.withFrame L.root formals arguments).2 result) : Meets L name arguments w result := by
  obtain ⟨body, hfits, hmeets⟩ := exists_body (L := L) name hentry
  exact hmeets w arguments result hlaid hlength (hgives body hfits)

end Prelude

end TowerLisp
