import Mathlib.Data.List.Forall2
import TowerLisp.Eval.Datum
import TowerLisp.Eval.World
import TowerLisp.Proofs.Frames
import TowerLisp.Token.Stream

/-!
Places in texts. Tokens, forms and faults carry the places that they come from, and
procedures keep them in their bodies. A relabelling gives every place another one, or
takes it away. What is alike differs in places only.
-/

namespace TowerLisp

/-- Takes all places away. -/
def Place.erased : Place → Option Place :=
  fun _ => none

@[simp] theorem Place.bind_erased (p : Option Place) : p.bind erased = none := by
  cases p <;> rfl

section Relabelling

variable (φ : Place → Option Place)

namespace Token

def relabel (t : Token) : Token :=
  { t with place := t.place.bind φ }

@[simp] theorem relabel_tag (t : Token) : (t.relabel φ).tag = t.tag := rfl

@[simp] theorem relabel_payload (t : Token) : (t.relabel φ).payload = t.payload := rfl

/-- Places that are kept. -/
theorem relabel_some (t : Token) : t.relabel some = t := by
  rw [relabel, Option.bind_fun_some]

@[simp] theorem shown_relabel (t : Token) : (t.relabel φ).shown = t.shown := rfl

end Token

namespace Fault

def relabel : Fault → Fault
  | malformed issue place => malformed issue (place.bind φ)
  | fault => fault

/-- Faults of one kind, wherever they are found. -/
def Alike (f g : Fault) : Prop :=
  f.relabel Place.erased = g.relabel Place.erased

theorem Alike.refl (f : Fault) : f.Alike f := rfl

theorem relabel_alike (f : Fault) : (f.relabel φ).Alike f := by
  cases f with
  | malformed issue place => simp [Alike, relabel]
  | _ => rfl

theorem alike_malformed (issue : SyntaxIssue) (p q : Option Place) :
    (malformed issue p).Alike (malformed issue q) := by
  simp [Alike, relabel]

end Fault

def Tokens.relabel : Tokens → Tokens
  | done eof => done (eof.relabel φ)
  | broken fault => broken (fault.relabel φ)
  | more token rest => more (token.relabel φ) rest.relabel

namespace Form

mutual

def relabel : Form → Form
  | ⟨token, parts, compound⟩ => ⟨token.relabel φ, relabelAll parts, compound⟩

def relabelAll : List Form → List Form
  | [] => []
  | first :: rest => first.relabel :: relabelAll rest

end

theorem relabelAll_eq_map (forms : List Form) :
    relabelAll φ forms = forms.map (relabel φ) := by
  induction forms with
  | nil => rw [relabelAll, List.map_nil]
  | cons first rest ih => rw [relabelAll, ih, List.map_cons]

theorem relabel_mk (token : Token) (parts : List Form) (compound : Bool) :
    (Form.mk token parts compound).relabel φ =
      ⟨token.relabel φ, parts.map (relabel φ), compound⟩ := by
  rw [relabel, relabelAll_eq_map]

@[simp] theorem relabel_leaf (token : Token) : (leaf token).relabel φ = leaf (token.relabel φ) := by
  rw [leaf, relabel_mk]
  rfl

@[simp] theorem relabel_compoundAt (tag : Tag) (parts : List Form) (token : Token) :
    (compoundAt tag parts token).relabel φ =
      compoundAt tag (parts.map (relabel φ)) (token.relabel φ) := by
  rw [compoundAt, relabel_mk]
  rfl

mutual

theorem relabel_some (f : Form) : f.relabel some = f := by
  obtain ⟨token, parts, compound⟩ := f
  rw [relabel, relabelAll_some parts, Token.relabel_some]

theorem relabelAll_some (forms : List Form) : relabelAll some forms = forms := by
  cases forms with
  | nil => rw [relabelAll]
  | cons first rest => rw [relabelAll, relabel_some first, relabelAll_some rest]

end

theorem map_relabel_some (forms : List Form) : forms.map (relabel some) = forms := by
  rw [← relabelAll_eq_map, relabelAll_some]

/-- Forms that differ in places only. -/
def Alike (f g : Form) : Prop :=
  f.relabel Place.erased = g.relabel Place.erased

theorem Alike.refl (f : Form) : f.Alike f := rfl

mutual

theorem relabel_alike (f : Form) : (f.relabel φ).Alike f := by
  obtain ⟨token, parts, compound⟩ := f
  have htoken : (token.relabel φ).relabel Place.erased = token.relabel Place.erased := by
    simp [Token.relabel]
  rw [Alike, relabel, relabel, relabel, htoken, relabelAll_alike parts]

theorem relabelAll_alike (forms : List Form) :
    relabelAll Place.erased (relabelAll φ forms) = relabelAll Place.erased forms := by
  cases forms with
  | nil => rw [relabelAll]
  | cons first rest =>
    have hfirst := relabel_alike first
    rw [Alike] at hfirst
    rw [relabelAll, relabelAll, relabelAll, hfirst, relabelAll_alike rest]

end

theorem forall₂_alike {forms forms' : List Form}
    (h : forms.map (relabel Place.erased) = forms'.map (relabel Place.erased)) :
    List.Forall₂ Alike forms forms' := by
  rw [← List.forall₂_eq_eq_eq, List.forall₂_map_left_iff, List.forall₂_map_right_iff] at h
  exact h

theorem map_eq_of_forall₂_alike {forms forms' : List Form} (h : List.Forall₂ Alike forms forms') :
    forms.map (relabel Place.erased) = forms'.map (relabel Place.erased) := by
  rw [← List.forall₂_eq_eq_eq, List.forall₂_map_left_iff, List.forall₂_map_right_iff]
  exact h

/-- Forms that are alike have the same token, up to its place, and parts that are alike. -/
theorem Alike.cases {f g : Form} (h : f.Alike g) :
    ∃ place, g.token = { f.token with place := place } ∧ g.compound = f.compound ∧
      List.Forall₂ Alike f.parts g.parts := by
  obtain ⟨⟨tag, payload, place⟩, parts, compound⟩ := f
  obtain ⟨⟨tag', payload', place'⟩, parts', compound'⟩ := g
  rw [Alike, relabel_mk, relabel_mk] at h
  obtain ⟨htoken, hparts, rfl⟩ := Form.mk.inj h
  obtain ⟨rfl, rfl, -⟩ := Token.mk.inj htoken
  exact ⟨place', rfl, rfl, forall₂_alike hparts⟩

mutual

theorem datum_relabel (f : Form) : (f.relabel φ).datum = f.datum := by
  obtain ⟨token, parts, compound⟩ := f
  rw [relabel, datum, datum, datumFirst_relabel parts, datumList_relabel parts]
  rfl

theorem datumFirst_relabel (forms : List Form) :
    datumFirst (relabelAll φ forms) = datumFirst forms := by
  cases forms with
  | nil => rw [relabelAll]
  | cons first rest => rw [relabelAll, datumFirst, datumFirst, datum_relabel first]

theorem datumList_relabel (forms : List Form) :
    datumList (relabelAll φ forms) = datumList forms := by
  match forms with
  | [] => rw [relabelAll]
  | [⟨token, parts, compound⟩] =>
    have hform := datum_relabel ⟨token, parts, compound⟩
    rw [relabel] at hform
    rw [relabelAll, relabelAll, relabel, datumList, datumList, datumFirst_relabel parts, hform]
    rfl
  | first :: second :: rest =>
    have hrest := datumList_relabel (second :: rest)
    rw [relabelAll] at hrest
    rw [relabelAll, relabelAll, datumList, datumList, datum_relabel first, hrest]

end

mutual

theorem text_relabel (f : Form) : (f.relabel φ).text = f.text := by
  obtain ⟨token, parts, compound⟩ := f
  rw [relabel, text, text, textFirst_relabel parts, textAll_relabel parts]
  rfl

theorem textFirst_relabel (forms : List Form) :
    textFirst (relabelAll φ forms) = textFirst forms := by
  cases forms with
  | nil => rw [relabelAll]
  | cons first rest => rw [relabelAll, textFirst, textFirst, text_relabel first]

theorem textAll_relabel (forms : List Form) :
    textAll (relabelAll φ forms) = textAll forms := by
  cases forms with
  | nil => rw [relabelAll]
  | cons first rest =>
    rw [relabelAll, textAll, textAll, text_relabel first, textAll_relabel rest]

end

theorem Alike.datum_eq {f g : Form} (h : f.Alike g) : f.datum = g.datum := by
  rw [← datum_relabel Place.erased f, ← datum_relabel Place.erased g]
  exact congrArg datum h

theorem Alike.text_eq {f g : Form} (h : f.Alike g) : f.text = g.text := by
  rw [← text_relabel Place.erased f, ← text_relabel Place.erased g]
  exact congrArg text h

end Form

end Relabelling

namespace Closure

/-- A procedure without the places in its body. -/
def erase (c : Closure) : Closure :=
  { c with body := c.body.map (Form.relabel Place.erased) }

end Closure

namespace Store

/-- A store without the places in the bodies of its procedures. -/
def erase (s : Store) : Store :=
  { s with closures := s.closures.map Closure.erase }

@[simp] theorem closure?_erase (s : Store) (id : ClosureId) :
    s.erase.closure? id = (s.closure? id).map Closure.erase :=
  Array.getElem?_map ..

/-- A definition does not see places, and neither do the other changes of a store. -/
theorem erase_define (s : Store) (scope : ScopeId) (name : String) (value : Value) :
    (s.define scope name value).erase = s.erase.define scope name value := by
  obtain ⟨frame, rest, hchain, hroot, hdefine⟩ | ⟨hinner, hdefine⟩ :=
    define_cases s scope name value
  · rw [hdefine, define_of_root s.erase scope frame name value hchain hroot]
    rfl
  · rw [hdefine, define_of_inner s.erase scope name value hinner]
    rfl

theorem erase_addClosure (s : Store) (closure : Closure) :
    (s.addClosure closure).2.erase = (s.erase.addClosure closure.erase).2 := by
  simp [addClosure, erase]

theorem erase_nameClosure (s : Store) (id : ClosureId) (name : String) :
    (s.nameClosure id name).erase = s.erase.nameClosure id name := by
  rw [nameClosure, nameClosure, erase, erase]
  congr 1
  refine Array.ext_getElem? fun i => ?_
  simp only [Array.getElem?_map, Array.getElem?_modify]
  split
  · cases s.closures[i]? <;> rfl
  · rfl

end Store

namespace World

/-- A world without places. -/
def erase (w : World) : World :=
  { w with store := w.store.erase }

/-- Worlds that differ in places only. -/
def Alike (w v : World) : Prop :=
  w.erase = v.erase

theorem Alike.refl (w : World) : w.Alike w := rfl

theorem Alike.store {w v : World} (h : w.Alike v) : w.store.erase = v.store.erase :=
  congrArg World.store h

/-- A store for a store in worlds that are alike. -/
theorem Alike.withStore {w v : World} (h : w.Alike v) {s s' : Store} (hs : s.erase = s'.erase) :
    World.Alike { w with store := s } { v with store := s' } := by
  obtain ⟨store, files, settings, output, input, nextMark, demands⟩ := w
  obtain ⟨store', files', settings', output', input', nextMark', demands'⟩ := v
  simp only [Alike, erase, World.mk.injEq] at h ⊢
  exact ⟨hs, h.2⟩

end World

end TowerLisp
