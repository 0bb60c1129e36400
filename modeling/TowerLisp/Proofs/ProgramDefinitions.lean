import TowerLisp.Proofs.TailDescents

/-!
Programs as texts define them. A form that defines a procedure binds its name at the root, and
nothing else that was bound there changes. After all definitions of a program it is laid out in
the store, and a call at the root enters the body of a procedure.
-/

namespace TowerLisp

/-- The procedure that a form `(define name (lambda formals body))` defines. -/
def Form.definition? : Form → Option Procedure
  | ⟨define, [target, ⟨lambda, [params, body], true⟩], true⟩ =>
    if define.tag = .define ∧ target.tag = .symbol ∧ lambda.tag = .lambda ∧
        params.tag = .params then
      match Evaluator.nameOf target, params.parts.mapM Evaluator.nameOf with
      | .ok name, .ok formals => some ⟨name, formals, body⟩
      | _, _ => none
    else none
  | _ => none

theorem Form.of_definition? {form : Form} {p : Procedure} (h : form.definition? = some p) :
    ∃ define target lambda params,
      form = ⟨define, [target, ⟨lambda, [params, p.body], true⟩], true⟩ ∧ define.tag = .define ∧
        target.tag = .symbol ∧ Evaluator.nameOf target = .ok p.name ∧ lambda.tag = .lambda ∧
        params.tag = .params ∧ params.parts.mapM Evaluator.nameOf = .ok p.formals := by
  unfold definition? at h
  split at h
  · rename_i define target lambda params body
    split at h
    · rename_i htags
      obtain ⟨hdefine, htarget, hlambda, hparams⟩ := htags
      split at h
      · rename_i name formals hname hformals
        cases h
        exact ⟨define, target, lambda, params, rfl, hdefine, htarget, hname, hlambda, hparams,
          hformals⟩
      · cases h
    · cases h
  · cases h

/-- A definition is seen through its own scope. -/
theorem Store.Placed.lookup?_define {s : Store} {scope : ScopeId} (h : s.Placed scope)
    (name key : String) (v : Value) :
    (s.define scope name v).lookup? scope key =
      if key = name then some v else s.lookup? scope key := by
  obtain ⟨frame, rest, hchain, hroot, hdefine⟩ | ⟨-, hdefine⟩ := define_cases s scope name v
  · have hrebinds := rebinds_bindIn (lt_size_of_isRootFrame s frame hroot) name v scope key
    rw [hdefine]
    split
    · rename_i hkey
      exact hrebinds.1 ⟨hkey, [], rest, hchain, nofun⟩
    · rename_i hkey
      exact hrebinds.2 fun hreveals => hkey hreveals.1
  · have hbehind : (s.chain scope).findSome?
        (fun f => ((s.pushBinding scope name v).bindings f).find? key) = s.lookup? scope key := by
      refine findSome?_congr fun f hf => ?_
      rw [bindings_pushBinding, if_neg (Nat.ne_of_lt (h.frames_lt f hf))]
    rw [hdefine, lookup?, chain_pushBinding s scope scope name v h.lt, if_pos rfl,
      List.findSome?_cons, hbehind, bindings_pushBinding, if_pos rfl]
    by_cases hkey : key = name
    · simp [Bindings.find?, hkey]
    · simp [Bindings.find?, hkey, Ne.symm hkey]

/-- A scope of the store in which given names are bound. -/
structure Store.Offers (s : Store) (root : ScopeId) (given : Bindings) : Prop where
  placed : s.Placed root
  bound : ∀ entry ∈ given, s.lookup? root entry.1 = some entry.2

namespace Program

/-- The procedures of a program are made and bound at its root, together with what is given. -/
structure Laid (prog : Program) (L : Layout) (s : Store) : Prop where
  placed : s.Placed L.root
  made : ∀ p ∈ prog.procedures, ∃ label,
    s.closure? (L.ids p.name) = some ⟨p.formals, [p.body], L.root, label⟩
  bound : ∀ p ∈ prog.procedures, s.lookup? L.root p.name = some (.closure (L.ids p.name))
  given : ∀ name v, prog.given.lookup name = some v → (∀ p ∈ prog.procedures, p.name ≠ name) →
    s.lookup? L.root name = some v

/-- What the root knows of a name that a procedure has. -/
theorem lookup_globals_of_mem {prog : Program} {p : Procedure} (hp : p ∈ prog.procedures)
    (L : Layout) : (prog.globals L).lookup p.name = some (· = .closure (L.ids p.name)) := by
  obtain ⟨given, procedures⟩ := prog
  induction procedures with
  | nil => cases hp
  | cons q procedures ih =>
    rw [globals, List.map_cons, List.cons_append, List.lookup_cons]
    by_cases hname : p.name = q.name
    · rw [hname, beq_self_eq_true]
    · rw [beq_eq_false_iff_ne.mpr hname]
      rcases List.mem_cons.mp hp with rfl | hp
      · exact absurd rfl hname
      · exact ih hp

/-- What the root knows of a name that no procedure has. -/
theorem lookup_globals_of_notMem {prog : Program} {name : String}
    (hnone : ∀ p ∈ prog.procedures, p.name ≠ name) (L : Layout) :
    (prog.globals L).lookup name = (prog.given.lookup name).map fun v => (· = v) := by
  obtain ⟨given, procedures⟩ := prog
  induction procedures with
  | nil =>
    rw [globals, List.map_nil, List.nil_append]
    induction given with
    | nil => rfl
    | cons entry given ih =>
      rw [List.map_cons, List.lookup_cons, List.lookup_cons, ih nofun]
      cases name == entry.1 <;> rfl
  | cons q procedures ih =>
    obtain ⟨hname, hnone⟩ := List.forall_mem_cons.mp hnone
    rw [globals, List.map_cons, List.cons_append, List.lookup_cons,
      beq_eq_false_iff_ne.mpr hname.symm]
    exact ih hnone

/-- A program leaves a name that is given as it is. -/
def Provides (prog : Program) (name : String) (v : Value) : Prop :=
  prog.given.lookup name = some v ∧ ∀ p ∈ prog.procedures, p.name ≠ name

theorem Provides.lookup_globals {prog : Program} {name : String} {v : Value}
    (h : prog.Provides name v) (L : Layout) : (prog.globals L).lookup name = some (· = v) := by
  rw [lookup_globals_of_notMem h.2, h.1]
  rfl

/-- What the root knows is seen behind a frame of other names. -/
theorem At.lookup?_eq {prog : Program} {L : Layout} {front : Knowledge} {scope : ScopeId}
    {s : Store} {name : String} {v : Value} (h : prog.At L (front ++ prog.globals L) scope s)
    (hname : (prog.globals L).lookup name = some (· = v)) (hfront : front.lookup name = none) :
    s.lookup? scope name = some v := by
  obtain ⟨u, hu, rfl⟩ := h.knows name _ (by rw [List.lookup_append, hfront, hname]; rfl)
  exact hu

namespace Laid

variable {prog : Program} {given : Bindings} {done procedures : List Procedure} {p : Procedure}
  {L : Layout} {s : Store} {w : World}

theorem atRoot (h : prog.Laid L s) : prog.At L (prog.globals L) L.root s := by
  have hknows : s.Knows L.root (prog.globals L) := by
    intro name P hname
    by_cases hp : ∃ p ∈ prog.procedures, p.name = name
    · obtain ⟨p, hp, rfl⟩ := hp
      rw [lookup_globals_of_mem hp] at hname
      cases hname
      exact ⟨_, h.bound p hp, rfl⟩
    · push Not at hp
      rw [lookup_globals_of_notMem hp, Option.map_eq_some_iff] at hname
      obtain ⟨v, hv, rfl⟩ := hname
      exact ⟨v, h.given name v hv hp, rfl⟩
  exact ⟨h.placed, h.placed, h.made, hknows, hknows⟩

/-- One more definition. The procedure is new in the store and only then gets its name. -/
theorem define {form : Form} (h : Laid ⟨given, done⟩ L w.store)
    (hform : form.definition? = some p) (hnew : ∀ q ∈ done, q.name ≠ p.name) :
    ∃ L' w', Within 2 (fun ev => ev.run form L.root) w (.symbol p.name) w' ∧ L'.root = L.root ∧
      Laid ⟨given, done ++ [p]⟩ L' w'.store ∧
      ∀ key, p.name ≠ key → w'.store.lookup? L.root key = w.store.lookup? L.root key := by
  obtain ⟨define, target, lambda, params, rfl, hdefine, htarget, hname, hlambda, hparams,
    hformals⟩ := Form.of_definition? hform
  let closure : Closure := ⟨p.formals, [p.body], L.root, none⟩
  let id : ClosureId := w.store.closures.size
  let named : Store := (w.store.addClosure closure).2.nameClosure id p.name
  have hnamed : w.store.Extends named :=
    (Store.extends_addClosure ..).trans (Store.extends_nameClosure ..)
  have hplaced := h.placed.after hnamed
  let w' : World := { w with store := named.define L.root p.name (.closure id) }
  have hextends : w.store.Extends w'.store := hnamed.trans (Store.extends_define ..)
  have hlookup : ∀ key, w'.store.lookup? L.root key =
      if key = p.name then some (.closure id) else w.store.lookup? L.root key :=
    fun key => hplaced.lookup?_define p.name key (.closure id)
  have hrun : Within 2 (fun ev => ev.run
      ⟨define, [target, ⟨lambda, [params, p.body], true⟩], true⟩ L.root) w (.symbol p.name) w' := by
    refine .bind (.eval ?_) (.finish_done _)
    simp only [Evaluator.evalForm_define _ hdefine, Evaluator.defineForm, if_pos htarget, hname]
    refine (Within.pure p.name).bind ((Within.value_lambda hlambda hparams hformals).bind ?_)
    exact .of_eq fun _ => rfl
  let L' : Layout := ⟨L.root, fun name => if name = p.name then id else L.ids name⟩
  have hids : ∀ q ∈ done, L'.ids q.name = L.ids q.name := fun q hq => if_neg (hnew q hq)
  have hid : L'.ids p.name = id := if_pos rfl
  have hkept : ∀ key, p.name ≠ key →
      w'.store.lookup? L.root key = w.store.lookup? L.root key := fun key hkey => by
    rw [hlookup, if_neg (Ne.symm hkey)]
  refine ⟨L', w', hrun, rfl, ⟨h.placed.after hextends, fun q hq => ?_, fun q hq => ?_,
    fun name v hv hnone => ?_⟩, hkept⟩
  · rcases List.mem_append.mp hq with hq | hq
    · obtain ⟨_, hclosure⟩ := h.made q hq
      rw [hids q hq]
      exact hextends.closure hclosure
    · cases List.mem_singleton.mp hq
      rw [hid]
      have hadded : (w.store.addClosure closure).2.closure? id = some closure :=
        Array.getElem?_push_size ..
      exact ((Store.extends_nameClosure ..).trans (Store.extends_define ..)).closure hadded
  · rw [hlookup]
    rcases List.mem_append.mp hq with hq | hq
    · rw [if_neg (hnew q hq), hids q hq]
      exact h.bound q hq
    · cases List.mem_singleton.mp hq
      rw [if_pos rfl, hid]
  · rw [hkept name (hnone p (by simp))]
    exact h.given name v hv fun q hq => hnone q (List.mem_append_left _ hq)

/-- Definitions one after another. -/
theorem defineAll {forms : List Form} (h : Laid ⟨given, done⟩ L w.store)
    (hforms : forms.mapM Form.definition? = some procedures)
    (hnames : ((done ++ procedures).map Procedure.name).Nodup) (last : Value) :
    ∃ L' v w', Within 2 (fun ev => ev.runAll L.root last forms) w v w' ∧ L'.root = L.root ∧
      Laid ⟨given, done ++ procedures⟩ L' w'.store ∧
      ∀ key, (∀ p ∈ procedures, p.name ≠ key) →
        w'.store.lookup? L.root key = w.store.lookup? L.root key := by
  induction forms generalizing done procedures L w last with
  | nil =>
    obtain rfl : procedures = [] := by simpa using hforms.symm
    rw [List.append_nil]
    exact ⟨L, last, w, .pure last, rfl, h, fun _ _ => rfl⟩
  | cons form forms ih =>
    rw [List.mapM_cons, Option.bind_eq_bind, Option.bind_eq_some_iff] at hforms
    obtain ⟨p, hform, hforms⟩ := hforms
    obtain ⟨rest, hrest, hcons⟩ := Option.bind_eq_some_iff.mp hforms
    cases hcons
    have hnew : ∀ q ∈ done, q.name ≠ p.name := by
      rw [List.map_append, List.nodup_append] at hnames
      exact fun q hq => hnames.2.2 q.name (List.mem_map_of_mem hq) p.name (by simp)
    obtain ⟨L₁, w₁, hrun, hroot, hlaid, hkept⟩ := h.define hform hnew
    rw [List.append_cons] at hnames ⊢
    obtain ⟨L₂, v, w₂, hrunAll, hroot₂, hlaid₂, hkept₂⟩ :=
      ih hlaid hrest hnames (.symbol p.name)
    rw [hroot] at hrunAll hroot₂ hkept₂
    refine ⟨L₂, v, w₂, hrun.bind hrunAll, hroot₂, hlaid₂, fun key hkey => ?_⟩
    obtain ⟨hfirst, hothers⟩ := List.forall_mem_cons.mp hkey
    exact (hkept₂ key hothers).trans (hkept key hfirst)

end Laid

/-- The definitions of a program lay it out at a root that offers what it is given. -/
theorem define (prog : Program) {forms : List Form} {root : ScopeId} {w : World}
    (hforms : forms.mapM Form.definition? = some prog.procedures)
    (hnames : (prog.procedures.map Procedure.name).Nodup)
    (hoffers : w.store.Offers root prog.given) (last : Value) :
    ∃ L v w', Within 2 (fun ev => ev.runAll root last forms) w v w' ∧ L.root = root ∧
      prog.Laid L w'.store ∧
      ∀ key, (∀ p ∈ prog.procedures, p.name ≠ key) →
        w'.store.lookup? root key = w.store.lookup? root key := by
  have hstart : Laid ⟨prog.given, []⟩ ⟨root, fun _ => 0⟩ w.store :=
    ⟨hoffers.placed, nofun, nofun, fun name v hv _ => by
      obtain ⟨_, _, hgiven, -⟩ := List.lookup_eq_some_iff.mp hv
      exact hoffers.bound (name, v) (by rw [hgiven]; simp)⟩
  exact hstart.defineAll hforms hnames last

end Program

end TowerLisp
