import TowerLisp.Proofs.MirroredEvaluation
import TowerLisp.Proofs.StoreExtension

/-!
What a binding form leaves behind. The body of a let runs in a scope of its own: a definition in
it puts a new frame in front of the chain of that scope, and neither the scope around the form nor
the frames of its chain change any more once the names are bound. A `lets` that binds no name has
no scope of its own.
-/

namespace TowerLisp

open EvalM (endWorld)

namespace Store

variable {b s s' : Store} {around : ScopeId}

/-- A store in which a scope of another store and all frames of that store are as they were. -/
structure Spares (b : Store) (around : ScopeId) (s : Store) : Prop where
  roots : KeepsRoots b s
  scopes_le : b.scopes.size ≤ s.scopes.size
  frames_le : b.frames.size ≤ s.frames.size
  chain_eq : s.chain around = b.chain around
  bindings_eq : ∀ f < b.frames.size, s.bindings f = b.bindings f

theorem Spares.refl (s : Store) (around : ScopeId) : Spares s around s :=
  ⟨Discipline.rootsKept.refl s, Nat.le_refl _, Nat.le_refl _, rfl, fun _ _ => rfl⟩

theorem Spares.addFrame (h : Spares b around s) (hplaced : around < b.scopes.size)
    (bindings : Bindings) (chain : List FrameId) :
    Spares b around ((s.addFrame ⟨false, bindings⟩).2.addScope (s.frames.size :: chain)).2 where
  roots := Discipline.rootsKept.trans h.roots (keepsRoots_addFrame s bindings chain)
  scopes_le := Nat.le_trans h.scopes_le (by simp [Store.addScope])
  frames_le := Nat.le_trans h.frames_le (by simp)
  chain_eq := by
    rw [chain_addScope, scopes_addFrame,
      if_neg (Nat.ne_of_lt (Nat.lt_of_lt_of_le hplaced h.scopes_le)), chain_addFrame, h.chain_eq]
  bindings_eq f hf := by
    rw [bindings_addScope, bindings_addFrame,
      if_neg (Nat.ne_of_lt (Nat.lt_of_lt_of_le hf h.frames_le)), h.bindings_eq f hf]

/-- The scopes that are not around the form and that start with no root are left to its body. -/
def sparing (b : Store) (around : ScopeId) (hplaced : around < b.scopes.size) : StoreInvariant where
  Holds := Spares b around
  Admits scope := scope ≠ around ∧ b.isRoot scope = false
  Opens frame := b.frames.size ≤ frame
  admits_new h := by
    refine ⟨Nat.ne_of_gt (Nat.lt_of_lt_of_le hplaced h.scopes_le), ?_⟩
    rw [isRoot, chain_of_size_le _ _ h.scopes_le]
  opens_new h := h.frames_le
  addClosure h closure :=
    ⟨Discipline.rootsKept.trans h.roots (Discipline.rootsKept.addClosure _ closure), h.scopes_le,
      h.frames_le, h.chain_eq, h.bindings_eq⟩
  nameClosure h id name :=
    ⟨Discipline.rootsKept.trans h.roots (Discipline.rootsKept.nameClosure _ id name), h.scopes_le,
      h.frames_le, h.chain_eq, h.bindings_eq⟩
  withFrame h scope bindings := h.addFrame hplaced bindings _
  fork {s scope} h hscope := by
    refine ⟨Discipline.rootsKept.trans h.roots (keepsRoots_fork scope (h.roots.inner _ hscope.2)),
      Nat.le_trans h.scopes_le (by simp [Store.fork, addScope]), h.frames_le, ?_, h.bindings_eq⟩
    rw [Store.fork, chain_addScope, if_neg (Nat.ne_of_lt (Nat.lt_of_lt_of_le hplaced h.scopes_le)),
      h.chain_eq]
  define {s scope} h hscope name value := by
    have hinner := h.roots.inner _ hscope.2
    have hroots := Discipline.rootsKept.trans h.roots (keepsRoots_define scope hinner name value)
    rw [define_of_inner s scope name value hinner] at hroots ⊢
    refine ⟨hroots, Nat.le_trans h.scopes_le (by simp [pushBinding]),
      Nat.le_trans h.frames_le (by simp), ?_, fun f hf => ?_⟩
    · rw [← h.chain_eq]
      by_cases hlt : scope < s.scopes.size
      · rw [chain_pushBinding s scope around name value hlt, if_neg (Ne.symm hscope.1)]
      · exact chain_pushBinding_of_size_le s scope around name value (Nat.le_of_not_lt hlt)
    · rw [bindings_pushBinding, if_neg (Nat.ne_of_lt (Nat.lt_of_lt_of_le hf h.frames_le)),
        h.bindings_eq f hf]
  bindIn {s frame} h hframe name value := by
    have hopen : s.isRootFrame frame = false := by
      rw [h.roots.isRootFrame_eq, isRootFrame_of_size_le b frame hframe]
    refine ⟨Discipline.rootsKept.trans h.roots (keepsRoots_bindIn frame hopen name value),
      h.scopes_le, Nat.le_trans h.frames_le (by simp), h.chain_eq, fun f hf => ?_⟩
    rw [bindings_bindIn_of_ne s frame f name value (Nat.ne_of_lt (Nat.lt_of_lt_of_le hf hframe)),
      h.bindings_eq f hf]

/-- What any evaluation, with calls of `import` or without, does to scopes that start with no
root. -/
structure KeepsInner (s s' : Store) : Prop where
  isRootFrame_eq : ∀ f, s'.isRootFrame f = s.isRootFrame f
  scopes_le : s.scopes.size ≤ s'.scopes.size
  inner : ∀ scope < s.scopes.size, s.isRoot scope = false → s'.isRoot scope = false

theorem KeepsRoots.keepsInner (h : KeepsRoots s s') (hsizes : s.scopes.size ≤ s'.scopes.size) :
    KeepsInner s s' :=
  ⟨h.isRootFrame_eq, hsizes, fun scope _ => h.inner scope⟩

theorem keepsInner_addScope (s : Store) (chain : List FrameId) :
    KeepsInner s (s.addScope chain).2 where
  isRootFrame_eq _ := rfl
  scopes_le := by simp [addScope]
  inner scope hlt hscope := by
    rw [isRoot_eq_false_iff] at hscope ⊢
    rw [chain_addScope, if_neg (Nat.ne_of_lt hlt)]
    exact hscope

end Store

open Store

/-- Evaluation anywhere, as scopes that start with no root see it. -/
def Discipline.innersKept : Discipline where
  Leads := KeepsInner
  Admits _ _ := True
  Opens _ _ := True
  refl _ := ⟨fun _ => rfl, Nat.le_refl _, fun _ _ h => h⟩
  trans h h' := {
    isRootFrame_eq := fun f => (h'.isRootFrame_eq f).trans (h.isRootFrame_eq f)
    scopes_le := Nat.le_trans h.scopes_le h'.scopes_le
    inner := fun scope hlt hscope =>
      h'.inner scope (Nat.lt_of_lt_of_le hlt h.scopes_le) (h.inner scope hlt hscope) }
  admits_of_leads _ _ := trivial
  opens_of_leads _ _ := trivial
  addClosure _ _ := ⟨fun _ => rfl, Nat.le_refl _, fun _ _ h => h⟩
  nameClosure _ _ _ := ⟨fun _ => rfl, Nat.le_refl _, fun _ _ h => h⟩
  withFrame s scope bindings :=
    ⟨(keepsRoots_addFrame s bindings _).keepsInner (extends_withFrame s scope bindings).scopes_le,
      trivial⟩
  withOpenFrame s scope :=
    ⟨(keepsRoots_addFrame s [] _).keepsInner (extends_withFrame s scope []).scopes_le,
      trivial, trivial⟩
  fork _ := ⟨keepsInner_addScope _ _, trivial⟩
  define {s scope} _ name value := by
    obtain ⟨frame, -, -, -, hdefine⟩ | ⟨hinner, hdefine⟩ := define_cases s scope name value
    · rw [hdefine]
      refine ⟨fun f => by simp, Nat.le_refl _, fun other _ hother => ?_⟩
      rw [isRoot_eq_false_iff] at hother ⊢
      simpa using hother
    · rw [hdefine, ← define_of_inner s scope name value hinner]
      exact (keepsRoots_define scope hinner name value).keepsInner
        (extends_define s scope name value).scopes_le
  bindIn {s frame} _ name value := by
    refine ⟨fun f => by simp, Nat.le_refl _, fun other _ hother => ?_⟩
    rw [isRoot_eq_false_iff] at hother ⊢
    simpa using hother

theorem steady_innersKept (steps depth : Nat) : (evaluator steps depth).Steady .innersKept :=
  steady_evaluator (fun s frame => ⟨keepsInner_addScope s [frame], trivial⟩) steps depth

theorem steady_extending (steps depth : Nat) : (evaluator steps depth).Steady .extending :=
  steady_evaluator (fun s frame => ⟨extends_addScope s [frame], trivial⟩) steps depth

/-- A `lets` that binds no name. -/
def Form.IsEmptyLets (form : Form) : Prop :=
  form.tag = .letEach ∧ ∃ list body, form.parts = list :: body ∧ list.parts = []

/-- A definition of a name as a number. -/
def Form.definesNumber : Form → Bool
  | ⟨token, [_, ⟨number, [], false⟩], true⟩ =>
    decide (token.tag = .define ∧ number.tag = .number)
  | _ => false

theorem Form.of_definesNumber {form : Form} (h : form.definesNumber = true) :
    ∃ payload place target number,
      form = ⟨⟨.define, payload, place⟩, [target, .leaf number], true⟩ ∧ number.tag = .number := by
  unfold definesNumber at h
  split at h
  next token target number =>
    obtain ⟨hdefine, hnumber⟩ := of_decide_eq_true h
    obtain ⟨tag, payload, place⟩ := token
    cases hdefine
    exact ⟨payload, place, target, number, rfl, hnumber⟩
  next => cases h

namespace Evaluator

/-- The binding expressions of a form, evaluated from `w` on, end in a world in which the rest of
the form is left to do: its body, in a scope in which the names are bound. -/
inductive Bound (ev : Evaluator) (scope : ScopeId) (w : World) :
    Form → (Evaluator → Bool → EvalM Step) → World → Prop where
  | letAll {token : Token} {list : Form} {pairs : List (String × Form)} {body : List Form}
      {values : List Value} {w' : World} : token.tag = .letAll → list.Lists pairs →
      ev.values scope (pairs.map Prod.snd) w = .ok values w' →
      Bound ev scope w ⟨token, list :: body, true⟩
        (fun ev tail => ev.enterLet (pairs.map Prod.fst) body scope tail values) w'
  | letNamed {token : Token} {name list : Form} {label : String} {pairs : List (String × Form)}
      {body : List Form} {values : List Value} {w' : World} : token.tag = .letAll →
      name.Holds label → list.Lists pairs →
      ev.values scope (pairs.map Prod.snd) w = .ok values w' →
      Bound ev scope w ⟨token, name :: list :: body, true⟩
        (fun ev tail => ev.enterLoop label (pairs.map Prod.fst) body scope tail values) w'
  | letEach {token : Token} {list : Form} {pairs : List (String × Form)} {body : List Form}
      {inner : ScopeId} {w' : World} : token.tag = .letEach → list.Lists pairs →
      ev.bindEach scope pairs w = .ok inner w' →
      Bound ev scope w ⟨token, list :: body, true⟩ (fun ev tail => ev.body inner tail body) w'
  | letRec {token : Token} {list : Form} {pairs : List (String × Form)} {body : List Form}
      {w' : World} : token.tag = .letRec → list.Lists pairs →
      ev.bindRec w.store.scopes.size w.store.frames.size pairs
        { w with store := (w.store.withOpenFrame scope).2.2 } = .ok () w' →
      Bound ev scope w ⟨token, list :: body, true⟩
        (fun ev tail => ev.body w.store.scopes.size tail body) w'

/-- What a form that binds names comes to is what its rest comes to. -/
theorem Bound.eval_eq {ev : Evaluator} {scope : ScopeId} {form : Form}
    {rest : Evaluator → Bool → EvalM Step} {w w' : World} (h : ev.Bound scope w form rest w')
    (tail : Bool) : ev.evalForm form scope tail w = rest ev tail w' := by
  cases h with
  | letAll htoken hlist hvalues =>
    rw [evalForm_letPlain ev htoken hlist]
    exact EvalM.bind_of_ok hvalues
  | letNamed htoken hname hlist hvalues =>
    rw [evalForm_letNamed ev htoken hname hlist]
    exact EvalM.bind_of_ok hvalues
  | letEach htoken hlist heach =>
    rw [evalForm_letEach_lists ev htoken hlist]
    exact EvalM.bind_of_ok heach
  | letRec htoken hlist hrec =>
    rw [evalForm_letRec_lists ev htoken hlist]
    exact EvalM.bind_of_ok hrec

/-- If the evaluation of a form that binds names returns, then the names have been bound. -/
theorem exists_bound {ev : Evaluator} {scope : ScopeId} {form : Form} (hshaped : form.Shaped .code)
    (htag : form.tag = .letAll ∨ form.tag = .letEach ∨ form.tag = .letRec) {tail : Bool}
    {step : Step} {w w'' : World} (h : ev.evalForm form scope tail w = .ok step w'') :
    ∃ rest w', ev.Bound scope w form rest w' := by
  rcases htag with htag | htag | htag
  · obtain ⟨token, list, pairs, body, rfl, htoken, hlist, -⟩ |
      ⟨token, name, list, label, pairs, body, rfl, htoken, hname, hlist, -⟩ :=
      hshaped.letAll htag
    · rw [evalForm_letPlain ev htoken hlist] at h
      obtain ⟨values, w', hvalues, -⟩ := EvalM.bind_eq_ok h
      exact ⟨_, w', .letAll htoken hlist hvalues⟩
    · rw [evalForm_letNamed ev htoken hname hlist] at h
      obtain ⟨values, w', hvalues, -⟩ := EvalM.bind_eq_ok h
      exact ⟨_, w', .letNamed htoken hname hlist hvalues⟩
  · obtain ⟨token, list, pairs, body, rfl, htoken, hlist, -⟩ := hshaped.letOther (.inl htag)
    rw [evalForm_letEach_lists ev (htoken.trans htag) hlist] at h
    obtain ⟨inner, w', heach, -⟩ := EvalM.bind_eq_ok h
    exact ⟨_, w', .letEach (htoken.trans htag) hlist heach⟩
  · obtain ⟨token, list, pairs, body, rfl, htoken, hlist, -⟩ := hshaped.letOther (.inr htag)
    rw [evalForm_letRec_lists ev (htoken.trans htag) hlist] at h
    obtain ⟨opened, opening, hopen, h⟩ := EvalM.bind_eq_ok h
    cases hopen
    obtain ⟨_, w', hrec, -⟩ := EvalM.bind_eq_ok h
    exact ⟨_, w', .letRec (htoken.trans htag) hlist hrec⟩

variable {steps depth : Nat} {scope inner : ScopeId} {w w' : World}

theorem extends_value (form : Form) {v : Value}
    (h : (evaluator steps depth).value form scope w = .ok v w') : Extends w.store w'.store := by
  have hstart : Discipline.extending.Starts w w scope := ⟨.refl w, trivial⟩
  have hleads := ((steady_extending steps depth).value (.refl form) hstart).leads
  rwa [h] at hleads

theorem extends_values {forms : List Form} {values : List Value}
    (h : (evaluator steps depth).values scope forms w = .ok values w') :
    Extends w.store w'.store := by
  have hstart : Discipline.extending.Starts w w scope := ⟨.refl w, trivial⟩
  have hsame : List.Forall₂ Form.Alike forms forms := List.forall₂_same.mpr fun form _ => .refl form
  have hleads := ((steady_extending steps depth).values hsame hstart).leads
  rwa [h] at hleads

/-- Bindings that are made one after another end in a scope that is new, unless there are none. -/
theorem bindEach_new {pairs : List (String × Form)}
    (h : (evaluator steps depth).bindEach scope pairs w = .ok inner w') :
    Extends w.store w'.store ∧
      (pairs ≠ [] → w.store.scopes.size ≤ inner ∧ w'.store.isRoot inner = false) := by
  induction pairs generalizing scope w with
  | nil =>
    cases h
    exact ⟨.refl _, fun hne => absurd rfl hne⟩
  | cons pair rest ih =>
    obtain ⟨value, v, hvalue, h⟩ := EvalM.bind_eq_ok h
    obtain ⟨next, v', hframe, h⟩ := EvalM.bind_eq_ok h
    cases hframe
    have hfirst := extends_value pair.2 hvalue
    have hentered := hfirst.trans (extends_withFrame v.store scope [(pair.1, value)])
    obtain ⟨hextends, hnew⟩ := ih h
    refine ⟨hentered.trans hextends, fun _ => ?_⟩
    cases rest with
    | nil =>
      cases h
      exact ⟨hfirst.scopes_le, isRoot_addFrame v.store _ _⟩
    | cons pair' rest =>
      obtain ⟨hle, hinner⟩ := hnew (List.cons_ne_nil _ _)
      exact ⟨Nat.le_trans hentered.scopes_le hle, hinner⟩

/-- The scope of recursive bindings starts with no root when they have been made. -/
theorem bindRec_inner {pairs : List (String × Form)} {frame : FrameId}
    (h : (evaluator steps depth).bindRec inner frame pairs w = .ok () w') :
    Extends w.store w'.store ∧ KeepsInner w.store w'.store := by
  have hsame : List.Forall₂ SameBinding pairs pairs :=
    List.forall₂_same.mpr fun pair _ => ⟨rfl, .refl pair.2⟩
  constructor
  · have hstart : Discipline.extending.Starts w w inner := ⟨.refl w, trivial⟩
    have hopen : Discipline.extending.Opens w.store frame := trivial
    have hleads := ((steady_extending steps depth).bindRec hsame hstart hopen).leads
    rwa [h] at hleads
  · have hstart : Discipline.innersKept.Starts w w inner := ⟨.refl w, trivial⟩
    have hopen : Discipline.innersKept.Opens w.store frame := trivial
    have hleads := ((steady_innersKept steps depth).bindRec hsame hstart hopen).leads
    rwa [h] at hleads

/-- What is left to do of a form once its names are bound, with all calls in tail position. -/
def completed (rest : Evaluator → Bool → EvalM Step) (tail : Bool) (lower upper : Evaluator) :
    EvalM Value := do
  upper.finish (← rest lower tail)

/-- The rest of a form comes out the same whatever a call of `import` does: its body makes no such
call. -/
def ImportsNothing (rest : Evaluator → Bool → EvalM Step) (tail : Bool) (steps depth : Nat)
    (w : World) : Prop :=
  ∀ sub,
    completed rest tail (evaluatorWith sub steps depth) (evaluatorWith sub steps (depth + 1)) w =
    completed rest tail (evaluator steps depth) (evaluator steps (depth + 1)) w

/-- Once the names are bound, nothing is evaluated in the scope around the form any more. -/
theorem Bound.runs {form : Form} {rest : Evaluator → Bool → EvalM Step}
    (h : (evaluator steps depth).Bound scope w form rest w') (hlets : ¬ form.IsEmptyLets)
    (hplaced : w.store.Placed scope) :
    ∃ hlt : scope < w'.store.scopes.size, w'.store.Placed scope ∧
      ∀ {ev ev' : Evaluator}, (sparing w'.store scope hlt).mirror.Mirrored ev ev' → ∀ tail,
        (sparing w'.store scope hlt).mirror.Runs (sparing w'.store scope hlt).mirror.SameStep
          (rest ev tail) (rest ev' tail) := by
  cases h with
  | @letAll _ _ pairs body values _ htoken hlist hvalues =>
    have hplaced' := hplaced.after (extends_values hvalues)
    refine ⟨hplaced'.lt, hplaced', fun hmirrored tail => ?_⟩
    have hlet := hmirrored.enterLet (pairs.map Prod.fst) body scope tail values
    rwa [StoreInvariant.map_renumber] at hlet
  | @letNamed _ _ _ label pairs body values _ htoken hname hlist hvalues =>
    have hplaced' := hplaced.after (extends_values hvalues)
    refine ⟨hplaced'.lt, hplaced', fun hmirrored tail => ?_⟩
    have hlet := hmirrored.enterLoop label (pairs.map Prod.fst) body scope tail values
    rwa [StoreInvariant.map_renumber] at hlet
  | @letEach _ list pairs body _ _ htoken hlist heach =>
    obtain ⟨hextends, hnew⟩ := bindEach_new heach
    have hpairs : pairs ≠ [] := by
      rintro rfl
      exact hlets ⟨htoken, list, body, rfl, List.forall₂_nil_right_iff.mp hlist.binds⟩
    obtain ⟨hle, hinner⟩ := hnew hpairs
    have hplaced' := hplaced.after hextends
    have hne := Nat.ne_of_gt (Nat.lt_of_lt_of_le hplaced.lt hle)
    exact ⟨hplaced'.lt, hplaced', fun hmirrored tail => hmirrored.body body ⟨hne, hinner⟩ tail⟩
  | @letRec _ _ _ body _ htoken hlist hrec =>
    obtain ⟨hextends, hkeeps⟩ := bindRec_inner hrec
    have hplaced' := hplaced.after ((extends_withFrame w.store scope []).trans hextends)
    have hinner := hkeeps.inner w.store.scopes.size
      (by simp [withOpenFrame, addFrame, addScope]) (isRoot_addFrame w.store [] _)
    have hne := Nat.ne_of_gt hplaced.lt
    exact ⟨hplaced'.lt, hplaced', fun hmirrored tail => hmirrored.body body ⟨hne, hinner⟩ tail⟩

section

open EvalM (lift nameValue modifyStore)

theorem value_number (sub : Import) (steps depth : Nat) {token : Token} (h : token.tag = .number)
    (scope : ScopeId) : (evaluatorWith sub steps (depth + 1)).value (.leaf token) scope =
      lift (Form.numberValue token.payload) := by
  obtain ⟨tag, payload, place⟩ := token
  cases h
  change (lift (Form.numberValue payload) >>= fun v => pure (Step.done v)) >>= _ = _
  simp only [bind_assoc, pure_bind, finish_done, bind_pure]

/-- A let imports nothing if its body does not. -/
theorem ImportsNothing.enterLet {names : List String} {body : List Form} {values : List Value}
    {tail : Bool} (h : ∀ inner w, ImportsNothing (fun ev tail => ev.body inner tail body) tail steps
      depth w) :
    ImportsNothing (fun ev tail => ev.enterLet names body scope tail values) tail steps depth
      w := by
  have hcompleted : ∀ lower upper : Evaluator,
      completed (fun ev tail => ev.enterLet names body scope tail values) tail lower upper =
        EvalM.newFrame scope (.ofPairs (names.zip values)) >>= fun inner =>
          completed (fun ev tail => ev.body inner tail body) tail lower upper := by
    intro lower upper
    simp only [completed, Evaluator.enterLet, bind_assoc]
  intro sub
  rw [hcompleted, hcompleted]
  exact congrFun (bind_congr fun inner => funext fun u => h inner u sub) w

/-- To define a name as a number is to import nothing. -/
theorem importsNothing_define {form : Form} (h : form.definesNumber = true) (scope : ScopeId)
    (tail : Bool) (steps depth : Nat) (w : World) :
    ImportsNothing (fun ev tail => ev.body scope tail [form]) tail steps (depth + 2) w := by
  obtain ⟨payload, place, target, number, rfl, hnumber⟩ := Form.of_definesNumber h
  let rest (ev : Evaluator) (tail : Bool) : EvalM Step :=
    ev.body scope tail [⟨⟨.define, payload, place⟩, [target, .leaf number], true⟩]
  have hcompleted : ∀ sub, completed rest tail (evaluatorWith sub steps (depth + 2))
      (evaluatorWith sub steps (depth + 3)) = if target.tag = .symbol then do
        let name ← lift (nameOf target)
        let value ← lift (Form.numberValue number.payload)
        nameValue name value
        modifyStore (·.define scope name value)
        pure (.symbol name)
      else malformed .defineForm := by
    intro sub
    change (evaluatorWith sub steps (depth + 1)).defineForm [target, .leaf number] scope >>= _ = _
    rw [defineForm]
    split
    · simp only [value_number sub steps depth hnumber, bind_assoc, pure_bind, finish_done]
    · rfl
  intro sub
  change completed rest _ _ _ w = completed rest _ _ _ w
  rw [hcompleted sub, ← evaluatorWith_import, ← evaluatorWith_import, hcompleted]

end

end Evaluator

/-- A scope with the same chain and the same bindings in all its frames, so that the same is seen
through it. -/
structure Store.SeenAlike (s s' : Store) (scope : ScopeId) : Prop where
  chain_eq : s'.chain scope = s.chain scope
  bindings_eq : ∀ f ∈ s.chain scope, s'.bindings f = s.bindings f
  lookup?_eq : ∀ name, s'.lookup? scope name = s.lookup? scope name

theorem Store.Spares.seenAlike {s s' : Store} {scope : ScopeId} (h : s.Spares scope s')
    (hplaced : s.Placed scope) : s.SeenAlike s' scope := by
  have hbindings : ∀ f ∈ s.chain scope, s'.bindings f = s.bindings f :=
    fun f hf => h.bindings_eq f (hplaced.frames_lt f hf)
  refine ⟨h.chain_eq, hbindings, fun name => ?_⟩
  rw [lookup?, lookup?, h.chain_eq]
  exact findSome?_congr fun f hf => by rw [hbindings f hf]

/-- The evaluation of a let, of any kind, in a text that returns has evaluated the binding
expressions and then the rest of the form. If the body calls no `import`, then the scope around the
form has the chain, the bindings and thus the names afterwards that it had when the names were
bound: nothing that is defined in the body is seen through it. A `lets` without bindings is the one
form of which this is not true. -/
theorem let_bodies_leave_scope {limit : Nat} {source : List Char} {whole form : Form}
    (hwhole : whole ∈ (Reader.readFormsWithin limit source).1) (hcode : form.HasCode .code whole)
    (htag : form.tag = .letAll ∨ form.tag = .letEach ∨ form.tag = .letRec)
    (hlets : ¬ form.IsEmptyLets) {scope : ScopeId} {w w'' : World}
    (hplaced : w.store.Placed scope) {steps depth : Nat} {tail : Bool} {v : Value}
    (hreturns : ((evaluator steps (depth + 1)).eval form scope tail >>=
      (evaluator steps (depth + 1)).finish) w = .ok v w'') :
    ∃ rest w', (evaluator steps depth).Bound scope w form rest w' ∧
      Evaluator.completed rest tail (evaluator steps depth) (evaluator steps (depth + 1)) w' =
        .ok v w'' ∧
      (Evaluator.ImportsNothing rest tail steps depth w' →
        w'.store.SeenAlike w''.store scope) := by
  obtain ⟨step, u, heval, hfinish⟩ := EvalM.bind_eq_ok hreturns
  obtain ⟨rest, w', hbound⟩ := Evaluator.exists_bound (hcode.shaped hwhole) htag heval
  have hrest : rest (evaluator steps depth) tail w' = .ok step u :=
    (hbound.eval_eq tail).symm.trans heval
  have hcompleted : Evaluator.completed rest tail (evaluator steps depth)
      (evaluator steps (depth + 1)) w' = .ok v w'' := (EvalM.bind_of_ok hrest).trans hfinish
  refine ⟨rest, w', hbound, hcompleted, fun hfree => ?_⟩
  obtain ⟨hlt, hplaced', hruns⟩ := hbound.runs hlets hplaced
  -- any `import` will do, so take one that does nothing at all
  have hkept := ((hruns (StoreInvariant.mirrored_evaluatorWith steps depth) tail).bind fun hstep =>
    (StoreInvariant.mirrored_evaluatorWith steps (depth + 1)).finish hstep)
  obtain ⟨-, hspares⟩ := StoreInvariant.run_eq hkept StoreInvariant.eq_of_image (Spares.refl _ _)
  have hend := hfree fun _ _ _ => pure .nil
  rw [hcompleted] at hend
  change Spares _ _ (endWorld (Evaluator.completed _ _ _ _ w')).store at hspares
  rw [hend] at hspares
  exact hspares.seenAlike hplaced'

/-- What the body of a let defines is not there after the let. -/
theorem let_bodies_leave_scope_defining :
    let source := "(let ((a 1)) (define b 2))".toList
    let form := (Reader.readFormsWithin 9 source).1.headD (.leaf ⟨.eof, .none, none⟩)
    let w := Session.initial .empty ⟨[]⟩ []
    form ∈ (Reader.readFormsWithin 9 source).1 ∧ form.HasCode .code form ∧
      form.tag = .letAll ∧ ¬ form.IsEmptyLets ∧ w.store.Placed Session.top ∧
      ∃ v w'', ((evaluator 9 9).eval form Session.top true >>= (evaluator 9 9).finish) w =
          .ok v w'' ∧ w''.store.lookup? Session.top "b" = none ∧
        ∃ rest w', (evaluator 9 8).Bound Session.top w form rest w' ∧
          Evaluator.completed rest true (evaluator 9 8) (evaluator 9 9) w' = .ok v w'' ∧
          Evaluator.ImportsNothing rest true 9 8 w' ∧
          w'.store.SeenAlike w''.store Session.top := by
  intro source form w
  -- asked together, so that the text is read once
  obtain ⟨hread, htag, hfirst, hlength, hdefines, hreturns⟩ :
      (Reader.readFormsWithin 9 source).1.isEmpty = false ∧ form.tag = .letAll ∧
      form.parts.head?.map Form.tag = some .bindings ∧ form.parts.length = 2 ∧
      form.parts.tail.all Form.definesNumber = true ∧
      EvalM.returns ((evaluator 9 9).eval form Session.top true >>= (evaluator 9 9).finish)
        (fun _ w'' => (w''.store.lookup? Session.top "b").isNone) w = true := by
    decide +kernel
  have hform : form ∈ (Reader.readFormsWithin 9 source).1 := Reader.headD_mem hread _
  have hlets : ¬ form.IsEmptyLets := by
    rintro ⟨heach, -⟩
    cases htag.symm.trans heach
  have hplaced : w.store.Placed Session.top := ⟨by decide, by decide⟩
  obtain ⟨v, w'', hvalue, hafter⟩ := EvalM.exists_of_returns hreturns
  obtain ⟨rest, w', hbound, hcompleted, hsame⟩ :=
    let_bodies_leave_scope hform .here (.inl htag) hlets hplaced hvalue
  have hfree : Evaluator.ImportsNothing rest true 9 8 w' := by
    clear_value form
    cases hbound with
    | letAll _ _ _ =>
      obtain ⟨only, rfl⟩ := List.length_eq_one_iff.mp (Nat.succ.inj hlength)
      have honly : only.definesNumber = true := by simpa using hdefines
      exact .enterLet fun inner u => Evaluator.importsNothing_define honly inner true 9 6 u
    | letNamed _ hname _ _ =>
      obtain ⟨_, rfl, hsymbol, -⟩ := hname
      cases hsymbol.symm.trans (Option.some.inj hfirst)
    | letEach hother _ _ => cases htag.symm.trans hother
    | letRec hother _ _ => cases htag.symm.trans hother
  exact ⟨hform, .here, htag, hlets, hplaced, v, w'', hvalue, Option.isNone_iff_eq_none.mp hafter,
    rest, w', hbound, hcompleted, hfree, hsame hfree⟩

/-- The body of a `lets` without bindings defines a name in the scope around the form. -/
theorem empty_lets_defines_around :
    let source := "(lets () (define leaked 1))".toList
    let form := (Reader.readFormsWithin 9 source).1.headD (.leaf ⟨.eof, .none, none⟩)
    let w := Session.initial .empty ⟨[]⟩ []
    form ∈ (Reader.readFormsWithin 9 source).1 ∧ form.IsEmptyLets ∧
      ∃ rest v w'', (evaluator 9 8).Bound Session.top w form rest w ∧
        Evaluator.completed rest true (evaluator 9 8) (evaluator 9 9) w = .ok v w'' ∧
        Evaluator.ImportsNothing rest true 9 8 w ∧
        w.store.lookup? Session.top "leaked" = none ∧
        (w''.store.lookup? Session.top "leaked").isSome = true := by
  intro source form w
  -- asked together, so that the text is read once
  obtain ⟨hread, htag, hnone, hlength, hdefines, hbefore, hreturns⟩ :
      (Reader.readFormsWithin 9 source).1.isEmpty = false ∧ form.tag = .letEach ∧
      form.parts.head?.map (fun list => list.parts.isEmpty) = some true ∧
      form.parts.length = 2 ∧ form.parts.tail.all Form.definesNumber = true ∧
      w.store.lookup? Session.top "leaked" = none ∧
      EvalM.returns ((evaluator 9 9).eval form Session.top true >>= (evaluator 9 9).finish)
        (fun _ w'' => (w''.store.lookup? Session.top "leaked").isSome) w = true := by
    decide +kernel
  have hform : form ∈ (Reader.readFormsWithin 9 source).1 := Reader.headD_mem hread _
  obtain ⟨v, w'', hvalue, hafter⟩ := EvalM.exists_of_returns hreturns
  clear_value form w
  obtain ⟨token, list, pairs, body, rfl, -, hlist, -⟩ :=
    (Form.HasCode.here.shaped hform).letOther (.inl htag)
  obtain ⟨only, rfl⟩ := List.length_eq_one_iff.mp (Nat.succ.inj hlength)
  have honly : only.definesNumber = true := by simpa using hdefines
  have hempty : list.parts = [] := List.isEmpty_iff.mp (Option.some.inj hnone)
  obtain rfl : pairs = [] := by
    have hbinds := hlist.binds
    rw [hempty] at hbinds
    exact List.forall₂_nil_left_iff.mp hbinds
  have hbound : (evaluator 9 8).Bound Session.top w ⟨token, [list, only], true⟩ _ w :=
    .letEach htag hlist rfl
  obtain ⟨step, u, heval, hfinish⟩ := EvalM.bind_eq_ok hvalue
  exact ⟨hform, ⟨htag, _, _, rfl, hempty⟩, _, v, w'', hbound,
    (EvalM.bind_of_ok ((hbound.eval_eq true).symm.trans heval)).trans hfinish,
    Evaluator.importsNothing_define honly _ _ _ _ _, hbefore, hafter⟩

end TowerLisp
