import TowerLisp.Proofs.BodyScopes
import TowerLisp.Proofs.LinkedStores

/-!
What names stand for while recursive bindings are made. All forms of a `letr` are evaluated behind
one frame, which is filled with one value after another. A name that is looked up behind it stands
for what a frame in front of it binds, or else for the value that the frame has got by then. Only
if it has got none, the name may still be found around the form.
-/

namespace TowerLisp

open EvalM (endWorld nameValue)

namespace Store

/-- What the first of some frames that binds a name binds it to. -/
def findIn? (s : Store) (frames : List FrameId) (name : String) : Option Value :=
  frames.findSome? fun f => (s.bindings f).find? name

/-- What a name stands for if a given frame has the bindings `bound` and the frames `outer` behind
it. Some names are not looked for in those. -/
def lookupBehind? (s : Store) (frame : FrameId) (bound : Bindings) (outer : List FrameId)
    (hidden : List String) (scope : ScopeId) (name : String) : Option Value :=
  if frame ∈ s.chain scope then
    (s.findIn? ((s.chain scope).takeWhile (· ≠ frame)) name).or
      ((bound.find? name).or (if name ∈ hidden then none else s.findIn? outer name))
  else s.lookup? scope name

/-- A frame that is no root, with its bindings and with the frames that are behind it on the chains
of all scopes that it is on. -/
structure Recalls (s : Store) (frame : FrameId) (bound : Bindings) (outer : List FrameId) :
    Prop where
  lt : frame < s.frames.size
  isRootFrame_eq : s.isRootFrame frame = false
  bindings_eq : s.bindings frame = bound
  behind : ∀ {scope front rest}, s.chain scope = front ++ frame :: rest → rest = outer

variable {s : Store} {frame : FrameId} {bound : Bindings} {outer : List FrameId}

theorem takeWhile_ne {front : List FrameId} (h : frame ∉ front) (rest : List FrameId) :
    (front ++ frame :: rest).takeWhile (· ≠ frame) = front := by
  have hne : ∀ f ∈ front, decide (f ≠ frame) = true :=
    fun f hf => decide_eq_true (ne_of_mem_of_not_mem hf h)
  rw [List.takeWhile_append_of_pos hne, List.takeWhile_cons, if_neg (by simp), List.append_nil]

/-- This is what names stand for, as long as those that are not looked for are not there. -/
theorem Recalls.lookupBehind?_eq (h : s.Recalls frame bound outer) {hidden : List String}
    {name : String}
    (hhidden : name ∈ hidden → bound.find? name = none → s.findIn? outer name = none)
    (scope : ScopeId) : s.lookupBehind? frame bound outer hidden scope name =
      s.lookup? scope name := by
  unfold lookupBehind?
  split
  · rename_i hmem
    obtain ⟨front, rest, hchain, hfront⟩ := List.eq_append_cons_of_mem hmem
    obtain rfl := h.behind hchain
    rw [lookup?, hchain, takeWhile_ne hfront, List.findSome?_append, List.findSome?_cons,
      h.bindings_eq]
    cases hfind : bound.find? name with
    | some value => rfl
    | none =>
      split
      · rename_i hname
        have hnone := hhidden hname hfind
        rw [findIn?] at hnone
        rw [hnone]
        rfl
      · rfl
  · rfl

theorem Recalls.of_cons (h : s.Recalls frame bound outer) {scope : ScopeId}
    {front rest : List FrameId} (hchain : s.frames.size :: s.chain scope = front ++ frame :: rest) :
    rest = outer := by
  rcases List.cons_eq_append_iff.mp hchain with ⟨-, hcons⟩ | ⟨front', -, hbase⟩
  · cases hcons
    exact absurd h.lt (Nat.lt_irrefl _)
  · exact h.behind hbase

theorem Recalls.addFrame (h : s.Recalls frame bound outer) (bindings : Bindings)
    (scope : ScopeId) : ((s.addFrame ⟨false, bindings⟩).2.addScope
      (s.frames.size :: s.chain scope)).2.Recalls frame bound outer where
  lt := Nat.lt_of_lt_of_le h.lt (by simp)
  isRootFrame_eq := by simp [h.isRootFrame_eq]
  bindings_eq := by simp [Nat.ne_of_lt h.lt, h.bindings_eq]
  behind {scope' front rest} hchain := by
    rw [chain_addScope] at hchain
    split at hchain
    · exact h.of_cons hchain
    · exact h.behind hchain

theorem Recalls.addScope (h : s.Recalls frame bound outer) {chain : List FrameId}
    (hchain : ∀ {front rest}, chain = front ++ frame :: rest → rest = outer) :
    (s.addScope chain).2.Recalls frame bound outer where
  lt := h.lt
  isRootFrame_eq := h.isRootFrame_eq
  bindings_eq := h.bindings_eq
  behind {scope' front rest} hsplit := by
    rw [chain_addScope] at hsplit
    split at hsplit
    · exact hchain hsplit
    · exact h.behind hsplit

theorem Recalls.bindIn (h : s.Recalls frame bound outer) {other : FrameId} (hne : frame ≠ other)
    (name : String) (value : Value) : (s.bindIn other name value).Recalls frame bound outer where
  lt := by simpa using h.lt
  isRootFrame_eq := by simpa using h.isRootFrame_eq
  bindings_eq := by rw [bindings_bindIn_of_ne s other frame name value hne, h.bindings_eq]
  behind hchain := h.behind hchain

theorem Recalls.define (h : s.Recalls frame bound outer) (scope : ScopeId) (name : String)
    (value : Value) : (s.define scope name value).Recalls frame bound outer := by
  obtain ⟨root, -, -, hroot, hdefine⟩ | ⟨-, hdefine⟩ := define_cases s scope name value
  · rw [hdefine]
    refine h.bindIn ?_ name value
    rintro rfl
    exact absurd (h.isRootFrame_eq.symm.trans hroot) Bool.false_ne_true
  · rw [hdefine]
    refine ⟨Nat.lt_of_lt_of_le h.lt (by simp), by simpa using h.isRootFrame_eq,
      by simp [Nat.ne_of_lt h.lt, h.bindings_eq], fun {scope' front rest} hchain => ?_⟩
    by_cases hscope : scope < s.scopes.size
    · rw [chain_pushBinding s scope scope' name value hscope] at hchain
      split at hchain
      · exact h.of_cons hchain
      · exact h.behind hchain
    · rw [chain_pushBinding_of_size_le s scope scope' name value (Nat.le_of_not_lt hscope)]
        at hchain
      exact h.behind hchain

/-- The frame itself may get a binding. -/
theorem Recalls.insert (h : s.Recalls frame bound outer) (name : String) (value : Value) :
    (s.bindIn frame name value).Recalls frame (bound.insert name value) outer where
  lt := by simpa using h.lt
  isRootFrame_eq := by simpa using h.isRootFrame_eq
  bindings_eq := by rw [bindings_bindIn s frame frame name value h.lt, if_pos rfl, h.bindings_eq]
  behind hchain := h.behind hchain

/-- Anything may be evaluated while no other binding is put into the frame. -/
def recalling (frame : FrameId) (bound : Bindings) (outer : List FrameId) : StoreInvariant where
  Holds s := s.Recalls frame bound outer
  Admits _ := True
  Opens other := frame ≠ other
  admits_new _ := trivial
  opens_new h := Nat.ne_of_lt h.lt
  addClosure h _ := ⟨h.lt, h.isRootFrame_eq, h.bindings_eq, h.behind⟩
  nameClosure h _ _ := ⟨h.lt, h.isRootFrame_eq, h.bindings_eq, h.behind⟩
  withFrame h scope bindings := h.addFrame bindings scope
  fork h _ := h.addScope h.behind
  define {_ scope} h _ name value := h.define scope name value
  bindIn h hopen name value := h.bindIn hopen name value

/-- A frame that is new has nothing in it, and the chain of its scope behind it. -/
theorem recalls_withOpenFrame (hlinked : s.Linked) (scope : ScopeId) :
    (s.withOpenFrame scope).2.2.Recalls s.frames.size [] (s.chain scope) where
  lt := by simp [withOpenFrame]
  isRootFrame_eq := by simp [withOpenFrame]
  bindings_eq := by simp [withOpenFrame]
  behind {other front rest} hchain := by
    have hcons : (s.withOpenFrame scope).2.2.chain other =
        if other = s.scopes.size then s.frames.size :: s.chain scope else s.chain other :=
      chain_withFrame
    have hnone : ∀ {other front}, s.chain other ≠ front ++ s.frames.size :: rest :=
      fun {other front} heq => absurd (hlinked other s.frames.size (by rw [heq]; simp))
        (Nat.lt_irrefl _)
    rw [hcons] at hchain
    split at hchain
    · rcases List.cons_eq_append_iff.mp hchain with ⟨-, hrest⟩ | ⟨front', -, hbase⟩
      · cases hrest
        rfl
      · exact absurd hbase hnone
    · exact absurd hchain hnone

end Store

open Store

namespace StoreInvariant

/-- What two invariants say, where both admit it. -/
def both (I J : StoreInvariant) : StoreInvariant where
  Holds s := I.Holds s ∧ J.Holds s
  Admits scope := I.Admits scope ∧ J.Admits scope
  Opens frame := I.Opens frame ∧ J.Opens frame
  admits_new h := ⟨I.admits_new h.1, J.admits_new h.2⟩
  opens_new h := ⟨I.opens_new h.1, J.opens_new h.2⟩
  addClosure h closure := ⟨I.addClosure h.1 closure, J.addClosure h.2 closure⟩
  nameClosure h id name := ⟨I.nameClosure h.1 id name, J.nameClosure h.2 id name⟩
  withFrame h scope bindings := ⟨I.withFrame h.1 scope bindings, J.withFrame h.2 scope bindings⟩
  fork h hscope := ⟨I.fork h.1 hscope.1, J.fork h.2 hscope.2⟩
  define h hscope name value := ⟨I.define h.1 hscope.1 name value, J.define h.2 hscope.2 name value⟩
  bindIn h hframe name value := ⟨I.bindIn h.1 hframe.1 name value, J.bindIn h.2 hframe.2 name value⟩

end StoreInvariant

namespace Evaluator

/-- The lookup of names behind a frame that has the bindings `bound` and the frames `outer` behind
it, in which some names are not looked for. -/
def lookupBehind (frame : FrameId) (bound : Bindings) (outer : List FrameId)
    (hidden : List String) : Lookup := fun scope name => do
  match (← get).store.lookupBehind? frame bound outer hidden scope name with
  | some value => return value
  | none => throw (.unbound name)

/-- Names are bound one after another in a frame to the values of forms. -/
inductive Fills (ev : Evaluator) (inner : ScopeId) (frame : FrameId) :
    List (String × Form) → World → List (String × Value) → World → Prop where
  | nil {w : World} : Fills ev inner frame [] w [] w
  | cons {name : String} {form : Form} {rest : List (String × Form)} {value : Value}
      {bound : List (String × Value)} {w v u w' : World} :
      ev.value form inner w = .ok value v → nameValue name value v = .ok () u →
      Fills ev inner frame rest { u with store := u.store.bindIn frame name value } bound w' →
      Fills ev inner frame ((name, form) :: rest) w ((name, value) :: bound) w'

theorem exists_fills {ev : Evaluator} {inner : ScopeId} {frame : FrameId}
    {pairs : List (String × Form)} {w w' : World} (h : ev.bindRec inner frame pairs w = .ok () w') :
    ∃ bound, ev.Fills inner frame pairs w bound w' := by
  induction pairs generalizing w with
  | nil =>
    cases h
    exact ⟨[], .nil⟩
  | cons pair rest ih =>
    obtain ⟨value, v, hvalue, h⟩ := EvalM.bind_eq_ok h
    obtain ⟨_, u, hname, h⟩ := EvalM.bind_eq_ok h
    obtain ⟨_, _, hbind, h⟩ := EvalM.bind_eq_ok h
    cases hbind
    obtain ⟨bound, hfills⟩ := ih h
    exact ⟨(pair.1, value) :: bound, .cons hvalue hname hfills⟩

end Evaluator

section Lookups

variable {frame : FrameId} {bound : Bindings} {outer : List FrameId} {hidden : List String}

/-- Names are looked up as in the language where those that are not looked for are not there. -/
theorem runs_lookupBehind {I : StoreInvariant}
    (hrecalls : ∀ {s}, I.Holds s → s.Recalls frame bound outer)
    (hhidden : ∀ {s name}, I.Holds s → name ∈ hidden → bound.find? name = none →
      s.findIn? outer name = none) (scope : ScopeId) (name : String) :
    I.mirror.Runs I.mirror.Image (EvalM.lookup scope name)
      (Evaluator.lookupBehind frame bound outer hidden scope name) := by
  refine .get fun w t hst => ?_
  obtain ⟨rfl, hholds⟩ := hst
  dsimp only
  rw [(hrecalls hholds).lookupBehind?_eq (hhidden hholds)]
  cases w.store.lookup? scope name with
  | none => exact .throw _
  | some value => exact .pure (StoreInvariant.renumber_eq value).symm

/-- Whatever is evaluated comes out as if the bindings of the frame were given. -/
theorem mirrored_recalling (steps depth : Nat) :
    (recalling frame bound outer).mirror.Mirrored (evaluator steps depth)
      (evaluatorVia (Evaluator.lookupBehind frame bound outer []) Builtin.importSource steps
        depth) := by
  rw [← evaluatorWith_import, ← evaluatorVia_lookup]
  refine Mirror.mirrored_evaluatorVia
    (fun scope name _ =>
      runs_lookupBehind (fun h => h) (fun _ h => absurd h List.not_mem_nil) scope name)
    (fun scope value hmirrored _ => ?_) steps depth
  refine Mirror.runs_importSource (P := fun root => root ≠ frame) ?_ ?_ hmirrored value
  · rintro s _ ⟨rfl, hrecalls⟩ scope
    refine ⟨rfl, fun root hfound => ?_⟩
    rintro rfl
    exact absurd (hrecalls.isRootFrame_eq.symm.trans (List.find?_some hfound)) Bool.false_ne_true
  · rintro s _ root ⟨rfl, hrecalls⟩ hends
    refine ⟨rfl, hrecalls.addScope fun {front rest} hchain => ?_⟩
    rcases List.cons_eq_append_iff.mp hchain with ⟨-, hcons⟩ | ⟨front', -, hnil⟩
    · cases hcons
      exact absurd rfl hends
    · simp at hnil

/-- The same holds with names that are not looked for around a scope, if what is bound there stays
as it is. -/
theorem mirrored_hiding {b : Store} {scope : ScopeId} (hlt : scope < b.scopes.size)
    (houter : ∀ f ∈ outer, f < b.frames.size)
    (hhidden : ∀ name ∈ hidden, bound.find? name = none → b.findIn? outer name = none)
    (steps depth : Nat) :
    ((recalling frame bound outer).both (sparing b scope hlt)).mirror.Mirrored
      (evaluatorWith (fun _ _ _ => pure .nil) steps depth)
      (evaluatorVia (Evaluator.lookupBehind frame bound outer hidden) (fun _ _ _ => pure .nil) steps
        depth) := by
  let I := (recalling frame bound outer).both (sparing b scope hlt)
  have hnone : ∀ {s name}, I.Holds s → name ∈ hidden → bound.find? name = none →
      s.findIn? outer name = none := by
    rintro s name ⟨-, hspares⟩ hname hfind
    rw [← hhidden name hname hfind]
    exact findSome?_congr fun f hf => by rw [hspares.bindings_eq f (houter f hf)]
  rw [← evaluatorVia_lookup]
  refine Mirror.mirrored_evaluatorVia
    (fun scope name _ => runs_lookupBehind (I := I) And.left hnone scope name) ?_ steps depth
  exact fun _ _ _ _ => .pure rfl

namespace Evaluator

variable {steps depth : Nat} {inner : ScopeId} {w w' : World}

theorem recalls_value {form : Form} {scope : ScopeId} {v : Value}
    (h : (evaluator steps depth).value form scope w = .ok v w')
    (hrecalls : w.store.Recalls frame bound outer) : w'.store.Recalls frame bound outer := by
  have hscope : (recalling frame bound outer).mirror.Admits scope := trivial
  obtain ⟨-, hkept⟩ := StoreInvariant.run_eq ((mirrored_recalling steps depth).value form hscope)
    StoreInvariant.eq_of_image hrecalls
  rwa [h] at hkept

theorem recalls_nameValue {name : String} {value : Value} (h : nameValue name value w = .ok () w')
    (hrecalls : w.store.Recalls frame bound outer) : w'.store.Recalls frame bound outer := by
  cases value with
  | closure id =>
    cases h
    exact (recalling frame bound outer).nameClosure hrecalls id name
  | _ =>
    cases h
    exact hrecalls

/-- The frame has got the values that were found so far. -/
theorem Fills.recalls {pairs : List (String × Form)} {values : List (String × Value)}
    (h : (evaluator steps depth).Fills inner frame pairs w values w')
    (hrecalls : w.store.Recalls frame bound outer) :
    w'.store.Recalls frame
      (values.foldl (fun bindings (name, value) => bindings.insert name value) bound) outer := by
  induction h generalizing bound with
  | nil => exact hrecalls
  | cons hvalue hname _ ih =>
    exact ih ((recalls_nameValue hname (recalls_value hvalue hrecalls)).insert _ _)

end Evaluator

end Lookups

/-- A name that got a value is bound, whatever else was bound with it. -/
theorem Evaluator.Fills.isSome_find? {ev : Evaluator} {inner : ScopeId} {frame : FrameId}
    {pairs : List (String × Form)} {values : List (String × Value)} {w w' : World}
    (h : ev.Fills inner frame pairs w values w') {bound : Bindings} {name : String}
    (hname : name ∈ pairs.map Prod.fst ∨ (bound.find? name).isSome) :
    ((values.foldl (fun bindings (name, value) => bindings.insert name value) bound).find?
      name).isSome := by
  induction h generalizing bound with
  | nil => exact hname.resolve_left List.not_mem_nil
  | cons _ _ _ ih =>
    refine ih ?_
    rw [Bindings.find?_insert]
    rcases hname with hname | hname
    · rcases List.mem_cons.mp hname with rfl | hname
      · exact .inr (by simp)
      · exact .inl hname
    · split
      · exact .inr rfl
      · exact .inr hname

/-- Every form comes out in a world as if names were looked up by `look`. -/
def World.LooksUpBy (w : World) (look : Evaluator.Lookup) : Prop :=
  ∀ (steps depth : Nat) (form : Form) (scope : ScopeId) (tail : Bool),
    (evaluator steps depth).eval form scope tail w =
      (evaluatorVia look Builtin.importSource steps depth).eval form scope tail w

theorem Store.Recalls.eval {w : World} {frame : FrameId} {bound : Bindings}
    {outer : List FrameId} (h : w.store.Recalls frame bound outer) (steps depth : Nat) (form : Form)
    (scope : ScopeId) (tail : Bool) :
    (evaluatorVia (Evaluator.lookupBehind frame bound outer []) Builtin.importSource steps
        depth).eval form scope tail w = (evaluator steps depth).eval form scope tail w ∧
      (endWorld ((evaluator steps depth).eval form scope tail w)).store.Recalls frame bound
        outer := by
  have hscope : (recalling frame bound outer).mirror.Admits scope := trivial
  have heval := (mirrored_recalling steps depth).eval form tail hscope
  exact StoreInvariant.run_eq heval StoreInvariant.eq_of_sameStep h

/-- Evaluation looks names up behind the frame, and leaves the frame as it is. -/
theorem Store.Recalls.looksUpBy {w : World} {frame : FrameId} {bound : Bindings}
    {outer : List FrameId} (h : w.store.Recalls frame bound outer) :
    w.LooksUpBy (Evaluator.lookupBehind frame bound outer []) ∧
      ∀ steps depth form scope tail,
        (endWorld ((evaluator steps depth).eval form scope tail w)).store.Recalls frame bound
          outer :=
  ⟨fun steps depth form scope tail => (h.eval steps depth form scope tail).1.symm,
    fun steps depth form scope tail => (h.eval steps depth form scope tail).2⟩

/-- The form that a name is bound to sees none of the names that have no value yet, if these are not
bound around the `letr` and it imports nothing. -/
theorem Store.Recalls.value_hiding {w : World} {frame : FrameId} {bound : Bindings}
    {outer : List FrameId} (h : w.store.Recalls frame bound outer) {hidden : List String}
    (hhidden : ∀ name ∈ hidden, bound.find? name = none → w.store.findIn? outer name = none)
    {scope inner : ScopeId} (hlt : scope < w.store.scopes.size)
    (houter : ∀ f ∈ outer, f < w.store.frames.size)
    (hinner : inner ≠ scope ∧ w.store.isRoot inner = false) (steps depth : Nat) (form : Form) :
    (evaluatorVia (Evaluator.lookupBehind frame bound outer hidden) (fun _ _ _ => pure .nil) steps
        depth).value form inner w =
      (evaluatorWith (fun _ _ _ => pure .nil) steps depth).value form inner w := by
  let I := (recalling frame bound outer).both (sparing w.store scope hlt)
  have hscope : I.mirror.Admits inner := ⟨trivial, hinner⟩
  have hvalue := (mirrored_hiding hlt houter hhidden steps depth).value form hscope
  exact (StoreInvariant.run_eq hvalue StoreInvariant.eq_of_image ⟨h, .refl _ _⟩).1

/-- What the first part of a form binds. -/
def Form.listed (form : Form) : List (String × Form) :=
  (form.parts.head?.bind fun list => (Evaluator.bindingsOf list).toOption).getD []

theorem Form.Lists.listed {list : Form} {pairs : List (String × Form)} (h : list.Lists pairs)
    (token : Token) (body : List Form) : Form.listed ⟨token, list :: body, true⟩ = pairs := by
  change ((Evaluator.bindingsOf list).toOption).getD [] = pairs
  rw [h.bindingsOf]
  rfl

/-- The world in which a `letr` starts to bind its names: a new frame in front of its scope. -/
def World.opened (w : World) (scope : ScopeId) : World :=
  { w with store := (w.store.withOpenFrame scope).2.2 }

/-- A stage of a `letr` in a scope of a world `w`. The names of `before` have got the values `bound`
and those of `after` have none yet; by now the world is `v`. -/
structure LetRecStage (steps depth : Nat) (scope : ScopeId) (w : World)
    (before after : List (String × Form)) (bound : List (String × Value)) (v : World) : Prop where
  /-- The new frame has been filled, one name after another. -/
  fills : (evaluator steps depth).Fills w.store.scopes.size w.store.frames.size before
    (w.opened scope) bound v
  /-- None of the names of `before` is without a value. -/
  isSome_find? : ∀ name ∈ before.map Prod.fst, ((Bindings.ofPairs bound).find? name).isSome
  /-- The frame is on the chain of the scope in which the forms are evaluated. -/
  mem_chain : w.store.frames.size ∈ v.store.chain w.store.scopes.size
  /-- It holds just these values, and behind it are the frames around the `letr`. -/
  recalls : v.store.Recalls w.store.frames.size (.ofPairs bound) (w.store.chain scope)
  /-- While it does, all is evaluated as if names were looked up in front of the frame, then among
  these values, then around the `letr`. -/
  looksUpBy : ∀ u : World,
    u.store.Recalls w.store.frames.size (.ofPairs bound) (w.store.chain scope) →
    u.LooksUpBy (Evaluator.lookupBehind w.store.frames.size (.ofPairs bound)
      (w.store.chain scope) [])
  /-- No evaluation changes what the frame holds, so this goes on until the next name is bound. -/
  lasts : ∀ u : World,
    u.store.Recalls w.store.frames.size (.ofPairs bound) (w.store.chain scope) →
    ∀ steps depth form scope' tail,
      (endWorld ((evaluator steps depth).eval form scope' tail u)).store.Recalls
        w.store.frames.size (.ofPairs bound) (w.store.chain scope)
  /-- If the names that have no value are not bound around the `letr` either, then the value of a
  form that imports nothing is found as if they could not be seen there. -/
  value_hiding : ∀ form,
    (∀ key ∈ (before ++ after).map Prod.fst, (Bindings.ofPairs bound).find? key = none →
      v.store.findIn? (w.store.chain scope) key = none) →
    (∀ sub, (evaluatorWith sub steps depth).value form w.store.scopes.size v =
      (evaluator steps depth).value form w.store.scopes.size v) →
    (evaluator steps depth).value form w.store.scopes.size v =
      (evaluatorVia (Evaluator.lookupBehind w.store.frames.size (.ofPairs bound)
        (w.store.chain scope) ((before ++ after).map Prod.fst)) (fun _ _ _ => pure .nil) steps
        depth).value form w.store.scopes.size v

/-- Each stage of a `letr` is reached with values for the names that were to be bound. -/
theorem exists_letRecStage {steps depth : Nat} {scope : ScopeId} {w v : World}
    (hscope : scope < w.store.scopes.size) (hlinked : w.store.Linked)
    {before : List (String × Form)} (after : List (String × Form))
    (hbefore : (evaluator steps depth).bindRec w.store.scopes.size w.store.frames.size before
      (w.opened scope) = .ok () v) :
    ∃ bound, LetRecStage steps depth scope w before after bound v := by
  obtain ⟨bound, hfills⟩ := Evaluator.exists_fills hbefore
  obtain ⟨hextends, hkeeps⟩ := Evaluator.bindRec_inner hbefore
  have hrecalls : v.store.Recalls w.store.frames.size (.ofPairs bound) (w.store.chain scope) :=
    hfills.recalls (recalls_withOpenFrame hlinked scope)
  have hlt : w.store.scopes.size < (w.opened scope).store.scopes.size := by
    simp [World.opened, withOpenFrame, Store.addFrame, Store.addScope]
  refine ⟨bound, hfills, fun name hname => hfills.isSome_find? (.inl hname), ?_, hrecalls,
    fun u hu => hu.looksUpBy.1, fun u hu => hu.looksUpBy.2,
    fun form hhidden hfree => ?_⟩
  · have hopened : (w.opened scope).store.chain w.store.scopes.size =
        w.store.frames.size :: w.store.chain scope :=
      chain_withFrame.trans (if_pos rfl)
    obtain ⟨new, hchain, -⟩ := hextends.chain _ hlt
    rw [hchain, hopened]
    exact List.mem_append_right _ List.mem_cons_self
  · have hall := (extends_withFrame w.store scope []).trans hextends
    have hinner := hkeeps.inner _ hlt (isRoot_addFrame w.store [] _)
    rw [← hfree, hrecalls.value_hiding hhidden (Nat.lt_of_lt_of_le hscope hall.scopes_le)
      (fun f hf => Nat.lt_of_lt_of_le (hlinked scope f hf) hall.frames_le)
      ⟨Nat.ne_of_gt hscope, hinner⟩]

/-- A `letr` in a text binds its names in a frame of its own. Until the next name is bound, and
after the last one for good, all is evaluated as if names were looked up as follows wherever this
frame is on the chain, and so in the forms that the names are bound to and in procedures made there:
first in the frames in front of it, then among the values found so far, then around the form. A name
with a value thus never stands for what is around the form. A name without one still does if it is
bound there; if it is not, then it is not bound, as if it could not be seen there. The world may be
any whose scopes have only frames that there are, as they have in a session by
`Session.linked_feed`. -/
theorem recursive_names_resolve {limit : Nat} {source : List Char} {whole form : Form}
    (hwhole : whole ∈ (Reader.readFormsWithin limit source).1) (hcode : form.HasCode .code whole)
    (htag : form.tag = .letRec) {scope : ScopeId} {w : World}
    (hscope : scope < w.store.scopes.size) (hlinked : w.store.Linked) (steps depth : Nat) :
    let ev := evaluator steps depth
    let inner := w.store.scopes.size
    let frame := w.store.frames.size
    ∃ token list pairs body, form = ⟨token, list :: body, true⟩ ∧ list.Lists pairs ∧
      (∀ tail, (evaluator steps (depth + 1)).eval form scope tail w =
        (do ev.bindRec inner frame pairs; ev.body inner tail body) (w.opened scope)) ∧
      ∀ before after, pairs = before ++ after → ∀ v,
        ev.bindRec inner frame before (w.opened scope) = .ok () v →
        ∃ bound, LetRecStage steps depth scope w before after bound v := by
  intro ev inner frame
  obtain ⟨token, list, pairs, body, rfl, htoken, hlist, -⟩ :=
    (hcode.shaped hwhole).letOther (.inr htag)
  refine ⟨token, list, pairs, body, rfl, hlist, fun tail => ?_, ?_⟩
  · exact congrFun (Evaluator.evalForm_letRec_lists ev (htoken.trans htag) hlist) w
  · intro before after _ v hbefore
    exact exists_letRecStage hscope hlinked after hbefore

/-- One of the procedures of a `letr` calls the other, whose name gets its value later. -/
theorem recursive_names_resolve_later :
    let source := "(letr ((f (lambda (n) (g n))) (g (lambda (n) n))) (f 1))".toList
    let form := (Reader.readFormsWithin 9 source).1.headD (.leaf ⟨.eof, .none, none⟩)
    let w := Session.initial .empty ⟨[]⟩ []
    form ∈ (Reader.readFormsWithin 9 source).1 ∧ form.HasCode .code form ∧ form.tag = .letRec ∧
      Session.top < w.store.scopes.size ∧ w.store.Linked ∧
      ∃ list pairs body, form.parts = list :: body ∧ list.Lists pairs ∧
        ∃ v bound, (evaluator 9 8).bindRec 1 1 pairs (w.opened Session.top) = .ok () v ∧
          (evaluator 9 8).Fills 1 1 pairs (w.opened Session.top) bound v ∧
          ((Bindings.ofPairs bound).find? "f").isSome ∧
          ((Bindings.ofPairs bound).find? "g").isSome ∧
          v.LooksUpBy (Evaluator.lookupBehind 1 (.ofPairs bound) [0] []) := by
  intro source form w
  -- asked together, so that the text is read once
  obtain ⟨hread, htag, hnames, hreturns⟩ : (Reader.readFormsWithin 9 source).1.isEmpty = false ∧
      form.tag = .letRec ∧ form.listed.map Prod.fst = ["f", "g"] ∧
      EvalM.returns ((evaluator 9 8).bindRec 1 1 form.listed) (fun _ _ => true)
        (w.opened Session.top) = true := by
    decide +kernel
  have hform : form ∈ (Reader.readFormsWithin 9 source).1 := Reader.headD_mem hread _
  have hlinked : w.store.Linked := Session.linked_initial _ _ _
  have hscope : Session.top < w.store.scopes.size := by decide
  obtain ⟨_, v, hall, -⟩ := EvalM.exists_of_returns hreturns
  obtain ⟨token, list, pairs, body, hparts, hlist, -, hstages⟩ :=
    recursive_names_resolve hform .here htag hscope hlinked 9 8
  rw [hparts, hlist.listed token body] at hall hnames
  obtain ⟨bound, hstage⟩ := hstages pairs [] (List.append_nil _).symm v hall
  have hsome := hstage.isSome_find?
  rw [hnames] at hsome
  exact ⟨hform, .here, htag, hscope, hlinked, list, pairs, body, by rw [hparts], hlist, v, bound,
    hall, hstage.fills, hsome "f" (by simp), hsome "g" (by simp),
    hstage.looksUpBy v hstage.recalls⟩

/-- A name that has no value yet stands for what the top level binds it to, though the same form
binds it afterwards. -/
theorem unfilled_name_resolves_around :
    let source := "(letr ((y x) (x 2)) y)".toList
    let form := (Reader.readFormsWithin 9 source).1.headD (.leaf ⟨.eof, .none, none⟩)
    let given := Session.initial .empty ⟨[]⟩ []
    let w := { given with store := given.store.define Session.top "x" (.int 1) }
    let opened := w.opened Session.top
    form ∈ (Reader.readFormsWithin 9 source).1 ∧ form.tag = .letRec ∧
      ∃ list body value other, form.parts = list :: body ∧ list.Lists [("y", value), ("x", other)] ∧
        (∃ v, (evaluator 9 8).value value 1 opened = .ok (.int 1) v) ∧
        ∃ v, (evaluatorVia (Evaluator.lookupBehind 1 [] [0] ["y", "x"]) (fun _ _ _ => pure .nil)
          9 8).value value 1 opened = .error (.unbound "x") v := by
  intro source form given w opened
  let strict :=
    evaluatorVia (Evaluator.lookupBehind 1 [] [0] ["y", "x"]) (fun _ _ _ => pure .nil) 9 8
  let first := (form.listed.map Prod.snd).headD (.leaf ⟨.eof, .none, none⟩)
  -- asked together, so that the text is read once
  obtain ⟨hread, htag, hnames, hreturns, hfaults⟩ :
      (Reader.readFormsWithin 9 source).1.isEmpty = false ∧ form.tag = .letRec ∧
      form.listed.map Prod.fst = ["y", "x"] ∧
      EvalM.returns ((evaluator 9 8).value first 1) (fun v _ => decide (v = .int 1)) opened =
        true ∧
      EvalM.faults (strict.value first 1) (fun fault => decide (fault = .unbound "x")) opened =
        true := by
    decide +kernel
  obtain ⟨v, w', hvalue, hone⟩ := EvalM.exists_of_returns hreturns
  obtain ⟨fault, w'', hfault, hunbound⟩ := EvalM.exists_of_faults hfaults
  rw [of_decide_eq_true hone] at hvalue
  rw [of_decide_eq_true hunbound] at hfault
  have hform : form ∈ (Reader.readFormsWithin 9 source).1 := Reader.headD_mem hread _
  obtain ⟨token, list, pairs, body, hlets, -, hlist, -⟩ :=
    (Form.HasCode.here.shaped hform).letOther (.inr htag)
  have hlisted : form.listed = pairs := by rw [hlets, hlist.listed]
  have hfirst : first = (form.listed.map Prod.snd).headD (.leaf ⟨.eof, .none, none⟩) := rfl
  rw [hlisted] at hfirst hnames
  clear_value first form
  subst hlets
  obtain ⟨y, rest, rfl, hy, hrest⟩ := List.map_eq_cons_iff.mp hnames
  obtain ⟨x, rest, rfl, hx, hnil⟩ := List.map_eq_cons_iff.mp hrest
  cases List.map_eq_nil_iff.mp hnil
  cases hfirst
  refine ⟨hform, htag, list, body, y.2, x.2, rfl, ?_, ⟨w', hvalue⟩, ⟨w'', hfault⟩⟩
  rw [← hy, ← hx]
  exact hlist

end TowerLisp
