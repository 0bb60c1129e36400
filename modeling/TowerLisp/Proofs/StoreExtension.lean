import TowerLisp.Proofs.NestingBudgets
import TowerLisp.Proofs.RootFrames
import TowerLisp.Proofs.ScopeChains

/-!
What evaluation leaves alone, and what is known of names. Whatever is evaluated, scopes keep the
frames that they have and procedures what they do: new frames may come in front of a chain, and a
procedure may get a name. `Knows` tells what the names seen through a scope stand for, which a
frame with other names in front does not change.
-/

namespace TowerLisp

namespace Store

/-- Scopes keep their frames behind new ones, and procedures keep all but their names. -/
structure Extends (s s' : Store) : Prop where
  scopes_le : s.scopes.size ≤ s'.scopes.size
  frames_le : s.frames.size ≤ s'.frames.size
  chain : ∀ scope < s.scopes.size, ∃ new, s'.chain scope = new ++ s.chain scope ∧
    ∀ f ∈ new, s.frames.size ≤ f ∧ f < s'.frames.size
  closure : ∀ {id closure}, s.closure? id = some closure →
    ∃ name, s'.closure? id = some { closure with name }

variable {s s' s'' : Store}

theorem Extends.refl (s : Store) : Extends s s :=
  ⟨Nat.le_refl _, Nat.le_refl _, fun _ _ => ⟨[], rfl, nofun⟩, fun h => ⟨_, h⟩⟩

theorem Extends.trans (h : Extends s s') (h' : Extends s' s'') : Extends s s'' where
  scopes_le := Nat.le_trans h.scopes_le h'.scopes_le
  frames_le := Nat.le_trans h.frames_le h'.frames_le
  chain scope hscope := by
    obtain ⟨new, hchain, hnew⟩ := h.chain scope hscope
    obtain ⟨newer, hchain', hnewer⟩ := h'.chain scope (Nat.lt_of_lt_of_le hscope h.scopes_le)
    refine ⟨newer ++ new, by rw [hchain', hchain, List.append_assoc], fun f hf => ?_⟩
    rcases List.mem_append.mp hf with hf | hf
    · exact ⟨Nat.le_trans h.frames_le (hnewer f hf).1, (hnewer f hf).2⟩
    · exact ⟨(hnew f hf).1, Nat.lt_of_lt_of_le (hnew f hf).2 h'.frames_le⟩
  closure hclosure := by
    obtain ⟨_, hnamed⟩ := h.closure hclosure
    obtain ⟨name, hrenamed⟩ := h'.closure hnamed
    exact ⟨name, hrenamed⟩

/-- Chains that stay as they are, in a store that has not lost anything. -/
theorem Extends.of_chain (hscopes : s.scopes.size ≤ s'.scopes.size)
    (hframes : s.frames.size ≤ s'.frames.size) (hclosures : s'.closures = s.closures)
    (hchain : ∀ scope < s.scopes.size, s'.chain scope = s.chain scope) : Extends s s' where
  scopes_le := hscopes
  frames_le := hframes
  chain scope hscope := ⟨[], hchain scope hscope, nofun⟩
  closure h := ⟨_, by rwa [closure?, hclosures]⟩

theorem extends_addScope (s : Store) (chain : List FrameId) : Extends s (s.addScope chain).2 :=
  .of_chain (by simp [addScope]) (Nat.le_refl _) rfl fun scope hscope => by
    rw [chain_addScope, if_neg (Nat.ne_of_lt hscope)]

theorem extends_addFrame (s : Store) (frame : Frame) : Extends s (s.addFrame frame).2 :=
  .of_chain (Nat.le_refl _) (by simp) rfl fun _ _ => rfl

theorem extends_bindIn (s : Store) (frame : FrameId) (name : String) (value : Value) :
    Extends s (s.bindIn frame name value) :=
  .of_chain (Nat.le_refl _) (by simp) rfl fun _ _ => rfl

theorem extends_addClosure (s : Store) (closure : Closure) :
    Extends s (s.addClosure closure).2 where
  scopes_le := Nat.le_refl _
  frames_le := Nat.le_refl _
  chain _ _ := ⟨[], rfl, nofun⟩
  closure {id closure'} h := by
    obtain ⟨hid, -⟩ := Array.getElem?_eq_some_iff.mp h
    refine ⟨closure'.name, ?_⟩
    change (s.closures.push closure)[id]? = _
    rw [Array.getElem?_push, if_neg (Nat.ne_of_lt hid)]
    exact h

theorem extends_nameClosure (s : Store) (id : ClosureId) (name : String) :
    Extends s (s.nameClosure id name) where
  scopes_le := Nat.le_refl _
  frames_le := Nat.le_refl _
  chain _ _ := ⟨[], rfl, nofun⟩
  closure {other closure} h := by
    change ∃ name', (s.closures.modify id _)[other]? = _
    rw [Array.getElem?_modify, show s.closures[other]? = some closure from h]
    split
    · exact ⟨_, rfl⟩
    · exact ⟨_, rfl⟩

theorem extends_pushBinding (s : Store) (scope : ScopeId) (name : String) (value : Value) :
    Extends s (s.pushBinding scope name value) where
  scopes_le := by simp [pushBinding]
  frames_le := by simp
  chain other hother := by
    by_cases hscope : scope < s.scopes.size
    · rw [chain_pushBinding s scope other name value hscope]
      split
      · exact ⟨[s.frames.size], rfl, by simp⟩
      · exact ⟨[], rfl, List.forall_mem_nil _⟩
    · rw [chain_pushBinding_of_size_le s scope other name value (Nat.le_of_not_lt hscope)]
      exact ⟨[], rfl, List.forall_mem_nil _⟩
  closure h := ⟨_, h⟩

theorem extends_define (s : Store) (scope : ScopeId) (name : String) (value : Value) :
    Extends s (s.define scope name value) := by
  obtain ⟨frame, -, -, -, hdefine⟩ | ⟨-, hdefine⟩ := define_cases s scope name value
  · rw [hdefine]
    exact extends_bindIn s frame name value
  · rw [hdefine]
    exact extends_pushBinding s scope name value

theorem extends_withFrame (s : Store) (scope : ScopeId) (bindings : Bindings) :
    Extends s (s.withFrame scope bindings).2 :=
  (extends_addFrame s _).trans (extends_addScope _ _)

end Store

open Store

/-- Evaluation anywhere: nothing but new frames and names. -/
def Discipline.extending : Discipline where
  Leads := Extends
  Admits _ _ := True
  Opens _ _ := True
  refl := .refl
  trans := .trans
  admits_of_leads _ _ := trivial
  opens_of_leads _ _ := trivial
  addClosure := extends_addClosure
  nameClosure := extends_nameClosure
  withFrame s scope bindings := ⟨extends_withFrame s scope bindings, trivial⟩
  withOpenFrame s scope := ⟨extends_withFrame s scope [], trivial, trivial⟩
  fork {s scope} _ := ⟨extends_addScope s (s.chain scope), trivial⟩
  define {s scope} _ := extends_define s scope
  bindIn {s frame} _ := extends_bindIn s frame

namespace Within

variable {α : Type} {budget : Nat} {scope : ScopeId} {w w' : World}

theorem extends_of_parallel {m : Evaluator → EvalM α} {a : α} (h : Within budget m w a w')
    (hparallel : ∀ ev, ev.Steady .extending → Parallel .extending Same w w (m ev) (m ev)) :
    Extends w.store w'.store := by
  obtain ⟨length, h⟩ := h
  have hresult := h length budget (Nat.le_refl _) (Nat.le_refl _)
  have hsteady : (evaluator length budget).Steady .extending :=
    steady_evaluator (fun s frame => ⟨extends_addScope s [frame], trivial⟩) length budget
  have hleads := (hparallel _ hsteady).leads
  rwa [hresult] at hleads

theorem extends_value {form : Form} {v : Value}
    (h : Within budget (fun ev => ev.value form scope) w v w') : Extends w.store w'.store := by
  have hstart : Discipline.extending.Starts w w scope := ⟨.refl w, trivial⟩
  exact h.extends_of_parallel fun ev hev => hev.value (.refl form) hstart

theorem extends_values {forms : List Form} {vs : List Value}
    (h : Within budget (fun ev => ev.values scope forms) w vs w') : Extends w.store w'.store := by
  have hstart : Discipline.extending.Starts w w scope := ⟨.refl w, trivial⟩
  have hsame : List.Forall₂ Form.Alike forms forms := List.forall₂_same.mpr fun form _ => .refl form
  exact h.extends_of_parallel fun ev hev => hev.values hsame hstart

end Within

namespace Store

/-- A scope that is in the store, with all its frames. -/
structure Placed (s : Store) (scope : ScopeId) : Prop where
  lt : scope < s.scopes.size
  frames_lt : ∀ f ∈ s.chain scope, f < s.frames.size

variable {s s' : Store} {scope other : ScopeId} {bindings : Bindings} {frame : FrameId}

theorem Placed.after (h : s.Placed scope) (hextends : Extends s s') : s'.Placed scope where
  lt := Nat.lt_of_lt_of_le h.lt hextends.scopes_le
  frames_lt f hf := by
    obtain ⟨new, hchain, hnew⟩ := hextends.chain scope h.lt
    rw [hchain, List.mem_append] at hf
    rcases hf with hf | hf
    · exact (hnew f hf).2
    · exact Nat.lt_of_lt_of_le (h.frames_lt f hf) hextends.frames_le

/-- A frame that was there and not on a chain does not get there. -/
theorem Placed.not_mem_after (h : s.Placed scope) (hextends : Extends s s')
    (hframe : frame < s.frames.size) (hnot : frame ∉ s.chain scope) : frame ∉ s'.chain scope := by
  obtain ⟨new, hchain, hnew⟩ := hextends.chain scope h.lt
  rw [hchain, List.mem_append, not_or]
  exact ⟨fun hmem => absurd (hnew frame hmem).1 (Nat.not_le_of_lt hframe), hnot⟩

theorem chain_withFrame : (s.withFrame scope bindings).2.chain other =
    if other = s.scopes.size then s.frames.size :: s.chain scope else s.chain other :=
  chain_addScope ..

theorem lookup?_withFrame_of_placed (h : s.Placed other) (name : String) :
    (s.withFrame scope bindings).2.lookup? other name = s.lookup? other name := by
  rw [lookup?, lookup?, chain_withFrame, if_neg (Nat.ne_of_lt h.lt)]
  refine findSome?_congr fun f hf => ?_
  change ((s.addFrame ⟨false, bindings⟩).2.bindings f).find? name = _
  rw [bindings_addFrame, if_neg (Nat.ne_of_lt (h.frames_lt f hf))]

/-- Through the new scope the new frame is seen first. -/
theorem lookup?_withFrame (h : s.Placed scope) (name : String) :
    (s.withFrame scope bindings).2.lookup? (s.withFrame scope bindings).1 name =
      (bindings.find? name).or (s.lookup? scope name) := by
  have hnew : (s.withFrame scope bindings).1 = s.scopes.size := rfl
  have hbound : ∀ f, (s.withFrame scope bindings).2.bindings f =
      if f = s.frames.size then bindings else s.bindings f :=
    fun f => bindings_addFrame s f ⟨false, bindings⟩
  have hbehind : (s.chain scope).findSome? (fun f =>
      ((s.withFrame scope bindings).2.bindings f).find? name) = s.lookup? scope name := by
    refine findSome?_congr fun f hf => ?_
    rw [hbound, if_neg (Nat.ne_of_lt (h.frames_lt f hf))]
  rw [hnew, lookup?, chain_withFrame, if_pos rfl, List.findSome?_cons, hbehind, hbound,
    if_pos rfl]
  cases bindings.find? name <;> rfl

theorem placed_withFrame (h : s.Placed scope) :
    (s.withFrame scope bindings).2.Placed (s.withFrame scope bindings).1 where
  lt := by simp [withFrame, addScope]
  frames_lt f hf := by
    have hchain : (s.withFrame scope bindings).2.chain (s.withFrame scope bindings).1 =
        s.frames.size :: s.chain scope := chain_withFrame.trans (if_pos rfl)
    have hsize : (s.withFrame scope bindings).2.frames.size = s.frames.size + 1 :=
      size_addFrame ..
    rw [hchain, List.mem_cons] at hf
    rw [hsize]
    rcases hf with rfl | hf
    · exact Nat.lt_succ_self _
    · exact Nat.lt_succ_of_lt (h.frames_lt f hf)

/-- A name that is bound in a frame of a scope stands for something. -/
theorem isSome_lookup?_bindIn (h : frame ∈ s.chain scope) (hlt : frame < s.frames.size)
    (name : String) (value : Value) :
    ((s.bindIn frame name value).lookup? scope name).isSome := by
  rw [lookup?, chain_bindIn, List.findSome?_isSome_iff]
  refine ⟨frame, h, ?_⟩
  rw [bindings_bindIn s frame frame name value hlt, if_pos rfl, Bindings.find?_insert, if_pos rfl]
  rfl

end Store

/-- What is known of the values of some names; the first entry of a name counts. -/
abbrev Knowledge := List (String × (Value → Prop))

/-- The names of a scope stand for such values. -/
def Store.Knows (s : Store) (scope : ScopeId) (known : Knowledge) : Prop :=
  ∀ name P, known.lookup name = some P → ∃ v, s.lookup? scope name = some v ∧ P v

/-- Bindings of the names that something is known of, to such values. -/
def Knowledge.Describes (known : Knowledge) (bindings : Bindings) : Prop :=
  ∀ name, match known.lookup name with
    | some P => ∃ v, bindings.find? name = some v ∧ P v
    | none => bindings.find? name = none

namespace Knowledge.Describes

variable {known : Knowledge} {bindings : Bindings} {P : Value → Prop} {v : Value}

theorem nil : Describes [] [] :=
  fun _ => rfl

theorem insert (h : Describes known bindings) (hv : P v) (name : String) :
    Describes ((name, P) :: known) (bindings.insert name v) := by
  intro other
  rw [Bindings.find?_insert, List.lookup_cons]
  by_cases hname : name = other
  · subst hname
    simpa using hv
  · have hother := h other
    rwa [if_neg hname, beq_eq_false_iff_ne.mpr (Ne.symm hname)]

theorem foldl {facts : List (Value → Prop)} {values : List Value}
    (hvalues : List.Forall₂ (fun P v => P v) facts values) (names : List String)
    (h : Describes known bindings) :
    Describes ((names.zip facts).reverse ++ known)
      ((names.zip values).foldl (fun bindings (name, value) => bindings.insert name value)
        bindings) := by
  induction hvalues generalizing names known bindings with
  | nil => simpa using h
  | @cons P v facts values hv _ ih =>
    cases names with
    | nil => simpa using h
    | cons name names => simpa using ih names (h.insert hv name)

/-- Names that are bound to values one after another. -/
theorem ofPairs {facts : List (Value → Prop)} {values : List Value}
    (hvalues : List.Forall₂ (fun P v => P v) facts values) (names : List String) :
    Describes (names.zip facts).reverse (.ofPairs (names.zip values)) := by
  have h := Describes.nil.foldl hvalues names
  rwa [List.append_nil] at h

end Knowledge.Describes

namespace Store.Knows

variable {s s' : Store} {scope other : ScopeId} {known added : Knowledge} {bindings : Bindings}

theorem congr (h : s.Knows scope known)
    (hlookup : ∀ name, s'.lookup? other name = s.lookup? scope name) : s'.Knows other known := by
  intro name P hname
  rw [hlookup]
  exact h name P hname

/-- A new frame whose bindings are known. -/
theorem withFrame (h : s.Knows scope known) (hplaced : s.Placed scope)
    (hbindings : added.Describes bindings) :
    (s.withFrame scope bindings).2.Knows (s.withFrame scope bindings).1 (added ++ known) := by
  intro name P hname
  have hname' := hbindings name
  rw [List.lookup_append] at hname
  rw [lookup?_withFrame hplaced]
  cases hadded : added.lookup name with
  | some Q =>
    rw [hadded] at hname hname'
    cases hname
    obtain ⟨v, hv, hP⟩ := hname'
    exact ⟨v, by rw [hv]; rfl, hP⟩
  | none =>
    rw [hadded] at hname hname'
    rw [hname']
    exact h name P hname

end Store.Knows

end TowerLisp
