import Mathlib.Tactic.ByContra
import TowerLisp.Proofs.Frames

/-!
The law of scopes. Whatever is done with scopes, their chains run from newer frames to
older ones, a root ends its chain, and what lies behind a frame stays there. A frame that
is neither a root nor open keeps its bindings. A definition is seen through its own scope
alone; at a root, and likewise in an open frame, a binding is seen through the scopes that
have the frame in their chain and do not bind the name in front of it.
-/

namespace TowerLisp

namespace Store

/-- A name is bound to a value as it is seen through some scopes; all else is seen as
before. -/
def Rebinds (s s' : Store) (name : String) (value : Value) (through : ScopeId → Prop) : Prop :=
  ∀ scope key,
    (key = name ∧ through scope → s'.lookup? scope key = some value) ∧
    (¬ (key = name ∧ through scope) → s'.lookup? scope key = s.lookup? scope key)

/-- A frame lies on the chain of a scope, and no frame in front of it binds the name. -/
def Reveals (s : Store) (scope : ScopeId) (frame : FrameId) (name : String) : Prop :=
  ∃ inner outer, s.chain scope = inner ++ frame :: outer ∧
    ∀ f ∈ inner, (s.bindings f).find? name = none

section Lookups

theorem findSome?_congr {old new : FrameId → Option Value} {chain : List FrameId}
    (h : ∀ f ∈ chain, new f = old f) : chain.findSome? new = chain.findSome? old := by
  induction chain with
  | nil => rfl
  | cons f chain ih =>
    rw [List.forall_mem_cons] at h
    rw [List.findSome?_cons, List.findSome?_cons, h.1, ih h.2]

variable {old new : FrameId → Option Value} {frame : FrameId} {value : Value}

theorem findSome?_of_revealed (hnew : ∀ f, new f = if f = frame then some value else old f)
    (inner outer : List FrameId) (hinner : ∀ f ∈ inner, old f = none) :
    (inner ++ frame :: outer).findSome? new = some value := by
  induction inner with
  | nil => simp [hnew]
  | cons f inner ih =>
    rw [List.forall_mem_cons] at hinner
    by_cases hf : f = frame
    · simp [hnew, hf]
    · have hnone : new f = none := by rw [hnew, if_neg hf, hinner.1]
      rw [List.cons_append, List.findSome?_cons, hnone]
      exact ih hinner.2

theorem findSome?_of_hidden (hnew : ∀ f, new f = if f = frame then some value else old f)
    (chain : List FrameId)
    (hhidden : ∀ inner outer, chain = inner ++ frame :: outer → ∃ f ∈ inner, old f ≠ none) :
    chain.findSome? new = chain.findSome? old := by
  induction chain with
  | nil => rfl
  | cons f chain ih =>
    have hf : f ≠ frame := by
      rintro rfl
      obtain ⟨g, hg, -⟩ := hhidden [] chain rfl
      cases hg
    rw [List.findSome?_cons, List.findSome?_cons, hnew, if_neg hf]
    cases hold : old f with
    | some bound => rfl
    | none =>
      refine ih fun inner outer hchain => ?_
      obtain ⟨g, hg, hbound⟩ := hhidden (f :: inner) outer (by rw [hchain]; rfl)
      rcases List.mem_cons.mp hg with rfl | hg
      · exact absurd hold hbound
      · exact ⟨g, hg, hbound⟩

end Lookups

variable {s s' s'' : Store}

theorem rebinds_bindIn {frame : FrameId} (h : frame < s.frames.size) (name : String)
    (value : Value) :
    s.Rebinds (s.bindIn frame name value) name value fun scope => s.Reveals scope frame name := by
  intro scope key
  have hfind : ∀ f, ((s.bindIn frame name value).bindings f).find? key =
      if f = frame ∧ key = name then some value else (s.bindings f).find? key := by
    intro f
    rw [bindings_bindIn s frame f name value h]
    by_cases hf : f = frame <;> simp [hf, Bindings.find?_insert, eq_comm]
  constructor
  · rintro ⟨rfl, inner, outer, hchain, hinner⟩
    rw [lookup?, chain_bindIn, hchain]
    exact findSome?_of_revealed (fun f => by simpa using hfind f) inner outer hinner
  · intro hother
    rw [lookup?, lookup?, chain_bindIn]
    by_cases hkey : key = name
    · subst hkey
      refine findSome?_of_hidden (fun f => by simpa using hfind f) _ fun inner outer hchain => ?_
      by_contra hnone
      refine hother ⟨rfl, inner, outer, hchain, fun f hf => ?_⟩
      by_contra hbound
      exact hnone ⟨f, hf, hbound⟩
    · exact findSome?_congr fun f _ => by simp [hfind, hkey]

/-- A new frame in front of a chain is seen through its own scope alone. -/
theorem rebinds_pushBinding {scope : ScopeId} (h : scope < s.scopes.size)
    (hbounded : ∀ other, ∀ f ∈ s.chain other, f < s.frames.size) (name : String)
    (value : Value) :
    s.Rebinds (s.pushBinding scope name value) name value (· = scope) := by
  intro other key
  have hold : (s.chain other).findSome?
        (fun f => ((s.pushBinding scope name value).bindings f).find? key) =
      s.lookup? other key := by
    rw [lookup?]
    refine findSome?_congr fun f hf => ?_
    rw [bindings_pushBinding, if_neg (Nat.ne_of_lt (hbounded other f hf))]
  rw [lookup?, chain_pushBinding s scope other name value h]
  constructor
  · rintro ⟨rfl, rfl⟩
    simp [Bindings.find?]
  · intro hother
    by_cases hscope : other = scope
    · have hkey : name ≠ key := fun hkey => hother ⟨hkey.symm, hscope⟩
      rw [if_pos hscope, List.findSome?_cons, bindings_pushBinding, if_pos rfl]
      simpa [Bindings.find?, hkey] using hold
    · rw [if_neg hscope, hold]

/-- Chains run from newer to older frames of the store, a root ends its chain, and
`link` tells what lies behind each frame. -/
structure Sound (s : Store) (link : FrameId → List FrameId) : Prop where
  descending : ∀ scope, (s.chain scope).Pairwise (· > ·)
  bounded : ∀ scope, ∀ f ∈ s.chain scope, f < s.frames.size
  root_last : ∀ scope inner f outer, s.chain scope = inner ++ f :: outer →
    s.isRootFrame f = true → outer = []
  linked : ∀ scope inner f outer, s.chain scope = inner ++ f :: outer → outer = link f

/-- What one operation may do to chains: each of them is one that there was, or the
newest frame in front of `outer`, which is one that there was. A root has nothing
behind it. -/
structure Moves (s s' : Store) : Prop where
  size_le : s.frames.size ≤ s'.frames.size
  isRootFrame_eq : ∀ f < s.frames.size, s'.isRootFrame f = s.isRootFrame f
  chains : ∃ base, (s'.isRootFrame s.frames.size = true → s.chain base = []) ∧
    ∀ scope, (∃ old, s'.chain scope = s.chain old) ∨
      s.frames.size < s'.frames.size ∧ s'.chain scope = s.frames.size :: s.chain base

/-- A new frame is linked to what lies behind it, and all other links stay. -/
theorem Moves.sound (h : Moves s s') {link : FrameId → List FrameId} (hs : Sound s link) :
    ∃ link', (∀ f < s.frames.size, link' f = link f) ∧ Sound s' link' := by
  obtain ⟨base, hroot, hchains⟩ := h.chains
  refine ⟨fun f => if f = s.frames.size then s.chain base else link f,
    fun f hf => if_neg (Nat.ne_of_lt hf), ?_, ?_, ?_, ?_⟩
  · intro scope
    obtain ⟨old, hold⟩ | ⟨-, hnew⟩ := hchains scope
    · rw [hold]
      exact hs.descending old
    · rw [hnew]
      exact List.pairwise_cons.mpr ⟨hs.bounded base, hs.descending base⟩
  · intro scope f hf
    obtain ⟨old, hold⟩ | ⟨hsize, hnew⟩ := hchains scope
    · rw [hold] at hf
      exact Nat.lt_of_lt_of_le (hs.bounded old f hf) h.size_le
    · rw [hnew] at hf
      rcases List.mem_cons.mp hf with rfl | hf
      · exact hsize
      · exact Nat.lt_of_lt_of_le (hs.bounded base f hf) h.size_le
  · intro scope inner f outer hchain hf
    have hlast : ∀ old inner, s.chain old = inner ++ f :: outer → outer = [] := by
      intro old inner hold
      have hbound : f < s.frames.size := hs.bounded old f (by rw [hold]; simp)
      rw [h.isRootFrame_eq f hbound] at hf
      exact hs.root_last old inner f outer hold hf
    obtain ⟨old, hold⟩ | ⟨-, hnew⟩ := hchains scope
    · exact hlast old inner (hold ▸ hchain)
    · rw [hnew] at hchain
      rcases List.cons_eq_append_iff.mp hchain with ⟨-, hcons⟩ | ⟨rest, -, hbase⟩
      · cases hcons
        exact hroot hf
      · exact hlast base rest hbase
  · intro scope inner f outer hchain
    have hlink : ∀ old inner, s.chain old = inner ++ f :: outer →
        outer = if f = s.frames.size then s.chain base else link f := by
      intro old inner hold
      have hbound : f < s.frames.size := hs.bounded old f (by rw [hold]; simp)
      rw [if_neg (Nat.ne_of_lt hbound)]
      exact hs.linked old inner f outer hold
    obtain ⟨old, hold⟩ | ⟨-, hnew⟩ := hchains scope
    · exact hlink old inner (hold ▸ hchain)
    · rw [hnew] at hchain
      rcases List.cons_eq_append_iff.mp hchain with ⟨-, hcons⟩ | ⟨rest, -, hbase⟩
      · cases hcons
        exact (if_pos rfl).symm
      · exact hlink base rest hbase

theorem moves_addScope (s : Store) (base : ScopeId) : Moves s (s.addScope (s.chain base)).2 where
  size_le := Nat.le_refl _
  isRootFrame_eq _ _ := rfl
  chains := by
    refine ⟨s.scopes.size, fun _ => chain_of_size_le s _ (Nat.le_refl _), fun scope => Or.inl ?_⟩
    rw [chain_addScope]
    split
    · exact ⟨base, rfl⟩
    · exact ⟨scope, rfl⟩

/-- A new frame with a new scope, in front of a chain. -/
theorem moves_addFrame (s : Store) (frame : Frame) (base : ScopeId)
    (hroot : frame.isRoot = true → s.chain base = []) :
    Moves s ((s.addFrame frame).2.addScope (s.frames.size :: s.chain base)).2 where
  size_le := by simp
  isRootFrame_eq f hf := by simp [Nat.ne_of_lt hf]
  chains := by
    refine ⟨base, by simpa using hroot, fun scope => ?_⟩
    rw [chain_addScope]
    split
    · exact Or.inr ⟨by simp, rfl⟩
    · exact Or.inl ⟨scope, rfl⟩

theorem moves_bindIn (s : Store) (frame : FrameId) (name : String) (value : Value) :
    Moves s (s.bindIn frame name value) where
  size_le := by simp
  isRootFrame_eq _ _ := by simp
  chains := ⟨s.scopes.size, fun _ => chain_of_size_le s _ (Nat.le_refl _),
    fun scope => Or.inl ⟨scope, rfl⟩⟩

theorem moves_pushBinding {scope : ScopeId} (h : scope < s.scopes.size) (name : String)
    (value : Value) : Moves s (s.pushBinding scope name value) where
  size_le := by simp
  isRootFrame_eq _ _ := by simp
  chains := by
    refine ⟨scope, fun hroot => ?_, fun other => ?_⟩
    · rw [isRootFrame_pushBinding, isRootFrame_of_size_le s _ (Nat.le_refl _)] at hroot
      cases hroot
    · rw [chain_pushBinding s scope other name value h]
      split
      · rename_i hother
        exact Or.inr ⟨by simp, by rw [hother]⟩
      · exact Or.inl ⟨other, rfl⟩

end Store

open Store

/-- A store and those of its frames that may still be filled. -/
structure Scoping where
  store : Store
  openFrames : List FrameId

/-- What can be done with scopes. -/
inductive ScopeOperation where
  | newRoot
  | newDetached
  | withFrame (scope : ScopeId) (bindings : Bindings)
  | fork (scope : ScopeId)
  | withOpenFrame (scope : ScopeId)
  | define (scope : ScopeId) (name : String) (value : Value)
  | update (scope : ScopeId) (entries : List (BindingName × Value))
  | fill (frame : FrameId) (name : String) (value : Value)

namespace Scoping

/-- The scope that an operation names is there, and a frame that it fills is open. -/
def admits (s : Scoping) : ScopeOperation → Bool
  | .newRoot | .newDetached => true
  | .withFrame scope _ | .fork scope | .withOpenFrame scope => scope < s.store.scopes.size
  | .define scope _ _ | .update scope _ => scope < s.store.scopes.size
  | .fill frame _ _ => s.openFrames.contains frame

/-- Carries out an operation. -/
def perform (s : Scoping) : ScopeOperation → Scoping
  | .newRoot => { s with store := s.store.newRoot.2 }
  | .newDetached => { s with store := s.store.newDetached.2 }
  | .withFrame scope bindings => { s with store := (s.store.withFrame scope bindings).2 }
  | .fork scope => { s with store := (s.store.fork scope).2 }
  | .withOpenFrame scope =>
    let (_, frame, store) := s.store.withOpenFrame scope
    ⟨store, frame :: s.openFrames⟩
  | .define scope name value => { s with store := s.store.define scope name value }
  | .update scope entries => { s with store := (s.store.update scope entries).1 }
  | .fill frame name value => { s with store := s.store.bindIn frame name value }

/-- Carries out those of some operations, one after another, that are possible. -/
def run (s : Scoping) (operations : List ScopeOperation) : Scoping :=
  operations.foldl (fun s op => if s.admits op then s.perform op else s) s

/-- There are no scopes yet. -/
def start : Scoping := ⟨.empty, []⟩

/-- What stays as it is over any number of operations. -/
structure Evolves (s s' : Scoping) : Prop where
  size_le : s.store.frames.size ≤ s'.store.frames.size
  isRootFrame_eq : ∀ f < s.store.frames.size, s'.store.isRootFrame f = s.store.isRootFrame f
  sound : ∀ link, Sound s.store link →
    ∃ link', (∀ f < s.store.frames.size, link' f = link f) ∧ Sound s'.store link'
  closed : ∀ f < s.store.frames.size, f ∉ s.openFrames → f ∉ s'.openFrames
  opened : (∀ f ∈ s.openFrames, f < s.store.frames.size) →
    ∀ f ∈ s'.openFrames, f < s'.store.frames.size
  bindings_eq : ∀ f < s.store.frames.size, s.store.isRootFrame f = false → f ∉ s.openFrames →
    s'.store.bindings f = s.store.bindings f

namespace Evolves

variable {s s' s'' : Scoping}

theorem refl (s : Scoping) : Evolves s s :=
  ⟨Nat.le_refl _, fun _ _ => rfl, fun link h => ⟨link, fun _ _ => rfl, h⟩, fun _ _ h => h,
    fun h => h, fun _ _ _ _ => rfl⟩

theorem trans (h : Evolves s s') (h' : Evolves s' s'') : Evolves s s'' where
  size_le := Nat.le_trans h.size_le h'.size_le
  isRootFrame_eq f hf := by
    rw [h'.isRootFrame_eq f (Nat.lt_of_lt_of_le hf h.size_le), h.isRootFrame_eq f hf]
  sound link hs := by
    obtain ⟨link', hlink', hs'⟩ := h.sound link hs
    obtain ⟨link'', hlink'', hs''⟩ := h'.sound link' hs'
    refine ⟨link'', fun f hf => ?_, hs''⟩
    rw [hlink'' f (Nat.lt_of_lt_of_le hf h.size_le), hlink' f hf]
  closed f hf hopen :=
    h'.closed f (Nat.lt_of_lt_of_le hf h.size_le) (h.closed f hf hopen)
  opened hopen := h'.opened (h.opened hopen)
  bindings_eq f hf hroot hopen := by
    have hf' : f < s'.store.frames.size := Nat.lt_of_lt_of_le hf h.size_le
    rw [h'.bindings_eq f hf' (by rw [h.isRootFrame_eq f hf, hroot]) (h.closed f hf hopen),
      h.bindings_eq f hf hroot hopen]

/-- A move that changes no ordinary frame and opens none but the newest. -/
theorem of_moves (h : Moves s.store s'.store)
    (hopen : ∀ f ∈ s'.openFrames, f ∈ s.openFrames ∨
      f = s.store.frames.size ∧ f < s'.store.frames.size)
    (hbindings : ∀ f < s.store.frames.size, s.store.isRootFrame f = false → f ∉ s.openFrames →
      s'.store.bindings f = s.store.bindings f) : Evolves s s' where
  size_le := h.size_le
  isRootFrame_eq := h.isRootFrame_eq
  sound _ hs := h.sound hs
  closed f hf hclosed hmem := by
    rcases hopen f hmem with hold | ⟨hnew, -⟩
    · exact hclosed hold
    · exact absurd hnew (Nat.ne_of_lt hf)
  opened hopened f hmem := by
    rcases hopen f hmem with hold | ⟨-, hbound⟩
    · exact Nat.lt_of_lt_of_le (hopened f hold) h.size_le
    · exact hbound
  bindings_eq := hbindings

theorem define {scope : ScopeId} (h : scope < s.store.scopes.size) (name : String)
    (value : Value) : Evolves s { s with store := s.store.define scope name value } := by
  obtain ⟨frame, rest, -, hroot, hdefine⟩ | ⟨-, hdefine⟩ := define_cases s.store scope name value
  · refine of_moves ?_ (fun _ => Or.inl) fun f hf hinner _ => ?_ <;> dsimp only <;>
      rw [hdefine]
    · exact moves_bindIn s.store frame name value
    · refine bindings_bindIn_of_ne s.store frame f name value ?_
      rintro rfl
      rw [hroot] at hinner
      cases hinner
  · refine of_moves ?_ (fun _ => Or.inl) fun f hf _ _ => ?_ <;> dsimp only <;> rw [hdefine]
    · exact moves_pushBinding h name value
    · rw [bindings_pushBinding, if_neg (Nat.ne_of_lt hf)]

/-- Definitions one after another. -/
theorem update {scope : ScopeId} (h : scope < s.store.scopes.size)
    (entries : List (BindingName × Value)) :
    Evolves s { s with store := (s.store.update scope entries).1 } := by
  induction entries generalizing s with
  | nil => exact refl s
  | cons entry rest ih =>
    obtain ⟨name, value⟩ := entry
    cases hname : name.resolve with
    | error fault =>
      rw [Store.update, hname]
      exact refl s
    | ok name =>
      rw [Store.update, hname]
      have hsize : scope < (s.store.define scope name value).scopes.size := by
        obtain ⟨frame, rest, -, -, hdefine⟩ | ⟨-, hdefine⟩ :=
          define_cases s.store scope name value
        · rw [hdefine]
          exact h
        · rw [hdefine, pushBinding]
          simpa using h
      exact (define h name value).trans (ih hsize)

/-- A new frame with a new scope. -/
theorem addFrame (frame : Frame) (base : ScopeId) (openFrames : List FrameId)
    (hroot : frame.isRoot = true → s.store.chain base = [])
    (hopen : ∀ f ∈ openFrames, f ∈ s.openFrames ∨ f = s.store.frames.size) :
    Evolves s ⟨((s.store.addFrame frame).2.addScope (s.store.frames.size :: s.store.chain base)).2,
      openFrames⟩ := by
  refine of_moves (moves_addFrame s.store frame base hroot) (fun f hmem => ?_) fun f hf _ _ => ?_
  · rcases hopen f hmem with hold | hnew
    · exact Or.inl hold
    · exact Or.inr ⟨hnew, by simp [hnew]⟩
  · simp [Nat.ne_of_lt hf]

theorem perform {op : ScopeOperation} (h : s.admits op = true) : Evolves s (s.perform op) := by
  have hnone : s.store.chain s.store.scopes.size = [] :=
    chain_of_size_le s.store _ (Nat.le_refl _)
  cases op with
  | newRoot =>
    have hnew := addFrame (s := s) ⟨true, []⟩ s.store.scopes.size s.openFrames
      (fun _ => hnone) (fun _ => Or.inl)
    rwa [hnone] at hnew
  | newDetached =>
    have hnew := addFrame (s := s) ⟨false, []⟩ s.store.scopes.size s.openFrames
      nofun (fun _ => Or.inl)
    rwa [hnone] at hnew
  | withFrame scope bindings => exact addFrame ⟨false, bindings⟩ scope _ nofun (fun _ => Or.inl)
  | fork scope =>
    exact of_moves (moves_addScope s.store scope) (fun _ => Or.inl) (fun _ _ _ _ => rfl)
  | withOpenFrame scope =>
    exact addFrame ⟨false, []⟩ scope _ nofun fun f hf =>
      (List.mem_cons.mp hf).elim Or.inr Or.inl
  | define scope name value => exact define (by simpa [admits] using h) name value
  | update scope entries => exact update (by simpa [admits] using h) entries
  | fill frame name value =>
    refine of_moves (moves_bindIn s.store frame name value) (fun _ => Or.inl)
      fun f hf _ hopen => bindings_bindIn_of_ne s.store frame f name value ?_
    rintro rfl
    exact hopen (by simpa [admits] using h)

theorem run (s : Scoping) (operations : List ScopeOperation) : Evolves s (s.run operations) := by
  induction operations generalizing s with
  | nil => exact refl s
  | cons op rest ih =>
    have hstep : Evolves s (if s.admits op then s.perform op else s) := by
      split
      · exact perform ‹_›
      · exact refl s
    exact hstep.trans (ih _)

end Evolves

end Scoping

theorem Store.sound_empty : Sound .empty fun _ => [] where
  descending _ := List.Pairwise.nil
  bounded _ _ hf := nomatch hf
  root_last _ inner f outer hchain _ := by
    cases inner <;> cases hchain
  linked _ inner f outer hchain := by
    cases inner <;> cases hchain

/-- Whatever has been done with scopes, in whatever order, their chains have no frame
twice and a root at the end at most. Whatever is done afterwards, what lies behind a frame
stays there, and frames that are neither roots nor open keep their bindings. A definition
in a scope that is not a root is seen through that scope alone, one at a root through the
scopes whose chains end there and that do not bind the name further in, and a binding in
an open frame through the scopes in which no frame in front of it binds the name. -/
theorem scopes_isolated (before after : List ScopeOperation) :
    let s := Scoping.start.run before
    let s' := s.run after
    (∀ scope, (s.store.chain scope).Pairwise (· > ·)) ∧
    (∀ scope inner frame outer, s.store.chain scope = inner ++ frame :: outer →
      s.store.isRootFrame frame = true → outer = []) ∧
    (∀ scope scope' inner inner' frame outer outer',
      s.store.chain scope = inner ++ frame :: outer →
      s'.store.chain scope' = inner' ++ frame :: outer' → outer' = outer) ∧
    (∀ frame < s.store.frames.size, s.store.isRootFrame frame = false → frame ∉ s.openFrames →
      s'.store.bindings frame = s.store.bindings frame) ∧
    (∀ scope name value, scope < s.store.scopes.size → s.store.isRoot scope = false →
      s.store.Rebinds (s.store.define scope name value) name value (· = scope)) ∧
    (∀ scope root rest name value, s.store.chain scope = root :: rest →
      s.store.isRootFrame root = true →
      s.store.Rebinds (s.store.define scope name value) name value fun other =>
        ∃ inner, s.store.chain other = inner ++ [root] ∧
          ∀ f ∈ inner, (s.store.bindings f).find? name = none) ∧
    (∀ frame ∈ s.openFrames, ∀ name value,
      s.store.Rebinds (s.store.bindIn frame name value) name value fun other =>
        s.store.Reveals other frame name) := by
  intro s s'
  have hbefore : Scoping.Evolves .start s := .run .start before
  obtain ⟨link, -, hsound⟩ := hbefore.sound _ sound_empty
  have hafter : Scoping.Evolves s s' := .run s after
  obtain ⟨link', hlink, hsound'⟩ := hafter.sound link hsound
  refine ⟨hsound.descending, hsound.root_last, ?_, hafter.bindings_eq, ?_, ?_, ?_⟩
  · intro scope scope' inner inner' frame outer outer' hchain hchain'
    have hbound : frame < s.store.frames.size :=
      hsound.bounded scope frame (by rw [hchain]; simp)
    rw [hsound'.linked scope' inner' frame outer' hchain', hlink frame hbound,
      ← hsound.linked scope inner frame outer hchain]
  · intro scope name value hscope hinner
    rw [define_of_inner s.store scope name value hinner]
    exact rebinds_pushBinding hscope hsound.bounded name value
  · intro scope root rest name value hchain hroot
    rw [define_of_root s.store scope root name value hchain hroot]
    have hreveals : ∀ other, s.store.Reveals other root name ↔
        ∃ inner, s.store.chain other = inner ++ [root] ∧
          ∀ f ∈ inner, (s.store.bindings f).find? name = none := by
      intro other
      constructor
      · rintro ⟨inner, outer, hother, hinner⟩
        have houter : outer = [] := hsound.root_last other inner root outer hother hroot
        subst houter
        exact ⟨inner, hother, hinner⟩
      · rintro ⟨inner, hother, hinner⟩
        exact ⟨inner, [], hother, hinner⟩
    simp only [← hreveals]
    exact rebinds_bindIn (lt_size_of_isRootFrame s.store root hroot) name value
  · intro frame hframe name value
    exact rebinds_bindIn (hbefore.opened nofun frame hframe) name value

theorem scopes_isolated_shared :
    let s := (Scoping.start.run [.newRoot, .withFrame 0 [("x", .int 1)], .fork 1,
      .withOpenFrame 1]).store
    (1 < s.scopes.size ∧ s.isRoot 1 = false ∧ s.chain 1 = s.chain 2) ∧
      (s.define 1 "x" (.int 2)).lookup? 1 "x" = some (.int 2) ∧
      (s.define 1 "x" (.int 2)).lookup? 2 "x" = some (.int 1) ∧
      (s.define 0 "y" (.int 3)).lookup? 3 "y" = some (.int 3) ∧
      (s.bindIn 2 "x" (.int 4)).lookup? 3 "x" = some (.int 4) ∧
      (s.bindIn 2 "x" (.int 4)).lookup? 1 "x" = some (.int 1) := by
  intro s
  obtain ⟨-, -, -, -, hinner, hroot, hopen⟩ := scopes_isolated [.newRoot,
    .withFrame 0 [("x", .int 1)], .fork 1, .withOpenFrame 1] []
  have hscope : 1 < s.scopes.size ∧ s.isRoot 1 = false ∧ s.chain 1 = s.chain 2 := by decide
  have hdefine := hinner 1 "x" (.int 2) hscope.1 hscope.2.1
  have hglobal := hroot 0 0 [] "y" (.int 3) rfl rfl
  have hfill := hopen 2 (List.mem_singleton_self 2) "x" (.int 4)
  refine ⟨hscope, (hdefine 1 "x").1 ⟨rfl, rfl⟩, ?_, (hglobal 3 "y").1 ⟨rfl, [2, 1], rfl, ?_⟩,
    (hfill 3 "x").1 ⟨rfl, [], [1, 0], rfl, nofun⟩, ?_⟩
  · rw [(hdefine 2 "x").2 (by decide)]
    rfl
  · decide
  · refine ((hfill 1 "x").2 ?_).trans rfl
    rintro ⟨-, inner, outer, hchain, -⟩
    have hchain : [1, 0] = inner ++ 2 :: outer := hchain
    have hmem : 2 ∈ [1, 0] := by
      rw [hchain]
      simp
    exact absurd hmem (by decide)

end TowerLisp
