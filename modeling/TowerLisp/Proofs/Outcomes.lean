import TowerLisp.Eval.World

/-!
Sequences of computations that may end in a fault, with and without a world. A
sequence ends well exactly if its parts do.
-/

namespace TowerLisp

section Faults

variable {α β : Type}

@[simp] theorem ok_bind (a : α) (f : α → Except Fault β) : (Except.ok a >>= f) = f a := rfl

@[simp] theorem error_bind (fault : Fault) (f : α → Except Fault β) :
    (Except.error fault >>= f) = .error fault := rfl

theorem bind_eq_ok {m : Except Fault α} {f : α → Except Fault β} {b : β}
    (h : m >>= f = .ok b) : ∃ a, m = .ok a ∧ f a = .ok b := by
  cases m with
  | ok a => exact ⟨a, rfl, h⟩
  | error fault => cases h

theorem exists_ok_of_isOk {m : Except Fault α} (h : m.isOk = true) : ∃ a, m = .ok a := by
  cases m with
  | ok a => exact ⟨a, rfl⟩
  | error fault => cases h

/-- Two computations end in results, or in faults, that are related. -/
inductive Corresponds {α' : Type} (F : Fault → Fault → Prop) (R : α → α' → Prop) :
    Except Fault α → Except Fault α' → Prop where
  | ok {a : α} {b : α'} : R a b → Corresponds F R (.ok a) (.ok b)
  | error {f g : Fault} : F f g → Corresponds F R (.error f) (.error g)

theorem Corresponds.bind {α' β' : Type} {F : Fault → Fault → Prop} {R : α → α' → Prop}
    {S : β → β' → Prop} {m : Except Fault α} {n : Except Fault α'} {f : α → Except Fault β}
    {g : α' → Except Fault β'} (hmn : Corresponds F R m n)
    (hfg : ∀ {a b}, R a b → Corresponds F S (f a) (g b)) :
    Corresponds F S (m >>= f) (n >>= g) := by
  cases hmn with
  | ok hR => exact hfg hR
  | error hF => exact .error hF

end Faults

theorem Value.mistyped_ne_ok {α : Type} {store : Store} {issue : String → TypeIssue} {v : Value}
    {a : α} : v.mistyped store issue ≠ .ok a := by
  intro h
  obtain ⟨_, _, h⟩ := bind_eq_ok h
  cases h

namespace EvalM

variable {α β : Type}

/-- What comes after a computation that ends well. -/
theorem bind_of_ok {m : EvalM α} {f : α → EvalM β} {a : α} {w w' : World}
    (h : m w = .ok a w') : (m >>= f) w = f a w' := by
  change EStateM.bind m f w = f a w'
  rw [EStateM.bind, h]

theorem bind_eq_ok {m : EvalM α} {f : α → EvalM β} {w w' : World} {b : β}
    (h : (m >>= f) w = .ok b w') : ∃ a v, m w = .ok a v ∧ f a v = .ok b w' := by
  change EStateM.bind m f w = .ok b w' at h
  cases hm : m w with
  | ok a v => exact ⟨a, v, rfl, by simpa [EStateM.bind, hm] using h⟩
  | error fault v => simp [EStateM.bind, hm] at h

theorem bind_eq_ok_iff {m : EvalM α} {f : α → EvalM β} {w w' : World} {b : β} :
    (m >>= f) w = .ok b w' ↔ ∃ a v, m w = .ok a v ∧ f a v = .ok b w' := by
  refine ⟨bind_eq_ok, ?_⟩
  rintro ⟨a, v, hm, hf⟩
  change EStateM.bind m f w = .ok b w'
  rw [EStateM.bind, hm]
  exact hf

theorem pure_eq_ok_iff {a b : α} {w w' : World} :
    (pure a : EvalM α) w = .ok b w' ↔ a = b ∧ w = w' := by
  change EStateM.Result.ok a w = .ok b w' ↔ _
  rw [EStateM.Result.ok.injEq]

theorem lift_eq_ok_iff {m : Except Fault α} {a : α} {w w' : World} :
    lift m w = .ok a w' ↔ m = .ok a ∧ w = w' := by
  cases m with
  | ok b =>
    rw [Except.ok.injEq]
    exact pure_eq_ok_iff
  | error fault =>
    constructor
    · exact nofun
    · exact fun h => nomatch h.1

theorem map_eq_ok {m : EvalM α} {f : α → β} {w w' : World} {b : β}
    (h : (f <$> m) w = .ok b w') : ∃ a, m w = .ok a w' ∧ f a = b := by
  rw [← bind_pure_comp] at h
  obtain ⟨a, v, hm, hf⟩ := bind_eq_ok h
  cases hf
  exact ⟨a, hm, rfl⟩

/-- A computation ends well, in what passes a test. -/
def returns (m : EvalM α) (test : α → World → Bool) (w : World) : Bool :=
  match m w with
  | .ok a w' => test a w'
  | .error _ _ => false

theorem exists_of_returns {m : EvalM α} {test : α → World → Bool} {w : World}
    (h : returns m test w = true) : ∃ a w', m w = .ok a w' ∧ test a w' = true := by
  unfold returns at h
  cases hm : m w with
  | ok a w' => exact ⟨a, w', rfl, by rwa [hm] at h⟩
  | error fault w' => rw [hm] at h; cases h

/-- A computation ends in a fault that passes a test. -/
def faults (m : EvalM α) (test : Fault → Bool) (w : World) : Bool :=
  match m w with
  | .ok _ _ => false
  | .error fault _ => test fault

theorem exists_of_faults {m : EvalM α} {test : Fault → Bool} {w : World}
    (h : faults m test w = true) : ∃ fault w', m w = .error fault w' ∧ test fault = true := by
  unfold faults at h
  cases hm : m w with
  | ok a w' => rw [hm] at h; cases h
  | error fault w' => exact ⟨fault, w', rfl, by rwa [hm] at h⟩

end EvalM

end TowerLisp
