import TowerLisp.Value.Basic

/-!
Bindings of names to values, in the order in which the names were first bound.
-/

namespace TowerLisp

abbrev Bindings := List (String × Value)

namespace Bindings

/-- The value of a name. -/
def find? (name : String) : Bindings → Option Value
  | [] => none
  | (key, value) :: rest => if key = name then some value else find? name rest

/-- Binds a name. A name that is bound keeps its place. -/
def insert (name : String) (value : Value) : Bindings → Bindings
  | [] => [(name, value)]
  | (key, old) :: rest =>
    if key = name then (key, value) :: rest else (key, old) :: insert name value rest

/-- Binds names one after another; the last value of a name counts. -/
def ofPairs (pairs : List (String × Value)) : Bindings :=
  pairs.foldl (fun bindings (name, value) => bindings.insert name value) []

def names (bindings : Bindings) : List String :=
  bindings.map (·.1)

theorem find?_insert (name key : String) (value : Value) (bindings : Bindings) :
    (bindings.insert key value).find? name =
      if key = name then some value else bindings.find? name := by
  induction bindings with
  | nil => simp [insert, find?]
  | cons entry rest ih =>
    obtain ⟨first, old⟩ := entry
    by_cases hfirst : first = key
    · subst hfirst
      by_cases hname : first = name <;> simp [insert, find?, hname]
    · by_cases hname : first = name
      · subst hname
        simp [insert, find?, hfirst, Ne.symm hfirst]
      · simp [insert, find?, hfirst, hname, ih]

end Bindings

end TowerLisp
