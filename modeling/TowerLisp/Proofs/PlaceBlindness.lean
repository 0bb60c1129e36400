import TowerLisp.Builtin.Effect
import TowerLisp.Eval.Quasi
import TowerLisp.Proofs.Outcomes
import TowerLisp.Proofs.Places

/-!
What does not see places. A procedure is printed by its name and its parameters, so
neither the text of a value nor what the procedures of the language compute depends on
the places in the store. Input, output and files have nothing to do with the store.
-/

namespace TowerLisp

variable (s : Store)

namespace Value

theorem atomText_erase (v : Value) : v.atomText s.erase = v.atomText s := by
  cases v with
  | closure id =>
    rw [atomText, atomText, Store.closure?_erase]
    cases s.closure? id <;> rfl
  | foreign value => cases value <;> rfl
  | _ => rfl

mutual

theorem printed_erase (v : Value) : v.printed s.erase = v.printed s := by
  cases v with
  | pair head tail =>
    rw [printed, printed, printed_erase head]
    exact bind_congr fun first => by rw [printedTail_erase tail]
  | _ => exact atomText_erase s _

theorem printedTail_erase (v : Value) (front : String) :
    v.printedTail s.erase front = v.printedTail s front := by
  cases v with
  | nil => rfl
  | pair head tail =>
    rw [printedTail, printedTail, printed_erase head]
    exact bind_congr fun next => printedTail_erase tail _
  | _ => simp only [printedTail, atomText_erase]

end

@[simp] theorem shown_erase : shown s.erase = shown s := by
  funext v
  unfold shown
  split
  · rfl
  · rfl
  · rfl
  · exact printed_erase s _

@[simp] theorem display_erase : display s.erase = display s := by
  funext v
  rw [display, display, printed_erase]

@[simp] theorem printedWithin_erase (limit : Nat) :
    printedWithin limit s.erase = printedWithin limit s := by
  funext v
  rw [printedWithin, printedWithin, printed_erase]

@[simp] theorem displayWithin_erase (limit : Nat) :
    displayWithin limit s.erase = displayWithin limit s := by
  funext v
  rw [displayWithin, displayWithin, printedWithin_erase]

@[simp] theorem mistyped_erase {α : Type} : mistyped (α := α) s.erase = mistyped s := by
  funext issue v
  rw [mistyped, mistyped, shown_erase]

@[simp] theorem asNumber_erase : asNumber s.erase = asNumber s := by
  funext v
  cases v <;> simp [asNumber]

@[simp] theorem asOperand_erase (procedure : String) :
    asOperand s.erase procedure = asOperand s procedure := by
  funext v
  cases v <;> simp [asOperand]

@[simp] theorem first_erase : first s.erase = first s := by
  funext v
  cases v <;> simp [first]

@[simp] theorem rest_erase : rest s.erase = rest s := by
  funext v
  cases v <;> simp [rest]

@[simp] theorem length_erase : length s.erase = length s := by
  funext v
  cases v <;> simp [length]

end Value

namespace Vector

@[simp] theorem ofValues_erase : ofValues s.erase = ofValues s := by
  funext args
  induction args with
  | nil => rfl
  | cons v rest ih => cases v <;> simp [ofValues, ih]

@[simp] theorem mapWith_erase : mapWith s.erase = mapWith s := by
  funext op items operand
  cases operand <;> simp [mapWith]

@[simp] theorem scale_erase : scale s.erase = scale s := by
  funext items factor
  simp [scale]

@[simp] theorem divide_erase : divide s.erase = divide s := by
  funext items divisor
  simp [divide]

end Vector

namespace Builtin

@[simp] theorem foldNumbers_erase : foldNumbers s.erase = foldNumbers s := by
  funext procedure op acc args
  induction args generalizing acc with
  | nil => rfl
  | cons v rest ih => simp [foldNumbers, ih]

@[simp] theorem divideVector_erase : divideVector s.erase = divideVector s := by
  funext acc args
  induction args generalizing acc with
  | nil => rfl
  | cons v rest ih => simp [divideVector, ih]

theorem sum_erase (args : List Value) : sum s.erase args = sum s args := by
  unfold sum
  split <;> simp

theorem difference_erase (args : List Value) : difference s.erase args = difference s args := by
  unfold difference
  split <;> simp

theorem product_erase (args : List Value) : product s.erase args = product s args := by
  unfold product
  split <;> simp

theorem quotient_erase (args : List Value) : quotient s.erase args = quotient s args := by
  unfold quotient
  split <;> simp

theorem stringToList_erase (v : Value) : stringToList s.erase v = stringToList s v := by
  cases v <;> simp [stringToList]

theorem listToString_erase (v : Value) : listToString s.erase v = listToString s v := by
  cases v <;> simp [listToString]

/-- The procedures that only compute do not see places. -/
theorem compute?_erase (p : Primitive) (args : List Value) :
    compute? s.erase p args = compute? s p args := by
  simp only [compute?, sum_erase, difference_erase, product_erase, quotient_erase, onNumbers,
    testNumbers, onNumber, magnitude, isEven, makeVector, splitByComma, stringToList_erase,
    listToString_erase, Value.asNumber_erase, Value.asOperand_erase, Value.first_erase,
    Value.rest_erase, Value.length_erase, Value.display_erase, Vector.ofValues_erase]

end Builtin

namespace EvalM

variable {α β : Type}

/-- The world that a computation ends in, with a value or with a fault. -/
def endWorld : EStateM.Result Fault World α → World
  | .ok _ w => w
  | .error _ w => w

/-- A result in a world without places. -/
def eraseResult : EStateM.Result Fault World α → EStateM.Result Fault World α
  | .ok a w => .ok a w.erase
  | .error fault w => .error fault w.erase

/-- Computations that leave the store and the settings alone and do not see places. -/
structure Aside (m : EvalM α) : Prop where
  store_eq : ∀ w, (endWorld (m w)).store = w.store
  settings_eq : ∀ w, (endWorld (m w)).settings = w.settings
  blind : ∀ w, m w.erase = eraseResult (m w)

theorem aside_pure (a : α) : Aside (pure a) :=
  ⟨fun _ => rfl, fun _ => rfl, fun _ => rfl⟩

theorem aside_throw (fault : Fault) : Aside (throw fault : EvalM α) :=
  ⟨fun _ => rfl, fun _ => rfl, fun _ => rfl⟩

theorem aside_lift (result : Except Fault α) : Aside (lift result) := by
  cases result with
  | ok a => exact aside_pure a
  | error fault => exact aside_throw fault

theorem Aside.bind {m : EvalM α} {f : α → EvalM β} (hm : Aside m) (hf : ∀ a, Aside (f a)) :
    Aside (m >>= f) := by
  have hbind : ∀ w, (m >>= f) w = EStateM.bind m f w := fun _ => rfl
  refine ⟨fun w => ?_, fun w => ?_, fun w => ?_⟩
  · have hstore := hm.store_eq w
    rw [hbind, EStateM.bind]
    cases h : m w with
    | error fault v => rwa [h] at hstore
    | ok a v =>
      rw [h] at hstore
      exact ((hf a).store_eq v).trans hstore
  · have hsettings := hm.settings_eq w
    rw [hbind, EStateM.bind]
    cases h : m w with
    | error fault v => rwa [h] at hsettings
    | ok a v =>
      rw [h] at hsettings
      exact ((hf a).settings_eq v).trans hsettings
  · rw [hbind, hbind, EStateM.bind, EStateM.bind, hm.blind]
    cases h : m w with
    | error fault v => rfl
    | ok a v => exact (hf a).blind v

/-- What is done after a look at the world does not depend on its places. -/
theorem aside_get {f : World → EvalM β} (hf : ∀ w, Aside (f w))
    (hblind : ∀ w : World, f w.erase = f w) : Aside (get >>= f) := by
  refine ⟨fun w => (hf w).store_eq w, fun w => (hf w).settings_eq w, fun w => ?_⟩
  change f w.erase w.erase = eraseResult (f w w)
  rw [hblind, (hf w).blind]

theorem aside_modifyGet {f : World → α × World}
    (hkeeps : ∀ w, (f w).2.store = w.store ∧ (f w).2.settings = w.settings)
    (hblind : ∀ w, f w.erase = ((f w).1, (f w).2.erase)) : Aside (modifyGet f) := by
  refine ⟨fun w => (hkeeps w).1, fun w => (hkeeps w).2, fun w => ?_⟩
  change EStateM.Result.ok (f w.erase).1 (f w.erase).2 = .ok (f w).1 (f w).2.erase
  rw [hblind]

theorem aside_modify {f : World → World}
    (hkeeps : ∀ w, (f w).store = w.store ∧ (f w).settings = w.settings)
    (hblind : ∀ w, f w.erase = (f w).erase) : Aside (modify f) :=
  aside_modifyGet hkeeps fun w => by rw [hblind]

theorem aside_withStore {f : Store → Except Fault α} (hblind : ∀ s : Store, f s.erase = f s) :
    Aside (withStore f) :=
  aside_get (fun w => aside_lift (f w.store)) fun w => congrArg lift (hblind w.store)

theorem aside_demand (d : Demand) : Aside (demand d) :=
  aside_modify (fun _ => ⟨rfl, rfl⟩) fun _ => rfl

theorem aside_demandFiles (paths : List Path) : Aside (demandFiles paths) := by
  induction paths with
  | nil => exact aside_pure ()
  | cons p rest ih => exact (aside_demand (.file p)).bind fun _ => ih

theorem aside_mark (v : Value) : Aside (mark v) := by
  unfold mark
  split
  · exact aside_modifyGet (fun _ => ⟨rfl, rfl⟩) fun _ => rfl
  · exact aside_pure v

theorem aside_write (text : String) : Aside (write text) :=
  aside_modify (fun _ => ⟨rfl, rfl⟩) fun _ => rfl

theorem aside_printed (v : Value) : Aside (printed v) := by
  refine aside_get (fun w => aside_lift _) fun w => ?_
  change lift (v.printedWithin w.settings.depthLimit w.store.erase) = _
  rw [Value.printedWithin_erase]

theorem aside_display (v : Value) : Aside (display v) := by
  refine aside_get (fun w => aside_lift _) fun w => ?_
  change lift (v.displayWithin w.settings.depthLimit w.store.erase) = _
  rw [Value.displayWithin_erase]

theorem aside_lookup (scope : ScopeId) (name : String) : Aside (lookup scope name) := by
  refine aside_get (fun w => ?_) fun _ => rfl
  split
  · exact aside_pure _
  · exact aside_throw _

theorem aside_mistyped {issue : String → TypeIssue} (v : Value) :
    Aside (withStore fun store => v.mistyped (α := α) store issue) :=
  aside_withStore fun s => by rw [Value.mistyped_erase]

end EvalM

theorem Evaluator.aside_spliced (v : Value) : (spliced v).Aside := by
  unfold spliced
  split
  · exact EvalM.aside_pure _
  · exact EvalM.aside_pure _
  · exact EvalM.aside_mistyped _

namespace Builtin

open EvalM

theorem aside_print (v : Value) : (print v).Aside :=
  (aside_display v).bind fun _ => (aside_write _).bind fun _ => aside_pure _

theorem aside_printf (v : Value) : (printf v).Aside :=
  (aside_display v).bind fun _ => (aside_write _).bind fun _ => aside_pure _

theorem aside_readAll (source : List Char) : (readAll source).Aside :=
  aside_get (fun _ => aside_lift _) fun _ => rfl

theorem aside_takeInputLine : takeInputLine.Aside := by
  refine aside_get (fun w => ?_) fun _ => rfl
  dsimp only
  split
  · exact (aside_demand .line).bind fun _ =>
      aside_modifyGet (fun _ => ⟨rfl, rfl⟩) fun _ => rfl
  · exact aside_modifyGet (fun _ => ⟨rfl, rfl⟩) fun _ => rfl

theorem aside_asPath (procedure : String) (v : Value) : (asPath procedure v).Aside := by
  unfold asPath
  split
  · exact (aside_demand _).bind fun _ => aside_pure _
  · exact aside_mistyped v

theorem aside_fileLines? (p : Path) : (fileLines? p).Aside :=
  (aside_demand _).bind fun _ => aside_get (fun _ => (aside_lift _).bind fun _ => aside_pure _)
    fun _ => rfl

theorem aside_readFromFile (v : Value) : (readFromFile v).Aside := by
  unfold readFromFile
  split
  · exact aside_pure _
  · refine (aside_fileLines? _).bind fun lines => ?_
    cases lines <;> exact aside_pure _

theorem aside_readLines (v : Value) : (readLines v).Aside := by
  unfold readLines
  split
  · exact aside_pure _
  · refine (aside_fileLines? _).bind fun lines => ?_
    cases lines <;> exact aside_pure _

theorem aside_setFiles (files : FileTree) :
    (modify fun w => { w with files } : EvalM Unit).Aside :=
  aside_modify (fun _ => ⟨rfl, rfl⟩) fun _ => rfl

theorem aside_changeFiles (change : FileTree → Except Fault (Option FileTree)) :
    (changeFiles change).Aside := by
  refine aside_get (fun w => (aside_lift _).bind fun changed => ?_) fun _ => rfl
  cases changed with
  | none => exact aside_pure _
  | some files => exact (aside_setFiles files).bind fun _ => aside_pure _

theorem aside_makeFile (v : Value) : (makeFile v).Aside := by
  refine (aside_asPath _ v).bind fun p => (aside_changeFiles _).bind fun made => ?_
  cases made <;> exact aside_pure _

theorem aside_makeDirectory (v : Value) : (makeDirectory v).Aside := by
  refine (aside_asPath _ v).bind fun p => aside_get (fun w => ?_) fun _ => rfl
  refine (aside_lift _).bind fun entry => ?_
  cases entry with
  | some entry => exact aside_pure _
  | none => exact (aside_lift _).bind fun made => (aside_setFiles made.1).bind fun _ => aside_pure _

theorem aside_writeToFile (target v : Value) : (writeToFile target v).Aside :=
  (aside_asPath _ target).bind fun _ => (aside_display v).bind fun _ =>
    (aside_changeFiles _).bind fun _ => aside_pure _

theorem aside_writeRows (p : Path) (written : String) (rows : List Value) :
    (writeLines.writeRows p written rows).Aside := by
  induction rows generalizing written with
  | nil => exact (aside_changeFiles _).bind fun _ => aside_pure _
  | cons row rest ih =>
    refine aside_get (fun w => ?_) fun w => ?_
    · split
      · exact ih _
      · exact (aside_changeFiles _).bind fun _ => aside_throw _
    · have hrow : row.displayWithin w.erase.settings.depthLimit w.erase.store =
          row.displayWithin w.settings.depthLimit w.store :=
        congrFun (Value.displayWithin_erase _ _) row
      rw [hrow]

theorem aside_writeLines (target v : Value) : (writeLines target v).Aside := by
  refine (aside_asPath _ target).bind fun p => ?_
  split
  · exact aside_mistyped v
  · refine (aside_changeFiles _).bind fun written => ?_
    cases written with
    | false => exact aside_pure _
    | true => exact aside_writeRows _ _ _

theorem aside_sourceName (v : Value) : (sourceName v).Aside := by
  unfold sourceName
  cases v with
  | symbol name => exact aside_pure _
  | _ => exact (aside_display _).bind fun _ => aside_pure _

theorem aside_findSource (name : String) : (findSource name).Aside :=
  aside_get (fun _ => (aside_demandFiles _).bind fun _ => aside_lift _) fun _ => rfl

theorem aside_sourceText (p : Path) : (sourceText p).Aside :=
  aside_get (fun _ => (aside_lift _).bind fun _ => aside_pure _) fun _ => rfl

end Builtin

end TowerLisp
