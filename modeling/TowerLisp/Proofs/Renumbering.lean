import Mathlib.Logic.Function.Basic
import TowerLisp.Builtin.Pure
import TowerLisp.Eval.Datum

/-!
Procedures under other numbers. A value is renumbered by giving each procedure in it the number
that a map assigns to its own. If the procedures of two stores agree along the map, then a value
and the renumbered one have the same text; and what the procedures of the language compute from
renumbered values is the renumbered result, if the map keeps different procedures apart.
-/

namespace TowerLisp

namespace Value

variable (σ : ClosureId → ClosureId)

/-- A value in which procedures have other numbers. -/
def renumber : Value → Value
  | pair head tail => pair head.renumber tail.renumber
  | closure id => closure (σ id)
  | v => v

@[simp] theorem renumber_id : renumber id = id := by
  funext v
  induction v with
  | pair head tail ihhead ihtail => simp [renumber, ihhead, ihtail]
  | _ => rfl

section Shape

@[simp] theorem renumber_ofBool (b : Bool) : (ofBool b).renumber σ = ofBool b := by
  cases b <;> rfl

@[simp] theorem renumber_int (n : Int) : (int n).renumber σ = int n := rfl

@[simp] theorem isTrue_renumber (v : Value) : (v.renumber σ).isTrue = v.isTrue := by
  cases v <;> rfl

@[simp] theorem renumber_ofList (items : List Value) (tail : Value) :
    (ofList items tail).renumber σ = ofList (items.map (renumber σ)) (tail.renumber σ) := by
  induction items with
  | nil => rfl
  | cons item items ih => exact congrArg (pair _) ih

@[simp] theorem renumber_list (items : List Value) :
    (list items).renumber σ = list (items.map (renumber σ)) :=
  renumber_ofList σ items nil

theorem spineLoop_renumber (v : Value) (reversed : List Value) :
    spineLoop (reversed.map (renumber σ)) (v.renumber σ) =
      ((spineLoop reversed v).1.map (renumber σ), (spineLoop reversed v).2.renumber σ) := by
  induction v generalizing reversed with
  | pair head tail _ ih => exact ih (head :: reversed)
  | _ => simp [spineLoop, renumber]

theorem spine_renumber (v : Value) :
    (v.renumber σ).spine = (v.spine.1.map (renumber σ), v.spine.2.renumber σ) :=
  spineLoop_renumber σ v []

@[simp] theorem list?_renumber (v : Value) :
    (v.renumber σ).list? = v.list?.map (List.map (renumber σ)) := by
  rw [list?, list?, spine_renumber]
  obtain ⟨items, last⟩ := v.spine
  cases last <;> rfl

@[simp] theorem lastTail_renumber (v : Value) :
    (v.renumber σ).lastTail = v.lastTail.renumber σ := by
  induction v with
  | pair head tail _ ih => exact ih
  | _ => rfl

@[simp] theorem isList_renumber (v : Value) : (v.renumber σ).isList = v.isList := by
  rw [isList, isList, lastTail_renumber]
  cases v.lastTail <;> rfl

@[simp] theorem char?_renumber (v : Value) : (v.renumber σ).char? = v.char? := by
  cases v <;> rfl

@[simp] theorem renumber_chars (text : String) : (chars text).renumber σ = chars text := by
  rw [chars, renumber_list, List.map_map]
  rfl

@[simp] theorem text?_renumber (v : Value) : (v.renumber σ).text? = v.text? := by
  cases v with
  | pair head tail =>
    have hlist := list?_renumber σ (pair head tail)
    have hchars : char? ∘ renumber σ = char? := funext (char?_renumber σ)
    change (do
      let items ← ((pair head tail).renumber σ).list?
      let cs ← items.mapM char?
      return String.ofList cs) = _
    rw [hlist]
    cases hitems : (pair head tail).list? with
    | none => simp [text?, hitems]
    | some items => simp [text?, hitems, List.mapM_map, hchars]
  | _ => rfl

theorem renumber_cons (a b : Value) :
    (cons a b).renumber σ = cons (a.renumber σ) (b.renumber σ) := by
  cases b with
  | string text =>
    cases a with
    | string front =>
      simp only [cons, renumber]
      split <;> simp [renumber]
    | _ => simp [cons, renumber]
  | _ => cases a <;> rfl

@[simp] theorem nestsWithin_renumber (v : Value) (limit : Nat) :
    (v.renumber σ).nestsWithin limit = v.nestsWithin limit := by
  induction v generalizing limit with
  | pair head tail ihhead ihtail =>
    cases limit with
    | zero => rfl
    | succ limit => simp only [renumber, nestsWithin, ihhead, ihtail]
  | _ => rfl

@[simp] theorem lacksMarks_renumber (v : Value) : (v.renumber σ).lacksMarks = v.lacksMarks := by
  cases v <;> rfl

theorem fillMarks_renumber (v : Value) (next : Nat) :
    (v.renumber σ).fillMarks next =
      ((v.fillMarks next).1.renumber σ, (v.fillMarks next).2) := by
  cases v <;> rfl

end Shape

/-- A procedure equals only itself, also under another number. -/
theorem equal_renumber (hσ : Function.Injective σ) (a b : Value) :
    (a.renumber σ).equal (b.renumber σ) = a.equal b := by
  induction a generalizing b with
  | pair head tail ihhead ihtail =>
    cases b with
    | pair head' tail' => simp only [renumber, equal, ihhead, ihtail]
    | _ => rfl
  | closure id =>
    cases b with
    | closure id' => simp [renumber, equal, hσ.eq_iff, beq_eq_decide]
    | _ => rfl
  | _ => cases b <;> rfl

/-- The procedures of two stores agree along a renumbering. -/
abbrev Follows (s t : Store) : Prop :=
  ∀ id, t.closure? (σ id) = s.closure? id

section Text

variable {σ} {s t : Store} (h : Follows σ s t)

include h

theorem atomText_renumber (v : Value) : (v.renumber σ).atomText t = v.atomText s := by
  cases v with
  | closure id => simp only [renumber, atomText, h id]
  | foreign value => cases value <;> rfl
  | _ => rfl

mutual

theorem printed_renumber (v : Value) : (v.renumber σ).printed t = v.printed s := by
  cases v with
  | pair head tail =>
    rw [renumber, printed, printed, printed_renumber head]
    exact bind_congr fun first => by rw [printedTail_renumber tail]
  | _ => exact atomText_renumber h _

theorem printedTail_renumber (v : Value) (front : String) :
    (v.renumber σ).printedTail t front = v.printedTail s front := by
  cases v with
  | nil => rfl
  | pair head tail =>
    rw [renumber, printedTail, printedTail, printed_renumber head]
    exact bind_congr fun next => printedTail_renumber tail _
  | closure id =>
    have hatom := atomText_renumber h (closure id)
    simp only [renumber] at hatom
    simp only [renumber, printedTail, hatom]
  | foreign value => cases value <;> rfl
  | _ => rfl

end

theorem shown_renumber (v : Value) : (v.renumber σ).shown t = v.shown s := by
  cases v with
  | foreign value => cases value <;> rfl
  | string text => rfl
  | _ => exact printed_renumber h _

theorem display_renumber (v : Value) : (v.renumber σ).display t = v.display s := by
  rw [display, display, text?_renumber, printed_renumber h]

theorem printedWithin_renumber (limit : Nat) (v : Value) :
    (v.renumber σ).printedWithin limit t = v.printedWithin limit s := by
  rw [printedWithin, printedWithin, nestsWithin_renumber, printed_renumber h]

theorem displayWithin_renumber (limit : Nat) (v : Value) :
    (v.renumber σ).displayWithin limit t = v.displayWithin limit s := by
  rw [displayWithin, displayWithin, text?_renumber, printedWithin_renumber h]

theorem mistyped_renumber {α : Type} (issue : String → TypeIssue) (v : Value) :
    (v.renumber σ).mistyped (α := α) t issue = v.mistyped s issue := by
  rw [mistyped, mistyped, shown_renumber h]

theorem asNumber_renumber (v : Value) : (v.renumber σ).asNumber t = v.asNumber s := by
  cases v with
  | number n => rfl
  | _ => exact mistyped_renumber h _ _

theorem asOperand_renumber (procedure : String) (v : Value) :
    (v.renumber σ).asOperand t procedure = v.asOperand s procedure := by
  cases v with
  | number n => rfl
  | _ => exact mistyped_renumber h _ _

/-- What shows a value in a fault gives no value that could be renumbered. -/
theorem map_mistyped (issue : String → TypeIssue) (v : Value) :
    (v.renumber σ).mistyped t issue = renumber σ <$> (v.mistyped s issue : Except Fault Value) := by
  rw [mistyped_renumber h, mistyped, map_bind]
  rfl

theorem first_renumber (v : Value) : (v.renumber σ).first t = renumber σ <$> v.first s := by
  cases v with
  | pair head tail => rfl
  | string text =>
    simp only [renumber, first]
    cases text.toList <;> rfl
  | _ => exact map_mistyped h _ _

theorem rest_renumber (v : Value) : (v.renumber σ).rest t = renumber σ <$> v.rest s := by
  cases v with
  | pair head tail => rfl
  | string text =>
    simp only [renumber, rest]
    cases text.toList <;> rfl
  | _ => exact map_mistyped h _ _

theorem length_renumber (v : Value) : (v.renumber σ).length t = v.length s := by
  cases v with
  | nil => rfl
  | string text => rfl
  | pair head tail =>
    have hlist := list?_renumber σ (pair head tail)
    have hshown := mistyped_renumber h (α := Nat) .lengthOfImproper (pair head tail)
    simp only [renumber] at hlist hshown
    simp only [renumber, length, hlist, hshown]
    cases (pair head tail).list? with
    | none => rfl
    | some items => simp
  | _ => exact mistyped_renumber h _ _

end Text

end Value

namespace Builtin

open Value (renumber)

variable (σ : ClosureId → ClosureId)

theorem asVector_renumber (procedure : String) (v : Value) :
    asVector procedure (v.renumber σ) = asVector procedure v := by
  cases v <;> rfl

theorem foldVectors_renumber (procedure : String)
    (op : List Number → List Number → Except Fault (List Number)) (acc : List Number)
    (args : List Value) :
    foldVectors procedure op acc (args.map (renumber σ)) = foldVectors procedure op acc args := by
  induction args generalizing acc with
  | nil => rfl
  | cons v rest ih => simp only [List.map_cons, foldVectors, asVector_renumber, ih]

end Builtin

section Computing

variable {σ : ClosureId → ClosureId} {s t : Store} (h : Value.Follows σ s t)

include h

theorem Vector.ofValues_renumber (args : List Value) :
    ofValues t (args.map (Value.renumber σ)) = ofValues s args := by
  induction args with
  | nil => rfl
  | cons v rest ih =>
    cases v with
    | number n => simp only [List.map_cons, Value.renumber, ofValues, ih]
    | _ => exact Value.mistyped_renumber h _ _

namespace Builtin

open Value (renumber)

theorem foldNumbers_renumber (procedure : String) (op : Number → Number → Except Fault Number)
    (acc : Number) (args : List Value) :
    foldNumbers t procedure op acc (args.map (renumber σ)) =
      foldNumbers s procedure op acc args := by
  induction args generalizing acc with
  | nil => rfl
  | cons v rest ih => simp only [List.map_cons, foldNumbers, Value.asOperand_renumber h, ih]

theorem divideVector_renumber (acc : List Number) (args : List Value) :
    divideVector t acc (args.map (renumber σ)) = divideVector s acc args := by
  induction args generalizing acc with
  | nil => rfl
  | cons v rest ih =>
    have hdivide (n : Number) : Vector.divide t acc (.number n) = Vector.divide s acc (.number n) :=
      rfl
    simp only [List.map_cons, divideVector, Value.asOperand_renumber h, ih, hdivide]

theorem sum_renumber (args : List Value) :
    sum t (args.map (renumber σ)) = renumber σ <$> sum s args := by
  have hnumbers := foldNumbers_renumber h "+" Number.add .zero args
  cases args with
  | nil => rfl
  | cons v rest =>
    cases v with
    | vector items =>
      simp only [List.map_cons, renumber, sum, foldVectors_renumber, map_bind, map_pure]
    | _ => simp only [List.map_cons, renumber, sum, map_bind, map_pure, ← hnumbers]

theorem difference_renumber (args : List Value) :
    difference t (args.map (renumber σ)) = renumber σ <$> difference s args := by
  match args with
  | [] => rfl
  | [v] =>
    have hoperand := Value.asOperand_renumber h "-" v
    cases v with
    | vector items =>
      simp only [List.map_cons, List.map_nil, renumber, difference, map_bind, map_pure]
      rfl
    | _ =>
      simp only [List.map_cons, List.map_nil, renumber, difference, map_bind, map_pure, ← hoperand]
  | v :: w :: rest =>
    have hoperand := Value.asOperand_renumber h "-" v
    have hrest (acc : Number) := foldNumbers_renumber h "-" Number.sub acc (w :: rest)
    have hvectors (acc : List Number) := foldVectors_renumber σ "-" Vector.sub acc (w :: rest)
    rw [List.map_cons] at hrest hvectors
    cases v with
    | vector items =>
      simp only [List.map_cons, renumber, difference, map_bind, map_pure, ← hvectors]
    | _ =>
      simp only [List.map_cons, renumber, difference, map_bind, map_pure, ← hoperand, ← hrest]

theorem product_renumber (args : List Value) :
    product t (args.map (renumber σ)) = renumber σ <$> product s args := by
  have hnumbers := foldNumbers_renumber h "*" Number.mul .one args
  match args with
  | [] => rfl
  | [v] =>
    cases v with
    | vector items => rfl
    | _ =>
      simp only [List.map_cons, List.map_nil, renumber, product, map_bind, map_pure, ← hnumbers]
  | [v, w] =>
    have hoperand := Value.asOperand_renumber h "*" w
    cases v with
    | vector items =>
      simp only [List.map_cons, List.map_nil, renumber, product, map_bind, map_pure, hoperand]
      rfl
    | _ =>
      simp only [List.map_cons, List.map_nil, renumber, product, map_bind, map_pure, ← hnumbers]
  | v :: _ :: _ :: _ =>
    cases v with
    | vector items => rfl
    | _ => simp only [List.map_cons, renumber, product, map_bind, map_pure, ← hnumbers]

theorem quotient_renumber (args : List Value) :
    quotient t (args.map (renumber σ)) = renumber σ <$> quotient s args := by
  cases args with
  | nil => rfl
  | cons v rest =>
    have hoperand := Value.asOperand_renumber h "/" v
    have hrest (acc : Number) := foldNumbers_renumber h "/" Number.div acc rest
    cases v with
    | vector items =>
      simp only [List.map_cons, renumber, quotient, map_bind, map_pure, divideVector_renumber h]
    | _ =>
      simp only [List.map_cons, renumber, quotient, map_bind, map_pure, ← hoperand, hrest]

theorem onNumbers_renumber (op : Number → Number → Except Fault Number) (a b : Value) :
    onNumbers t op (a.renumber σ) (b.renumber σ) = renumber σ <$> onNumbers s op a b := by
  simp only [onNumbers, Value.asNumber_renumber h, map_bind, map_pure, renumber]

theorem testNumbers_renumber (test : Number → Number → Except Fault Bool) (a b : Value) :
    testNumbers t test (a.renumber σ) (b.renumber σ) = renumber σ <$> testNumbers s test a b := by
  simp only [testNumbers, Value.asNumber_renumber h, map_bind, map_pure, Value.renumber_ofBool]

theorem onNumber_renumber (op : Number → Except Fault Number) (v : Value) :
    onNumber t op (v.renumber σ) = renumber σ <$> onNumber s op v := by
  simp only [onNumber, Value.asNumber_renumber h, map_bind, map_pure, renumber]

theorem isEven_renumber (procedure : String) (v : Value) :
    isEven t procedure (v.renumber σ) = isEven s procedure v := by
  simp only [isEven, Value.asOperand_renumber h]

theorem makeVector_renumber (args : List Value) :
    makeVector t (args.map (renumber σ)) = renumber σ <$> makeVector s args := by
  simp only [makeVector, Vector.ofValues_renumber h, map_bind, map_pure, renumber]

theorem magnitude_renumber (v : Value) :
    magnitude t (v.renumber σ) = renumber σ <$> magnitude s v := by
  simp only [magnitude, Value.asOperand_renumber h, map_bind]
  refine bind_congr fun n => ?_
  split <;> simp only [map_bind, map_pure, renumber]

theorem stringToList_renumber (v : Value) :
    stringToList t (v.renumber σ) = renumber σ <$> stringToList s v := by
  cases v with
  | string text => exact congrArg Except.ok (Value.renumber_chars σ text).symm
  | _ => exact Value.map_mistyped h _ _

theorem listToString_renumber (v : Value) :
    listToString t (v.renumber σ) = renumber σ <$> listToString s v := by
  have htext := Value.text?_renumber σ v
  have hshown := Value.map_mistyped h .listToString v
  cases v with
  | nil => rfl
  | pair head tail =>
    simp only [renumber] at htext hshown
    simp only [renumber, listToString, htext, hshown]
    split <;> rfl
  | string text => rfl
  | _ => exact hshown

theorem splitByComma_renumber (v : Value) :
    splitByComma t (v.renumber σ) = renumber σ <$> splitByComma s v := by
  have hparts : renumber σ ∘ (fun part : List Char => Value.string (String.ofList part)) =
      fun part => .string (String.ofList part) := rfl
  simp only [splitByComma, Value.display_renumber h, map_bind, map_pure, Value.renumber_list,
    List.map_map, hparts]

end Builtin

end Computing

namespace Builtin

open Value (renumber)

variable {σ : ClosureId → ClosureId} {s t : Store}

@[simp] theorem isNull_renumber (v : Value) : isNull (v.renumber σ) = isNull v := by
  cases v <;> rfl

@[simp] theorem isSymbol_renumber (v : Value) : isSymbol (v.renumber σ) = isSymbol v := by
  cases v <;> rfl

@[simp] theorem isProcedure_renumber (v : Value) : isProcedure (v.renumber σ) = isProcedure v := by
  cases v <;> rfl

@[simp] theorem isNumber_renumber (v : Value) : isNumber (v.renumber σ) = isNumber v := by
  cases v <;> rfl

@[simp] theorem isString_renumber (v : Value) : isString (v.renumber σ) = isString v := by
  cases v <;> rfl

theorem symbolToString_renumber (v : Value) :
    symbolToString (v.renumber σ) = (symbolToString v).renumber σ := by
  cases v <;> rfl

theorem stringToSymbol_renumber (v : Value) :
    stringToSymbol (v.renumber σ) = (stringToSymbol v).renumber σ := by
  cases v with
  | string text =>
    simp only [renumber, stringToSymbol]
    split <;> rfl
  | _ => rfl

/-- What holds no procedure is not changed. -/
theorem map_renumber_map {α : Type} {f : α → Value} (hf : ∀ a, (f a).renumber σ = f a)
    (result : Except Fault α) : renumber σ <$> (f <$> result) = f <$> result := by
  cases result with
  | ok a => exact congrArg Except.ok (hf a)
  | error fault => rfl

/-- What is computed from renumbered values is the renumbered result. -/
theorem compute?_renumber (hσ : Function.Injective σ) (h : Value.Follows σ s t) (p : Primitive)
    (args : List Value) :
    compute? t p (args.map (renumber σ)) =
      (compute? s p args).map fun result => renumber σ <$> result := by
  have hok (v : Value) : renumber σ <$> (.ok v : Except Fault Value) = .ok (v.renumber σ) := rfl
  have hbool := map_renumber_map (σ := σ) (Value.renumber_ofBool σ)
  have hneg := map_renumber_map (σ := σ) fun even => Value.renumber_ofBool σ !even
  have hint := map_renumber_map (σ := σ) fun n : Int => Value.renumber_int σ n
  have hsize := map_renumber_map (σ := σ) fun items : List Number =>
    Value.renumber_int σ items.length
  cases p
  case add => exact congrArg some (sum_renumber h args)
  case sub => exact congrArg some (difference_renumber h args)
  case mul => exact congrArg some (product_renumber h args)
  case div => exact congrArg some (quotient_renumber h args)
  case list => exact congrArg some (congrArg Except.ok (Value.renumber_list σ args).symm)
  case vector => exact congrArg some (makeVector_renumber h args)
  -- the others take one or two values, and compute nothing from any other number of them
  all_goals
    obtain _ | ⟨a, _ | ⟨b, _ | ⟨c, rest⟩⟩⟩ := args
    all_goals first
      | rfl
      | simp only [List.map_nil, List.map_cons, compute?, Option.map_some,
          onNumbers_renumber h, testNumbers_renumber h, onNumber_renumber h, magnitude_renumber h,
          Value.equal_renumber σ hσ, hbool, hneg, hint, hsize, hok, isEven_renumber h,
          Value.isTrue_renumber, Value.isList_renumber, Value.first_renumber h,
          Value.rest_renumber h, Value.length_renumber h, stringToList_renumber h,
          listToString_renumber h, splitByComma_renumber h, asVector_renumber, isNull_renumber,
          isSymbol_renumber, isProcedure_renumber, isNumber_renumber, isString_renumber,
          symbolToString_renumber, stringToSymbol_renumber, Value.renumber_ofBool,
          Value.renumber_cons]

end Builtin

namespace Form

open Value (renumber)

variable (σ : ClosureId → ClosureId)

theorem map_numberValue (payload : Payload) :
    renumber σ <$> numberValue payload = numberValue payload := by
  cases payload <;> rfl

theorem map_stringValue (payload : Payload) :
    renumber σ <$> stringValue payload = stringValue payload := by
  cases payload <;> rfl

theorem map_leafDatum (token : Token) : renumber σ <$> leafDatum token = leafDatum token := by
  obtain ⟨tag, payload, place⟩ := token
  cases tag
  case number => exact map_numberValue σ payload
  case string | character => exact map_stringValue σ payload
  case boolean => exact congrArg Except.ok (Value.renumber_ofBool σ _)
  all_goals first
    | rfl
    | (simp only [leafDatum, Tag.keyword?, map_bind, map_pure]; rfl)

/-- What comes after a value without procedures sees the same value renumbered. -/
theorem map_bind_fixed {β : Type} {m : Except Fault Value} (hm : renumber σ <$> m = m)
    {f f' : Value → Except Fault β} {g : β → β} (hf : ∀ v, g <$> f v = f' (v.renumber σ)) :
    g <$> (m >>= f) = m >>= f' := by
  rw [map_bind, bind_congr hf, ← bind_map_left, hm]

mutual

/-- A quoted form denotes no procedure. -/
theorem map_datum (form : Form) : renumber σ <$> form.datum = form.datum := by
  obtain ⟨token, parts, compound⟩ := form
  unfold datum
  split
  · exact map_leafDatum σ token
  split
  · have hfirst := map_datumFirst parts
    cases hquoted : datumFirst parts with
    | error fault => rfl
    | ok quoted =>
      cases quoted with
      | none => rfl
      | some quoted =>
        rw [hquoted] at hfirst
        have hsame : quoted.renumber σ = quoted := Option.some.inj (Except.ok.inj hfirst)
        exact congrArg (fun v => Except.ok (tagged token.tag v)) hsame
  split
  · rfl
  split
  · refine map_bind_fixed σ (map_leafDatum σ token) fun head => ?_
    exact map_bind_fixed σ (map_datumList parts) fun rest => rfl
  · exact map_datumList parts

theorem map_datumFirst (forms : List Form) :
    Option.map (renumber σ) <$> datumFirst forms = datumFirst forms := by
  cases forms with
  | nil => rfl
  | cons first rest =>
    rw [datumFirst]
    exact map_bind_fixed σ (map_datum first) fun head => rfl

theorem map_datumList (forms : List Form) :
    renumber σ <$> datumList forms = datumList forms := by
  match forms with
  | [] => rfl
  | [⟨token, parts, compound⟩] =>
    unfold datumList
    split
    · have hfirst := map_datumFirst parts
      cases htail : datumFirst parts with
      | error fault => rfl
      | ok tail =>
        cases tail with
        | none => rfl
        | some tail =>
          rw [htail] at hfirst
          have hsame : tail.renumber σ = tail := Option.some.inj (Except.ok.inj hfirst)
          exact congrArg Except.ok hsame
    · exact map_bind_fixed σ (map_datum ⟨token, parts, compound⟩) fun head => rfl
  | first :: second :: rest =>
    rw [datumList]
    refine map_bind_fixed σ (map_datum first) fun head => ?_
    exact map_bind_fixed σ (map_datumList (second :: rest)) fun tail => rfl

end

end Form

namespace Bindings

variable (σ : ClosureId → ClosureId)

/-- Bindings to renumbered values. -/
def renumber (bindings : Bindings) : Bindings :=
  bindings.map fun entry => (entry.1, entry.2.renumber σ)

@[simp] theorem renumber_id (bindings : Bindings) : bindings.renumber id = bindings := by
  simp [renumber]

theorem find?_renumber (bindings : Bindings) (name : String) :
    (bindings.renumber σ).find? name = (bindings.find? name).map (Value.renumber σ) := by
  induction bindings with
  | nil => rfl
  | cons entry rest ih =>
    obtain ⟨key, value⟩ := entry
    change (if key = name then _ else Bindings.find? name (renumber σ rest)) =
      Option.map _ (if key = name then _ else Bindings.find? name rest)
    split
    · rfl
    · exact ih

theorem insert_renumber (bindings : Bindings) (name : String) (value : Value) :
    (bindings.insert name value).renumber σ =
      (bindings.renumber σ).insert name (value.renumber σ) := by
  induction bindings with
  | nil => rfl
  | cons entry rest ih =>
    obtain ⟨key, old⟩ := entry
    change renumber σ (if key = name then _ else (key, old) :: insert name value rest) =
      if key = name then _ else (key, old.renumber σ) :: insert name _ (renumber σ rest)
    split
    · rfl
    · exact congrArg _ ih

theorem ofPairs_renumber (pairs : List (String × Value)) :
    (ofPairs pairs).renumber σ = ofPairs (pairs.map (Prod.map id (Value.renumber σ))) := by
  have hfold (bindings : Bindings) :
      (pairs.foldl (fun bindings entry => bindings.insert entry.1 entry.2) bindings).renumber σ =
        (pairs.map (Prod.map id (Value.renumber σ))).foldl
          (fun bindings entry => bindings.insert entry.1 entry.2) (bindings.renumber σ) := by
    induction pairs generalizing bindings with
    | nil => rfl
    | cons entry rest ih =>
      rw [List.foldl_cons, ih, insert_renumber]
      rfl
  exact hfold []

end Bindings

end TowerLisp
