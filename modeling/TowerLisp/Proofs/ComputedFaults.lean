import TowerLisp.Builtin.Pure
import TowerLisp.Number.Offered
import TowerLisp.Proofs.Outcomes

/-!
Faults of computing. Numbers and values are computed with no regard to source texts and
forms, so what goes wrong there blames an operand, and never a form. The lemmas are about
one function each and are put together by simplification.
-/

namespace TowerLisp

/-- Faults that blame a form: it is not written or shaped as it should be. -/
@[simp] def Fault.blamesForm : Fault → Bool
  | malformed _ _ => true
  | breakdown .missingPart | breakdown .wrongParts | breakdown .notText => true
  | _ => false

/-- What evaluation finds wrong with a form; the other issues are found while reading. -/
def SyntaxIssue.ofEvaluation : SyntaxIssue → Bool
  | cannotEvaluate _ | cannotEvaluateForm _ | defineForm | lambdaForm | lambdaFormParameters
  | letForm | quoteForm | quasiquoteForm | unquoteForm | spliceForm | spliceOutsideList => true
  | _ => false

/-- A computation whose faults blame no form. -/
def Blameless {α : Type} (m : Except Fault α) : Prop :=
  ∀ fault, m = .error fault → fault.blamesForm = false

section Sequences

variable {α β : Type}

@[simp] theorem blameless_ok (a : α) : Blameless (.ok a) := by
  rintro fault ⟨⟩

@[simp] theorem blameless_pure (a : α) : Blameless (pure a) :=
  blameless_ok a

@[simp] theorem blameless_error (fault : Fault) :
    Blameless (.error fault : Except Fault α) ↔ fault.blamesForm = false := by
  constructor
  · intro h
    exact h fault rfl
  · rintro h _ ⟨⟩
    exact h

@[simp] theorem blameless_bind (m : Except Fault α) (f : α → Except Fault β) :
    Blameless (m >>= f) ↔ Blameless m ∧ ∀ a, m = .ok a → Blameless (f a) := by
  cases m with
  | ok a => simp
  | error fault => simp

@[simp] theorem blameless_map (m : Except Fault α) (f : α → β) :
    Blameless (f <$> m) ↔ Blameless m := by
  rw [← bind_pure_comp, blameless_bind]
  simp

@[simp] theorem blameless_ite (p : Prop) [Decidable p] (m n : Except Fault α) :
    Blameless (if p then m else n) ↔ (p → Blameless m) ∧ (¬ p → Blameless n) := by
  split <;> simp [*]

theorem blameless_mapM {f : α → Except Fault β} (h : ∀ a, Blameless (f a)) (items : List α) :
    Blameless (items.mapM f) := by
  induction items with
  | nil => simp
  | cons a rest ih => simp [List.mapM_cons, h, ih]

theorem blameless_foldlM {f : β → α → Except Fault β} (h : ∀ b a, Blameless (f b a)) (b : β)
    (items : List α) : Blameless (items.foldlM f b) := by
  induction items generalizing b with
  | nil => simp
  | cons a rest ih => simp [List.foldlM_cons, h, ih]

end Sequences

section Decimals

variable (p : Precision) (x y : Decimal)

@[simp] theorem blameless_round (negative : Bool) (coefficient : Nat) (exponent : Int) :
    Blameless (p.round negative coefficient exponent) := by
  simp [Precision.round]

namespace Decimal

@[simp] theorem blameless_invalid : Blameless invalid := by
  simp [invalid]

@[simp] theorem blameless_plus : Blameless (x.plus p) := by
  cases x <;> simp [plus]

@[simp] theorem blameless_negate : Blameless (x.negate p) := by
  cases x <;> simp [negate]

@[simp] theorem blameless_add : Blameless (add p x y) := by
  cases x <;> cases y <;> simp [add]

@[simp] theorem blameless_sub : Blameless (sub p x y) :=
  blameless_add p x y.flip

@[simp] theorem blameless_mul : Blameless (mul p x y) := by
  cases x <;> cases y <;> simp [mul]

@[simp] theorem blameless_div : Blameless (div p x y) := by
  cases x <;> cases y <;> simp [div]

end Decimal

end Decimals

section Scalars

namespace Scalar

variable (a b : Scalar)

@[simp] theorem blameless_toRat : Blameless a.toRat := by
  unfold toRat
  split
  case h_6 x _ => cases x.toRat? <;> simp
  case h_7 d _ => cases d.toRat? <;> simp
  all_goals simp

@[simp] theorem blameless_toBinary64 : Blameless a.toBinary64 := by
  cases a <;> simp [toBinary64, exactDouble]

@[simp] theorem blameless_toDecimal : Blameless a.toDecimal := by
  cases a <;> simp [toDecimal]

end Scalar

/-- An operation on scalars computes if it does so on decimals. -/
theorem ScalarOperation.blameless_apply {op : ScalarOperation}
    (h : ∀ x y, Blameless (op.onDecimal x y)) (a b : Scalar) : Blameless (op.apply a b) := by
  unfold ScalarOperation.apply
  split
  · simp
  · split <;> simp [applyDouble, h]

namespace Scalar

variable (a b : Scalar)

@[simp] theorem blameless_div : Blameless (a.div b) := by
  unfold div
  split <;> simp [divisionByZero, ScalarOperation.applyDouble]

@[simp] theorem blameless_neg : Blameless a.neg := by
  cases a <;> simp [neg]

@[simp] theorem blameless_compare : Blameless (a.compare b) := by
  unfold compare
  split
  · simp
  · split
    · simp
    · simp only [blameless_bind, blameless_toDecimal, true_and]
      intro x _ y _
      cases x.compare? y <;> simp
    · simp

@[simp] theorem blameless_floorMod : Blameless (a.floorMod b) := by
  unfold floorMod
  split <;> simp [floorModDouble, floorModDecimal]

@[simp] theorem blameless_text : Blameless a.text := by
  cases a <;> simp [text, integerText]

end Scalar

end Scalars

namespace Number

@[simp] theorem blameless_tooNested {α : Type} : Blameless (tooNested : Except Fault α) := by
  simp [tooNested, Fault.tooDeep]

section Arithmetic

variable (a b : Number)

theorem blameless_zipWithin {op : Scalar → Scalar → Except Fault Scalar}
    (h : ∀ s t, Blameless (op s t)) (height : Nat) : Blameless (zipWithin op height a b) := by
  fun_induction zipWithin op height a b <;> simp [*]

@[simp] theorem blameless_add : Blameless (add a b) :=
  blameless_zipWithin a b (ScalarOperation.blameless_apply fun _ _ => by
    simp [ScalarOperation.add]) _

@[simp] theorem blameless_sub : Blameless (sub a b) :=
  blameless_zipWithin a b (ScalarOperation.blameless_apply fun _ _ => by
    simp [ScalarOperation.sub]) _

@[simp] theorem blameless_mulScalar (s t : Scalar) : Blameless (ScalarOperation.mul.apply s t) :=
  ScalarOperation.blameless_apply (fun _ _ => by simp [ScalarOperation.mul]) s t

theorem blameless_hamilton {mul : Number → Number → Except Fault Number}
    (h : ∀ a b, Blameless (mul a b)) : Blameless (hamilton mul a b) := by
  simp [hamilton, total, List.foldlM_cons, h]

@[simp] theorem blameless_mulWithin (height : Nat) : Blameless (mulWithin height a b) := by
  induction height generalizing a b with
  | zero => cases a <;> cases b <;> simp [mulWithin]
  | succ height ih => cases a <;> cases b <;> simp [mulWithin, ih, blameless_hamilton _ _ ih]

@[simp] theorem blameless_mul : Blameless (mul a b) := by
  simp [mul]

@[simp] theorem blameless_normSquared : Blameless a.normSquared :=
  blameless_foldlM (fun _ _ => by simp) _ _

@[simp] theorem blameless_neg : Blameless a.neg := by
  induction a with
  | scalar s => simp [neg]
  | complex re im hre him => simp [neg, hre, him]
  | quaternion re i j k hre hi hj hk => simp [neg, hre, hi, hj, hk]

@[simp] theorem blameless_conjugate : Blameless a.conjugate := by
  cases a <;> simp [conjugate]

@[simp] theorem blameless_divWithin (height : Nat) : Blameless (divWithin height a b) := by
  induction height generalizing a b with
  | zero => cases a <;> cases b <;> simp [divWithin]
  | succ height ih => cases a <;> cases b <;> simp [divWithin, ih, blameless_hamilton]

@[simp] theorem blameless_div : Blameless (div a b) := by
  simp [div]

end Arithmetic

section Comparing

variable (a b : Number)

@[simp] theorem blameless_compare : Blameless (a.compare b) := by
  have hmagnitudes (a b : Number) : Blameless (compareMagnitudes a b) := by
    unfold compareMagnitudes
    split <;> simp
  unfold compare
  split <;> simp [hmagnitudes]

@[simp] theorem blameless_lt : Blameless (a.lt b) := by
  simp [lt]

@[simp] theorem blameless_gt : Blameless (a.gt b) := by
  simp [gt]

theorem blameless_allEqual {equal : Number → Number → Except Fault Bool}
    (h : ∀ a b, Blameless (equal a b)) (pairs : List (Number × Number)) :
    Blameless (allEqual equal pairs) := by
  induction pairs with
  | nil => simp [allEqual]
  | cons pair rest ih => simp [allEqual, h, ih]

@[simp] theorem blameless_equalWithin (height : Nat) : Blameless (equalWithin height a b) := by
  induction height generalizing a b with
  | zero => cases a <;> cases b <;> simp [equalWithin]
  | succ height ih => cases a <;> cases b <;> simp [equalWithin, blameless_allEqual ih]

@[simp] theorem blameless_equal : Blameless (a.equal b) := by
  simp [equal]

end Comparing

section Texts

variable (n : Number)

theorem blameless_termText {text : Number → Except Fault String} (h : ∀ n, Blameless (text n))
    (unit : String) (showZero : Bool) : Blameless (termText text n unit showZero) := by
  simp [termText, h]

@[simp] theorem blameless_textWithin (height : Nat) : Blameless (textWithin height n) := by
  induction height generalizing n with
  | zero => cases n <;> simp [textWithin]
  | succ height ih => cases n <;> simp [textWithin, ih, blameless_termText]

@[simp] theorem blameless_text : Blameless n.text := by
  simp [text]

@[simp] theorem blameless_faultShowing {α : Type} (fault : String → Fault) :
    Blameless (n.faultShowing fault : Except Fault α) ↔
      ∀ shown, n.text = .ok shown → (fault shown).blamesForm = false := by
  simp [faultShowing]

@[simp] theorem blameless_real : Blameless n.real := by
  cases n <;> simp [real]

end Texts

section Functions

variable (a b : Number)

@[simp] theorem blameless_floorModPart (divisor : Scalar) :
    Blameless (a.floorModPart divisor) := by
  simp [floorModPart]

@[simp] theorem blameless_mod : Blameless (a.mod b) := by
  cases b <;> cases a <;> simp [mod]

@[simp] theorem blameless_floor : Blameless a.floor := by
  unfold floor
  split
  case h_1 x => cases x.toRat? <;> simp
  all_goals simp

@[simp] theorem blameless_powerLoop (bits : Nat) (result factor : Number) (exponent : Nat) :
    Blameless (powerLoop bits result factor exponent) := by
  induction bits generalizing result factor exponent with
  | zero => simp [powerLoop]
  | succ bits ih => simp [powerLoop, ih]

@[simp] theorem blameless_powerOperand (s : Scalar) : Blameless (powerOperand s) := by
  unfold powerOperand
  split <;> simp

@[simp] theorem blameless_power : Blameless (a.power b) := by
  unfold power
  split
  · split
    · simp [powerInt, powerNat]
    · split <;> simp [powerDouble]
  · simp

@[simp] theorem blameless_magnitude : Blameless a.magnitude := by
  simp [magnitude]

@[simp] theorem blameless_toInexact : Blameless a.toInexact := by
  induction a with
  | scalar s =>
    unfold toInexact
    split <;> simp
  | complex re im hre him => simp [toInexact, hre, him]
  | quaternion re i j k hre hi hj hk => simp [toInexact, hre, hi, hj, hk]

@[simp] theorem blameless_ofDecimal (d : Decimal) : Blameless (ofDecimal d) := by
  simp [ofDecimal]

@[simp] theorem blameless_toInexactBig : Blameless a.toInexactBig := by
  induction a with
  | scalar s => cases s <;> simp [toInexactBig]
  | complex re im hre him => simp [toInexactBig, hre, him]
  | quaternion re i j k hre hi hj hk => simp [toInexactBig, hre, hi, hj, hk]

end Functions

section Literals

variable (cs : List Char)

@[simp] theorem blameless_literalFault (issue : String → LiteralIssue) :
    Blameless (literalFault issue cs) := by
  simp [literalFault]

@[simp] theorem blameless_readInteger : Blameless (readInteger cs) := by
  unfold readInteger
  split <;> simp

@[simp] theorem blameless_readRational : Blameless (readRational cs) := by
  unfold readRational
  split
  · simp
  · split <;> simp [fraction]

@[simp] theorem blameless_readDecimal : Blameless (readDecimal cs) := by
  unfold readDecimal
  split
  · simp
  · split
    · simp
    · split <;> simp

variable {read : List Char → Except Fault Number} (h : ∀ cs, Blameless (read cs))

include h

theorem blameless_readReal (real : Option (List Char)) : Blameless (readReal read real) := by
  cases real <;> simp [readReal, h]

theorem blameless_readCoefficient : Blameless (readCoefficient read cs) := by
  unfold readCoefficient
  split
  · simp
  · dsimp only
    split <;> simp [h]

theorem blameless_readComplex : Blameless (readComplex read cs) := by
  unfold readComplex
  split <;> simp [blameless_readReal h, blameless_readCoefficient _ h]

theorem blameless_readQuaternion : Blameless (readQuaternion read cs) := by
  unfold readQuaternion
  repeat' split
  all_goals simp [blameless_readReal h, blameless_readCoefficient _ h]

omit h

@[simp] theorem blameless_parseWithin (depth : Nat) : Blameless (parseWithin depth cs) := by
  induction depth generalizing cs with
  | zero => simp [parseWithin]
  | succ depth ih =>
    simp [parseWithin, blameless_readQuaternion _ ih, blameless_readComplex _ ih,
      Fault.blamesForm]

@[simp] theorem blameless_parse : Blameless (parse cs) := by
  simp [parse]

end Literals

end Number

namespace Value

variable (store : Store) (v : Value)

@[simp] theorem blameless_atomText : Blameless (v.atomText store) := by
  unfold atomText
  split <;> simp [vectorText, blameless_mapM]

mutual

theorem blameless_printed : (v : Value) → Blameless (v.printed store)
  | .pair head tail => by
    simp [printed, blameless_printed head, blameless_printedTail _ tail]
  | .nil | .symbol _ | .string _ | .number _ | .vector _ | .closure _ | .primitive _ | .path _
  | .foreign _ => by simp [printed]

theorem blameless_printedTail (front : String) : (v : Value) →
    Blameless (v.printedTail store front)
  | .pair head tail => by
    simp [printedTail, blameless_printed head, blameless_printedTail _ tail]
  | .nil => by simp [printedTail]
  | .symbol _ | .string _ | .number _ | .vector _ | .closure _ | .primitive _ | .path _
  | .foreign _ => by simp [printedTail]

end

@[simp] theorem blameless_shown : Blameless (v.shown store) := by
  unfold shown
  split <;> simp [blameless_printed]

@[simp] theorem blameless_display : Blameless (v.display store) := by
  unfold display
  split <;> simp [blameless_printed]

@[simp] theorem blameless_printedWithin (limit : Nat) :
    Blameless (v.printedWithin limit store) := by
  simp [printedWithin, blameless_printed, Fault.tooDeep]

@[simp] theorem blameless_displayWithin (limit : Nat) :
    Blameless (v.displayWithin limit store) := by
  unfold displayWithin
  split <;> simp

@[simp] theorem blameless_mistyped {α : Type} (issue : String → TypeIssue) :
    Blameless (v.mistyped store issue : Except Fault α) := by
  simp [mistyped]

@[simp] theorem blameless_asNumber : Blameless (v.asNumber store) := by
  cases v <;> simp [asNumber]

@[simp] theorem blameless_asOperand (procedure : String) :
    Blameless (v.asOperand store procedure) := by
  cases v <;> simp [asOperand]

@[simp] theorem blameless_first : Blameless (v.first store) := by
  unfold first
  split
  · simp
  · split <;> simp
  · simp

@[simp] theorem blameless_rest : Blameless (v.rest store) := by
  unfold rest
  split
  · simp
  · split <;> simp
  · simp

@[simp] theorem blameless_length : Blameless (v.length store) := by
  unfold length
  split
  · simp
  · simp
  · split <;> simp
  · simp

@[simp] theorem blameless_vectorEqual (as bs : List Number) : Blameless (vectorEqual as bs) := by
  induction as generalizing bs with
  | nil => simp [vectorEqual]
  | cons a as ih => cases bs <;> simp [vectorEqual, ih]

@[simp] theorem blameless_equal (v w : Value) : Blameless (v.equal w) := by
  induction v generalizing w with
  | pair head tail hhead htail => cases w <;> simp [equal, hhead, htail]
  | _ => cases w <;> simp [equal]

end Value

namespace Vector

variable (store : Store)

@[simp] theorem blameless_ofValues (values : List Value) : Blameless (ofValues store values) := by
  induction values with
  | nil => simp [ofValues]
  | cons v rest ih => cases v <;> simp [ofValues, ih]

variable {op : Number → Number → Except Fault Number} (h : ∀ a b, Blameless (op a b))

include h

theorem blameless_zipWithM (as bs : List Number) : Blameless (zipWithM op as bs) := by
  induction as generalizing bs with
  | nil => simp [zipWithM]
  | cons a as ih => cases bs <;> simp [zipWithM, h, ih]

theorem blameless_combine (verb : String) (as bs : List Number) :
    Blameless (combine op verb as bs) := by
  simp [combine, blameless_zipWithM h]

theorem blameless_mapWith (items : List Number) (operand : Value) :
    Blameless (mapWith store op items operand) := by
  unfold mapWith
  split
  · unfold stretch
    split <;> simp [blameless_mapM, blameless_zipWithM, h]
  · simp [blameless_mapM, h]

omit h

@[simp] theorem blameless_add (as bs : List Number) : Blameless (add as bs) :=
  blameless_combine (by simp) _ as bs

@[simp] theorem blameless_sub (as bs : List Number) : Blameless (sub as bs) :=
  blameless_combine (by simp) _ as bs

@[simp] theorem blameless_scale (items : List Number) (factor : Value) :
    Blameless (scale store items factor) :=
  blameless_mapWith store (by simp) items factor

@[simp] theorem blameless_divide (items : List Number) (divisor : Value) :
    Blameless (divide store items divisor) :=
  blameless_mapWith store (by simp) items divisor

end Vector

namespace Builtin

variable (store : Store)

theorem blameless_foldNumbers {op : Number → Number → Except Fault Number}
    (h : ∀ a b, Blameless (op a b)) (procedure : String) (n : Number) (args : List Value) :
    Blameless (foldNumbers store procedure op n args) := by
  induction args generalizing n with
  | nil => simp [foldNumbers]
  | cons v rest ih => simp [foldNumbers, h, ih]

@[simp] theorem blameless_asVector (procedure : String) (v : Value) :
    Blameless (asVector procedure v) := by
  cases v <;> simp [asVector]

theorem blameless_foldVectors {op : List Number → List Number → Except Fault (List Number)}
    (h : ∀ as bs, Blameless (op as bs)) (procedure : String) (items : List Number)
    (args : List Value) : Blameless (foldVectors procedure op items args) := by
  induction args generalizing items with
  | nil => simp [foldVectors]
  | cons v rest ih => simp [foldVectors, h, ih]

@[simp] theorem blameless_divideVector (items : List Number) (args : List Value) :
    Blameless (divideVector store items args) := by
  induction args generalizing items with
  | nil => simp [divideVector]
  | cons v rest ih => simp [divideVector, ih]

@[simp] theorem blameless_sum (args : List Value) : Blameless (sum store args) := by
  unfold sum
  split
  · simp [blameless_foldVectors Vector.blameless_add]
  · simp [blameless_foldNumbers]

@[simp] theorem blameless_difference (args : List Value) : Blameless (difference store args) := by
  unfold difference
  split
  case h_3 => simp [blameless_foldVectors Vector.blameless_sub]
  all_goals simp [blameless_foldNumbers]

@[simp] theorem blameless_product (args : List Value) : Blameless (product store args) := by
  unfold product
  split <;> simp [blameless_foldNumbers]

@[simp] theorem blameless_quotient (args : List Value) : Blameless (quotient store args) := by
  unfold quotient
  split <;> simp [blameless_foldNumbers]

@[simp] theorem blameless_stringToList (v : Value) : Blameless (stringToList store v) := by
  cases v <;> simp [stringToList]

@[simp] theorem blameless_listToString (v : Value) : Blameless (listToString store v) := by
  unfold listToString
  split
  · simp
  · split <;> simp

@[simp] theorem blameless_magnitude (v : Value) : Blameless (magnitude store v) := by
  simp [magnitude]

/-- What the pure procedures compute blames no form. -/
theorem blameless_compute {p : Primitive} {args : List Value} {result : Except Fault Value}
    (h : compute? store p args = some result) : Blameless result := by
  unfold compute? at h
  split at h <;> cases h <;>
    simp [onNumbers, testNumbers, onNumber, negated, isEven, makeVector, splitByComma]

end Builtin

namespace FileTree

variable (t : FileTree) (p : Path)

@[simp] theorem blameless_lookUp : Blameless (t.lookUp p) := by
  simp [lookUp]

@[simp] theorem blameless_isFile : Blameless (t.isFile p) := by
  simp only [isFile, blameless_bind, blameless_lookUp, true_and]
  intro entry _
  split <;> simp

@[simp] theorem blameless_firstFile (paths : List Path) : Blameless (t.firstFile paths) := by
  induction paths with
  | nil => simp [firstFile]
  | cons p rest ih => simp [firstFile, ih]

@[simp] theorem blameless_checkPath : Blameless (checkPath p) := by
  simp [checkPath]

@[simp] theorem blameless_readText : Blameless (t.readText p) := by
  simp only [readText, blameless_bind, blameless_checkPath, true_and]
  intro _ _
  split <;> simp

@[simp] theorem blameless_writeText (content : String) : Blameless (t.writeText p content) := by
  simp [writeText]

@[simp] theorem blameless_touch : Blameless (t.touch p) := by
  simp only [touch, blameless_bind, blameless_checkPath, true_and]
  intro _ _
  split <;> simp

@[simp] theorem blameless_makeDirectory : Blameless (t.makeDirectory p) := by
  simp [makeDirectory]

end FileTree

end TowerLisp
