import TowerLisp.Proofs.ExactNumbers
import TowerLisp.Proofs.PreludeFolds

/-!
Procedures that count down by tail calls. Each call of such a procedure hands over to the next one
without nesting deeper, so one budget is enough however far there is to count. A form that kept the
last call to itself would give the same results, but in a budget that grows with the argument.
-/

namespace TowerLisp

/-- The body `(cond ((= n 0) 'ok) (else last))`. -/
inductive Form.CountsDown : Form → Form → Prop where
  | cond {cond equals n zero mark otherwise : Token} {first second quoted last : Form} :
      cond.tag = .cond →
      first.parts = [⟨equals, [.leaf n, .leaf zero], true⟩, .compoundAt .quote [quoted] mark] →
      second.parts = [.leaf otherwise, last] → equals.Names "=" → n.Names "n" →
      zero.Denotes (.int 0) → quoted.datum = .ok (.symbol "ok") → otherwise.Names "else" →
      CountsDown ⟨cond, [first, second], true⟩ last

section Integers

theorem Number.ofInt_eq_ofRat (a : ℤ) : ofInt a = ofRat a :=
  congrArg scalar (Scalar.ofRat_intCast a).symm

theorem Number.marks_ofInt (a : ℤ) : (ofInt a).marks = [] := by
  unfold ofInt Scalar.ofInt
  split <;> rfl

theorem Value.lacksMarks_int (a : ℤ) : (int a).lacksMarks = false := by
  change (Number.ofInt a).lacksMarks = false
  rw [Number.lacksMarks, Number.marks_ofInt]
  rfl

theorem Value.equal_int (a b : ℤ) : (int a).equal (int b) = .ok (decide (a = b)) := by
  have hsame : (Number.ofInt a).isSame (.ofInt b) = false :=
    Number.isSame_eq_false (Number.marks_ofInt a) _
  rw [int, int, equal, hsame, Number.ofInt_eq_ofRat, Number.ofInt_eq_ofRat, Number.equal,
    Number.equalWithin_ofRat]
  simp

theorem Builtin.difference_int (store : Store) (a b : ℤ) :
    difference store [.int a, .int b] = .ok (.int (a - b)) := by
  have hsub : Number.sub (.ofInt a) (.ofInt b) = .ok (.ofInt (a - b)) := by
    simp only [Number.ofInt_eq_ofRat, Number.sub_ofRat, Int.cast_sub]
  change (do return Value.number (← Number.sub (.ofInt a) (.ofInt b) >>= fun n => .ok n)) = _
  rw [hsub]
  rfl

end Integers

namespace Program

/-- Procedures that count their argument down to zero, each by a call of one of them with one
less. -/
structure CountsDown (prog : Program) : Prop where
  distinct : (prog.procedures.map Procedure.name).Nodup
  equal : prog.Provides "=" (.primitive .equal)
  otherwise : prog.Provides "else" .trueSymbol
  apply : prog.Provides "apply" (.primitive .apply)
  list : prog.Provides "list" (.primitive .list)
  formals : ∀ p ∈ prog.procedures, p.formals = ["n"]
  body : ∀ p ∈ prog.procedures, ∃ last, p.body.CountsDown last ∧ prog.Descends prog.start last

variable {prog : Program} {firm : Bool} {known : Context} {f : Nat → Nat}

/-- A name that a program is given, seen from the body of a procedure. -/
theorem Provides.gives {name : String} {v : Value} (h : prog.Provides name v) (hname : name ≠ "n")
    (f : Nat → Nat) :
    Context.Gives (fun L left => prog.entry (f left) L) name fun _ _ u => u = v := by
  intro L left
  change List.lookup name (("n", _) :: prog.globals L) = _
  rw [List.lookup_cons, beq_eq_false_iff_ne.mpr hname]
  exact h.lookup_globals L

/-- The test for the end of the countdown. -/
theorem Settles.isZero {equals n zero : Token} (hequals : equals.Names "=") (hn : n.Names "n")
    (hzero : zero.Denotes (.int 0)) (hequal : known.Gives "=" fun _ _ v => v = .primitive .equal)
    (hargument : known.Gives "n" fun _ left v => v = .int (f left)) :
    prog.Settles firm known (fun _ left v => v = .ofBool (f left = 0))
      ⟨equals, [.leaf n, .leaf zero], true⟩ := by
  refine .binary (x := fun _ left => .int (f left)) (y := fun _ _ => .int 0) hequals hequal
    (.name hn hargument) (.number hzero) (fun n hn => Option.some.inj hn)
    (fun L left store => ?_) fun L left => ?_
  · change some (Value.ofBool <$> (Value.int (f left)).equal (.int 0)) = _
    rw [Value.equal_int]
    simp [Functor.map, Except.map]
  · by_cases hzero : f left = 0 <;> simp [hzero, Value.ofBool] <;> rfl

/-- One less than what there is to count. -/
theorem Settles.pred {minus n one : Token} (hminus : minus.Names "-") (hn : n.Names "n")
    (hone : one.Denotes (.int 1)) (hsub : known.Gives "-" fun _ _ v => v = .primitive .sub)
    (hargument : known.Gives "n" fun _ left v => v = .int (left + 1 : Nat)) :
    prog.Settles firm known (fun _ left v => v = .int left)
      ⟨minus, [.leaf n, .leaf one], true⟩ := by
  refine .binary (x := fun _ left => .int (left + 1 : Nat)) (y := fun _ _ => .int 1) hminus hsub
    (.name hn hargument) (.number hone) nofun (fun L left store => ?_)
    fun L left => Value.lacksMarks_int left
  change some (Builtin.difference store [.int (left + 1 : Nat), .int 1]) = _
  rw [Builtin.difference_int]
  simp

/-- The argument, seen from the body of a procedure. -/
theorem gives_argument (prog : Program) (f : Nat → Nat) :
    Context.Gives (fun L left => prog.entry (f left) L) "n" fun _ left v => v = .int (f left) :=
  fun _ _ => rfl

/-- A call of a procedure ends if there is nothing to count, and otherwise goes on with a call and
one less to count. -/
structure Counts (prog : Program) (budget : Nat) (p : Procedure) : Prop where
  zero : ∀ L scope w, prog.At L (prog.entry 0 L) scope w.store → ∃ w',
    Chain budget (.call p.body scope) w (.done (.symbol "ok")) w'
  succ : ∀ L left scope w, prog.At L (prog.entry (left + 1) L) scope w.store →
    ∃ q ∈ prog.procedures, ∃ inner w', Chain budget (.call p.body scope) w (.call q.body inner) w' ∧
      prog.At L (prog.entry left L) inner w'.store

theorem Counts.mono {p : Procedure} {budget budget' : Nat} (h : prog.Counts budget p)
    (hle : budget ≤ budget') : prog.Counts budget' p where
  zero L scope w hat := by
    obtain ⟨w', hchain⟩ := h.zero L scope w hat
    exact ⟨w', hchain.mono hle⟩
  succ L left scope w hat := by
    obtain ⟨q, hq, inner, w', hchain, hat'⟩ := h.succ L left scope w hat
    exact ⟨q, hq, inner, w', hchain.mono hle, hat'⟩

namespace CountsDown

variable {p : Procedure}

/-- The countdown ends at zero. -/
theorem zero (h : prog.CountsDown) (hp : p ∈ prog.procedures) :
    ∃ budget, ∀ L scope w, prog.At L (prog.entry 0 L) scope w.store → ∃ w',
      Within budget (fun ev => ev.eval p.body scope true) w (.done (.symbol "ok")) w' := by
  obtain ⟨last, hbody, -⟩ := h.body p hp
  generalize p.body = body at hbody
  cases hbody with
  | @cond cond equals n zero mark otherwise _ _ quoted _ hcond hfirst _ hequals hn hzero hquoted =>
    have hquiet : prog.Quiet (fun L _ => prog.entry 0 L) _
        ⟨equals, [.leaf n, .leaf zero], true⟩ :=
      .isZero hequals hn hzero (h.equal.gives (by decide) fun _ => 0)
        (gives_argument prog fun _ => 0)
    obtain ⟨budget, hquiet⟩ := hquiet
    refine ⟨max budget 1 + 1, fun L scope w hat => ?_⟩
    obtain ⟨_, w', htest, rfl, -, -⟩ := hquiet L 0 scope w hat
    have hresult : Within 1 (fun ev => ev.eval (.compoundAt .quote [quoted] mark) scope true) w' _
        w' := .eval_quoted hquoted mark
    exact ⟨w', .eval_clauses hcond (.clauses_one hfirst (htest.mono (by omega)) rfl
      (hresult.mono (by omega)))⟩

/-- Before that it goes on with a call. -/
theorem succ (h : prog.CountsDown) (hp : p ∈ prog.procedures) :
    prog.Reenters prog.start fun ev scope => ev.eval p.body scope true := by
  obtain ⟨last, hbody, hlast⟩ := h.body p hp
  generalize p.body = body at hbody
  cases hbody with
  | @cond cond equals n zero mark otherwise _ second _ _ hcond hfirst hsecond hequals hn hzero _
      hotherwise =>
    have htest : prog.Quiet prog.start (fun _ left v => v = .ofBool (left + 1 = 0))
        ⟨equals, [.leaf n, .leaf zero], true⟩ :=
      .isZero hequals hn hzero (h.equal.gives (by decide) (· + 1))
        (gives_argument prog (· + 1))
    have helse : prog.Quiet prog.start (fun _ _ v => v = .trueSymbol) (.leaf otherwise) :=
      .name hotherwise (h.otherwise.gives (by decide) (· + 1))
    have hfalse := htest.mono (Q := fun _ _ v => v.isTrue = false) fun L left v hv => by
      rw [hv, decide_eq_false (Nat.succ_ne_zero left)]
      rfl
    have htrue := helse.mono (Q := fun _ _ v => v.isTrue = true) fun L left v hv => by
      rw [hv]
      rfl
    have htake : prog.Descends prog.start ⟨cond, [second], true⟩ :=
      .take hcond (hsecond.trans (by rw [List.nil_append])) htrue
        (List.forall_mem_nil _) hlast
    exact (Descends.skip hcond hfirst hfalse htake).reenters

theorem counts (h : prog.CountsDown) (hp : p ∈ prog.procedures) :
    ∃ budget, prog.Counts budget p := by
  obtain ⟨budget, hzero⟩ := h.zero hp
  obtain ⟨budget', hsucc⟩ := h.succ hp
  refine ⟨max budget budget', fun L scope w hat => ?_, fun L left scope w hat => ?_⟩
  · obtain ⟨w', hdone⟩ := hzero L scope w hat
    exact ⟨w', .call (hdone.mono (by omega)) (.refl _ _)⟩
  · obtain ⟨step, v, q, inner, w', hstep, hchain, hq, hat'⟩ := hsucc L left scope w hat
    exact ⟨q, hq, inner, w', .call (hstep.mono (by omega)) (hchain.mono (by omega)), hat'⟩

/-- One budget is enough for all procedures. -/
theorem exists_counts (h : prog.CountsDown) :
    ∃ budget, ∀ p ∈ prog.procedures, prog.Counts budget p := by
  suffices ∀ procedures ⊆ prog.procedures, ∃ budget, ∀ p ∈ procedures, prog.Counts budget p from
    this _ (List.Subset.refl _)
  intro procedures hsubset
  induction procedures with
  | nil => exact ⟨0, nofun⟩
  | cons p procedures ih =>
    obtain ⟨hp, hrest⟩ := List.cons_subset.mp hsubset
    obtain ⟨budget, hfirst⟩ := h.counts hp
    obtain ⟨budget', hothers⟩ := ih hrest
    exact ⟨max budget budget', List.forall_mem_cons.mpr
      ⟨hfirst.mono (by omega), fun q hq => (hothers q hq).mono (by omega)⟩⟩

/-- However far there is to count, calls in tail position come to the end within one budget. -/
theorem exists_chain (h : prog.CountsDown) : ∃ budget, ∀ argument, ∀ p ∈ prog.procedures,
    ∀ L inner w, prog.At L (prog.entry argument L) inner w.store → ∃ w',
      Chain budget (.call p.body inner) w (.done (.symbol "ok")) w' := by
  obtain ⟨budget, hcounts⟩ := h.exists_counts
  refine ⟨budget, fun argument => ?_⟩
  induction argument with
  | zero => exact fun p hp => (hcounts p hp).zero
  | succ left ih =>
    intro p hp L inner w hat
    obtain ⟨q, hq, inner', w', hcall, hat'⟩ := (hcounts p hp).succ L left inner w hat
    obtain ⟨w'', hrest⟩ := ih q hq L inner' w' hat'
    exact ⟨w'', hcall.trans hrest⟩

end CountsDown

section Calls

variable {p : Procedure} {L : Layout} {w w' : World} {callee number : Token}
  {argument budget : Nat} {v : Value}

/-- A call of a procedure with a number, at the root. -/
theorem Laid.run_call (h : prog.Laid L w.store) (hp : p ∈ prog.procedures)
    (hformals : p.formals = ["n"]) (hcallee : callee.Names p.name)
    (hnumber : number.Denotes (.int argument))
    (hchain : Chain budget (.call p.body (w.withFrame L.root ["n"] [.int argument]).1)
      (w.withFrame L.root ["n"] [.int argument]).2 (.done v) w') :
    Within (budget + 2) (fun ev => ev.run ⟨callee, [.leaf number], true⟩ L.root) w v w' := by
  have hvalues : Within 1 (fun ev => ev.values L.root [.leaf number]) w [.int argument] w :=
    (Within.value_number hnumber).values_cons .values_nil
  have henter : Within 1
      (fun ev => ev.applyValue (.closure (L.ids p.name)) [.int argument] L.root true) w _ _ :=
    h.atRoot.enter hp (by rw [hformals]; rfl)
  rw [hformals] at henter
  have hcall := Within.eval_call hcallee (h.bound p hp) hvalues henter
  exact Chain.run (hcall.mono (by omega)) (hchain.mono (by omega))

/-- A procedure is applied to a list of one number, at the root. -/
theorem Laid.run_apply (h : prog.Laid L w.store) (hp : p ∈ prog.procedures)
    (hformals : p.formals = ["n"]) {apply list : Token} (happly : apply.Names "apply")
    (hlist : list.Names "list") (hcallee : callee.Names p.name)
    (hnumber : number.Denotes (.int argument))
    (hprim : prog.Provides "apply" (.primitive .apply))
    (hlistPrim : prog.Provides "list" (.primitive .list))
    (hchain : Chain budget (.call p.body (w.withFrame L.root ["n"] [.int argument]).1)
      (w.withFrame L.root ["n"] [.int argument]).2 (.done v) w') :
    Within (budget + 4) (fun ev => ev.run
      ⟨apply, [.leaf callee, ⟨list, [.leaf number], true⟩], true⟩ L.root) w v w' := by
  have hlookup : w.store.lookup? L.root "apply" = some (.primitive .apply) :=
    h.given _ _ hprim.1 hprim.2
  have hlookup' : w.store.lookup? L.root "list" = some (.primitive .list) :=
    h.given _ _ hlistPrim.1 hlistPrim.2
  have hvalues : Within 1 (fun ev => ev.values L.root [.leaf number]) w [.int argument] w :=
    (Within.value_number hnumber).values_cons .values_nil
  have hmade : Within 2 (fun ev => ev.value ⟨list, [.leaf number], true⟩ L.root) w
      (.list [.int argument]) w :=
    .value_primitive hlist hlookup' hvalues
      (.of_eq fun ev => Builtin.run_computed (fun _ h => by cases h) rfl rfl ev L.root)
  have hoperands : Within 2 (fun ev => ev.values L.root
      [.leaf callee, ⟨list, [.leaf number], true⟩]) w
      [.closure (L.ids p.name), .list [.int argument]] w :=
    ((Within.value_name hcallee (h.bound p hp)).mono (by omega)).values_cons
      (hmade.values_cons .values_nil)
  have hentered : Within budget (fun ev => ev.applyValue (.closure (L.ids p.name)) [.int argument]
      L.root false) w (.done v) w' :=
    h.atRoot.enter_run hp (by rw [hformals]; rfl) (by rw [hformals]; exact hchain.run_call)
  have hrun : Within (budget + 1) (fun ev => Builtin.run ev L.root .apply
      [.closure (L.ids p.name), .list [.int argument]]) w v w' := hentered.apply.run_apply rfl
  have hstep : Within (budget + 1) (fun ev => ev.applyValue (.primitive .apply)
      [.closure (L.ids p.name), .list [.int argument]] L.root true) w (.done v) w' :=
    hrun.bind (.pure _)
  have hcall := Within.eval_call happly hlookup (hoperands.mono (Nat.le_add_left 2 (budget + 1)))
    (hstep.mono (by omega))
  exact Chain.run (hcall.mono (by omega)) (.refl _ _)

end Calls

/-- Once a program is defined at a root that offers what it is given, its procedures come to the
end from every number within a budget, be they called or applied to a list. -/
def EndsWithin (prog : Program) (budget : Nat) : Prop :=
  ∀ forms root w, forms.mapM Form.definition? = some prog.procedures →
    w.store.Offers root prog.given → ∃ last w₁,
      Within budget (fun ev => ev.runAll root .nil forms) w last w₁ ∧
        ∀ p ∈ prog.procedures, ∀ (argument : Nat) (callee apply list number : Token),
          callee.Names p.name → apply.Names "apply" → list.Names "list" →
          number.Denotes (.int argument) →
          (∃ w₂, Within budget (fun ev => ev.run ⟨callee, [.leaf number], true⟩ root) w₁
            (.symbol "ok") w₂) ∧
          ∃ w₂, Within budget (fun ev => ev.run
            ⟨apply, [.leaf callee, ⟨list, [.leaf number], true⟩], true⟩ root) w₁
            (.symbol "ok") w₂

theorem CountsDown.endsWithin (h : prog.CountsDown) : ∃ budget, prog.EndsWithin budget := by
  obtain ⟨budget, hchains⟩ := h.exists_chain
  refine ⟨budget + 4, fun forms root w hforms hoffers => ?_⟩
  obtain ⟨L, last, w₁, hrun, rfl, hlaid, -⟩ := prog.define hforms h.distinct hoffers .nil
  refine ⟨last, w₁, hrun.mono (by omega), fun p hp argument callee apply list number hcallee happly
    hlist hnumber => ?_⟩
  have hformals := h.formals p hp
  obtain ⟨w₂, hchain⟩ := hchains argument p hp L _ _ (hlaid.atRoot.entry argument)
  exact ⟨⟨w₂, (hlaid.run_call hp hformals hcallee hnumber hchain).mono (by omega)⟩, w₂,
    hlaid.run_apply hp hformals happly hlist hcallee hnumber h.apply h.list hchain⟩

end Program

namespace Sample

def name (text : String) : Token := ⟨.symbol, .text text, none⟩

def operator (char : Char) : Token := ⟨.operator, .operator char, none⟩

def number (n : Int) : Token := ⟨.number, .number (.ofInt n), none⟩

/-- A call of what a name stands for. -/
def call (text : String) (operands : List Form) : Form := ⟨name text, operands, true⟩

/-- A form with a tag of its own. -/
def special (tag : Tag) (parts : List Form) : Form := ⟨⟨tag, .text tag.keyword, none⟩, parts, true⟩

/-- A list of one binding. -/
def bind (text : String) (form : Form) : Form :=
  special .bindings [special .binding [.leaf (name text), form]]

/-- `(- n 1)` -/
def less : Form := ⟨operator '-', [.leaf (name "n"), .leaf (number 1)], true⟩

/-- `'ok` -/
def ok : Form := .compoundAt .quote [.leaf (name "ok")] ⟨.quote, .text "'", none⟩

/-- `(cond ((= n 0) 'ok) (else last))` -/
def countdown (last : Form) : Form :=
  special .cond
    [special .clause [⟨operator '=', [.leaf (name "n"), .leaf (number 0)], true⟩, ok],
      special .clause [.leaf (name "else"), last]]

/-- `(lambda (n) body)` -/
def lambda (body : Form) : Form := special .lambda [special .params [.leaf (name "n")], body]

/-- `(define text (lambda (n) body))` -/
def definition (text : String) (body : Form) : Form :=
  special .define [.leaf (name text), lambda body]

/-- `(do 'ok (lambda (n) n) (let ((m (- n 1))) (lets ((k m)) (letr ((j k)) (odd j)))))` -/
def toOdd : Form :=
  special .sequence [ok, lambda (.leaf (name "n")), special .letAll [bind "m" less,
    special .letEach [bind "k" (.leaf (name "m")), special .letRec [bind "j" (.leaf (name "k")),
      call "odd" [.leaf (name "j")]]]]]

/-- `(let loop ((i (- n 1))) ((lambda (h) (cond (else (even h)))) i))` -/
def toEven : Form :=
  special .letAll [.leaf (name "loop"), bind "i" less,
    special .apply [special .lambda [special .params [.leaf (name "h")],
      special .cond [special .clause [.leaf (name "else"), call "even" [.leaf (name "h")]]]],
      .leaf (name "i")]]

def program : Program where
  given := [("=", .primitive .equal), ("-", .primitive .sub), ("else", .trueSymbol),
    ("apply", .primitive .apply), ("list", .primitive .list)]
  procedures := [⟨"even", ["n"], countdown toOdd⟩, ⟨"odd", ["n"], countdown toEven⟩]

theorem names_name (text : String) : (name text).Names text :=
  ⟨.inl rfl, rfl⟩

theorem names_operator (char : Char) : (operator char).Names (String.singleton char) :=
  ⟨.inr rfl, rfl⟩

theorem denotes_number (n : Int) : (number n).Denotes (.int n) :=
  ⟨rfl, rfl⟩

theorem countsDown_countdown (last : Form) : (countdown last).CountsDown last :=
  .cond rfl rfl rfl (names_operator '=') (names_name "n") (denotes_number 0) rfl (names_name "else")

/-- There is one less to count. -/
theorem settles_less (firm : Bool) :
    program.Settles firm program.start (fun _ left v => v = .int left) less :=
  .pred (names_operator '-') (names_name "n") (denotes_number 1) (fun _ _ => rfl) fun _ _ => rfl

theorem descends_toOdd : program.Descends program.start toOdd := by
  change program.Descends _ ⟨_, [_, _] ++ [_], true⟩
  refine .sequence rfl (List.forall_mem_cons.mpr ⟨(Program.Settles.quoted rfl _).any,
    List.forall_mem_singleton.mpr (.lambda rfl rfl rfl)⟩) ?_
  change program.Descends _ ⟨_, _ :: ([] ++ [_]), true⟩
  refine .letAll rfl rfl (.cons (settles_less false) .nil) (List.forall_mem_nil _) ?_
  change program.Descends _ ⟨_, _ :: ([] ++ [_]), true⟩
  refine .letEach rfl rfl (.cons (.name (names_name "m") fun _ _ => rfl) trivial (.nil _))
    (List.forall_mem_nil _) ?_
  change program.Descends _ ⟨_, _ :: ([] ++ [_]), true⟩
  refine .letRec rfl rfl (.cons (.name (names_name "k") fun _ _ => rfl) (.inl rfl) (.nil _))
    (List.forall_mem_nil _) ?_
  exact .call (p := ⟨"odd", ["n"], countdown toEven⟩) (names_name "odd")
    (List.mem_cons_of_mem _ List.mem_cons_self) rfl (fun _ _ => rfl)
    (.name (names_name "j") fun _ _ => rfl)

theorem descends_toEven : program.Descends program.start toEven := by
  change program.Descends _ ⟨_, _ :: _ :: ([] ++ [_]), true⟩
  refine .letNamed rfl rfl rfl rfl (.cons (settles_less false) .nil) (List.forall_mem_nil _) ?_
  change program.Descends _ ⟨_, ⟨_, _ :: ([] ++ [_]), true⟩ :: _, true⟩
  refine .lambda rfl rfl rfl rfl rfl (.cons (.name (names_name "i") fun _ _ => rfl) .nil)
    (List.forall_mem_nil _) ?_
  refine .take rfl (show _ = _ :: ([] ++ [_]) from rfl)
    (.mono (P := fun _ _ v => v = .trueSymbol) (.name (names_name "else") fun _ _ => rfl) ?_)
    (List.forall_mem_nil _) ?_
  · rintro _ _ _ rfl
    rfl
  exact .call (p := ⟨"even", ["n"], countdown toOdd⟩) (names_name "even") List.mem_cons_self rfl
    (fun _ _ => rfl) (.name (names_name "h") fun _ _ => rfl)

theorem countsDown : program.CountsDown where
  distinct := by decide
  equal := ⟨rfl, by decide⟩
  otherwise := ⟨rfl, by decide⟩
  apply := ⟨rfl, by decide⟩
  list := ⟨rfl, by decide⟩
  formals := by simp [program]
  body := by
    refine List.forall_mem_cons.mpr ⟨⟨_, countsDown_countdown toOdd, descends_toOdd⟩, ?_⟩
    exact List.forall_mem_singleton.mpr ⟨_, countsDown_countdown toEven, descends_toEven⟩

end Sample

/-- A chain of tail calls whose steps do not nest too deep does not either, whatever its length.
So for procedures that count down by tail calls, however these are written, there is a budget in
which they count down from every number, and the fold of the prelude combines the elements of every
list in a budget that depends on a single step. -/
theorem tail_calls_within_budget :
    (∀ steps depth step w,
      (∀ form scope v, (evaluator steps depth).Follows step w (.call form scope) v →
        ∀ u, (evaluator steps depth).eval form scope true v ≠ .error (.breakdown .tooDeep) u) →
      ∀ n u, (evaluator steps depth).chase n step w ≠ .error (.breakdown .tooDeep) u) ∧
    (∀ budget step w v w', Chain budget step w (.done v) w' →
      Within budget (fun ev => ev.finish step) w v w') ∧
    (∀ prog : Program, prog.CountsDown → ∃ budget, prog.EndsWithin budget) ∧
    ∀ budget, ∃ total, Prelude.FoldsWithin budget total :=
  ⟨fun _ _ _ _ h => Evaluator.chase_ne_tooDeep h, fun _ _ _ _ _ h => h.finish,
    fun _ h => h.endsWithin, Prelude.exists_foldsWithin⟩

theorem tail_calls_within_budget_nested :
    (∃ budget last w₁, Within budget (fun ev => ev.runAll Session.top .nil
        [Sample.definition "even" (Sample.countdown Sample.toOdd),
          Sample.definition "odd" (Sample.countdown Sample.toEven)])
        (Session.initial .empty ⟨[]⟩ []) last w₁ ∧
      ∀ n : Nat, ∃ w₂, Within budget
        (fun ev => ev.run (Sample.call "even" [.leaf (Sample.number n)]) Session.top) w₁
        (.symbol "ok") w₂) ∧
    ∃ budget forms last w₁ w₂, Reader.readAll Prelude.core.toList = .ok forms ∧
      Within budget (fun ev => ev.runAll Session.top .nil forms) (Session.initial .empty ⟨[]⟩ [])
        last w₁ ∧
      Within budget (fun ev => ev.run (Sample.call "foldl"
        [.leaf (Sample.operator '+'), .leaf (Sample.number 0),
          Sample.call "list" [.leaf (Sample.number 1), .leaf (Sample.number 2)]]) Session.top) w₁
        (.int 3) w₂ := by
  let w := Session.initial .empty ⟨[]⟩ []
  have hplaced : w.store.Placed Session.top := ⟨by decide, by decide⟩
  obtain ⟨-, -, hcounts, hfolds⟩ := tail_calls_within_budget
  constructor
  · obtain ⟨budget, hends⟩ := hcounts Sample.program Sample.countsDown
    obtain ⟨last, w₁, hrun, hcalls⟩ := hends
      [Sample.definition "even" (Sample.countdown Sample.toOdd),
        Sample.definition "odd" (Sample.countdown Sample.toEven)]
      Session.top w rfl ⟨hplaced, by decide⟩
    refine ⟨budget, last, w₁, hrun, fun n => ?_⟩
    exact (hcalls _ List.mem_cons_self n _ _ _ _ (Sample.names_name "even")
      (Sample.names_name "apply") (Sample.names_name "list") (Sample.denotes_number n)).1
  · obtain ⟨forms, _, hread, -⟩ := Prelude.exists_procedures
    obtain ⟨budget, hfolds⟩ := hfolds 2
    obtain ⟨last, w₁, hrun, hkept, hfold⟩ :=
      hfolds forms Session.top w hread ⟨hplaced, by decide⟩
    have hlist : w₁.store.lookup? Session.top "list" = some (.primitive .list) :=
      (hkept "list" (by decide)).trans (by decide)
    have hadd : w₁.store.lookup? Session.top "+" = some (.primitive .add) :=
      (hkept "+" (by decide)).trans (by decide)
    have helements : Within 1 (fun ev => ev.values Session.top
        [.leaf (Sample.number 1), .leaf (Sample.number 2)]) w₁ [.int 1, .int 2] w₁ :=
      (Within.value_number (Sample.denotes_number 1)).values_cons
        ((Within.value_number (Sample.denotes_number 2)).values_cons .values_nil)
    have hmade : Within 2 (fun ev => ev.value (Sample.call "list"
        [.leaf (Sample.number 1), .leaf (Sample.number 2)]) Session.top) w₁
        (.list [.int 1, .int 2]) w₁ :=
      .value_primitive (Sample.names_name "list") hlist helements
        (.of_eq fun ev => Builtin.run_computed (fun _ h => by cases h) rfl rfl ev Session.top)
    have hoperands := ((Within.value_name (Sample.names_operator '+') hadd).mono
      (Nat.le_succ 1)).values_cons (((Within.value_number (Sample.denotes_number 0)).mono
        (Nat.le_succ 1)).values_cons (hmade.values_cons .values_nil))
    have hsum : Primitive.add.Folds 2 w₁ (.int 0) [.int 1, .int 2] w₁ (.int 3) :=
      .compute (fun _ h => by cases h) rfl (fun _ => rfl) rfl
        (.compute (fun _ h => by cases h) rfl (fun _ => rfl) rfl (.nil w₁ (.int 3)))
    obtain ⟨store, hrun'⟩ := hfold _ _ _ _ _ _ _ (Sample.names_name "foldl") hoperands hsum
    exact ⟨budget, forms, last, w₁, _, hread, hrun, hrun'⟩

end TowerLisp
