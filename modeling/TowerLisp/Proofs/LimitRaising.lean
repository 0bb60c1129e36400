import TowerLisp.Proofs.EvaluatorRelations
import TowerLisp.Proofs.JoinedTexts

/-!
Raising the limit on nesting. It bounds nested evaluation, the nesting of a text that is read
and the nesting of a value that is printed. Nothing else depends on it, and nothing takes up
the fault that it raises; so what ends under one limit, and not by that fault, ends in the same
way under any larger one.
-/

namespace TowerLisp

open EvalM (endWorld)

/-- Settings that differ in the limit on nesting only, which is not smaller. -/
structure Settings.Raises (s s' : Settings) : Prop where
  depthLimit_le : s.depthLimit ≤ s'.depthLimit
  loadRoots_eq : s'.loadRoots = s.loadRoots

/-- A world under other settings. -/
def World.under (s : Settings) (w : World) : World :=
  { w with settings := s }

namespace EvalM

variable {α β : Type}

/-- A result in a world under other settings. -/
def under (s : Settings) : EStateM.Result Fault World α → EStateM.Result Fault World α
  | .ok a w => .ok a (w.under s)
  | .error fault w => .error fault (w.under s)

/-- The result of a computation that the limit on nesting has cut short. -/
def TooDeep (r : EStateM.Result Fault World α) : Prop :=
  ∃ w, r = .error .tooDeep w

instance (r : EStateM.Result Fault World α) : Decidable (TooDeep r) :=
  match r with
  | .ok _ _ => .isFalse nofun
  | .error fault w =>
    if h : fault = .tooDeep then .isTrue ⟨w, by rw [h]⟩
    else .isFalse fun ⟨_, heq⟩ => h (EStateM.Result.error.inj heq).1

/-- Unless the limit of the settings `s` cuts `m` short, it keeps these settings, and `n` does
the same under the settings `s'`. -/
def Raised (s s' : Settings) (m n : EvalM α) : Prop :=
  ∀ w, w.settings = s → ¬ TooDeep (m w) →
    (endWorld (m w)).settings = s ∧ n (w.under s') = under s' (m w)

section Raised

variable {s s' : Settings}

theorem raised_pure (a : α) : Raised s s' (pure a) (pure a) :=
  fun _ hw _ => ⟨hw, rfl⟩

theorem raised_throw (fault : Fault) : Raised s s' (throw fault : EvalM α) (throw fault) :=
  fun _ hw _ => ⟨hw, rfl⟩

theorem raised_tooDeep (n : EvalM α) : Raised s s' (throw .tooDeep) n :=
  fun w _ hcut => absurd ⟨w, rfl⟩ hcut

theorem Raised.bind {m n : EvalM α} {f g : α → EvalM β} (hmn : Raised s s' m n)
    (hfg : ∀ a, Raised s s' (f a) (g a)) : Raised s s' (m >>= f) (n >>= g) := by
  intro w hw hcut
  change ¬ TooDeep (EStateM.bind m f w) at hcut
  change (endWorld (EStateM.bind m f w)).settings = s ∧
    EStateM.bind n g (w.under s') = under s' (EStateM.bind m f w)
  have hm := hmn w hw
  unfold EStateM.bind at hcut ⊢
  cases h : m w with
  | error fault v =>
    rw [h] at hm hcut
    obtain ⟨hsettings, hn⟩ := hm fun ⟨_, heq⟩ => by cases heq; exact hcut ⟨v, rfl⟩
    rw [hn]
    exact ⟨hsettings, rfl⟩
  | ok a v =>
    rw [h] at hm hcut
    obtain ⟨hsettings, hn⟩ := hm nofun
    rw [hn]
    exact hfg a v hsettings hcut

/-- What is done after a look at the world is done under either settings. -/
theorem raised_get {f g : World → EvalM α}
    (h : ∀ w, w.settings = s → Raised s s' (f w) (g (w.under s'))) :
    Raised s s' (get >>= f) (get >>= g) :=
  fun w hw hcut => h w hw w hw hcut

theorem raised_modifyGet {f : World → α × World} (hkeeps : ∀ w, (f w).2.settings = w.settings)
    (hunder : ∀ w, f (w.under s') = ((f w).1, (f w).2.under s')) :
    Raised s s' (modifyGet f) (modifyGet f) := by
  intro w hw _
  refine ⟨(hkeeps w).trans hw, ?_⟩
  change EStateM.Result.ok (f (w.under s')).1 (f (w.under s')).2 = _
  rw [hunder]
  rfl

theorem raised_modify {f : World → World} (hkeeps : ∀ w, (f w).settings = w.settings)
    (hunder : ∀ w, f (w.under s') = (f w).under s') : Raised s s' (modify f) (modify f) :=
  raised_modifyGet hkeeps fun w => by rw [hunder]

theorem raised_lift (result : Except Fault α) : Raised s s' (lift result) (lift result) := by
  cases result with
  | ok a => exact raised_pure a
  | error fault => exact raised_throw fault

/-- A result that the limit of `s` cuts short, or that is the same under `s'`. -/
theorem raised_lift_of {result result' : Except Fault α}
    (h : result = .error .tooDeep ∨ result' = result) :
    Raised s s' (lift result) (lift result') := by
  rcases h with rfl | rfl
  · exact raised_tooDeep _
  · exact raised_lift _

theorem raised_withStore (f : Store → Except Fault α) :
    Raised s s' (withStore f) (withStore f) :=
  raised_get fun w _ => raised_lift (f w.store)

theorem raised_demand (d : Demand) : Raised s s' (demand d) (demand d) :=
  raised_modify (fun _ => rfl) fun _ => rfl

theorem raised_demandFiles (paths : List Path) :
    Raised s s' (demandFiles paths) (demandFiles paths) := by
  induction paths with
  | nil => exact raised_pure ()
  | cons p rest ih => exact (raised_demand (.file p)).bind fun _ => ih

end Raised

end EvalM

section Printing

variable {limit limit' : Nat} (h : limit ≤ limit')

include h

theorem Value.nestsWithin_of_le {v : Value} (hv : v.nestsWithin limit = true) :
    v.nestsWithin limit' = true := by
  induction v generalizing limit limit' with
  | pair head tail hhead htail =>
    cases limit with
    | zero => cases hv
    | succ limit =>
      obtain ⟨limit', rfl⟩ : ∃ k, limit' = k + 1 := ⟨limit' - 1, by omega⟩
      rw [nestsWithin, Bool.and_eq_true] at hv ⊢
      exact ⟨hhead (by omega) hv.1, htail h hv.2⟩
  | _ => rw [nestsWithin] <;> nofun

theorem Value.printedWithin_raised (store : Store) (v : Value) :
    v.printedWithin limit store = .error .tooDeep ∨
      v.printedWithin limit' store = v.printedWithin limit store := by
  unfold printedWithin
  by_cases hv : v.nestsWithin limit = true
  · rw [if_pos hv, if_pos (nestsWithin_of_le h hv)]
    exact Or.inr rfl
  · exact Or.inl (if_neg hv)

theorem Value.displayWithin_raised (store : Store) (v : Value) :
    v.displayWithin limit store = .error .tooDeep ∨
      v.displayWithin limit' store = v.displayWithin limit store := by
  unfold displayWithin
  cases v.text? with
  | some text => exact Or.inr rfl
  | none => exact v.printedWithin_raised h store

end Printing

namespace Reader

/-- Under a larger limit a text is read alike, or at least as far. -/
theorem readFormsWithin_raised {limit limit' : Nat} (h : limit ≤ limit') (source : List Char) :
    readFormsWithin limit' source = readFormsWithin limit source ∨
      (readFormsWithin limit source).2 = some .tooDeep ∧
        ∃ more, (readFormsWithin limit' source).1 = (readFormsWithin limit source).1 ++ more := by
  let P : Pairing := .within (fun _ => True) trivial fun _ _ => trivial
  have hspelled := Tokens.ofCursor_spelled (.start source)
  have hrows : P.Rows ((Tokens.ofSource source).within limit)
      ((Tokens.ofSource source).within limit') := by
    rw [Tokens.within_eq, Tokens.within_eq]
    exact Tokens.rows_breakOff h
      (fun t ht => Pairing.fits_within.mpr ⟨(hspelled t ht).plain, fun _ _ => trivial⟩)
      (fun _ _ => trivial) _
  rcases (Pairing.matches_readTokens hrows).of_within with ⟨hforms, hfault, -⟩ | hcut
  · exact Or.inl (Prod.ext hforms hfault)
  · exact Or.inr hcut

theorem readAllWithin_raised {limit limit' : Nat} (h : limit ≤ limit') (source : List Char) :
    readAllWithin limit source = .error .tooDeep ∨
      readAllWithin limit' source = readAllWithin limit source := by
  unfold readAllWithin
  rcases readFormsWithin_raised h source with heq | ⟨hdeep, -⟩
  · exact Or.inr (by rw [heq])
  · exact Or.inl (allOrNone_eq_error_iff.mpr hdeep)

end Reader

namespace EvalM

variable {α : Type} {s s' : Settings}

theorem raised_of_tooDeep {m : EvalM α} (h : ∀ w, TooDeep (m w)) (n : EvalM α) :
    Raised s s' m n :=
  fun w _ hcut => absurd (h w) hcut

theorem raised_setFiles (files : FileTree) :
    Raised s s' (modify fun w => { w with files }) (modify fun w => { w with files }) :=
  raised_modify (fun _ => rfl) fun _ => rfl

theorem raised_changeFiles (change : FileTree → Except Fault (Option FileTree)) :
    Raised s s' (Builtin.changeFiles change) (Builtin.changeFiles change) := by
  refine raised_get fun w _ => (raised_lift _).bind fun changed => ?_
  cases changed with
  | none => exact raised_pure _
  | some files => exact (raised_setFiles files).bind fun _ => raised_pure _

theorem raised_asPath (procedure : String) (v : Value) :
    Raised s s' (Builtin.asPath procedure v) (Builtin.asPath procedure v) := by
  unfold Builtin.asPath
  split
  · exact (raised_demand _).bind fun _ => raised_pure _
  · exact raised_withStore _

theorem raised_fileLines? (p : Path) :
    Raised s s' (Builtin.fileLines? p) (Builtin.fileLines? p) :=
  (raised_demand _).bind fun _ => raised_get fun _ _ => (raised_lift _).bind fun _ => raised_pure _

theorem raised_readFromFile (v : Value) :
    Raised s s' (Builtin.readFromFile v) (Builtin.readFromFile v) := by
  unfold Builtin.readFromFile
  split
  · exact raised_pure _
  · refine (raised_fileLines? _).bind fun lines => ?_
    cases lines <;> exact raised_pure _

theorem raised_readLines (v : Value) :
    Raised s s' (Builtin.readLines v) (Builtin.readLines v) := by
  unfold Builtin.readLines
  split
  · exact raised_pure _
  · refine (raised_fileLines? _).bind fun lines => ?_
    cases lines <;> exact raised_pure _

theorem raised_makeFile (v : Value) :
    Raised s s' (Builtin.makeFile v) (Builtin.makeFile v) := by
  refine (raised_asPath _ v).bind fun p => (raised_changeFiles _).bind fun made => ?_
  cases made <;> exact raised_pure _

theorem raised_makeDirectory (v : Value) :
    Raised s s' (Builtin.makeDirectory v) (Builtin.makeDirectory v) := by
  refine (raised_asPath _ v).bind fun p => raised_get fun w _ =>
    (raised_lift _).bind fun entry => ?_
  cases entry with
  | some entry => exact raised_pure _
  | none =>
    exact (raised_lift _).bind fun made => (raised_setFiles made.1).bind fun _ => raised_pure _

theorem raised_takeInputLine : Raised s s' Builtin.takeInputLine Builtin.takeInputLine := by
  have htake : Raised s s'
      (modifyGet fun w =>
        ((Text.takeLine w.input).1, { w with input := (Text.takeLine w.input).2 }))
      (modifyGet fun w =>
        ((Text.takeLine w.input).1, { w with input := (Text.takeLine w.input).2 })) :=
    raised_modifyGet (fun _ => rfl) fun _ => rfl
  refine raised_get fun w _ => ?_
  by_cases hempty : w.input.isEmpty = true
  · have hempty' : (w.under s').input.isEmpty = true := hempty
    rw [if_pos hempty, if_pos hempty']
    exact (raised_demand _).bind fun _ => htake
  · have hempty' : ¬ (w.under s').input.isEmpty = true := hempty
    rw [if_neg hempty, if_neg hempty']
    exact htake

/-- A path that is no fault to write to is none for any text. -/
theorem changeFiles_writeText {p : Path} (hp : FileTree.checkPath p = .ok ()) (text : String)
    (w : World) : ∃ made w', Builtin.changeFiles (·.writeText p text) w = .ok made w' := by
  have hwrite : w.files.writeText p text = .ok (w.files.putFile p (.text text)) := by
    rw [FileTree.writeText, hp, ok_bind]
    rfl
  change ∃ made w', EStateM.bind (lift (w.files.writeText p text)) _ w = .ok made w'
  rw [hwrite]
  cases w.files.putFile p (.text text) with
  | none => exact ⟨_, _, rfl⟩
  | some files => exact ⟨_, _, rfl⟩

theorem changeFiles_fault {p : Path} {fault : Fault} (hp : FileTree.checkPath p = .error fault)
    (text : String) : Builtin.changeFiles (·.writeText p text) = throw fault := by
  funext w
  have hwrite : w.files.writeText p text = .error fault := by
    rw [FileTree.writeText, hp, error_bind]
  change EStateM.bind (lift (w.files.writeText p text)) _ w = .error fault w
  rw [hwrite]
  rfl

variable (h : s.Raises s')

include h

theorem raised_display (v : Value) : Raised s s' (display v) (display v) := by
  refine raised_get fun w hw => raised_lift_of ?_
  rw [hw]
  exact v.displayWithin_raised h.depthLimit_le w.store

theorem raised_printed (v : Value) : Raised s s' (printed v) (printed v) := by
  refine raised_get fun w hw => raised_lift_of ?_
  rw [hw]
  exact v.printedWithin_raised h.depthLimit_le w.store

theorem raised_readAll (source : List Char) :
    Raised s s' (Builtin.readAll source) (Builtin.readAll source) := by
  refine raised_get fun w hw => raised_lift_of ?_
  rw [hw]
  exact Reader.readAllWithin_raised h.depthLimit_le source

theorem raised_findSource (name : String) :
    Raised s s' (Builtin.findSource name) (Builtin.findSource name) := by
  refine raised_get fun w hw => ?_
  have hcandidates : (w.under s').settings.sourceCandidates name =
      w.settings.sourceCandidates name := by
    change s'.sourceCandidates name = _
    rw [hw, Settings.sourceCandidates, Settings.sourceCandidates, h.loadRoots_eq]
  rw [Settings.sourceFile?, Settings.sourceFile?, hcandidates]
  exact (raised_demandFiles _).bind fun _ => raised_lift _

theorem raised_writeRows {p : Path} (hp : FileTree.checkPath p = .ok ()) (written : String)
    (rows : List Value) :
    Raised s s' (Builtin.writeLines.writeRows p written rows)
      (Builtin.writeLines.writeRows p written rows) := by
  induction rows generalizing written with
  | nil => exact (raised_changeFiles _).bind fun _ => raised_pure _
  | cons row rest ih =>
    refine raised_get fun w hw => ?_
    rw [hw]
    rcases row.displayWithin_raised h.depthLimit_le w.store with hdeep | hsame
    · -- the file can be written, so what ends this is the limit
      rw [hdeep]
      refine raised_of_tooDeep (fun w => ?_) _
      obtain ⟨made, w', hmade⟩ := changeFiles_writeText hp written w
      refine ⟨w', ?_⟩
      change EStateM.bind _ _ w = _
      rw [EStateM.bind, hmade]
      rfl
    · have hrow : row.displayWithin (w.under s').settings.depthLimit (w.under s').store =
          row.displayWithin s.depthLimit w.store := hsame
      rw [hrow]
      cases row.displayWithin s.depthLimit w.store with
      | ok text => exact ih _
      | error fault => exact (raised_changeFiles _).bind fun _ => raised_throw _

theorem raised_writeLines (target v : Value) :
    Raised s s' (Builtin.writeLines target v) (Builtin.writeLines target v) := by
  refine (raised_asPath _ target).bind fun p => ?_
  split
  · exact raised_withStore _
  · rename_i rows _
    cases hp : FileTree.checkPath p with
    | error fault =>
      rw [changeFiles_fault hp]
      exact raised_throw fault
    | ok _ =>
      refine (raised_changeFiles _).bind fun written => ?_
      cases written with
      | false => exact raised_pure _
      | true => exact raised_writeRows h hp "" rows

theorem raised_basic {m : EvalM α} (hm : Basic m) : Raised s s' m m := by
  cases hm with
  | updateStore f => exact raised_modifyGet (fun _ => rfl) fun _ => rfl
  | mark v =>
    unfold EvalM.mark
    split
    · exact raised_modifyGet (fun _ => rfl) fun _ => rfl
    · exact raised_pure v
  | write text => exact raised_modify (fun _ => rfl) fun _ => rfl
  | printed v => exact raised_printed h v
  | display v => exact raised_display h v
  | readAll source => exact raised_readAll h source
  | takeInputLine => exact raised_takeInputLine
  | findSource name => exact raised_findSource h name
  | sourceText p => exact raised_get fun _ _ => (raised_lift _).bind fun _ => raised_pure _
  | asPath procedure v => exact raised_asPath procedure v
  | readFromFile v => exact raised_readFromFile v
  | readLines v => exact raised_readLines v
  | makeFile v => exact raised_makeFile v
  | makeDirectory v => exact raised_makeDirectory v
  | changeFiles change => exact raised_changeFiles change
  | writeLines target v => exact raised_writeLines h target v

/-- Sequences keep what a larger limit does not change. -/
def raising : Congruence where
  Rel := Raised s s'
  value := raised_pure
  fault := raised_throw
  bind := .bind
  inspect hfg := raised_get fun w _ => hfg w (w.under s') rfl
  basic := raised_basic h

/-- A larger limit does not change what an evaluator ends in. -/
theorem raised_evaluator {depth depth' : Nat} (hdepth : depth ≤ depth') (steps : Nat) :
    (raising h).Levels (evaluator steps depth) (evaluator steps depth') := by
  induction depth generalizing depth' with
  | zero =>
    exact ⟨by rw [evaluator_steps, evaluator_steps], fun _ _ _ => raised_tooDeep _,
      fun _ _ _ _ => raised_tooDeep _⟩
  | succ depth ih =>
    obtain ⟨inner, rfl⟩ : ∃ k, depth' = k + 1 := ⟨depth' - 1, by omega⟩
    rw [evaluator_succ, evaluator_succ]
    exact (ih (by omega)).next

end EvalM

namespace Session

open EvalM

variable {s s' : Settings} (h : s.Raises s')

include h

/-- If the second reading goes on where the first was cut off, then the first run comes to the
fault that cut it off, or ends before that. -/
theorem raised_runForms {ev ev' : Evaluator} (hev : (raising h).Levels ev ev') (last : Value)
    {read read' : List Form × Option Fault}
    (hread : read' = read ∨ read.2 = some .tooDeep ∧ ∃ more, read'.1 = read.1 ++ more) :
    Raised s s' (runForms ev last read) (runForms ev' last read') := by
  obtain ⟨forms, fault?⟩ := read
  obtain ⟨forms', fault?'⟩ := read'
  rcases hread with heq | ⟨hdeep, more, hmore⟩
  · cases heq
    refine Raised.bind (hev.nested.runAll top forms last) fun value => ?_
    cases fault? with
    | none => exact raised_pure value
    | some fault => exact raised_throw fault
  · obtain rfl : fault? = some .tooDeep := hdeep
    obtain rfl : forms' = forms ++ more := hmore
    rw [runForms_append]
    have hforms : Raised s s' (ev.runAll top last forms) (runForms ev' last (forms, none)) := by
      rw [← bind_pure (ev.runAll top last forms)]
      exact Raised.bind (hev.nested.runAll top forms last) raised_pure
    exact hforms.bind fun _ => raised_tooDeep _

theorem raised_evalText (source : List Char) :
    Raised s s' (evalText source) (evalText source) := by
  intro w hw hcut
  rw [evalText_eq] at hcut ⊢
  rw [evalText_eq]
  rw [hw] at hcut ⊢
  exact raised_runForms h (raised_evaluator h h.depthLimit_le chainLimit) .nil
    ((Reader.readFormsWithin_raised h.depthLimit_le source).imp_left id) w hw hcut

end Session

/-- Let the limit on nesting be raised, both the one on nested evaluation and the one in the
settings. Then what does not run into the smaller limit ends under the larger one with the same
value or the same fault, in the same world but for the settings: the evaluation of a form in
either position or with its tail calls carried out, the application of a procedure, and the
evaluation of a text by a session. -/
theorem limit_unobservable {s' : Settings} {depth depth' : Nat} (steps : Nat) (w : World)
    (hsettings : w.settings.Raises s') (hdepth : depth ≤ depth') :
    (∀ form scope tail, ¬ EvalM.TooDeep ((evaluator steps depth).eval form scope tail w) →
      (evaluator steps depth').eval form scope tail (w.under s') =
        EvalM.under s' ((evaluator steps depth).eval form scope tail w)) ∧
    (∀ form scope, ¬ EvalM.TooDeep ((evaluator steps depth).run form scope w) →
      (evaluator steps depth').run form scope (w.under s') =
        EvalM.under s' ((evaluator steps depth).run form scope w)) ∧
    (∀ procedure arguments scope tail,
      ¬ EvalM.TooDeep ((evaluator steps depth).apply procedure arguments scope tail w) →
      (evaluator steps depth').apply procedure arguments scope tail (w.under s') =
        EvalM.under s' ((evaluator steps depth).apply procedure arguments scope tail w)) ∧
    (∀ source, ¬ EvalM.TooDeep (Session.evalText source w) →
      Session.evalText source (w.under s') = EvalM.under s' (Session.evalText source w)) := by
  have hlevels := EvalM.raised_evaluator hsettings hdepth steps
  refine ⟨fun form scope tail hcut => ?_, fun form scope hcut => ?_,
    fun procedure arguments scope tail hcut => ?_, fun source hcut => ?_⟩
  · exact (hlevels.eval form scope tail w rfl hcut).2
  · exact (hlevels.nested.run form scope w rfl hcut).2
  · exact (hlevels.apply procedure arguments scope tail w rfl hcut).2
  · exact (Session.raised_evalText hsettings source w rfl hcut).2

/-- A definition that nests two levels deep, and the same text in a session. -/
theorem limit_unobservable_define :
    let quoted : Form := ⟨⟨.quote, .text "'", none⟩, [.leaf ⟨.symbol, .text "a", none⟩], true⟩
    let definition : Form := ⟨⟨.define, .text "define", none⟩,
      [.leaf ⟨.symbol, .text "x", none⟩, quoted], true⟩
    let w := Session.initial .empty ⟨[]⟩ []
    let raised : Settings := ⟨[("MICROLISP_RECURSION_LIMIT", "30000")]⟩
    w.settings.Raises raised ∧ EvalM.TooDeep ((evaluator 1 1).eval definition 0 false w) ∧
      ¬ EvalM.TooDeep ((evaluator 1 2).eval definition 0 false w) ∧
      ¬ EvalM.TooDeep ((evaluator 1 2).run definition 0 w) ∧
      ¬ EvalM.TooDeep ((evaluator 1 2).apply (.primitive .list) [.nil] 0 true w) ∧
      ¬ EvalM.TooDeep (Session.evalText "(define x 'a)".toList w) ∧
      (evaluator 1 9).eval definition 0 false (w.under raised) =
        EvalM.under raised ((evaluator 1 2).eval definition 0 false w) ∧
      (evaluator 1 9).run definition 0 (w.under raised) =
        EvalM.under raised ((evaluator 1 2).run definition 0 w) ∧
      (evaluator 1 9).apply (.primitive .list) [.nil] 0 true (w.under raised) =
        EvalM.under raised ((evaluator 1 2).apply (.primitive .list) [.nil] 0 true w) ∧
      Session.evalText "(define x 'a)".toList (w.under raised) =
        EvalM.under raised (Session.evalText "(define x 'a)".toList w) := by
  intro quoted definition w raised
  have hraises : w.settings.Raises raised := ⟨by decide, rfl⟩
  have hform : ¬ EvalM.TooDeep ((evaluator 1 2).eval definition 0 false w) := by decide
  have hrun : ¬ EvalM.TooDeep ((evaluator 1 2).run definition 0 w) := by decide
  have happly : ¬ EvalM.TooDeep ((evaluator 1 2).apply (.primitive .list) [.nil] 0 true w) := by
    decide
  have htext : ¬ EvalM.TooDeep (Session.evalText "(define x 'a)".toList w) := by decide +kernel
  obtain ⟨hforms, hruns, happlies, htexts⟩ :=
    limit_unobservable 1 w hraises (show 2 ≤ 9 by decide)
  exact ⟨hraises, ⟨_, rfl⟩, hform, hrun, happly, htext, hforms definition 0 false hform,
    hruns definition 0 hrun, happlies _ _ 0 true happly, htexts _ htext⟩

end TowerLisp
