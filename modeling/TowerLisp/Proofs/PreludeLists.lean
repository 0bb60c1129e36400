import TowerLisp.Proofs.PreludeBodies
import TowerLisp.Proofs.StringViews
import TowerLisp.Proofs.TailBudgets

/-!
What the procedures of the prelude do with lists. `append` and `reverse` put together the elements
of their lists, `foldl`, `map` and `filter` are runs of calls of the procedure that they are given,
and `nth` finds an element or is at fault, whatever number it is given. The procedures walk their
lists, so each statement is proved by induction on a list, with one step of evaluation for a pair.
-/

namespace TowerLisp

namespace Value

/-- A value as it is taken from a list: if it lacks marks it gets them. -/
def Taken (v taken : Value) : Prop :=
  taken = v ∨ v.lacksMarks = true ∧ ∃ next, taken = (v.fillMarks next).1

/-- Taking a value touches nothing but the marks. -/
theorem taken_of_mark {v v' : Value} {w w' : World} (h : EvalM.mark v w = .ok v' w') :
    v.Taken v' ∧ w'.store = w.store := by
  rw [EvalM.mark] at h
  split at h
  · rename_i hlacks
    cases h
    exact ⟨.inr ⟨hlacks, _, rfl⟩, rfl⟩
  · cases h
    exact ⟨.inl rfl, rfl⟩

/-- A value that lacks no marks is taken as it is. -/
theorem Taken.eq {v v' : Value} (h : v.Taken v') (hmarks : v.lacksMarks = false) : v' = v := by
  obtain heq | ⟨hlacks, -⟩ := h
  · exact heq
  · rw [hmarks] at hlacks
    cases hlacks

theorem taken_eq {items taken : List Value} (h : List.Forall₂ Taken items taken)
    (hmarks : ∀ v ∈ items, v.lacksMarks = false) : taken = items := by
  induction h with
  | nil => rfl
  | cons hfirst _ ih =>
    obtain ⟨hv, hmarks⟩ := List.forall_mem_cons.mp hmarks
    rw [hfirst.eq hv, ih hmarks]

theorem lacksMarks_ofBool (b : Bool) : (ofBool b).lacksMarks = false := by
  cases b <;> rfl

end Value

/-- A procedure is called on an element of a list, after other arguments; it returns a value and
changes no binding. -/
structure ReturnsOn (procedure : Value) (before : List Value) (item : Value) (scope : ScopeId)
    (w : World) (v : Value) (w' : World) : Prop where
  ends : EndsIn (fun ev => do
    let item ← EvalM.mark item
    ev.applied procedure (before ++ [item]) scope) w (.ok v w')
  keeps : w.store.Keeps w'.store

namespace ReturnsOn

variable {procedure item taken v : Value} {before : List Value} {scope : ScopeId}
  {w w' marked : World}

/-- The call itself, after the element has been taken. -/
theorem applied (h : ReturnsOn procedure before item scope w v w')
    (hmark : EvalM.mark item w = .ok taken marked) :
    EndsIn (fun ev => ev.applied procedure (before ++ [taken]) scope) marked (.ok v w') :=
  .after (m := fun _ => EvalM.mark item)
    (f := fun ev item => ev.applied procedure (before ++ [item]) scope) (fun _ => hmark) h.ends

theorem continues (h : ReturnsOn procedure before item scope w v w') :
    w.store.Continues w'.store := by
  obtain ⟨taken, marked, hmark⟩ := Prelude.exists_mark item w
  obtain ⟨budget, hcall⟩ := (h.applied hmark).exists_within
  have hstart : Discipline.extending.Starts marked marked scope := ⟨.refl marked, trivial⟩
  have hextends : marked.store.Extends w'.store := hcall.extends_of_parallel fun ev hev =>
    (hev.apply procedure (before ++ [taken]) false hstart).bind fun hreach hstep =>
      hev.finish hreach.alike hstep
  rw [(Value.taken_of_mark hmark).2] at hextends
  exact ⟨hextends, h.keeps⟩

/-- A primitive that computes a value. -/
theorem of_computed {p : Primitive} (hitem : item.lacksMarks = false)
    (harity : ∀ n, p.arity? = some n → (before ++ [item]).length = n)
    (hcompute : Builtin.compute? w.store p (before ++ [item]) = some (.ok v))
    (hv : v.lacksMarks = false) (scope : ScopeId) :
    ReturnsOn (.primitive p) before item scope w v w where
  ends := EndsIn.bind (.of_eq fun _ => EvalM.mark_eq hitem w) (.applied_primitive (.of_eq fun ev =>
    Builtin.run_computed harity hcompute hv ev scope))
  keeps := (Store.Continues.refl w.store).keeps

end ReturnsOn

namespace Prelude

/-- The calls of a procedure that `foldl` makes, each on the value so far and the next element. The
caller has a frame of its own at the root. -/
inductive Folds (root : ScopeId) (f : Value) :
    World → Value → List Value → Value → World → Prop where
  | nil (w : World) (acc : Value) :
      Folds root f w acc [] acc (w.withFrame root ["f", "acc", "xs"] [f, acc, .list []]).2
  | cons {w w' w'' : World} {acc acc' v x : Value} {xs : List Value} :
      ReturnsOn f [acc] x (w.withFrame root ["f", "acc", "xs"] [f, acc, .list (x :: xs)]).1
        (w.withFrame root ["f", "acc", "xs"] [f, acc, .list (x :: xs)]).2 acc' w' →
      Folds root f w' acc' xs v w'' → Folds root f w acc (x :: xs) v w''

/-- The calls of a procedure that `map` makes, one for each element. -/
inductive Maps (root : ScopeId) (f : Value) :
    World → List Value → List Value → World → Prop where
  | nil (w : World) : Maps root f w [] [] (w.withFrame root ["f", "xs"] [f, .list []]).2
  | cons {w w' w'' : World} {x y : Value} {xs ys : List Value} :
      ReturnsOn f [] x (w.withFrame root ["f", "xs"] [f, .list (x :: xs)]).1
        (w.withFrame root ["f", "xs"] [f, .list (x :: xs)]).2 y w' →
      Maps root f w' xs ys w'' → Maps root f w (x :: xs) (y :: ys) w''

/-- The calls of a procedure that `filter` makes, one for each element. An element that is kept is
taken from its list once more. -/
inductive Filters (root : ScopeId) (p : Value) :
    World → List Value → List Value → World → Prop where
  | nil (w : World) : Filters root p w [] [] (w.withFrame root ["p", "xs"] [p, .list []]).2
  | keep {w w' w'' last : World} {x x' answer : Value} {xs ys : List Value} :
      ReturnsOn p [] x (w.withFrame root ["p", "xs"] [p, .list (x :: xs)]).1
        (w.withFrame root ["p", "xs"] [p, .list (x :: xs)]).2 answer w' →
      answer.isTrue = true → EvalM.mark x w' = .ok x' w'' → Filters root p w'' xs ys last →
      Filters root p w (x :: xs) (x' :: ys) last
  | drop {w w' w'' : World} {x answer : Value} {xs ys : List Value} :
      ReturnsOn p [] x (w.withFrame root ["p", "xs"] [p, .list (x :: xs)]).1
        (w.withFrame root ["p", "xs"] [p, .list (x :: xs)]).2 answer w' →
      answer.isTrue = false → Filters root p w' xs ys w'' → Filters root p w (x :: xs) ys w''

variable {L : Layout} {scope : ScopeId} {bindings : Bindings} {w w' w'' : World} {v x x' : Value}
  {xs ys : List Value}

namespace Inside

variable (h : Inside L bindings scope w.store)

include h

theorem gives {name : String} (hname : (bindings.find? name).or (global L name) = some v) :
    (Sketch.name name).Gives scope w (.ok v w) :=
  .name (h.sees name v hname)

/-- A call of a primitive on what the body walks. -/
theorem gives_unary {key : String} {p : Primitive} {u u' : Value}
    (hkey : (bindings.find? key).or (global L key) = some (.primitive p))
    (hxs : bindings.find? "xs" = some v) (harity : p.arity? = some 1)
    (hcompute : Builtin.compute? w.store p [v] = some (.ok u))
    (hmark : EvalM.mark u w = .ok u' w') :
    (Sketch.call key [.name "xs"]).Gives scope w (.ok u' w') :=
  .compute (h.sees key _ hkey) (.cons (h.gives (by rw [hxs]; rfl)) .nil)
    (fun n hn => by simpa [harity] using hn) hcompute hmark

theorem gives_isNull (hkey : (bindings.find? "null?").or (global L "null?") =
      some (.primitive .isNull)) (hxs : bindings.find? "xs" = some v) :
    (Sketch.call "null?" [.name "xs"]).Gives scope w (.ok (.ofBool (Builtin.isNull v)) w) :=
  h.gives_unary hkey hxs rfl rfl (EvalM.mark_eq (Value.lacksMarks_ofBool _) w)

theorem gives_first (hkey : (bindings.find? "head").or (global L "head") = some (.primitive .head))
    (hxs : bindings.find? "xs" = some (.list (x :: xs))) (hmark : EvalM.mark x w = .ok x' w') :
    first.Gives scope w (.ok x' w') :=
  h.gives_unary hkey hxs rfl rfl hmark

theorem gives_others (hkey : (bindings.find? "tail").or (global L "tail") = some (.primitive .tail))
    (hxs : bindings.find? "xs" = some (.list (x :: xs))) :
    others.Gives scope w (.ok (.list xs) w) :=
  h.gives_unary hkey hxs rfl rfl (by cases xs <;> rfl)

/-- A value in front of a list. -/
theorem gives_cons {front back : Sketch}
    (hkey : (bindings.find? "cons").or (global L "cons") = some (.primitive .cons))
    (hoperands : Sketch.AllGive [front, back] scope w (.ok [x, .list xs] w')) :
    (Sketch.call "cons" [front, back]).Gives scope w (.ok (.list (x :: xs)) w') :=
  .compute (h.sees "cons" _ hkey) hoperands (fun n hn => by cases hn; rfl) rfl
    (by rw [Value.cons_list]; rfl)

end Inside

/-- A list in front of another one: its elements, as they are taken from it, and then the others. -/
theorem exists_meets_append (hlaid : program.Laid L w.store) (xs ys : List Value) :
    ∃ xs' w', List.Forall₂ Value.Taken xs xs' ∧
      Meets L "append" [.list xs, .list ys] w (.ok (.list (xs' ++ ys)) w') := by
  induction xs generalizing w with
  | nil =>
    have hin := inside_withFrame hlaid ["xs", "ys"] [.list [], .list ys]
    exact ⟨[], _, .nil, meets_of_gives rfl hlaid rfl
      (.cond (.take (hin.gives_isNull rfl rfl) rfl (hin.gives rfl)))⟩
  | cons x xs ih =>
    have hin := inside_withFrame hlaid ["xs", "ys"] [.list (x :: xs), .list ys]
    obtain ⟨x', marked, hmark⟩ := exists_mark x
      (w.withFrame L.root ["xs", "ys"] [.list (x :: xs), .list ys]).2
    obtain ⟨htaken, hstore⟩ := Value.taken_of_mark hmark
    have hin' := hin
    rw [← hstore] at hin'
    obtain ⟨xs', w', htakens, hmeets⟩ := ih hin'.laid
    have hrest : (Sketch.call "append" [others, .name "ys"]).Gives _ marked
        (.ok (.list (xs' ++ ys)) w') :=
      .call (hin'.sees "append" _ rfl) (.cons (hin'.gives_others rfl rfl)
        (.cons (hin'.gives rfl) .nil)) (hmeets _)
    have hpair := hin.gives_cons rfl (.cons (hin.gives_first rfl rfl hmark) (.cons hrest .nil))
    exact ⟨x' :: xs', w', .cons htaken htakens, meets_of_gives rfl hlaid rfl
      (.cond (.skip (hin.gives_isNull rfl rfl) rfl (.take (hin.gives rfl) rfl hpair)))⟩

/-- A string in front of another one. -/
theorem exists_meets_append_string (hlaid : program.Laid L w.store) (s t : String) :
    ∃ w', Meets L "append" [.string s, .string t] w (.ok (.string (s ++ t)) w') := by
  obtain ⟨cs, rfl⟩ : ∃ cs, s = String.ofList cs := ⟨s.toList, by simp⟩
  induction cs generalizing w with
  | nil =>
    have hin := inside_withFrame hlaid ["xs", "ys"] [.string (String.ofList []), .string t]
    rw [String.ofList_nil, String.empty_append]
    exact ⟨_, meets_of_gives rfl hlaid rfl
      (.cond (.take (hin.gives_isNull rfl rfl) rfl (hin.gives rfl)))⟩
  | cons c cs ih =>
    let entered := w.withFrame L.root ["xs", "ys"] [.string (String.ofList (c :: cs)), .string t]
    have hin := inside_withFrame hlaid ["xs", "ys"] [.string (String.ofList (c :: cs)), .string t]
    obtain ⟨w', hmeets⟩ := ih hin.laid
    have hsome : Builtin.isNull (.string (String.ofList (c :: cs))) = false := by
      simp [Builtin.isNull]
    have hnull := hin.gives_isNull rfl rfl
    rw [hsome] at hnull
    have hfirst : first.Gives entered.1 entered.2 (.ok (.string (String.singleton c)) entered.2) :=
      hin.gives_unary rfl rfl rfl (congrArg some (Value.first_string ..)) rfl
    have hothers : others.Gives entered.1 entered.2 (.ok (.string (String.ofList cs)) entered.2) :=
      hin.gives_unary rfl rfl rfl (congrArg some (Value.rest_string ..)) rfl
    have hrest : (Sketch.call "append" [others, .name "ys"]).Gives entered.1 entered.2
        (.ok (.string (String.ofList cs ++ t)) w') :=
      .call (hin.sees "append" _ rfl) (.cons hothers (.cons (hin.gives rfl) .nil)) (hmeets _)
    have hjoined : (Sketch.call "cons" [first, .call "append" [others, .name "ys"]]).Gives
        entered.1 entered.2 (.ok (.string (String.ofList (c :: cs) ++ t)) w') := by
      refine .compute (hin.sees "cons" _ rfl) (.cons hfirst (.cons hrest .nil))
        (fun n hn => by cases hn; rfl) rfl ?_
      have hjoin : String.singleton c ++ (String.ofList cs ++ t) = String.ofList (c :: cs) ++ t :=
        String.toList_injective (by simp)
      rw [Value.cons_string (by simp), hjoin]
      rfl
    exact ⟨w', meets_of_gives rfl hlaid rfl
      (.cond (.skip hnull rfl (.take (hin.gives rfl) rfl hjoined)))⟩

/-- A fold comes to what the calls of its procedure come to. -/
theorem meets_foldl {f acc : Value} (hlaid : program.Laid L w.store)
    (h : Folds L.root f w acc xs v w') : Meets L "foldl" [f, acc, .list xs] w (.ok v w') := by
  induction h with
  | nil w acc =>
    have hin := inside_withFrame hlaid ["f", "acc", "xs"] [f, acc, .list []]
    exact meets_of_gives rfl hlaid rfl
      (.cond (.take (hin.gives_isNull rfl rfl) rfl (hin.gives rfl)))
  | @cons w w' w'' acc acc' v x xs hcall _ ih =>
    have hin := inside_withFrame hlaid ["f", "acc", "xs"] [f, acc, .list (x :: xs)]
    have hin' := hin.later hcall.continues
    obtain ⟨x', marked, hmark⟩ := exists_mark x
      (w.withFrame L.root ["f", "acc", "xs"] [f, acc, .list (x :: xs)]).2
    have hcombined : (Sketch.call "f" [.name "acc", first]).Gives _ _ (.ok acc' w') :=
      .call (hin.sees "f" _ rfl) (.cons (hin.gives rfl)
        (.cons (hin.gives_first rfl rfl hmark) .nil)) (hcall.applied hmark)
    have hrest : (Sketch.call "foldl" [.name "f", .call "f" [.name "acc", first], others]).Gives _ _
        (.ok v w'') :=
      .call (hin.sees "foldl" _ rfl) (.cons (hin.gives rfl) (.cons hcombined
        (.cons (hin'.gives_others rfl rfl) .nil))) (ih hin'.laid _)
    exact meets_of_gives rfl hlaid rfl
      (.cond (.skip (hin.gives_isNull rfl rfl) rfl (.take (hin.gives rfl) rfl hrest)))

theorem meets_map {f : Value} (hlaid : program.Laid L w.store)
    (h : Maps L.root f w xs ys w') : Meets L "map" [f, .list xs] w (.ok (.list ys) w') := by
  induction h with
  | nil w =>
    have hin := inside_withFrame hlaid ["f", "xs"] [f, .list []]
    exact meets_of_gives rfl hlaid rfl (.cond (.take (hin.gives_isNull rfl rfl) rfl .empty))
  | @cons w w' w'' x y xs ys hcall _ ih =>
    have hin := inside_withFrame hlaid ["f", "xs"] [f, .list (x :: xs)]
    have hin' := hin.later hcall.continues
    obtain ⟨x', marked, hmark⟩ := exists_mark x
      (w.withFrame L.root ["f", "xs"] [f, .list (x :: xs)]).2
    have himage : (Sketch.call "f" [first]).Gives _ _ (.ok y w') :=
      .call (hin.sees "f" _ rfl) (.cons (hin.gives_first rfl rfl hmark) .nil)
        (hcall.applied hmark)
    have hrest : (Sketch.call "map" [.name "f", others]).Gives _ _ (.ok (.list ys) w'') :=
      .call (hin'.sees "map" _ rfl) (.cons (hin'.gives rfl)
        (.cons (hin'.gives_others rfl rfl) .nil)) (ih hin'.laid _)
    have hpair := hin.gives_cons rfl (.cons himage (.cons hrest .nil))
    exact meets_of_gives rfl hlaid rfl
      (.cond (.skip (hin.gives_isNull rfl rfl) rfl (.take (hin.gives rfl) rfl hpair)))

theorem meets_filter {p : Value} (hlaid : program.Laid L w.store)
    (h : Filters L.root p w xs ys w') : Meets L "filter" [p, .list xs] w (.ok (.list ys) w') := by
  induction h with
  | nil w =>
    have hin := inside_withFrame hlaid ["p", "xs"] [p, .list []]
    exact meets_of_gives rfl hlaid rfl (.cond (.take (hin.gives_isNull rfl rfl) rfl .empty))
  | @keep w w₁ w₂ w₃ x x₁ answer xs ys hcall hanswer htake _ ih =>
    have hin := inside_withFrame hlaid ["p", "xs"] [p, .list (x :: xs)]
    have hin' := hin.later hcall.continues
    obtain ⟨x', marked, hmark⟩ := exists_mark x
      (w.withFrame L.root ["p", "xs"] [p, .list (x :: xs)]).2
    have htest : (Sketch.call "p" [first]).Gives _ _ (.ok answer w₁) :=
      .call (hin.sees "p" _ rfl) (.cons (hin.gives_first rfl rfl hmark) .nil)
        (hcall.applied hmark)
    have hin'' := hin'
    rw [← (Value.taken_of_mark htake).2] at hin''
    have hrest : (Sketch.call "filter" [.name "p", others]).Gives _ _ (.ok (.list ys) w₃) :=
      .call (hin''.sees "filter" _ rfl) (.cons (hin''.gives rfl)
        (.cons (hin''.gives_others rfl rfl) .nil)) (ih hin''.laid _)
    have hpair := hin'.gives_cons rfl (.cons (hin'.gives_first rfl rfl htake) (.cons hrest .nil))
    exact meets_of_gives rfl hlaid rfl (.cond (.skip (hin.gives_isNull rfl rfl) rfl
      (.take htest hanswer hpair)))
  | @drop w w' w'' x answer xs ys hcall hanswer _ ih =>
    have hin := inside_withFrame hlaid ["p", "xs"] [p, .list (x :: xs)]
    have hin' := hin.later hcall.continues
    obtain ⟨x', marked, hmark⟩ := exists_mark x
      (w.withFrame L.root ["p", "xs"] [p, .list (x :: xs)]).2
    have htest : (Sketch.call "p" [first]).Gives _ _ (.ok answer w') :=
      .call (hin.sees "p" _ rfl) (.cons (hin.gives_first rfl rfl hmark) .nil)
        (hcall.applied hmark)
    have hrest : (Sketch.call "filter" [.name "p", others]).Gives _ _ (.ok (.list ys) w'') :=
      .call (hin'.sees "filter" _ rfl) (.cons (hin'.gives rfl)
        (.cons (hin'.gives_others rfl rfl) .nil)) (ih hin'.laid _)
    exact meets_of_gives rfl hlaid rfl (.cond (.skip (hin.gives_isNull rfl rfl) rfl
      (.skip htest hanswer (.take (hin'.gives rfl) rfl hrest))))

/-- A procedure that can be called on all elements of a list, whatever else has been made before,
can be folded over them. What is known of the value so far is known of the last one. -/
theorem exists_folds (root : ScopeId) {f acc : Value} {P : List Value → Value → Prop}
    (done : List Value)
    (hcall : ∀ done acc, ∀ x ∈ xs, ∀ scope u, P done acc → w.store.Continues u.store →
      ∃ acc' u', P (done ++ [x]) acc' ∧ ReturnsOn f [acc] x scope u acc' u')
    (hacc : P done acc) : ∃ v w', P (done ++ xs) v ∧ Folds root f w acc xs v w' := by
  induction xs generalizing w done acc with
  | nil => exact ⟨acc, _, by rwa [List.append_nil], .nil w acc⟩
  | cons x xs ih =>
    let entered := w.withFrame root ["f", "acc", "xs"] [f, acc, .list (x :: xs)]
    have hentered : w.store.Continues entered.2.store := Store.continues_withFrame ..
    obtain ⟨acc', w', hacc', hreturns⟩ :=
      hcall done acc x List.mem_cons_self entered.1 entered.2 hacc hentered
    have hcontinues := hentered.trans hreturns.continues
    obtain ⟨v, w'', hv, hfolds⟩ := ih (done ++ [x]) (fun done acc y hy scope u hacc hu =>
      hcall done acc y (List.mem_cons_of_mem x hy) scope u hacc (hcontinues.trans hu)) hacc'
    rw [List.append_assoc, List.singleton_append] at hv
    exact ⟨v, w'', hv, .cons hreturns hfolds⟩

/-- A procedure that can be called on all elements of a list can be mapped over them. -/
theorem exists_maps (root : ScopeId) {f : Value} {G : Value → Value → Prop}
    (hcall : ∀ x ∈ xs, ∀ scope u, w.store.Continues u.store →
      ∃ y u', G x y ∧ ReturnsOn f [] x scope u y u') :
    ∃ ys w', List.Forall₂ G xs ys ∧ Maps root f w xs ys w' := by
  induction xs generalizing w with
  | nil => exact ⟨[], _, .nil, .nil w⟩
  | cons x xs ih =>
    let entered := w.withFrame root ["f", "xs"] [f, .list (x :: xs)]
    have hentered : w.store.Continues entered.2.store := Store.continues_withFrame ..
    obtain ⟨y, w', hy, hreturns⟩ := hcall x List.mem_cons_self entered.1 entered.2 hentered
    have hcontinues := hentered.trans hreturns.continues
    obtain ⟨ys, w'', hys, hmaps⟩ := ih fun x' hx' scope u hu =>
      hcall x' (List.mem_cons_of_mem x hx') scope u (hcontinues.trans hu)
    exact ⟨y :: ys, w'', .cons hy hys, .cons hreturns hmaps⟩

/-- A test that can be called on all elements of a list picks those for which it is true. -/
theorem exists_filters (root : ScopeId) {p : Value} {q : Value → Bool}
    (hcall : ∀ x ∈ xs, ∀ scope u, w.store.Continues u.store →
      ∃ answer u', answer.isTrue = q x ∧ ReturnsOn p [] x scope u answer u') :
    ∃ ys w', List.Forall₂ Value.Taken (xs.filter q) ys ∧ Filters root p w xs ys w' := by
  induction xs generalizing w with
  | nil => exact ⟨[], _, .nil, .nil w⟩
  | cons x xs ih =>
    let entered := w.withFrame root ["p", "xs"] [p, .list (x :: xs)]
    have hentered : w.store.Continues entered.2.store := Store.continues_withFrame ..
    obtain ⟨answer, w', hanswer, hreturns⟩ :=
      hcall x List.mem_cons_self entered.1 entered.2 hentered
    have hcontinues := hentered.trans hreturns.continues
    cases hq : q x with
    | true =>
      obtain ⟨x', w₂, hmark⟩ := exists_mark x w'
      obtain ⟨htaken, hstore⟩ := Value.taken_of_mark hmark
      rw [← hstore] at hcontinues
      obtain ⟨ys, w'', hys, hfilters⟩ := ih fun y hy scope u hu =>
        hcall y (List.mem_cons_of_mem x hy) scope u (hcontinues.trans hu)
      rw [List.filter_cons_of_pos hq]
      exact ⟨x' :: ys, w'', .cons htaken hys, .keep hreturns (hanswer.trans hq) hmark hfilters⟩
    | false =>
      obtain ⟨ys, w'', hys, hfilters⟩ := ih fun y hy scope u hu =>
        hcall y (List.mem_cons_of_mem x hy) scope u (hcontinues.trans hu)
      rw [List.filter_cons_of_neg (by simp [hq])]
      exact ⟨ys, w'', hys, .drop hreturns (hanswer.trans hq) hfilters⟩

/-- The procedure `(lambda (acc x) (cons x acc))` puts an element in front of a list. -/
theorem returns_pushed {id : ClosureId} {body : Form} {label : Option String} {home : ScopeId}
    (hbody : body.fits (.call "cons" [.name "x", .name "acc"]) = true)
    (hclosure : w.store.closure? id = some ⟨["acc", "x"], [body], home, label⟩)
    (hplaced : w.store.Placed home)
    (hcons : w.store.lookup? home "cons" = some (.primitive .cons)) (x : Value)
    (xs : List Value) (scope : ScopeId) :
    ∃ x' w', x.Taken x' ∧ ReturnsOn (.closure id) [.list xs] x scope w (.list (x' :: xs)) w' := by
  obtain ⟨x', marked, hmark⟩ := exists_mark x w
  obtain ⟨htaken, hstore⟩ := Value.taken_of_mark hmark
  rw [← hstore] at hclosure hplaced hcons
  let entered := marked.withFrame home ["acc", "x"] [.list xs, x']
  have hsees : ∀ name, entered.2.store.lookup? entered.1 name =
      (Bindings.find? name (.ofPairs (["acc", "x"].zip [.list xs, x']))).or
        (marked.store.lookup? home name) := Store.lookup?_withFrame hplaced
  have hgives : (Sketch.call "cons" [.name "x", .name "acc"]).Gives entered.1 entered.2
      (.ok (.list (x' :: xs)) entered.2) :=
    .compute ((hsees "cons").trans hcons)
      (.cons (.name (hsees "x")) (.cons (.name (hsees "acc")) .nil))
      (fun n hn => by cases hn; rfl) rfl (by rw [Value.cons_list]; rfl)
  have hcall : EndsIn (fun ev => ev.applied (.closure id) [.list xs, x'] scope) marked
      (.ok (.list (x' :: xs)) entered.2) := .applied_closure hclosure rfl rfl (hgives body hbody)
  refine ⟨x', entered.2, htaken, EndsIn.bind (.of_eq fun _ => hmark) hcall, ?_⟩
  rw [← hstore]
  exact (Store.continues_withFrame ..).keeps

/-- A list backwards: a fold by a procedure that is made in the body. -/
theorem exists_meets_reverse (hlaid : program.Laid L w.store) (xs : List Value) :
    ∃ xs' w', List.Forall₂ Value.Taken xs xs' ∧
      Meets L "reverse" [.list xs] w (.ok (.list xs'.reverse) w') := by
  obtain ⟨body, hfits, hmeets⟩ := exists_body (L := L) "reverse" rfl
  obtain ⟨token, parts, rfl, htoken, hparts⟩ := Form.of_fits_call hfits
  obtain ⟨made, operands, rfl, hmade, hoperands⟩ := Form.of_fitAll_cons hparts
  obtain ⟨lambda, params, pushing, rfl, hlambda, hparams, hformals, hpushing⟩ :=
    Form.of_fits_lambda hmade
  let entered := w.withFrame L.root ["xs"] [.list xs]
  let closure : Closure := ⟨["acc", "x"], [pushing], entered.1, none⟩
  let id : ClosureId := entered.2.store.closures.size
  let u : World := { entered.2 with store := (entered.2.store.addClosure closure).2 }
  have hin : Inside L _ entered.1 entered.2.store := inside_withFrame hlaid ["xs"] [.list xs]
  have hin' : Inside L _ entered.1 u.store := hin.later (Store.continues_addClosure ..)
  have hclosure : u.store.closure? id = some closure := Array.getElem?_push_size ..
  have hcall : ∀ done acc, ∀ x ∈ xs, ∀ scope w,
      (∃ taken, List.Forall₂ Value.Taken done taken ∧ acc = .list taken.reverse) →
      u.store.Continues w.store → ∃ acc' w',
        (∃ taken, List.Forall₂ Value.Taken (done ++ [x]) taken ∧ acc' = .list taken.reverse) ∧
          ReturnsOn (.closure id) [acc] x scope w acc' w' := by
    rintro done _ x - scope w ⟨taken, htaken, rfl⟩ hcontinues
    obtain ⟨label, hfound⟩ := hcontinues.store_extends.closure hclosure
    have hhome := hin'.later hcontinues
    obtain ⟨x', w', hx', hreturns⟩ := returns_pushed hpushing hfound hhome.placed
      (hhome.sees "cons" _ rfl) x taken.reverse scope
    refine ⟨_, w', ⟨taken ++ [x'], List.rel_append htaken (.cons hx' .nil), ?_⟩, hreturns⟩
    rw [List.reverse_append]
    rfl
  obtain ⟨_, w', ⟨taken, htaken, rfl⟩, hfolds⟩ :=
    exists_folds L.root [] hcall ⟨[], .nil, rfl⟩
  have hvalue : EndsIn (fun ev => ev.value ⟨lambda, [params, pushing], true⟩ entered.1) entered.2
      (.ok (.closure id) u) := .of_within (Within.value_lambda hlambda hparams hformals)
  have hrest : Sketch.AllGive [.empty, .name "xs"] entered.1 u (.ok [.nil, .list xs] u) :=
    .cons .empty (.cons (hin'.gives rfl) .nil)
  exact ⟨taken, w', htaken, hmeets w [.list xs] _ hlaid rfl (.value_call htoken
    (hin.sees "foldl" _ rfl) (hvalue.values_cons (hrest operands hoperands))
    (meets_foldl hin'.laid hfolds entered.1))⟩

section Elements

variable {n : Int}

/-- Whether there is nothing left to count. -/
theorem Inside.gives_isZero (h : Inside L bindings scope w.store)
    (hkey : (bindings.find? "=").or (global L "=") = some (.primitive .equal))
    (hn : bindings.find? "n" = some (.int n)) :
    (Sketch.call "=" [.name "n", .number 0]).Gives scope w (.ok (.ofBool (decide (n = 0))) w) := by
  have hcompute : Builtin.compute? w.store .equal [.int n, .int 0] =
      some (.ok (.ofBool (decide (n = 0)))) := by
    change some (Value.ofBool <$> (Value.int n).equal (.int 0)) = _
    rw [Value.equal_int]
    rfl
  exact .compute (h.sees "=" _ hkey) (.cons (h.gives (by rw [hn]; rfl)) (.cons (.number 0) .nil))
    (fun n hn => by cases hn; rfl) hcompute (EvalM.mark_eq (Value.lacksMarks_ofBool _) w)

/-- One less to count. -/
theorem Inside.gives_pred (h : Inside L bindings scope w.store)
    (hkey : (bindings.find? "-").or (global L "-") = some (.primitive .sub))
    (hn : bindings.find? "n" = some (.int n)) :
    (Sketch.call "-" [.name "n", .number 1]).Gives scope w (.ok (.int (n - 1)) w) := by
  have hcompute : Builtin.compute? w.store .sub [.int n, .int 1] = some (.ok (.int (n - 1))) := by
    change some (Builtin.difference w.store [.int n, .int 1]) = _
    rw [Builtin.difference_int]
  exact .compute (h.sees "-" _ hkey) (.cons (h.gives (by rw [hn]; rfl)) (.cons (.number 1) .nil))
    (fun _ hn => by cases hn) hcompute (EvalM.mark_eq (Value.lacksMarks_int _) w)

/-- Where there is something to count, `nth` goes on with the rest of the list. -/
theorem meets_nth_cons (hlaid : program.Laid L w.store) (hn : n ≠ 0)
    {result : EStateM.Result Fault World Value}
    (h : Meets L "nth" [.int (n - 1), .list xs]
      (w.withFrame L.root ["n", "xs"] [.int n, .list (x :: xs)]).2 result) :
    Meets L "nth" [.int n, .list (x :: xs)] w result := by
  let entered := w.withFrame L.root ["n", "xs"] [.int n, .list (x :: xs)]
  have hin := inside_withFrame hlaid ["n", "xs"] [.int n, .list (x :: xs)]
  have hzero := hin.gives_isZero rfl rfl
  rw [decide_eq_false hn] at hzero
  have hrest : (Sketch.call "nth" [.call "-" [.name "n", .number 1], others]).Gives
      entered.1 entered.2 result :=
    .call (hin.sees "nth" _ rfl) (.cons (hin.gives_pred rfl rfl)
      (.cons (hin.gives_others rfl rfl) .nil)) (h _)
  exact meets_of_gives rfl hlaid rfl (.cond (.skip hzero rfl (.take (hin.gives rfl) rfl hrest)))

/-- The element at a place in the list. -/
theorem exists_meets_nth (hlaid : program.Laid L w.store) (xs : List Value) (i : Nat)
    (hi : i < xs.length) : ∃ x' w', xs[i].Taken x' ∧
      Meets L "nth" [.int i, .list xs] w (.ok x' w') := by
  induction xs generalizing w i with
  | nil => cases hi
  | cons x xs ih =>
    let entered := w.withFrame L.root ["n", "xs"] [.int i, .list (x :: xs)]
    have hin := inside_withFrame hlaid ["n", "xs"] [.int i, .list (x :: xs)]
    cases i with
    | zero =>
      obtain ⟨x', marked, hmark⟩ := exists_mark x entered.2
      exact ⟨x', marked, (Value.taken_of_mark hmark).1, meets_of_gives rfl hlaid rfl
        (.cond (.take (hin.gives_isZero rfl rfl) rfl (hin.gives_first rfl rfl hmark)))⟩
    | succ i =>
      obtain ⟨x', w', htaken, hmeets⟩ := ih hin.laid i (Nat.lt_of_succ_lt_succ hi)
      refine ⟨x', w', htaken, meets_nth_cons hlaid (by omega) ?_⟩
      simpa using hmeets

/-- At the end of the list there is neither a first element nor a rest. -/
theorem exists_meets_nth_fault (hlaid : program.Laid L w.store) (xs : List Value)
    (hn : n < 0 ∨ xs.length ≤ n) : ∃ w', Meets L "nth" [.int n, .list xs] w
      (.error (.mistyped (if n = xs.length then .head "()" else .tail "()")) w') := by
  induction xs generalizing w n with
  | nil =>
    let entered := w.withFrame L.root ["n", "xs"] [.int n, .list []]
    have hin := inside_withFrame hlaid ["n", "xs"] [.int n, .list []]
    have hzero := hin.gives_isZero rfl rfl
    have hitems : Sketch.AllGive [.name "xs"] entered.1 entered.2 (.ok [.list []] entered.2) :=
      .cons (hin.gives rfl) .nil
    refine ⟨entered.2, meets_of_gives rfl hlaid rfl (.cond ?_)⟩
    by_cases hend : n = 0
    · have hfirst : first.Gives entered.1 entered.2 (.error (.mistyped (.head "()")) entered.2) :=
        .compute_fault (hin.sees "head" _ rfl) hitems (fun n hn => by cases hn; rfl) rfl rfl
      rw [decide_eq_true hend] at hzero
      rw [if_pos (by simpa using hend)]
      exact .take hzero rfl hfirst
    · have hothers : others.Gives entered.1 entered.2 (.error (.mistyped (.tail "()")) entered.2) :=
        .compute_fault (hin.sees "tail" _ rfl) hitems (fun n hn => by cases hn; rfl) rfl rfl
      rw [decide_eq_false hend] at hzero
      rw [if_neg (by simpa using hend)]
      exact .skip hzero rfl (.take (hin.gives rfl) rfl (.call_fault (hin.sees "nth" _ rfl)
        (.fault_later (hin.gives_pred rfl rfl) (.fault_first hothers))))
  | cons x xs ih =>
    have hin := inside_withFrame hlaid ["n", "xs"] [.int n, .list (x :: xs)]
    rw [List.length_cons] at hn ⊢
    obtain ⟨w', hmeets⟩ := ih (n := n - 1) hin.laid (by omega)
    refine ⟨w', meets_nth_cons hlaid (by omega) ?_⟩
    have hend : (n = (xs.length + 1 : Nat)) ↔ n - 1 = xs.length := by omega
    simpa only [hend] using hmeets

end Elements

/-- The fold of a function. -/
theorem exists_folds_foldl (root : ScopeId) {f acc : Value} {g : Value → Value → Value}
    (hcall : ∀ acc, ∀ x ∈ xs, ∀ scope u, w.store.Continues u.store →
      ∃ u', ReturnsOn f [acc] x scope u (g acc x) u') :
    ∃ w', Folds root f w acc xs (xs.foldl g acc) w' := by
  have hexists : ∃ v w', v = xs.foldl g acc ∧ Folds root f w acc xs v w' := by
    refine exists_folds root (P := fun done v => v = done.foldl g acc) []
      (fun done acc' x hx scope u hacc' hu => ?_) rfl
    obtain ⟨u', hreturns⟩ := hcall acc' x hx scope u hu
    refine ⟨_, u', ?_, hreturns⟩
    rw [List.foldl_append, hacc']
    rfl
  obtain ⟨_, w', rfl, hfolds⟩ := hexists
  exact ⟨w', hfolds⟩

/-- The image of a function. -/
theorem exists_maps_map (root : ScopeId) {f : Value} {g : Value → Value}
    (hcall : ∀ x ∈ xs, ∀ scope u, w.store.Continues u.store →
      ∃ u', ReturnsOn f [] x scope u (g x) u') : ∃ w', Maps root f w xs (xs.map g) w' := by
  obtain ⟨ys, w', hys, hmaps⟩ := exists_maps root (G := fun x y => g x = y)
    fun x hx scope u hu => by
      obtain ⟨u', hreturns⟩ := hcall x hx scope u hu
      exact ⟨g x, u', rfl, hreturns⟩
  have himage : xs.map g = ys := by
    rw [← List.forall₂_eq_eq_eq, List.forall₂_map_left_iff]
    exact hys
  exact ⟨w', himage ▸ hmaps⟩

/-- A session in which the text of the prelude has been evaluated. -/
theorem exists_laid (files : FileTree) (settings : Settings) (input : List Char) :
    ∃ forms L last w, Reader.readAll core.toList = .ok forms ∧
      Within 2 (fun ev => ev.runAll Session.top .nil forms)
        (Session.initial files settings input) last w ∧
      L.root = Session.top ∧ program.Laid L w.store := by
  obtain ⟨forms, hread, hforms⟩ := exists_forms
  have hplaced : Session.givenStore.Placed Session.top := ⟨by decide, by decide⟩
  have hbound : ∀ entry ∈ Session.givenBindings,
      Session.givenStore.lookup? Session.top entry.1 = some entry.2 := by decide +kernel
  have hoffers : (Session.initial files settings input).store.Offers Session.top program.given :=
    ⟨hplaced, hbound⟩
  have hdistinct : (program.procedures.map Procedure.name).Nodup := by
    change (procedures.map Procedure.name).Nodup
    rw [procedures_names]
    decide
  obtain ⟨L, last, w, hrun, hroot, hlaid, -⟩ := program.define hforms hdistinct hoffers .nil
  exact ⟨forms, L, last, w, hread, hrun, hroot, hlaid⟩

/-- A call by name, in tail position or not, whose operands have come to some arguments. -/
def Calls (L : Layout) (name : String) (arguments : List Value) (w : World)
    (result : EStateM.Result Fault World Value) : Prop :=
  ∀ (token : Token) operands scope start, token.Names name →
    start.store.lookup? scope name = some (.closure (L.ids name)) →
    EndsIn (fun ev => ev.values scope operands) start (.ok arguments w) →
    EndsIn (fun ev => ev.value ⟨token, operands, true⟩ scope) start result ∧
      EndsIn (fun ev => ev.run ⟨token, operands, true⟩ scope) start result

theorem Meets.calls {name : String} {arguments : List Value}
    {result : EStateM.Result Fault World Value} (h : Meets L name arguments w result) :
    Calls L name arguments w result := by
  intro token operands scope start htoken hlookup hoperands
  have hvalue := EndsIn.value_call htoken hlookup hoperands (h scope)
  exact ⟨hvalue, (Evaluator.endsIn_value_iff _ _ _ _).mp hvalue⟩

/-- What calls of the procedures on lists end in. Elements are those of the lists as they are taken
from them; a procedure that is handed over returns from its calls and changes no binding. This is
said twice of `foldl`, `map` and `filter`: for the calls that they make, whatever these return, and
for a procedure that computes a function wherever it is called. -/
structure ListLaws (L : Layout) (w : World) : Prop where
  append : ∀ xs ys, ∃ xs' w', List.Forall₂ Value.Taken xs xs' ∧
    Calls L "append" [.list xs, .list ys] w (.ok (.list (xs' ++ ys)) w')
  append_string : ∀ s t, ∃ w',
    Calls L "append" [.string s, .string t] w (.ok (.string (s ++ t)) w')
  reverse : ∀ xs, ∃ xs' w', List.Forall₂ Value.Taken xs xs' ∧
    Calls L "reverse" [.list xs] w (.ok (.list xs'.reverse) w')
  foldl : ∀ f acc xs v w', Folds L.root f w acc xs v w' →
    Calls L "foldl" [f, acc, .list xs] w (.ok v w')
  foldl_function : ∀ f acc xs (g : Value → Value → Value),
    (∀ acc, ∀ x ∈ xs, ∀ scope u, w.store.Continues u.store →
      ∃ u', ReturnsOn f [acc] x scope u (g acc x) u') →
    ∃ w', Calls L "foldl" [f, acc, .list xs] w (.ok (xs.foldl g acc) w')
  map : ∀ f xs ys w', Maps L.root f w xs ys w' →
    Calls L "map" [f, .list xs] w (.ok (.list ys) w')
  map_function : ∀ f xs (g : Value → Value),
    (∀ x ∈ xs, ∀ scope u, w.store.Continues u.store → ∃ u', ReturnsOn f [] x scope u (g x) u') →
    ∃ w', Calls L "map" [f, .list xs] w (.ok (.list (xs.map g)) w')
  filter : ∀ p xs ys w', Filters L.root p w xs ys w' →
    Calls L "filter" [p, .list xs] w (.ok (.list ys) w')
  filter_function : ∀ p xs (q : Value → Bool),
    (∀ x ∈ xs, ∀ scope u, w.store.Continues u.store →
      ∃ answer u', answer.isTrue = q x ∧ ReturnsOn p [] x scope u answer u') →
    ∃ ys w', List.Forall₂ Value.Taken (xs.filter q) ys ∧
      Calls L "filter" [p, .list xs] w (.ok (.list ys) w')
  nth : ∀ (xs : List Value) (i : Nat) (hi : i < xs.length), ∃ x' w', xs[i].Taken x' ∧
    Calls L "nth" [.int i, .list xs] w (.ok x' w')
  nth_fault : ∀ (n : Int) (xs : List Value), n < 0 ∨ xs.length ≤ n → ∃ w',
    Calls L "nth" [.int n, .list xs] w
      (.error (.mistyped (if n = xs.length then .head "()" else .tail "()")) w')

/-- Wherever the prelude is laid out over what is given at the top level, its procedures do with
lists what their names say. -/
theorem list_procedures_of_laid (h : program.Laid L w.store) : ListLaws L w where
  append xs ys := by
    obtain ⟨xs', w', htaken, hmeets⟩ := exists_meets_append h xs ys
    exact ⟨xs', w', htaken, hmeets.calls⟩
  append_string s t := by
    obtain ⟨w', hmeets⟩ := exists_meets_append_string h s t
    exact ⟨w', hmeets.calls⟩
  reverse xs := by
    obtain ⟨xs', w', htaken, hmeets⟩ := exists_meets_reverse h xs
    exact ⟨xs', w', htaken, hmeets.calls⟩
  foldl f acc xs v w' hfolds := (meets_foldl h hfolds).calls
  foldl_function f acc xs g hcall := by
    obtain ⟨w', hfolds⟩ := exists_folds_foldl L.root hcall
    exact ⟨w', (meets_foldl h hfolds).calls⟩
  map f xs ys w' hmaps := (meets_map h hmaps).calls
  map_function f xs g hcall := by
    obtain ⟨w', hmaps⟩ := exists_maps_map L.root hcall
    exact ⟨w', (meets_map h hmaps).calls⟩
  filter p xs ys w' hfilters := (meets_filter h hfilters).calls
  filter_function p xs q hcall := by
    obtain ⟨ys, w', htaken, hfilters⟩ := exists_filters L.root hcall
    exact ⟨ys, w', htaken, (meets_filter h hfilters).calls⟩
  nth xs i hi := by
    obtain ⟨x', w', htaken, hmeets⟩ := exists_meets_nth h xs i hi
    exact ⟨x', w', htaken, hmeets.calls⟩
  nth_fault n xs hn := by
    obtain ⟨w', hmeets⟩ := exists_meets_nth_fault h xs hn
    exact ⟨w', hmeets.calls⟩

theorem list_procedures_of_session : ∃ forms L last w,
    Reader.readAll core.toList = .ok forms ∧
    Within 2 (fun ev => ev.runAll Session.top .nil forms) (Session.initial .empty ⟨[]⟩ []) last w ∧
    L.root = Session.top ∧ program.Laid L w.store ∧
    (∃ w', Calls L "append" [.list [.string "a", .nil], .list [.string "b"]] w
      (.ok (.list [.string "a", .nil, .string "b"]) w')) ∧
    (∃ w', Calls L "reverse" [.list [.string "a", .nil]] w
      (.ok (.list [.nil, .string "a"]) w')) ∧
    (∃ w', Calls L "foldl" [.primitive .list, .int 0, .list [.string "a", .nil]] w
      (.ok (.list [.list [.int 0, .string "a"], .nil]) w')) ∧
    (∃ w', Calls L "map" [.primitive .list, .list [.string "a", .nil]] w
      (.ok (.list [.list [.string "a"], .list [.nil]]) w')) ∧
    (∃ w', Calls L "filter" [.primitive .isNull, .list [.string "a", .nil]] w
      (.ok (.list [.nil]) w')) ∧
    (∃ w', Calls L "nth" [.int 1, .list [.string "a", .nil]] w (.ok .nil w')) ∧
    ∃ w', Calls L "nth" [.int (-1), .list [.string "a", .nil]] w
      (.error (.mistyped (.tail "()")) w') := by
  obtain ⟨forms, L, last, w, hread, hrun, hroot, hlaid⟩ := exists_laid .empty ⟨[]⟩ []
  have hlaws := list_procedures_of_laid hlaid
  have hmarks : ∀ x ∈ [Value.string "a", .nil], x.lacksMarks = false := by decide
  refine ⟨forms, L, last, w, hread, hrun, hroot, hlaid, ?_, ?_, ?_, ?_, ?_, ?_, ?_⟩
  · obtain ⟨_, w', htaken, hcalls⟩ := hlaws.append [.string "a", .nil] [.string "b"]
    cases Value.taken_eq htaken hmarks
    exact ⟨w', hcalls⟩
  · obtain ⟨_, w', htaken, hcalls⟩ := hlaws.reverse [.string "a", .nil]
    cases Value.taken_eq htaken hmarks
    exact ⟨w', hcalls⟩
  · exact hlaws.foldl_function _ _ _ (fun acc x => .list [acc, x]) fun acc x hx scope u _ =>
      ⟨u, .of_computed (hmarks x hx) (fun _ h => by cases h) rfl rfl scope⟩
  · exact hlaws.map_function _ _ (fun x => .list [x]) fun x hx scope u _ =>
      ⟨u, .of_computed (hmarks x hx) (fun _ h => by cases h) rfl rfl scope⟩
  · obtain ⟨_, w', htaken, hcalls⟩ := hlaws.filter_function (.primitive .isNull)
      [.string "a", .nil] Builtin.isNull fun x hx scope u _ => ⟨.ofBool (Builtin.isNull x), u,
        by cases Builtin.isNull x <;> rfl,
        .of_computed (hmarks x hx) (fun n hn => by cases hn; rfl) rfl
          (Value.lacksMarks_ofBool _) scope⟩
    cases Value.taken_eq htaken (by decide)
    exact ⟨w', hcalls⟩
  · obtain ⟨_, w', htaken, hcalls⟩ := hlaws.nth [.string "a", .nil] 1 (by decide)
    cases htaken.eq rfl
    exact ⟨w', hcalls⟩
  · exact hlaws.nth_fault (-1) [.string "a", .nil] (.inl (by decide))

end Prelude

end TowerLisp
