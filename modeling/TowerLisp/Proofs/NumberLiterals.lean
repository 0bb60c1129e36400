import TowerLisp.Proofs.NumberText
import TowerLisp.Proofs.ResultKinds

/-!
Numbers that are read. A text without the letter i denotes a scalar, so that a text with one
such letter denotes a number whose components are scalars: its parts are rows of its other
characters.
-/

namespace TowerLisp

namespace Text

theorem trim_sublist (cs : List Char) : (trim cs).Sublist cs := by
  have hfront : ((cs.dropWhile isBlank).reverse.dropWhile isBlank).Sublist
      (cs.dropWhile isBlank).reverse := List.dropWhile_sublist isBlank
  have hback := List.reverse_sublist.mpr hfront
  rw [List.reverse_reverse] at hback
  exact hback.trans (List.dropWhile_sublist isBlank)

end Text

namespace Number

section Splitting

variable {cs before after : List Char} {c : Char}

theorem eq_of_splitLast {p : Char → Bool} (h : splitLast p cs = some (before, c, after)) :
    cs = before ++ c :: after ∧ p c = true := by
  rw [splitLast, List.span_eq_takeWhile_dropWhile] at h
  have hsplit := List.takeWhile_append_dropWhile (p := (!p ·)) (l := cs.reverse)
  split at h
  · cases h
  · rename_i back last front hspan
    cases h
    obtain ⟨rfl, hdrop⟩ := Prod.mk.inj hspan
    have hlast := List.head_dropWhile_not (!p ·) (show cs.reverse.dropWhile (!p ·) ≠ [] by
      rw [hdrop]
      exact List.cons_ne_nil _ _)
    rw [hdrop] at hsplit
    refine ⟨List.reverse_injective ?_, by simpa [hdrop] using hlast⟩
    simp [hsplit]

theorem eq_of_splitFirst (h : splitFirst c cs = some (before, after)) :
    cs = before ++ c :: after ∧ c ∉ before := by
  rw [splitFirst, List.span_eq_takeWhile_dropWhile] at h
  have hsplit := List.takeWhile_append_dropWhile (p := (· != c)) (l := cs)
  split at h
  · cases h
  · rename_i front first back hspan
    cases h
    obtain ⟨rfl, hdrop⟩ := Prod.mk.inj hspan
    have hfirst := List.head_dropWhile_not (· != c) (show cs.dropWhile (· != c) ≠ [] by
      rw [hdrop]
      exact List.cons_ne_nil _ _)
    have hfirst' : first = c := by simpa [hdrop] using hfirst
    rw [hdrop, hfirst'] at hsplit
    refine ⟨hsplit.symm, fun hc => ?_⟩
    have hkept := List.mem_takeWhile_imp hc
    simp at hkept

end Splitting

/-- A part of a text has no letters but those of the text, save that a part that is left out
is read as a one. -/
theorem splitReal_plain {cs : List Char} (hcs : 'i' ∉ cs) :
    (∀ real, (splitReal cs).1 = some real → 'i' ∉ real) ∧ 'i' ∉ (splitReal cs).2 := by
  unfold splitReal
  split
  · exact ⟨by simp, by decide⟩
  · rename_i first rest
    split
    · exact ⟨by simp, hcs⟩
    · rename_i middle sign after hsplit
      obtain ⟨rfl, -⟩ := eq_of_splitLast hsplit
      simp only [List.mem_cons, List.mem_append, not_or] at hcs
      obtain ⟨hfirst, hmiddle, hsign, hafter⟩ := hcs
      refine ⟨fun real hreal => ?_, by simp [hsign, hafter]⟩
      dsimp only at hreal
      split at hreal
      · cases hreal
      · cases hreal
        simp [hfirst, hmiddle]

theorem mergeSigns_sublist (cs : List Char) : (mergeSigns cs).Sublist cs := by
  unfold mergeSigns
  split <;> simp

theorem mergeSigns_plain {cs : List Char} (hcs : 'i' ∉ cs) : 'i' ∉ mergeSigns cs :=
  fun h => hcs ((mergeSigns_sublist cs).subset h)

section Reading

variable {cs : List Char}

theorem readInteger_real : Returns WellFormedReal (readInteger cs) := by
  unfold readInteger
  split
  · exact (returns_ok _).mpr ⟨_, rfl, Scalar.wellFormed_ofInt _⟩
  · exact returns_error _ _

theorem fraction_real (p q : ℤ) : Returns WellFormedReal (fraction p q) := by
  unfold fraction
  refine Returns.ite (fun _ => Returns.ite (fun _ => ?_) fun _ => ?_) fun _ => ?_
  · exact returns_error _ _
  · exact returns_error _ _
  · exact (returns_ok _).mpr ⟨_, rfl, Scalar.wellFormed_ofRat _⟩

theorem readRational_real : Returns WellFormedReal (readRational cs) := by
  unfold readRational
  split
  · exact returns_error _ _
  · split
    · exact Returns.ite (fun _ => returns_error _ _) fun _ => fraction_real _ _
    · exact returns_error _ _

theorem ofDecimal_real (d : Decimal) : Returns WellFormedReal (ofDecimal d) :=
  returns_bind fun _ => (returns_ok _).mpr ⟨_, rfl, trivial⟩

theorem readDecimal_real : Returns WellFormedReal (readDecimal cs) := by
  unfold readDecimal
  split
  · exact returns_error _ _
  · refine Returns.ite (fun _ => (returns_ok _).mpr ⟨_, rfl, trivial⟩) fun _ => ?_
    split
    · exact returns_error _ _
    · exact ofDecimal_real _

/-- Without an i, a text is that of a scalar. -/
theorem parseWithin_real (depth : Nat) (hcs : 'i' ∉ cs) :
    Returns WellFormedReal (parseWithin depth cs) := by
  cases depth with
  | zero => exact returns_error _ _
  | succ depth =>
    have htrim : 'i' ∉ Text.trim cs := fun hi => hcs ((Text.trim_sublist cs).subset hi)
    have hquaternion : isQuaternionText (Text.trim cs) = false := by
      simp [isQuaternionText, htrim]
    have hcomplex : isComplexText (Text.trim cs) = false := by
      have hnone : splitLast (· == 'i') (Text.trim cs) = none :=
        splitLast_none fun d hd => beq_false_of_ne fun h => htrim (h ▸ hd)
      rw [isComplexText, hnone]
    rw [parseWithin]
    simp only [hquaternion, hcomplex, Bool.false_eq_true, if_false]
    exact Returns.ite (fun _ => returns_error _ _) fun _ =>
      Returns.ite (fun _ => readRational_real) fun _ =>
        Returns.ite (fun _ => readDecimal_real) fun _ => readInteger_real

variable {read : List Char → Except Fault Number}

theorem unitCoefficient?_real {n : Number} (h : unitCoefficient? cs = some n) :
    n.WellFormedReal := by
  unfold unitCoefficient? at h
  split at h
  · cases h
    exact ⟨_, rfl, Scalar.wellFormed_ofInt 1⟩
  · split at h
    · cases h
      exact ⟨_, rfl, Scalar.wellFormed_ofInt (-1)⟩
    · cases h

theorem readCoefficient_real (hread : ∀ {cs}, 'i' ∉ cs → Returns WellFormedReal (read cs))
    (hcs : 'i' ∉ cs) : Returns WellFormedReal (readCoefficient read cs) := by
  unfold readCoefficient
  split
  · rename_i hunit
    exact (returns_ok _).mpr (unitCoefficient?_real hunit)
  · dsimp only
    split
    · rename_i hunit
      exact (returns_ok _).mpr (unitCoefficient?_real hunit)
    · exact hread (mergeSigns_plain hcs)

theorem readReal_real (hread : ∀ {cs}, 'i' ∉ cs → Returns WellFormedReal (read cs))
    {real : Option (List Char)} (hreal : ∀ cs, real = some cs → 'i' ∉ cs) :
    Returns WellFormedReal (readReal read real) := by
  cases real with
  | none => exact (returns_ok _).mpr wellFormedReal_zero
  | some cs => exact hread (hreal cs rfl)

theorem readComplex_wellFormed (hread : ∀ {cs}, 'i' ∉ cs → Returns WellFormedReal (read cs))
    (hcs : cs.count 'i' ≤ 1) : Returns WellFormed (readComplex read cs) := by
  unfold readComplex
  split
  · rename_i before last hsplit
    obtain ⟨rfl, hlast⟩ := eq_of_splitLast hsplit
    rw [beq_iff_eq] at hlast
    subst hlast
    have hbefore : 'i' ∉ before := by
      rw [List.count_append, List.count_cons_self] at hcs
      exact List.count_eq_zero.mp (by omega)
    obtain ⟨hreal, himaginary⟩ := splitReal_plain hbefore
    exact (returns_complex (readReal_real hread hreal)
      (readCoefficient_real hread himaginary)).mono fun _ hc => hc.1
  · exact returns_error _ _

theorem readQuaternion_wellFormed (hread : ∀ {cs}, 'i' ∉ cs → Returns WellFormedReal (read cs))
    (hcs : cs.count 'i' ≤ 1) : Returns WellFormed (readQuaternion read cs) := by
  unfold readQuaternion
  split
  · exact returns_error _ _
  · rename_i beforeI afterI hi
    obtain ⟨rfl, hbeforeI⟩ := eq_of_splitFirst hi
    have hafterI : 'i' ∉ afterI := by
      rw [List.count_append, List.count_cons_self] at hcs
      exact List.count_eq_zero.mp (by omega)
    split
    · exact returns_error _ _
    · rename_i beforeJ afterJ hj
      obtain ⟨rfl, -⟩ := eq_of_splitFirst hj
      simp only [List.mem_append, List.mem_cons, not_or] at hafterI
      obtain ⟨hbeforeJ, -, hafterJ⟩ := hafterI
      split
      · exact returns_error _ _
      · exact returns_error _ _
      · rename_i beforeK hk
        obtain ⟨rfl, -⟩ := eq_of_splitFirst hk
        simp only [List.mem_append, not_or] at hafterJ
        obtain ⟨hreal, himaginary⟩ := splitReal_plain hbeforeI
        exact (returns_quaternion (readReal_real hread hreal)
          (readCoefficient_real hread himaginary) (readCoefficient_real hread hbeforeJ)
          (readCoefficient_real hread hafterJ.1)).mono fun _ hc => hc.1

theorem parse_wellFormed (hcs : cs.count 'i' ≤ 1) : Returns WellFormed (parse cs) := by
  have htrim : (Text.trim cs).count 'i' ≤ 1 := ((Text.trim_sublist cs).count_le 'i').trans hcs
  have hread : ∀ {part}, 'i' ∉ part → Returns WellFormedReal (parseWithin cs.length part) :=
    parseWithin_real cs.length
  have hreal : ∀ {m}, Returns WellFormedReal m → Returns WellFormed m :=
    fun h => h.mono fun _ hc => hc.wellFormed
  rw [parse, parseWithin]
  exact Returns.ite (fun _ => returns_error _ _) fun _ =>
    Returns.ite (fun _ => readQuaternion_wellFormed hread htrim) fun _ =>
    Returns.ite (fun _ => readComplex_wellFormed hread htrim) fun _ =>
    Returns.ite (fun _ => hreal readRational_real) fun _ =>
    Returns.ite (fun _ => hreal readDecimal_real) fun _ => hreal readInteger_real

end Reading

end Number

end TowerLisp
