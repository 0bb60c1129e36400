import TowerLisp.Proofs.FormShapes
import TowerLisp.Proofs.Nesting
import TowerLisp.Proofs.TextJoining

/-!
Faults of reading. A text that cannot be read is at fault at one of its own places, or a number
in it, or its nesting, is out of bounds. None of these is a fault that evaluation finds in a
form.
-/

namespace TowerLisp

/-- Faults that reading may end in. -/
def Fault.ofReading : Fault → Bool
  | malformed issue _ => !issue.ofEvaluation
  | fault => !fault.blamesForm

theorem Fault.ofReading_of_blameless {fault : Fault} (h : fault.blamesForm = false) :
    fault.ofReading = true := by
  cases fault with
  | malformed issue place => cases h
  | _ => simp_all [ofReading]

namespace Tokens

/-- A text breaks off where it cannot be split into tokens. -/
theorem ofReading_of_ending {c : Cursor} {fault : Fault}
    (h : (ofCursor c).ending = .error fault) : fault.ofReading = true := by
  induction hlength : c.ahead.length using Nat.strongRecOn generalizing c with
  | ind n ih =>
    obtain ⟨scanned, after, hscan⟩ : ∃ scanned after, c.scan = (scanned, after) := ⟨_, _, rfl⟩
    cases scanned with
    | error found =>
      rw [ofCursor_broken hscan] at h
      cases h
      obtain ⟨issue, rfl, hissue⟩ := (Cursor.scanHere_putsAt _).2 fault (congrArg Prod.fst hscan)
      simp [Cursor.fault, Fault.ofReading, hissue]
    | ok token =>
      by_cases heof : token.tag = .eof
      · rw [ofCursor_done hscan heof] at h
        cases h
      · have hshorter := Cursor.scan_shorter hscan heof
        rw [ofCursor_more hscan heof] at h
        exact ih _ (by omega) h rfl

end Tokens

namespace Reader

/-- Whatever the limit, what goes wrong with a text goes wrong while it is read. -/
theorem ofReading_of_readFormsWithin {limit : Nat} {source : List Char} {fault : Fault}
    (h : (readFormsWithin limit source).2 = some fault) : fault.ofReading = true := by
  let P : Pairing := .within (fun fault => fault.ofReading = true) rfl
    fun hparse _ => Fault.ofReading_of_blameless (Number.blameless_parse _ _ hparse)
  have hspelled := Tokens.ofCursor_spelled (.start source)
  have hfits : ∀ t ∈ (Tokens.ofSource source).toList, P.Fits t := fun t ht =>
    Pairing.fits_within.mpr
      ⟨(hspelled t ht).plain, fun issue hissue => by simp [Fault.ofReading, hissue]⟩
  have hrows : P.Rows ((Tokens.ofSource source).within limit)
      ((Tokens.ofSource source).within limit) := by
    rw [Tokens.within_eq]
    exact Tokens.rows_breakOff (Nat.le_refl limit) hfits
      (fun _ hbroken => Tokens.ofReading_of_ending hbroken) _
  rcases (Pairing.matches_readTokens hrows).of_within with ⟨-, -, hfault⟩ | ⟨hdeep, -⟩
  · exact hfault fault h
  · cases hdeep.symm.trans h
    rfl

theorem ofReading_of_readAllWithin {limit : Nat} {source : List Char} {fault : Fault}
    (h : readAllWithin limit source = .error fault) : fault.ofReading = true :=
  ofReading_of_readFormsWithin (allOrNone_eq_error_iff.mp h)

end Reader

end TowerLisp
