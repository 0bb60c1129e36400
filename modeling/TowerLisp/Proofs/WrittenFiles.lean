import Mathlib.Data.List.Basic
import Mathlib.Data.List.Induction
import TowerLisp.Proofs.ListValues
import TowerLisp.Proofs.Outcomes
import TowerLisp.Session.Basic

/-!
Files that are read after they have been written. A text is made of lines that have a line feed at
their end and of a last line that has none, and no part of a path leads through a file, so that a
path leads to the same place before and after a file is put there. Rows that are written come back
as they are; a text comes back with its line ends normalized and its last line ended.
-/

namespace TowerLisp

namespace Text

/-- A text with a line feed at the end of its last line, if it has any line. -/
def endLastLine (cs : List Char) : List Char :=
  if cs = [] ∨ cs.getLast? = some '\n' then cs else cs ++ ['\n']

variable {cs last : List Char} {rows : List (List Char)}

@[simp] theorem unlines_cons (row : List Char) (rows : List (List Char)) :
    unlines (row :: rows) = row ++ '\n' :: unlines rows := by
  simp [unlines]

theorem unlines_append (rows others : List (List Char)) :
    unlines (rows ++ others) = unlines rows ++ unlines others :=
  List.flatMap_append

theorem unlines_append_eq_intercalate (rows : List (List Char)) (last : List Char) :
    unlines rows ++ last = ['\n'].intercalate (rows ++ [last]) := by
  induction rows with
  | nil => simp [unlines]
  | cons row rows ih =>
    rw [unlines_cons, List.cons_append, List.intercalate_cons_of_ne_nil (by simp), ← ih]
    simp

/-- Every text is made of lines that end and a last line that does not. -/
theorem exists_eq_unlines_append (cs : List Char) : ∃ rows last,
    cs = unlines rows ++ last ∧ (∀ row ∈ rows, '\n' ∉ row) ∧ '\n' ∉ last := by
  induction cs with
  | nil => exact ⟨[], [], rfl, by simp, by simp⟩
  | cons c cs ih =>
    obtain ⟨rows, last, rfl, hrows, hlast⟩ := ih
    by_cases hc : c = '\n'
    · exact ⟨[] :: rows, last, by simp [hc], by simpa using hrows, hlast⟩
    · have hother : ∀ {line : List Char}, '\n' ∉ line → '\n' ∉ c :: line := fun hline => by
        simpa [hline] using Ne.symm hc
      cases rows with
      | nil => exact ⟨[], c :: last, rfl, by simp, hother hlast⟩
      | cons row rows =>
        obtain ⟨hrow, hrows⟩ := List.forall_mem_cons.mp hrows
        exact ⟨(c :: row) :: rows, last, by simp,
          List.forall_mem_cons.mpr ⟨hother hrow, hrows⟩, hlast⟩

theorem lines_unlines_append (hrows : ∀ row ∈ rows, '\n' ∉ row) (hlast : '\n' ∉ last) :
    lines (unlines rows ++ last) = if last = [] then rows else rows ++ [last] := by
  have hparts : (unlines rows ++ last).splitOn '\n' = rows ++ [last] := by
    rw [unlines_append_eq_intercalate, List.splitOn_intercalate]
    · simpa [or_imp, forall_and] using ⟨hrows, hlast⟩
    · simp
  rw [lines, hparts]
  split
  · simp at *
  · simp

/-- Rows without line feeds are the lines of the text that they make. -/
theorem lines_unlines (hrows : ∀ row ∈ rows, '\n' ∉ row) : lines (unlines rows) = rows := by
  simpa using lines_unlines_append hrows (List.not_mem_nil (a := '\n'))

theorem unlines_eq_nil_or_getLast? (rows : List (List Char)) :
    unlines rows = [] ∨ (unlines rows).getLast? = some '\n' := by
  cases rows using List.reverseRecOn with
  | nil => exact .inl rfl
  | append_singleton rows row => simp [unlines]

/-- The lines of a text make the text, up to the end of its last line. -/
theorem unlines_lines (cs : List Char) : unlines (lines cs) = endLastLine cs := by
  obtain ⟨rows, last, rfl, hrows, hlast⟩ := exists_eq_unlines_append cs
  rw [lines_unlines_append hrows hlast, endLastLine]
  by_cases hempty : last = []
  · rw [if_pos hempty, hempty, List.append_nil, if_pos (unlines_eq_nil_or_getLast? rows)]
  · have hend : ¬ (unlines rows ++ last = [] ∨ (unlines rows ++ last).getLast? = some '\n') := by
      rintro (h | h)
      · exact hempty (List.append_eq_nil_iff.mp h).2
      · rw [List.getLast?_append_of_ne_nil _ hempty] at h
        exact hlast (List.mem_of_getLast? h)
    rw [if_neg hempty, if_neg hend, unlines_append, List.append_assoc]
    simp [unlines]

/-- A text without carriage returns has the line ends that it has to have. -/
theorem normalizeLineEnds_eq_self (h : '\r' ∉ cs) : normalizeLineEnds cs = cs := by
  fun_induction normalizeLineEnds cs with
  | case1 => simp at h
  | case2 => simp at h
  | case3 c cs _ _ ih => rw [ih (List.not_mem_of_not_mem_cons h)]
  | case4 => rfl

theorem not_mem_unlines {c : Char} (hc : c ≠ '\n') (hrows : ∀ row ∈ rows, c ∉ row) :
    c ∉ unlines rows := by
  simpa [unlines, hc] using hrows

/-- Rows without line ends come back out of a file. -/
theorem lines_normalizeLineEnds_unlines (hfeeds : ∀ row ∈ rows, '\n' ∉ row)
    (hreturns : ∀ row ∈ rows, '\r' ∉ row) : lines (normalizeLineEnds (unlines rows)) = rows := by
  rw [normalizeLineEnds_eq_self (not_mem_unlines (by decide) hreturns), lines_unlines hfeeds]

end Text

namespace FileTree

variable {t t' : FileTree} {p : Path} {l : Location} {e : Entry}

theorem find?_insertEntry (l place : Location) (e : Entry) (entries : List (Location × Entry)) :
    (insertEntry l e entries).find? (·.1 = place) =
      if l = place then some (l, e) else entries.find? (·.1 = place) := by
  induction entries with
  | nil => by_cases h : l = place <;> simp [insertEntry, h]
  | cons first others ih =>
    obtain ⟨key, old⟩ := first
    rw [insertEntry]
    by_cases hkey : key = l
    · by_cases h : l = place <;> simp [hkey, h]
    · rw [if_neg hkey]
      by_cases h : key = place
      · have hplace : l ≠ place := fun hl => hkey (h.trans hl.symm)
        simp [h, hplace]
      · simp [h, ih]

theorem find?_insert_self (hgiven : l.isGiven = false) : (t.insert l e).find? l = some e := by
  rw [find?, hgiven, insert, find?_insertEntry]
  simp

theorem find?_insert_of_ne {place : Location} (h : l ≠ place) :
    (t.insert l e).find? place = t.find? place := by
  rw [find?, insert, find?_insertEntry, if_neg h]
  rfl

/-- What is put in a place that is no directory is on no path to another place. -/
theorem walk_insert (hfree : t.find? l ≠ some .directory) {names : List String}
    {start finish : Location} (h : t.walk start names = some finish) :
    (t.insert l e).walk start names = some finish := by
  induction names generalizing start with
  | nil => exact h
  | cons name names ih =>
    rw [walk] at h ⊢
    split at h
    · rename_i hstart
      have hne : l ≠ start := by
        rintro rfl
        exact hfree hstart
      rw [find?_insert_of_ne hne, hstart]
      exact ih h
    · cases h

/-- What has been put at a path is found at the path. -/
theorem entry?_of_putFile (h : t.putFile p e = some t') : t'.entry? p = some e := by
  unfold putFile at h
  split at h
  · cases h
  · obtain ⟨l, hlocate, h⟩ := Option.bind_eq_some_iff.mp h
    split at h
    · cases h
    · rename_i hfree
      have hgiven : l.isGiven = false := by
        by_contra hgiven
        exact hfree (if_pos (by simpa using hgiven))
      split at h
      · cases h
        unfold entry?
        rw [locate, walk_insert hfree hlocate]
        exact find?_insert_self hgiven
      · cases h

/-- What has been written is read with its line ends normalized. -/
theorem readText_of_writeText {text : String} (h : t.writeText p text = .ok (some t')) :
    t'.readText p = .ok (some (Text.normalizeLineEnds text.toList)) := by
  obtain ⟨u, hcheck, h⟩ := bind_eq_ok h
  rw [readText, hcheck, entry?_of_putFile (Except.ok.inj h)]
  rfl

end FileTree

namespace Builtin

open Value (trueSymbol list ofBool)

variable {p : Path} {v : Value} {w w' : World}

/-- A change of the files that succeeds. -/
theorem files_of_changeFiles {change : FileTree → Except Fault (Option FileTree)}
    (h : changeFiles change w = .ok true w') : change w.files = .ok (some w'.files) := by
  obtain ⟨_, _, hget, h⟩ := EvalM.bind_eq_ok h
  cases hget
  obtain ⟨changed, _, hchange, h⟩ := EvalM.bind_eq_ok h
  obtain ⟨hchanged, rfl⟩ := EvalM.lift_eq_ok_iff.mp hchange
  cases changed with
  | none => cases h
  | some files =>
    cases h
    exact hchanged

/-- A text that is written with success is what is read. -/
theorem readText_of_answer {text : String}
    (h : (changeFiles (·.writeText p text) >>= fun made => pure (ofBool made)) w =
      .ok trueSymbol w') :
    w'.files.readText p = .ok (some (Text.normalizeLineEnds text.toList)) := by
  obtain ⟨made, _, hchange, h⟩ := EvalM.bind_eq_ok h
  obtain ⟨hmade, rfl⟩ := EvalM.pure_eq_ok_iff.mp h
  cases made with
  | true => exact FileTree.readText_of_writeText (files_of_changeFiles hchange)
  | false => exact absurd hmade (by decide)

theorem path?_of_asPath {procedure : String} (h : asPath procedure v w = .ok p w') :
    path? v = some p := by
  rw [asPath] at h
  cases hpath : path? v with
  | some q =>
    rw [hpath] at h
    cases h
    rfl
  | none =>
    rw [hpath] at h
    obtain ⟨_, _, -, h⟩ := EvalM.bind_eq_ok h
    exact absurd (EvalM.lift_eq_ok_iff.mp h).1 Value.mistyped_ne_ok

theorem writeRows_strings (p : Path) (written : String) (rows : List String) (w : World) :
    writeLines.writeRows p written (rows.map .string) w =
      (changeFiles (·.writeText p (written ++ String.ofList (Text.unlines (rows.map (·.toList)))))
        >>= fun made => pure (ofBool made)) w := by
  induction rows generalizing written with
  | nil =>
    rw [List.map_nil, List.map_nil, Text.unlines, List.flatMap_nil, String.ofList_nil,
      String.append_empty]
    rfl
  | cons row rows ih =>
    have htext : written ++ row ++ "\n" ++ String.ofList (Text.unlines (rows.map (·.toList))) =
        written ++ String.ofList (Text.unlines ((row :: rows).map (·.toList))) := by
      simp [← String.toList_inj]
    rw [← htext]
    exact ih _

/-- Rows that have been written are what is read. -/
theorem readText_of_writeLines {target : Value} {rows : List String}
    (h : writeLines target (list (rows.map .string)) w = .ok trueSymbol w') :
    ∃ p, path? target = some p ∧ w'.files.readText p =
      .ok (some (Text.normalizeLineEnds (Text.unlines (rows.map (·.toList))))) := by
  obtain ⟨p, _, hpath, h⟩ := EvalM.bind_eq_ok h
  rw [Value.list?_list] at h
  obtain ⟨made, _, -, h⟩ := EvalM.bind_eq_ok h
  cases made with
  | false => exact absurd (EvalM.pure_eq_ok_iff.mp h).1 (by decide)
  | true =>
    rw [if_pos rfl, writeRows_strings] at h
    refine ⟨p, path?_of_asPath hpath, ?_⟩
    rw [readText_of_answer h]
    simp

theorem readText_of_writeToFile {target : Value} {text : String}
    (h : writeToFile target (.string text) w = .ok trueSymbol w') :
    ∃ p, path? target = some p ∧
      w'.files.readText p = .ok (some (Text.normalizeLineEnds text.toList)) := by
  obtain ⟨p, _, hpath, h⟩ := EvalM.bind_eq_ok h
  obtain ⟨_, _, hdisplay, h⟩ := EvalM.bind_eq_ok h
  cases hdisplay
  exact ⟨p, path?_of_asPath hpath, readText_of_answer h⟩

theorem fileLines?_eq {cs : List Char} (hread : w.files.readText p = .ok (some cs)) :
    fileLines? p w = .ok (some (Text.lines cs)) { w with demands := .file p :: w.demands } := by
  change EStateM.bind (EvalM.lift (w.files.readText p)) _ _ = _
  rw [hread]
  rfl

theorem readLines_eq {cs : List Char} (hpath : path? v = some p)
    (hread : w.files.readText p = .ok (some cs)) :
    readLines v w = .ok (list ((Text.lines cs).map fun line => .string (String.ofList line)))
      { w with demands := .file p :: w.demands } := by
  rw [readLines, hpath]
  exact EvalM.bind_of_ok (fileLines?_eq hread)

theorem readFromFile_eq {cs : List Char} (hpath : path? v = some p)
    (hread : w.files.readText p = .ok (some cs)) :
    readFromFile v w = .ok (.string (String.ofList (Text.endLastLine cs)))
      { w with demands := .file p :: w.demands } := by
  rw [readFromFile, hpath, ← Text.unlines_lines]
  exact EvalM.bind_of_ok (fileLines?_eq hread)

end Builtin

open Builtin (run path?)

/-- What has been written with success to a file is what is read from it, as long as the files stay
as they are. Rows without line ends are the same rows again. A text has its line ends normalized
and its last line ended. -/
theorem written_files_read_back {source target : Value} (hpath : path? source = path? target)
    {w' v : World} (hfiles : v.files = w'.files) (ev ev' : Evaluator) (scope scope' : ScopeId)
    (w : World) :
    (∀ rows : List String, (∀ row ∈ rows, '\n' ∉ row.toList ∧ '\r' ∉ row.toList) →
      run ev scope .writeLines [target, .list (rows.map .string)] w = .ok .trueSymbol w' →
      ∃ v', run ev' scope' .readLines [source] v = .ok (.list (rows.map .string)) v' ∧
        v'.files = v.files) ∧
    ∀ text : String, run ev scope .writeToFile [target, .string text] w = .ok .trueSymbol w' →
      ∃ v', run ev' scope' .readFromFile [source] v = .ok (.string
        (String.ofList (Text.endLastLine (Text.normalizeLineEnds text.toList)))) v' ∧
        v'.files = v.files := by
  constructor
  · intro rows hrows h
    obtain ⟨p, htarget, hread⟩ := Builtin.readText_of_writeLines h
    rw [← hfiles] at hread
    have hlines := Builtin.readLines_eq (hpath.trans htarget) hread
    have hfeeds : ∀ row ∈ rows.map (·.toList), '\n' ∉ row := by
      simpa using fun row hrow => (hrows row hrow).1
    have hreturns : ∀ row ∈ rows.map (·.toList), '\r' ∉ row := by
      simpa using fun row hrow => (hrows row hrow).2
    have hsame : ((fun line => Value.string (String.ofList line)) ∘ fun row : String => row.toList)
        = .string := by
      funext row
      rw [Function.comp_apply, String.ofList_toList]
    rw [Text.lines_normalizeLineEnds_unlines hfeeds hreturns, List.map_map, hsame] at hlines
    exact ⟨_, hlines, rfl⟩
  · intro text h
    obtain ⟨p, htarget, hread⟩ := Builtin.readText_of_writeToFile h
    rw [← hfiles] at hread
    exact ⟨_, Builtin.readFromFile_eq (hpath.trans htarget) hread, rfl⟩

/-- Rows, one of them empty, and a text with a carriage return and no line feed at its end. -/
theorem written_files_read_back_log :
    (∃ w' v', run (evaluator 9 9) 0 .writeLines [.string "log", .list (["", "a b"].map .string)]
          (Session.initial ⟨[]⟩ ⟨[]⟩ []) = .ok .trueSymbol w' ∧
        run (evaluator 9 9) 0 .readLines [.string "./log"] w' =
          .ok (.list (["", "a b"].map .string)) v') ∧
      ∃ w' v', run (evaluator 9 9) 0 .writeToFile [.string "log", .string "one\rtwo"]
          (Session.initial ⟨[]⟩ ⟨[]⟩ []) = .ok .trueSymbol w' ∧
        run (evaluator 9 9) 0 .readFromFile [.string "./log"] w' =
          .ok (.string "one\ntwo\n") v' := by
  have hpath : path? (.string "./log") = path? (.string "log") := by decide
  constructor
  · obtain ⟨w', hwritten⟩ : ∃ w', run (evaluator 9 9) 0 .writeLines
        [.string "log", .list (["", "a b"].map .string)] (Session.initial ⟨[]⟩ ⟨[]⟩ []) =
          .ok .trueSymbol w' := ⟨_, rfl⟩
    obtain ⟨v', hread, -⟩ :=
      (written_files_read_back hpath (v := w') rfl _ _ _ _ _).1 _ (by decide) hwritten
    exact ⟨w', v', hwritten, hread⟩
  · obtain ⟨w', hwritten⟩ : ∃ w', run (evaluator 9 9) 0 .writeToFile
        [.string "log", .string "one\rtwo"] (Session.initial ⟨[]⟩ ⟨[]⟩ []) =
          .ok .trueSymbol w' := ⟨_, rfl⟩
    obtain ⟨v', hread, -⟩ :=
      (written_files_read_back hpath (v := w') rfl _ _ _ _ _).2 _ hwritten
    exact ⟨w', v', hwritten, hread⟩

end TowerLisp
