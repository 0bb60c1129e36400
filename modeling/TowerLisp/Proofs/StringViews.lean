import TowerLisp.Builtin.Pure
import TowerLisp.Proofs.ListValues

/-!
Strings seen as lists of one-character strings. A list of such strings is the list of the
characters of exactly one string, and what is asked of lists has the same answer for the string as
for the list of its characters.
-/

namespace TowerLisp.Value

open Builtin (stringToList listToString isNull)

/-- The one-character strings of a list of characters. -/
def singletons (cs : List Char) : List Value :=
  cs.map fun c => string (String.singleton c)

theorem chars_eq (text : String) : chars text = list (singletons text.toList) := rfl

@[simp] theorem singletons_cons (c : Char) (cs : List Char) :
    singletons (c :: cs) = string (String.singleton c) :: singletons cs := rfl

theorem chars_append (front text : String) :
    chars (front ++ text) = ofList (singletons front.toList) (chars text) := by
  rw [chars_eq, chars_eq, singletons, String.toList_append, List.map_append, list, ofList,
    List.foldr_append]
  rfl

theorem toList_eq_cons_of_ne {text : String} (h : text ≠ "") : ∃ c cs, text.toList = c :: cs :=
  List.exists_cons_of_ne_nil fun hnil => h (String.toList_eq_nil_iff.mp hnil)

theorem chars_of_ne {text : String} (h : text ≠ "") :
    ∃ c cs, text = String.ofList (c :: cs) ∧
      chars text = pair (string (String.singleton c)) (chars (String.ofList cs)) := by
  obtain ⟨c, cs, hcs⟩ := toList_eq_cons_of_ne h
  refine ⟨c, cs, ?_, ?_⟩
  · rw [← hcs, String.ofList_toList]
  · rw [chars_eq, chars_eq, hcs, String.toList_ofList]
    rfl

theorem char?_singleton (c : Char) : (string (String.singleton c)).char? = some c := by
  rw [char?, String.toList_singleton]

theorem eq_of_char? {v : Value} {c : Char} (h : v.char? = some c) :
    v = string (String.singleton c) := by
  cases v with
  | string text =>
    rw [char?] at h
    split at h
    · rename_i first htext
      cases h
      rw [← String.ofList_toList (s := text), htext]
      rfl
    · cases h
  | _ => cases h

theorem mapM_char?_singletons (cs : List Char) : (singletons cs).mapM char? = some cs := by
  induction cs with
  | nil => rfl
  | cons c cs ih =>
    rw [singletons_cons, List.mapM_cons, char?_singleton, ih]
    rfl

theorem text?_chars {text : String} (h : text ≠ "") : (chars text).text? = some text := by
  obtain ⟨c, cs, rfl, hchars⟩ := chars_of_ne h
  have hitems : (chars (String.ofList (c :: cs))).list? = some (singletons (c :: cs)) := by
    rw [chars_eq, list?_list, String.toList_ofList]
  rw [hchars] at hitems ⊢
  rw [text?, hitems, Option.bind_eq_bind, Option.bind_some, mapM_char?_singletons]
  rfl

variable (store : Store)

theorem listToString_chars (text : String) :
    listToString store (chars text) = .ok (string text) := by
  by_cases h : text = ""
  · rw [h]
    rfl
  · have htext := text?_chars h
    obtain ⟨c, cs, -, hchars⟩ := chars_of_ne h
    rw [hchars] at htext ⊢
    rw [listToString, htext]
    nofun

/-- A list of one-character strings is the list of the characters of a string. -/
theorem eq_chars_of_char? {v : Value} {items : List Value} (hitems : v.list? = some items)
    (hchars : ∀ item ∈ items, item.char?.isSome) : ∃ text, v = chars text := by
  obtain ⟨cs, hcs⟩ : ∃ cs, items = singletons cs := by
    induction items generalizing v with
    | nil => exact ⟨[], rfl⟩
    | cons item items ih =>
      obtain ⟨hitem, hothers⟩ := List.forall_mem_cons.mp hchars
      obtain ⟨c, hc⟩ := Option.isSome_iff_exists.mp hitem
      obtain ⟨cs, rfl⟩ := ih (list?_list items) hothers
      exact ⟨c :: cs, by rw [eq_of_char? hc, singletons_cons]⟩
  refine ⟨String.ofList cs, ?_⟩
  rw [list?_eq_some_iff.mp hitems, hcs, chars_eq, String.toList_ofList]

theorem length_chars (text : String) : (chars text).length store = .ok text.length := by
  refine length_eq_ok_iff.mpr (.inr ?_)
  rw [chars_eq, list?_list, Option.map_some, singletons, List.length_map, String.length_toList]

theorem isNull_chars (text : String) : isNull (chars text) = isNull (string text) := by
  by_cases h : text = ""
  · rw [h]
    rfl
  · obtain ⟨c, cs, -, hchars⟩ := chars_of_ne h
    rw [hchars]
    exact (beq_eq_false_iff_ne.mpr h).symm

theorem first_string (c : Char) (cs : List Char) :
    first store (string (String.ofList (c :: cs))) = .ok (string (String.singleton c)) := by
  rw [first, String.toList_ofList]

theorem rest_string (c : Char) (cs : List Char) :
    rest store (string (String.ofList (c :: cs))) = .ok (string (String.ofList cs)) := by
  rw [rest, String.toList_ofList]

theorem cons_string {front : String} (h : front ≠ "") (text : String) :
    cons (string front) (string text) = string (front ++ text) := by
  rw [cons, if_neg h]

/-- In front of a string, everything but a string of characters is put before the list of the
characters. -/
theorem cons_eq_pair {v : Value} (h : ∀ front, v = string front → front = "") (text : String) :
    cons v (string text) = pair v (chars text) := by
  cases v with
  | string front => rw [cons, if_pos (h front rfl)]
  | _ => rfl

/-- Strings and the lists of their characters can be taken for each other. Turning one into the
other and back changes nothing. The length, the test for emptiness, the first element, the rest
and what a program prints are the same for both, and what is put in front of a string is put in
front of its characters. -/
theorem string_views_agree :
    (∀ text, stringToList store (string text) = .ok (chars text) ∧
      listToString store (chars text) = .ok (string text)) ∧
    (∀ v items, v.list? = some items → (∀ item ∈ items, item.char?.isSome) →
      ∃ text, listToString store v = .ok (string text) ∧
        stringToList store (string text) = .ok v) ∧
    (∀ text, (string text).length store = .ok text.length ∧
      (chars text).length store = .ok text.length ∧
      isNull (chars text) = isNull (string text)) ∧
    (∀ text, text ≠ "" →
      (∃ v, (string text).first store = .ok v ∧ (chars text).first store = .ok v) ∧
      (∃ others, (string text).rest store = .ok (string others) ∧
        (chars text).rest store = .ok (chars others)) ∧
      (string text).display store = .ok text ∧ (chars text).display store = .ok text ∧
      ∀ limit, (string text).displayWithin limit store = .ok text ∧
        (chars text).displayWithin limit store = .ok text) ∧
    (∀ front text, front ≠ "" → cons (string front) (string text) = string (front ++ text) ∧
      ∃ items, chars front = list items ∧ chars (front ++ text) = ofList items (chars text)) ∧
    ∀ v text, (∀ front, v = string front → front = "") →
      cons v (string text) = pair v (chars text) := by
  refine ⟨fun text => ⟨rfl, listToString_chars store text⟩, fun v items hitems hchars => ?_,
    fun text => ⟨rfl, length_chars store text, isNull_chars text⟩, fun text htext => ?_,
    fun front text hfront =>
      ⟨cons_string hfront text, _, chars_eq front, chars_append front text⟩,
    fun v text h => cons_eq_pair h text⟩
  · obtain ⟨text, rfl⟩ := eq_chars_of_char? hitems hchars
    exact ⟨text, listToString_chars store text, rfl⟩
  · have hwhole := text?_chars htext
    have hdisplay : ∀ v : Value, v.text? = some text → v.display store = .ok text ∧
        ∀ limit, v.displayWithin limit store = .ok text := fun v hv =>
      ⟨by rw [display, hv], fun limit => by rw [displayWithin, hv]⟩
    obtain ⟨hstring, hstringWithin⟩ := hdisplay (string text) rfl
    obtain ⟨hlist, hlistWithin⟩ := hdisplay (chars text) hwhole
    refine ⟨?_, ?_, hstring, hlist, fun limit => ⟨hstringWithin limit, hlistWithin limit⟩⟩
    all_goals obtain ⟨c, cs, rfl, hchars⟩ := chars_of_ne htext
    · exact ⟨_, first_string store c cs, by rw [hchars, first]⟩
    · exact ⟨_, rest_string store c cs, by rw [hchars, rest]⟩

/-- Two characters, and what can be put in front of them. -/
theorem string_views_agree_word :
    (∃ text, listToString .empty (list [string "a", string "b"]) = .ok (string text) ∧
        stringToList .empty (string text) = .ok (list [string "a", string "b"])) ∧
      (chars "ab").display .empty = .ok "ab" ∧
      cons (string "x") (string "ab") = string ("x" ++ "ab") ∧
      cons (string "") (string "ab") = pair (string "") (chars "ab") := by
  obtain ⟨-, hlists, -, hwalked, hjoined, hpaired⟩ := string_views_agree .empty
  have hword : "ab" ≠ "" := by decide
  refine ⟨hlists _ _ (list?_list _) ?_, ?_, (hjoined _ _ (by decide)).1, hpaired _ _ ?_⟩
  · simp [char?]
  · obtain ⟨-, -, -, hdisplay, -⟩ := hwalked _ hword
    exact hdisplay
  · rintro front hfront
    cases hfront
    rfl

end TowerLisp.Value
