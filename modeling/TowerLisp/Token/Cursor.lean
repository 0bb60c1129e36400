import TowerLisp.Fault

/-!
A cursor in a text: what lies before it, nearest first, and what lies ahead. Past
the end, and at a NUL within the text, the current character is NUL. The place of
the cursor is kept along with it and depends only on what lies before.
-/

namespace TowerLisp

namespace Place

/-- The first place of a text. -/
def first : Place := ⟨1, 1⟩

/-- The place after a character at this one. -/
def after (p : Place) (c : Char) : Place :=
  if c = '\n' then ⟨p.line + 1, 1⟩ else ⟨p.line, p.column + 1⟩

/-- The place that has some text before it, which is given nearest first. -/
def behind : List Char → Place
  | [] => first
  | c :: before => (behind before).after c

/-- The place after a text that starts at this one. -/
def afterAll (p : Place) (text : List Char) : Place :=
  text.foldl after p

theorem behind_reverse (text : List Char) : behind text.reverse = first.afterAll text := by
  suffices ∀ before, behind (text.reverse ++ before) = (behind before).afterAll text by
    simpa [behind] using this []
  induction text with
  | nil => intro before; rfl
  | cons c text ih => intro before; simp [afterAll, ih, behind]

end Place

structure Cursor where
  before : List Char
  ahead : List Char
  place : Place
  place_eq : place = .behind before
deriving DecidableEq

namespace Cursor

/-- The mark for the end of a text. -/
def endMark : Char := '\x00'

/-- The cursor at the start of a text. -/
def start (source : List Char) : Cursor :=
  ⟨[], source, .first, rfl⟩

/-- The text that the cursor moves in. -/
def source (c : Cursor) : List Char :=
  c.before.reverse ++ c.ahead

/-- The index of the current character. -/
def position (c : Cursor) : Nat :=
  c.before.length

def current (c : Cursor) : Char :=
  c.ahead.headD endMark

/-- The character after the current one. -/
def next (c : Cursor) : Char :=
  (c.ahead.drop 1).headD endMark

/-- Moves past the current character, if there is one. -/
def advance : Cursor → Cursor
  | ⟨before, [], place, h⟩ => ⟨before, [], place, h⟩
  | ⟨before, c :: ahead, place, h⟩ => ⟨c :: before, ahead, place.after c, by rw [h, Place.behind]⟩

/-- Moves past `n` characters. -/
def skip (c : Cursor) : Nat → Cursor
  | 0 => c
  | n + 1 => c.advance.skip n

/-- Moves back by one character, if there is one. -/
def back : Cursor → Cursor
  | ⟨[], ahead, place, h⟩ => ⟨[], ahead, place, h⟩
  | ⟨c :: before, ahead, _, _⟩ => ⟨before, c :: ahead, .behind before, rfl⟩

/-- Moves past the characters that satisfy `p`, and gives them. -/
def takeWhile (p : Char → Bool) (c : Cursor) : List Char × Cursor :=
  let taken := c.ahead.takeWhile p
  (taken, c.skip taken.length)

/-- The place of an index of the text; indices past the end stand for the end. -/
def placeOf (c : Cursor) (index : Nat) : Place :=
  Place.first.afterAll (c.source.take index)

/-- Cursors at one spot of one text are the same. -/
theorem ext {c d : Cursor} (hbefore : c.before = d.before) (hahead : c.ahead = d.ahead) :
    c = d := by
  obtain ⟨before, ahead, place, h⟩ := c
  obtain ⟨before', ahead', place', h'⟩ := d
  simp_all

@[simp] theorem source_start (source : List Char) : (start source).source = source := rfl

@[simp] theorem source_advance (c : Cursor) : c.advance.source = c.source := by
  rcases c with ⟨before, _ | ⟨c, ahead⟩, place, h⟩ <;> simp [advance, source]

@[simp] theorem source_skip (c : Cursor) (n : Nat) : (c.skip n).source = c.source := by
  induction n generalizing c with
  | zero => rfl
  | succ n ih => simp [skip, ih]

@[simp] theorem source_back (c : Cursor) : c.back.source = c.source := by
  rcases c with ⟨_ | ⟨c, before⟩, ahead, place, h⟩ <;> simp [back, source]

/-- The place of a cursor is that of its index. -/
theorem place_eq_placeOf (c : Cursor) : c.place = c.placeOf c.position := by
  rw [c.place_eq, placeOf, source, position, ← Place.behind_reverse]
  simp

end Cursor

end TowerLisp
