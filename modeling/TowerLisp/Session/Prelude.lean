import TowerLisp.Session.Settings

/-!
The prelude: source text that is evaluated before anything else in a session.
-/

namespace TowerLisp

/-- Which prelude a session starts with. -/
inductive Prelude where
  /-- The one that the settings name, or else the core prelude. -/
  | standard
  | absent
  | source (text : String)

namespace Prelude

/-- The procedures on lists that come with the language. -/
def core : String :=
"; Core list procedures, loaded into every interpreter by default.

(define map
  (lambda (f xs)
    (cond ((null? xs) ())
          (else (cons (f (head xs)) (map f (tail xs)))))))

(define filter
  (lambda (p xs)
    (cond ((null? xs) ())
          ((p (head xs)) (cons (head xs) (filter p (tail xs))))
          (else (filter p (tail xs))))))

(define foldl
  (lambda (f acc xs)
    (cond ((null? xs) acc)
          (else (foldl f (f acc (head xs)) (tail xs))))))

(define reverse
  (lambda (xs)
    (foldl (lambda (acc x) (cons x acc)) () xs)))

(define append
  (lambda (xs ys)
    (cond ((null? xs) ys)
          (else (cons (head xs) (append (tail xs) ys))))))

(define nth
  (lambda (n xs)
    (cond ((= n 0) (head xs))
          (else (nth (- n 1) (tail xs))))))
"

/-- The text of the prelude; empty if the directory that the settings name has none. -/
def text (settings : Settings) (files : FileTree) : Prelude → Except Fault (List Char)
  | absent => .ok []
  | source text => .ok text.toList
  | standard => do
    match ← settings.preludeRoot files with
    | none => return core.toList
    | some root =>
      match ← Settings.preludeFile? files root with
      | none => return []
      | some file => return (← files.readText file).getD []

end Prelude

end TowerLisp
