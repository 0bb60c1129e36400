import TowerLisp.Form.Basic
import TowerLisp.Store.Bindings

/-!
The store: frames of bindings, scopes and procedures. A scope is a handle on a
chain of frames, innermost first, and several scopes may share a chain. Only two
kinds of frame change once they are made: the root frame of a program, by
definitions at top level, and the frame of a recursive binding form while it is
being filled. A definition anywhere else puts a new frame in front of the chain
of its own scope and leaves all other scopes alone.
-/

namespace TowerLisp

/-- The number of a frame in the store. -/
abbrev FrameId := Nat

/-- The number of a scope in the store. -/
abbrev ScopeId := Nat

structure Frame where
  isRoot : Bool
  bindings : Bindings

/-- A procedure: its parameters, its body and the scope it was made in. It gets a
name when it is first bound to one. -/
structure Closure where
  formals : List String
  body : List Form
  scope : ScopeId
  name : Option String

structure Store where
  frames : Array Frame
  scopes : Array (List FrameId)
  closures : Array Closure

namespace Store

def empty : Store := ⟨#[], #[], #[]⟩

/-- The frames of a scope, innermost first. -/
def chain (s : Store) (scope : ScopeId) : List FrameId :=
  s.scopes[scope]?.getD []

/-- The bindings of a frame. -/
def bindings (s : Store) (frame : FrameId) : Bindings :=
  match s.frames[frame]? with
  | some frame => frame.bindings
  | none => []

def isRootFrame (s : Store) (frame : FrameId) : Bool :=
  match s.frames[frame]? with
  | some frame => frame.isRoot
  | none => false

/-- A scope whose innermost frame is a root. -/
def isRoot (s : Store) (scope : ScopeId) : Bool :=
  match s.chain scope with
  | frame :: _ => s.isRootFrame frame
  | [] => false

/-- The root frame at the end of a scope's chain. -/
def root? (s : Store) (scope : ScopeId) : Option FrameId :=
  (s.chain scope).find? s.isRootFrame

/-- The innermost binding of a name. -/
def lookup? (s : Store) (scope : ScopeId) (name : String) : Option Value :=
  (s.chain scope).findSome? fun frame => (s.bindings frame).find? name

/-- A new scope on a chain of frames. -/
def addScope (s : Store) (chain : List FrameId) : ScopeId × Store :=
  (s.scopes.size, { s with scopes := s.scopes.push chain })

/-- A new frame. -/
def addFrame (s : Store) (frame : Frame) : FrameId × Store :=
  (s.frames.size, { s with frames := s.frames.push frame })

/-- A scope with a new root frame. -/
def newRoot (s : Store) : ScopeId × Store :=
  let (frame, s) := s.addFrame ⟨true, []⟩
  s.addScope [frame]

/-- A scope with one empty frame and no root. -/
def newDetached (s : Store) : ScopeId × Store :=
  let (frame, s) := s.addFrame ⟨false, []⟩
  s.addScope [frame]

/-- A scope with one more frame in front than another scope has. -/
def withFrame (s : Store) (scope : ScopeId) (bindings : Bindings) : ScopeId × Store :=
  let chain := s.chain scope
  let (frame, s) := s.addFrame ⟨false, bindings⟩
  s.addScope (frame :: chain)

/-- A scope whose new frame is filled afterwards by `bindIn`. -/
def withOpenFrame (s : Store) (scope : ScopeId) : ScopeId × FrameId × Store :=
  let chain := s.chain scope
  let (frame, s) := s.addFrame ⟨false, []⟩
  let (scope, s) := s.addScope (frame :: chain)
  (scope, frame, s)

/-- A scope on the same chain. -/
def fork (s : Store) (scope : ScopeId) : ScopeId × Store :=
  s.addScope (s.chain scope)

/-- Binds a name in a given frame. -/
def bindIn (s : Store) (frame : FrameId) (name : String) (value : Value) : Store :=
  { s with
    frames := s.frames.modify frame fun f => { f with bindings := f.bindings.insert name value } }

/-- Puts a frame with one binding in front of a scope's chain. -/
def pushBinding (s : Store) (scope : ScopeId) (name : String) (value : Value) : Store :=
  let (frame, s) := s.addFrame ⟨false, [(name, value)]⟩
  { s with scopes := s.scopes.modify scope fun chain => frame :: chain }

/-- Binds a name in a scope: in its root frame if that is the innermost one, and
otherwise in a new frame of this scope. -/
def define (s : Store) (scope : ScopeId) (name : String) (value : Value) : Store :=
  match s.chain scope with
  | frame :: _ =>
    if s.isRootFrame frame then s.bindIn frame name value else s.pushBinding scope name value
  | [] => s.pushBinding scope name value

def addClosure (s : Store) (closure : Closure) : ClosureId × Store :=
  (s.closures.size, { s with closures := s.closures.push closure })

def closure? (s : Store) (id : ClosureId) : Option Closure :=
  s.closures[id]?

/-- Names a procedure that has no name yet. -/
def nameClosure (s : Store) (id : ClosureId) (name : String) : Store :=
  { s with
    closures := s.closures.modify id fun c => { c with name := some (c.name.getD name) } }

/-- How many names of a frame are shown. -/
def shownNames : Nat := 8

/-- The frames of a scope with the first names that each of them binds. -/
def scopeText (s : Store) (scope : ScopeId) : String :=
  let frames := (s.chain scope).mapIdx fun depth frame =>
    let names := (s.bindings frame).names.take shownNames
    " [" ++ depth.repr ++ ": " ++ " ".intercalate names ++ "]"
  "<Environment" ++ String.join frames ++ ">"

end Store

/-- What is offered as a name to bind. -/
inductive BindingName where
  | symbol (name : String)
  | other (shown : String)

/-- The symbol that is offered; anything else cannot be bound. -/
def BindingName.resolve : BindingName → Except Fault String
  | symbol name => .ok name
  | other shown => .error (.notSymbol shown)

/-- Binds names in a scope one after another, up to the first that is no symbol. -/
def Store.update (s : Store) (scope : ScopeId) :
    List (BindingName × Value) → Store × Option Fault
  | [] => (s, none)
  | (name, value) :: rest =>
    match name.resolve with
    | .ok name => (s.define scope name value).update scope rest
    | .error fault => (s, some fault)

end TowerLisp
