import TowerLisp.Form.Basic
import TowerLisp.Value.Basic

/-!
The value that a quoted form denotes.
-/

namespace TowerLisp.Form

/-- A list of the keyword of a tag and a value. -/
def tagged (tag : Tag) (v : Value) : Value :=
  .list [.symbol tag.keyword, v]

/-- The string that the token of a string or a character holds. -/
def stringValue (payload : Payload) : Except Fault Value := do
  return .string (← content payload)

/-- The number that a token holds, if it holds one. -/
def numberValue : Payload → Except Fault Value
  | .number n => .ok (.number n)
  | .none => .ok (.foreign .nothing)
  | _ => .error (.breakdown .notText)

/-- The truth value that a token holds. -/
def booleanValue (payload : Payload) : Value :=
  .ofBool (payload = .text "#t")

/-- The value that a quoted token denotes. -/
def leafDatum (token : Token) : Except Fault Value :=
  match token.tag with
  | .number => numberValue token.payload
  | .string | .character => stringValue token.payload
  | .boolean => .ok (booleanValue token.payload)
  | .symbol | .operator => do return .symbol (← token.payload.written)
  | .empty | .eof => .ok .nil
  | tag =>
    match tag.keyword? with
    | some word => .ok (.symbol word)
    | none => do return .symbol (← token.payload.written)

mutual

/-- The value that a quoted form denotes. -/
def datum : Form → Except Fault Value
  | ⟨token, parts, compound⟩ =>
    if !compound then leafDatum token
    else if token.tag.isQuoting then do
      match ← datumFirst parts with
      | some quoted => return tagged token.tag quoted
      | none => .error (.breakdown .missingPart)
    else if token.tag = .empty then .ok .nil
    else if token.tag = .symbol || token.tag = .operator || token.tag.keyword?.isSome then do
      let head ← leafDatum token
      return .pair head (← datumList parts)
    else datumList parts

def datumFirst : List Form → Except Fault (Option Value)
  | [] => .ok none
  | first :: _ => do return some (← datum first)

/-- The list that quoted forms make up. A dotted form at the end is its tail. -/
def datumList : List Form → Except Fault Value
  | [] => .ok .nil
  | [⟨token, parts, compound⟩] =>
    if token.tag = .dot then do
      match ← datumFirst parts with
      | some tail => return tail
      | none => .error (.breakdown .missingPart)
    else do return .pair (← datum ⟨token, parts, compound⟩) .nil
  | first :: second :: rest => do
    let head ← datum first
    return .pair head (← datumList (second :: rest))

end

end TowerLisp.Form
