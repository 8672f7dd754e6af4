/-
# Reading JSON

A pushdown machine over lexemes: a frame on the stack for every array and object
that is still open, and what may come next. An array or object nested deeper than
`maxDepth` is unreadable, and so is an object one of whose keys is not a text.

Key definitions: `Parser.step`, `Json.parse?`.
-/
import EcmaPrinter.Json.Lexeme

namespace EcmaPrinter.Json

/-- The deepest nesting of arrays and objects that is readable. -/
def maxDepth : Nat := 127

/-- An array or object that is still open, with what it holds so far in reverse.
An object knows the key whose value comes next. -/
inductive Frame where
  | items (read : List Json)
  | members (read : List (Option String × Json)) (key : Option String)

/-- What may come next. -/
inductive Expect where
  | value
  | itemOrClose
  | keyOrClose
  | key
  | colon
  | commaOrClose

/-- The state of the machine: inside open frames, or done with a value. -/
inductive Parser where
  | going (expect : Expect) (stack : List Frame)
  | done (value : Json)

/-- An object of members whose keys may not be texts. -/
def ofMembers (members : List (Option String × Json)) : Json :=
  match members.mapM fun m => m.1.map fun key => (key, m.2) with
  | some members => .obj members
  | none => .unreadable

namespace Parser

/-- Hands a finished value to the innermost open frame. -/
def deliver (value : Json) : List Frame → Parser
  | [] => .done value
  | .items read :: stack => .going .commaOrClose (.items (value :: read) :: stack)
  | .members read key :: stack => .going .commaOrClose (.members ((key, value) :: read) key :: stack)

/-- A lexeme where a value is expected. -/
def value (stack : List Frame) : Lexeme → Option Parser
  | .openBrace => some (.going .keyOrClose (.members [] none :: stack))
  | .openBracket => some (.going .itemOrClose (.items [] :: stack))
  | .str (some s) => some (deliver (.str s) stack)
  | .str none => some (deliver .unreadable stack)
  | .scalar v => some (deliver v stack)
  | _ => none

/-- An array or object inside the open frames of a stack. -/
def nested (stack : List Frame) (value : Json) : Json :=
  if stack.length < maxDepth then value else .unreadable

/-- Closes the innermost frame. -/
def close : List Frame → Lexeme → Option Parser
  | .items read :: stack, .closeBracket => some (deliver (nested stack (.arr read.reverse)) stack)
  | .members read _ :: stack, .closeBrace =>
    some (deliver (nested stack (ofMembers read.reverse)) stack)
  | _, _ => none

/-- A lexeme where a key is expected. -/
def key : List Frame → Lexeme → Option Parser
  | .members read _ :: stack, .str k => some (.going .colon (.members read k :: stack))
  | _, _ => none

/-- What follows a comma in the innermost frame. -/
def afterComma : List Frame → Option Parser
  | .items read :: stack => some (.going .value (.items read :: stack))
  | .members read k :: stack => some (.going .key (.members read k :: stack))
  | [] => none

/-- The machine after one more lexeme. -/
def step : Parser → Lexeme → Option Parser
  | .done _, _ => none
  | .going .value stack, l => value stack l
  | .going .itemOrClose stack, .closeBracket => close stack .closeBracket
  | .going .itemOrClose stack, l => value stack l
  | .going .keyOrClose stack, .closeBrace => close stack .closeBrace
  | .going .keyOrClose stack, l => key stack l
  | .going .key stack, l => key stack l
  | .going .colon stack, .colon => some (.going .value stack)
  | .going .colon _, _ => none
  | .going .commaOrClose stack, .comma => afterComma stack
  | .going .commaOrClose stack, l => close stack l

end Parser

/-- The value that a text writes. -/
def parse? (text : String) : Option Json := do
  let ls ← lexemes text.toList
  match ← ls.foldlM Parser.step (.going .value []) with
  | .done value => some value
  | .going _ _ => none

end EcmaPrinter.Json
