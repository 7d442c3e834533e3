/-
# LeaseLock.Json.Parser -- from tokens to a value

A text is one value, with nothing but blanks around it. What a parse still needs is a `Parse`: which
token may come next, and the containers that are open around it, innermost first. Each token moves
the parse one step, so nesting may be as deep as the text is long.
-/
import LeaseLock.Json.Token

namespace LeaseLock.Json

/-- A container that is open: its finished parts, last one first. -/
inductive Frame where
  | array (done : List Json)
  /-- An object whose member `key` is being read. -/
  | object (done : List (Text × Json)) (key : Text)
deriving Inhabited

/-- What may come next, inside the open containers. -/
inductive Parse where
  /-- A value must follow. -/
  | value (around : List Frame)
  /-- An array has just been opened: its first element, or its end. -/
  | firstElement (around : List Frame)
  /-- An object has just been opened: its first key, or its end. -/
  | firstKey (around : List Frame)
  /-- A key must follow. -/
  | key (done : List (Text × Json)) (around : List Frame)
  /-- The colon after a key must follow. -/
  | colon (done : List (Text × Json)) (key : Text) (around : List Frame)
  /-- A value is finished. -/
  | after (v : Json) (around : List Frame)
deriving Inhabited

namespace Parse

/-- Reads the first token of a value. -/
def begin? (around : List Frame) : Token → Option Parse
  | .null => some (.after .null around)
  | .bool b => some (.after (.bool b) around)
  | .number numeral => some (.after (.number numeral) around)
  | .text t => some (.after (.text t) around)
  | .openArray => some (.firstElement around)
  | .openObject => some (.firstKey around)
  | .closeArray | .closeObject | .comma | .colon => none

/-- **One step of a parse.** -/
def step? : Parse → Token → Option Parse
  | .value around, token => begin? around token
  | .firstElement around, .closeArray => some (.after (.array []) around)
  | .firstElement around, token => begin? (.array [] :: around) token
  | .firstKey around, .closeObject => some (.after (.object []) around)
  | .firstKey around, .text k => some (.colon [] k around)
  | .key done around, .text k => some (.colon done k around)
  | .colon done k around, .colon => some (.value (.object done k :: around))
  | .after v (.array done :: around), .comma => some (.value (.array (v :: done) :: around))
  | .after v (.array done :: around), .closeArray =>
    some (.after (.array (v :: done).reverse) around)
  | .after v (.object done k :: around), .comma => some (.key ((k, v) :: done) around)
  | .after v (.object done k :: around), .closeObject =>
    some (.after (.object ((k, v) :: done).reverse) around)
  | _, _ => none

/-- The value of a parse that has reached the end of its tokens. -/
def finish? : Parse → Option Json
  | .after v [] => some v
  | _ => none

end Parse

/-- The value that the tokens spell. -/
def ofTokens? (tokens : List Token) : Option Json := do
  (← tokens.foldlM Parse.step? (.value [])).finish?

/-- **Reading**: the value of a JSON text, or nothing where the text is no JSON. -/
def parse? (s : String) : Option Json := do
  ofTokens? (← Token.scan? s.toList)

end LeaseLock.Json
