import LegibleLog.ByKey

/-!
# JSON values

* `Scalar`, `Value` — values; a number is an integer or a double, the latter as its sign and magnitude;
* `Token` — the words of a JSON text;
* `Value.tokens v` — the words of `v`, members in the order in which the value has them;
* `Value.name? v` — the name that `v` stands for where a choice is written in JSON.
-/

namespace LegibleLog.Json

/-- A value without parts. -/
inductive Scalar where
  | null
  | bool (b : Bool)
  | integer (n : Int)
  | real (negative : Bool) (magnitude : Rat)
  | string (s : String)
deriving Repr, DecidableEq

/-- A JSON value. -/
inductive Value where
  | scalar (s : Scalar)
  | array (items : List Value)
  | object (members : List (String × Value))

/-- The words of a JSON text. -/
inductive Token where
  | openBracket
  | closeBracket
  | openBrace
  | closeBrace
  | comma
  | colon
  | scalar (s : Scalar)
deriving Repr, DecidableEq

namespace Value

mutual

/-- Puts the words of a value, the last one first, before the words in `done`. -/
def pushTokens (done : List Token) : Value → List Token
  | .scalar s => .scalar s :: done
  | .array [] => .closeBracket :: .openBracket :: done
  | .array (v :: vs) => .closeBracket :: pushItems (pushTokens (.openBracket :: done) v) vs
  | .object [] => .closeBrace :: .openBrace :: done
  | .object ((k, v) :: ms) =>
    .closeBrace :: pushMembers (pushTokens (.colon :: .scalar (.string k) :: .openBrace :: done) v) ms

/-- Puts the words of further items, each after a comma. -/
def pushItems (done : List Token) : List Value → List Token
  | [] => done
  | v :: vs => pushItems (pushTokens (.comma :: done) v) vs

/-- Puts the words of further members, each after a comma. -/
def pushMembers (done : List Token) : List (String × Value) → List Token
  | [] => done
  | (k, v) :: ms => pushMembers (pushTokens (.colon :: .scalar (.string k) :: .comma :: done) v) ms

end

/-- The words of a value in order. -/
def tokens (v : Value) : List Token := (pushTokens [] v).reverse

/-- The name of one of several choices: a string, or the one key of an object whose value is null. -/
def name? : Value → Option String
  | .scalar (.string s) => some s
  | .object [(key, .scalar .null)] => some key
  | _ => none

end Value

end LegibleLog.Json
