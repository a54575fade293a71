import BlobExchange.Toml.Scalar
/-! # Values of configuration text

No key of an inline table may repeat or extend another. Values nest to a bounded depth. -/

namespace BlobExchange.Toml

abbrev Key := List String

/-- A value. The text of dates and times is checked and not kept. -/
inductive Value where
  | text (value : String)
  | integer (value : Int)
  | real (value : Binary64)
  | truth (value : Bool)
  | moment
  | array (items : List Value)
  | table (assignments : List (Key × Value))

/-- The depth at which nesting, and the number of parts at which a key, is too much. -/
def depthLimit : Nat := 80

/-- Whether no key repeats another or extends it. -/
def areSeparate : List Key → Bool
  | [] => true
  | k :: rest => rest.all (fun j => !k.isPrefixOf j && !j.isPrefixOf k) && areSeparate rest

/-- Letters, digits, underscore and hyphen of the ASCII characters. -/
def isBare (c : Char) : Bool := c.isAlphanum || c == '_' || c == '-'

/-- Reads one part of a key, bare or in quotes on one line. -/
def keyPart (cs : List Char) : Option (String × List Char) :=
  let read : Option (List Char × List Char) :=
    match cs with
    | '"' :: rest => quoted '"' (rest.length + 1) [] rest
    | '\'' :: rest => quoted '\'' (rest.length + 1) [] rest
    | _ =>
      if (cs.takeWhile isBare).isEmpty then none
      else some (cs.takeWhile isBare, cs.dropWhile isBare)
  read.map fun r => (String.ofList r.1, r.2)

def keyParts : Nat → Reader Key
  | 0, _ => none
  | fuel + 1, cs => do
    let (part, rest) ← keyPart (skipBlanks cs)
    match skipBlanks rest with
    | '.' :: after =>
      let (parts, later) ← keyParts fuel after
      return (part :: parts, later)
    | later => return ([part], later)

def key : Reader Key := keyParts (depthLimit - 1)

def scalar (cs : List Char) : Option (Value × List Char) :=
  match cs with
  | '"' :: _ => (string cs).map fun r => (.text r.1, r.2)
  | '\'' :: _ => (string cs).map fun r => (.text r.1, r.2)
  | 't' :: 'r' :: 'u' :: 'e' :: rest => some (.truth true, rest)
  | 'f' :: 'a' :: 'l' :: 's' :: 'e' :: rest => some (.truth false, rest)
  | _ =>
    match moment? cs with
    | some rest => some (.moment, rest)
    | none =>
      match special cs with
      | some (x, rest) => some (.real x, rest)
      | none =>
        match decimal cs with
        | some (x, rest) => some (.real x, rest)
        | none => (integer cs).map fun r => (.integer r.1, r.2)

mutual

/-- Reads a value under so many others. -/
def value : Nat → Nat → Reader Value
  | 0, _, _ => none
  | fuel + 1, depth, cs =>
    match cs with
    | '[' :: rest =>
      if depthLimit ≤ depth + 1 then none
      else (items fuel (depth + 1) rest).map fun r => (.array r.1, r.2)
    | '\x7b' :: rest =>
      if depthLimit ≤ depth + 1 then none
      else
        match skipBlanks rest with
        | '\x7d' :: later => some (.table [], later)
        | _ =>
          match assignments fuel (depth + 1) rest with
          | some (pairs, later) =>
            if areSeparate (pairs.map Prod.fst) then some (.table pairs, later) else none
          | none => none
    | _ => scalar cs

/-- Reads the items of an array and its closing bracket. A comma may follow the last item. -/
def items : Nat → Nat → Reader (List Value)
  | 0, _, _ => none
  | fuel + 1, depth, cs =>
    match skipSpace (cs.length + 1) cs with
    | ']' :: rest => some ([], rest)
    | start =>
      match value fuel depth start with
      | none => none
      | some (v, rest) =>
        match skipSpace (rest.length + 1) rest with
        | ']' :: later => some ([v], later)
        | ',' :: later => (items fuel depth later).map fun r => (v :: r.1, r.2)
        | _ => none

/-- Reads the assignments of an inline table and its closing brace. -/
def assignments : Nat → Nat → Reader (List (Key × Value))
  | 0, _, _ => none
  | fuel + 1, depth, cs =>
    match key cs with
    | some (k, '=' :: rest) =>
      match value fuel depth (skipBlanks rest) with
      | none => none
      | some (v, rest) =>
        match skipBlanks rest with
        | '\x7d' :: later => some ([(k, v)], later)
        | ',' :: later => (assignments fuel depth later).map fun r => ((k, v) :: r.1, r.2)
        | _ => none
    | _ => none

end

end BlobExchange.Toml
