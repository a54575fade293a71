import BlobExchange.Toml.Value
/-! # Documents of configuration text -/

namespace BlobExchange.Toml

/-- A line that says something: an assignment, or the header of a section, which may be one of
many of its name. -/
inductive Statement where
  | assign (key : Key) (value : Value)
  | header (key : Key) (ofMany : Bool)

structure Section where
  header : Key
  ofMany : Bool
  assignments : List (Key × Value)

structure Document where
  top : List (Key × Value)
  sections : List Section

def statement (cs : List Char) : Option (Statement × List Char) :=
  match cs with
  | '[' :: '[' :: rest =>
    match key rest with
    | some (k, ']' :: ']' :: later) => some (.header k true, later)
    | _ => none
  | '[' :: rest =>
    match key rest with
    | some (k, ']' :: later) => some (.header k false, later)
    | _ => none
  | _ =>
    match key cs with
    | some (k, '=' :: rest) =>
      (value (2 * rest.length + 2) 0 (skipBlanks rest)).map fun r => (.assign k r.1, r.2)
    | _ => none

/-- Reads the statements of a document of at most `fuel` lines, one on a line. -/
def statements : Nat → List Char → Option (List Statement)
  | _, [] => some []
  | 0, _ => none
  | fuel + 1, cs =>
    match lineEnd? cs with
    | some later => statements fuel later
    | none =>
      match statement (skipBlanks cs) with
      | none => none
      | some (s, rest) =>
        match lineEnd? rest with
        | none => none
        | some later => (statements fuel later).map (s :: ·)

def gather : List Statement → Document
  | [] => ⟨[], []⟩
  | .assign k v :: rest =>
    let later := gather rest
    { later with top := (k, v) :: later.top }
  | .header k ofMany :: rest =>
    let later := gather rest
    ⟨[], ⟨k, ofMany, later.top⟩ :: later.sections⟩

/-- Reads a document. A byte order mark may precede it. -/
def Document.read (text : String) : Option Document :=
  let cs := text.toList
  let body := if cs.head? = some '\uFEFF' then cs.tail else cs
  (statements (body.length + 1) body).map gather

end BlobExchange.Toml
