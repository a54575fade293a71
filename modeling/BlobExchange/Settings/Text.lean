import BlobExchange.Failure.Blob
import BlobExchange.Toml.Document
/-! # Settings as text

The policy is a section, an inline table, dotted keys, or an array of the factor and the bound, in
which further items are not looked at. What is not set keeps its standard. -/

namespace BlobExchange

namespace GrowthPolicy

open Toml (Key Value)

def factorOf? : Value → Option Binary64
  | .integer i => some (Binary64.ofInt i)
  | .real x => some x
  | _ => none

def countOf? : Value → Option Nat
  | .integer i => if 0 ≤ i then some i.toNat else none
  | _ => none

/-- The policy with one of its fields set. -/
def set? (p : GrowthPolicy) (assignment : Key × Value) : Option GrowthPolicy :=
  match assignment.1 with
  | ["growth_factor"] => (factorOf? assignment.2).map fun x => { p with factor := x }
  | ["max_capacity"] => (countOf? assignment.2).map fun n => { p with maxCapacity := some n }
  | _ => none

def ofAssignments? (assignments : List (Key × Value)) : Option GrowthPolicy :=
  assignments.foldlM set? standard

def ofItems? : List Value → Option GrowthPolicy
  | [] => some standard
  | [factor] => (factorOf? factor).map fun x => ⟨x, none⟩
  | factor :: bound :: _ => do
    let x ← factorOf? factor
    let n ← countOf? bound
    return ⟨x, some n⟩

end GrowthPolicy

namespace Settings

open Toml (Key Value Document)

/-- Assignments to the fields of the policy under dotted keys. -/
def dottedGrowth (assignments : List (Key × Value)) : List (Key × Value) :=
  assignments.filterMap fun a =>
    match a.1 with
    | "growth" :: k :: rest => some (k :: rest, a.2)
    | _ => none

/-- The settings with what one assignment outside of a section sets. Dotted keys of the policy are
left to `dottedGrowth`. -/
def set? (s : Settings) (assignment : Key × Value) : Option Settings :=
  match assignment.1, assignment.2 with
  | ["max_idle_bytes"], v =>
    (GrowthPolicy.countOf? v).map fun n => { s with idleBudget := some n }
  | ["growth"], .table fields =>
    (GrowthPolicy.ofAssignments? fields).map fun p => { s with growth := p }
  | ["growth"], .array items => (GrowthPolicy.ofItems? items).map fun p => { s with growth := p }
  | "growth" :: _ :: _, _ => some s
  | _, _ => none

/-- The settings of a document. The section of the policy stands alone: it neither repeats nor adds
to what was said of the policy before. -/
def ofDocument? (d : Document) : Option Settings := do
  if !Toml.areSeparate (d.top.map Prod.fst) then none
  let fields := dottedGrowth d.top
  let s ← d.top.foldlM set? standard
  match d.sections with
  | [] =>
    if fields.isEmpty then some s
    else (GrowthPolicy.ofAssignments? fields).map fun p => { s with growth := p }
  | [policy] =>
    if policy.header ≠ ["growth"] ∨ policy.ofMany
        ∨ d.top.any (fun a => a.1.head? == some "growth")
        ∨ !Toml.areSeparate (policy.assignments.map Prod.fst) then none
    else (GrowthPolicy.ofAssignments? policy.assignments).map fun p => { s with growth := p }
  | _ => none

def ofText (text : String) : Except BlobError Settings :=
  match (Document.read text).bind ofDocument? with
  | none => .error (.invalidSettings .unreadable)
  | some s =>
    match s.fault? with
    | some fault => .error (.invalidSettings fault)
    | none => .ok s

end Settings

end BlobExchange
