import FlowLint.Lint.Settings

namespace FlowLint

inductive Document
  | null
  | boolean (value : Bool)
  | integer (value : Int)
  /-- A number written with a fraction or an exponent. -/
  | fractional
  | text (value : String)
  | list (items : List Document)
  | record (fields : List (String × Document))
deriving Inhabited

namespace Document

/-- The fields of a record by their names. A list stands for the record with its items as the
first fields. -/
def fields? (names : List String) : Document → Option (List (Option Document))
  | record fields => some (names.map (List.lookup · fields))
  | list items =>
    if items.length ≤ names.length then
      some (items.map some ++ List.replicate (names.length - items.length) none)
    else
      none
  | _ => none

/-- The name of a choice without data: a text, or a record with that one field and nothing in
it. -/
def choice? : Document → Option String
  | text name => some name
  | record [(name, null)] => some name
  | _ => none

/-- An unsigned integer of 64 bits. -/
def natural? : Document → Option Nat
  | integer (.ofNat n) => if n < UInt64.size then some n else none
  | _ => none

def listOf? {α : Type} (read? : Document → Option α) : Document → Option (List α)
  | list items => items.mapM read?
  | _ => none

def orDefault? {α : Type} (value : α) (read? : Document → Option α) :
    Option Document → Option α
  | none => some value
  | some document => read? document

end Document

namespace UnresolvedLabel

def name : UnresolvedLabel → String
  | error => "error"
  | innermost => "innermost"

def ofDocument? (document : Document) : Option UnresolvedLabel := do
  let name ← document.choice?
  [error, innermost].find? (·.name == name)

end UnresolvedLabel

namespace FlowOptions

def ofDocument? (document : Document) : Option FlowOptions := do
  let [unresolvedLabel] ← document.fields? ["unresolved-label"] | none
  let unresolvedLabel ← Document.orDefault? .error UnresolvedLabel.ofDocument? unresolvedLabel
  return { unresolvedLabel }

def toDocument (options : FlowOptions) : Document :=
  .record [("unresolved-label", .text options.unresolvedLabel.name)]

end FlowOptions

namespace Rule

def ofDocument? (document : Document) : Option Rule := do
  ofName? (← document.choice?)

end Rule

namespace Settings

def ofDocument? (document : Document) : Option Settings := do
  let [select, maxComplexity, flow] ← document.fields? ["select", "max-complexity", "cfg"] | none
  let standard : Settings := {}
  let select ← Document.orDefault? standard.select (Document.listOf? Rule.ofDocument?) select
  let maxComplexity ← Document.orDefault? standard.maxComplexity Document.natural? maxComplexity
  let flow ← Document.orDefault? standard.flow FlowOptions.ofDocument? flow
  return { select, maxComplexity, flow }

def toDocument (settings : Settings) : Document :=
  .record
    [("select", .list (settings.select.map (.text ·.name))),
     ("max-complexity", .integer settings.maxComplexity),
     ("cfg", settings.flow.toDocument)]

end Settings

end FlowLint
