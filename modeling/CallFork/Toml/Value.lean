/-!
# TOML values

What a configuration file says, as a tree. Dates and floating-point numbers only occur where they
are ignored, so no more than their kind is kept.

A table remembers how it came to be, because that decides whether later lines may add to it:
`TableKind.canEnter` states the rule for dotted keys and headers. Entries stay in the order in which
they were written.
-/

namespace CallFork.Toml

/-- How a table came to be. -/
inductive TableKind where
  /-- By a header of its own, or as the whole document. -/
  | header
  /-- On the way to a header further down. -/
  | implied
  /-- On the way of a dotted key. -/
  | dotted
  /-- Between braces. -/
  | inline
  /-- On the way of a dotted key between braces. -/
  | inlineDotted
deriving DecidableEq, Repr

namespace TableKind

def isDotted (kind : TableKind) : Bool :=
  kind = dotted || kind = inlineDotted

def isInline (kind : TableKind) : Bool :=
  kind = inline || kind = inlineDotted

/-- Whether a path that makes tables of kind `fresh` may lead through a table. A header leads
through all but inline tables; a dotted key leads through tables that have no header of their own. -/
def canEnter (kind fresh : TableKind) : Bool :=
  match fresh with
  | header | implied => !kind.isInline
  | dotted => kind = implied || kind = dotted
  | inline | inlineDotted => kind = inlineDotted

end TableKind

/-- A value in a configuration file. -/
inductive Value where
  | string (text : String)
  | integer (number : Int)
  | float
  | boolean (truth : Bool)
  | moment
  | array (elements : List Value)
  | table (kind : TableKind) (entries : List (String × Value))
  /-- The tables of headers in double brackets. -/
  | tables (elements : List Value)

/-- The entries of a table, in the order they were written. -/
abbrev Entries := List (String × Value)

namespace Entries

/-- The entries with a new value for a key. -/
def replace (entries : Entries) (key : String) (value : Value) : Entries :=
  entries.map fun entry => if entry.1 = key then (key, value) else entry

/-- The entries without a key. -/
def without (entries : Entries) (key : String) : Entries :=
  entries.filter fun entry => entry.1 ≠ key

/-- What `change` makes of the table at the end of `path`, put back in its place, and what it
yields besides. Tables that are missing on the way are made, of kind `fresh`. The path leads through
the last of several tables under one key. -/
def descend {α : Type} (fresh : TableKind) (change : TableKind → Entries → Option (α × Entries)) :
    List String → TableKind → Entries → Option (α × Entries)
  | [], kind, entries => change kind entries
  | key :: path, _, entries =>
    match entries.lookup key with
    | none => do
      let (yielded, made) ← descend fresh change path fresh []
      return (yielded, entries ++ [(key, .table fresh made)])
    | some (.table kind inner) =>
      if kind.canEnter fresh then do
        let (yielded, changed) ← descend fresh change path kind inner
        return (yielded, entries.replace key (.table kind changed))
      else none
    | some (.tables elements) =>
      match elements.getLast? with
      | some (.table kind inner) => do
        let (yielded, changed) ← descend fresh change path kind inner
        return (yielded, entries.replace key (.tables (elements.dropLast ++ [.table kind changed])))
      | _ => none
    | some _ => none

/-- The entries with a value under a dotted key, which must be new. The key must not add to a table
that was made in another way. -/
def insert (fresh kind : TableKind) (entries : Entries) (path : List String) (key : String)
    (value : Value) : Option Entries :=
  (descend fresh (fun kind inner =>
    if kind.isDotted = path.isEmpty || (inner.lookup key).isSome then none
    else some ((), inner ++ [(key, value)])) path kind entries).map Prod.snd

end Entries
end CallFork.Toml
