/-! # TOML values

A TOML document as a value.  Tables remember how they came to be, since that decides whether
they may still be added to: a table that was only mentioned on the way to another can get a
header of its own, and a table made by dotted keys can get further dotted keys, but nothing is
defined twice.

Of numbers that are no integers, and of dates and times, only that they are there is kept.
-/

namespace CodeOutline

inductive Toml.Origin where
  | header
  /-- On the way to a table with a header. -/
  | implied
  /-- On the way to a dotted key. -/
  | dotted
  | inline
deriving DecidableEq, Repr

inductive Toml where
  | string (text : String)
  | integer (value : Int)
  | decimal
  | bool (value : Bool)
  | moment
  | array (items : List Toml)
  /-- An array whose tables have headers. -/
  | tables (items : List Toml)
  | table (origin : Toml.Origin) (entries : List (String × Toml))
deriving Repr

namespace Toml

def emptyTable (origin : Origin) : Toml :=
  .table origin []

/-! ## Adding to tables -/

def replaceEntry (key : String) (value : Toml) (entries : List (String × Toml)) :
    List (String × Toml) :=
  entries.map fun entry => if entry.1 = key then (key, value) else entry

structure Descent where
  made : Origin
  enters : Origin → Bool

def Descent.header : Descent :=
  ⟨.implied, fun origin => origin ≠ .inline⟩

def Descent.dotted : Descent :=
  ⟨.dotted, fun origin => origin = .implied || origin = .dotted⟩

/-- Changes the table that a path leads to.  Of an array of tables the last one is entered. -/
def changeAt (descent : Descent) (change : Toml → Option Toml) : List String → Toml → Option Toml
  | [], toml => change toml
  | key :: path, .table origin entries =>
    match entries.lookup key with
    | none => do
      let inner ← changeAt descent change path (emptyTable descent.made)
      return .table origin (entries ++ [(key, inner)])
    | some (.table innerOrigin innerEntries) =>
      if descent.enters innerOrigin then do
        let inner ← changeAt descent change path (.table innerOrigin innerEntries)
        return .table origin (replaceEntry key inner entries)
      else none
    | some (.tables items) => do
      let inner ← changeAt descent change path (← items.getLast?)
      return .table origin (replaceEntry key (.tables (items.dropLast ++ [inner])) entries)
    | some _ => none
  | _ :: _, _ => none

/-- Adds an entry to a table.  A dotted key only adds to tables made by dotted keys, and a plain
    key only to others. -/
def addEntry (isDotted : Bool) (key : String) (value : Toml) : Toml → Option Toml
  | .table origin entries =>
    if (origin == .dotted) == isDotted && (entries.lookup key).isNone then
      some (.table origin (entries ++ [(key, value)]))
    else none
  | _ => none

def addKey (path : List String) (last : String) (value : Toml) (toml : Toml) : Option Toml :=
  changeAt .dotted (addEntry (!path.isEmpty) last value) path toml

def openTable (key : String) : Toml → Option Toml
  | .table origin entries =>
    match entries.lookup key with
    | none => some (.table origin (entries ++ [(key, emptyTable .header)]))
    | some (.table .implied inner) =>
      some (.table origin (replaceEntry key (.table .header inner) entries))
    | some _ => none
  | _ => none

def openElement (key : String) : Toml → Option Toml
  | .table origin entries =>
    match entries.lookup key with
    | none => some (.table origin (entries ++ [(key, .tables [emptyTable .header])]))
    | some (.tables items) =>
      some (.table origin (replaceEntry key (.tables (items ++ [emptyTable .header])) entries))
    | some _ => none
  | _ => none

end Toml

end CodeOutline
