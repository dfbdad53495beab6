import CallFork.Toml.Scalar

/-!
# TOML documents

A document is a list of lines. A line gives a value to a key of the current table, or it starts a
new current table, and it may end in a comment. The tables are put into the document when the
next header or the end is reached.
-/

namespace CallFork.Toml

/-- How deep values and dotted keys may be nested. -/
def maxDepth : Nat := 80

/-! ## Blanks and comments -/

/-- A text without leading spaces and tabs. -/
def skipSpaces (text : List Char) : List Char :=
  text.dropWhile isSpace

/-- What follows a comment, if one stands at the start. -/
def skipComment : List Char → List Char
  | '#' :: rest => rest.dropWhile isPlain
  | text => text

/-- What follows the end of a line, which may hold a comment. -/
def afterLine (text : List Char) : Option (List Char) :=
  match skipComment (skipSpaces text) with
  | [] => some []
  | rest => afterBreak rest

/-- A text without leading blanks, line breaks and comments; `inComment` tells that one has been
opened. -/
def skipFiller (inComment : Bool) : List Char → Option (List Char)
  | [] => some []
  | '\n' :: rest => skipFiller false rest
  | '\r' :: '\n' :: rest => skipFiller false rest
  | c :: rest =>
    if inComment then
      if isPlain c then skipFiller true rest else none
    else if isSpace c then skipFiller false rest
    else if c = '#' then skipFiller true rest
    else some (c :: rest)

/-! ## Keys -/

/-- The single key at the start of a text. -/
def readName (text : List Char) : Option (String × List Char) :=
  match text with
  | '"' :: rest => (basic rest).map fun (taken, rest) => (String.ofList taken, rest)
  | '\x27' :: rest => (literal rest).map fun (taken, rest) => (String.ofList taken, rest)
  | _ =>
    match text.takeWhile isBare with
    | [] => none
    | bare => some (String.ofList bare, text.dropWhile isBare)

/-- Keys separated by points, at most `count` of them, and what follows them and blanks. -/
def readNames : Nat → List Char → Option (List String × List Char)
  | 0, _ => none
  | count + 1, text => do
    let (name, rest) ← readName (skipSpaces text)
    match skipSpaces rest with
    | '.' :: rest =>
      let (names, rest) ← readNames count rest
      return (name :: names, rest)
    | rest => return ([name], rest)

/-- A dotted key: the path to a table, and the key in it. -/
def readKey (text : List Char) : Option ((List String × String) × List Char) := do
  let (names, rest) ← readNames (maxDepth - 1) text
  let key ← names.getLast?
  return ((names.dropLast, key), rest)

/-! ## Values -/

/-- A reader of values. -/
abbrev ValueReader := List Char → Option (Value × List Char)

/-- The elements of an array from the first one on, at most `count` of them, and what follows the
closing bracket. -/
def readElements (readValue : ValueReader) :
    Nat → List Char → Option (List Value × List Char)
  | 0, _ => none
  | count + 1, text => do
    let (value, rest) ← readValue text
    match ← skipFiller false rest with
    | ']' :: rest => return ([value], rest)
    | ',' :: rest =>
      match ← skipFiller false rest with
      | ']' :: rest => return ([value], rest)
      | rest =>
        let (values, rest) ← readElements readValue count rest
        return (value :: values, rest)
    | _ => none

/-- The array whose opening bracket was taken. -/
def readArray (readValue : ValueReader) : ValueReader := fun text => do
  match ← skipFiller false text with
  | ']' :: rest => return (.array [], rest)
  | rest =>
    let (values, rest) ← readElements readValue rest.length rest
    return (.array values, rest)

/-- A key with its value. -/
structure Pair where
  path : List String
  key : String
  value : Value

/-- The key with its value at the start of a text. -/
def readPair (readValue : ValueReader) (text : List Char) : Option (Pair × List Char) := do
  let ((path, key), rest) ← readKey text
  let (value, rest) ← readValue (skipSpaces (← expect '=' rest))
  return (⟨path, key, value⟩, rest)

/-- The pairs of an inline table from the first one on, at most `count` of them, and what follows
the closing brace. -/
def readPairs (readValue : ValueReader) : Nat → List Char → Option (List Pair × List Char)
  | 0, _ => none
  | count + 1, text => do
    let (pair, rest) ← readPair readValue text
    match skipSpaces rest with
    | '\x7d' :: rest => return ([pair], rest)
    | ',' :: rest =>
      let (pairs, rest) ← readPairs readValue count rest
      return (pair :: pairs, rest)
    | _ => none

/-- The inline table of some pairs. -/
def inlineTable (pairs : List Pair) : Option Value := do
  let entries ← pairs.foldlM (fun entries pair =>
    Entries.insert .inlineDotted .inline entries pair.path pair.key pair.value) []
  return .table .inline entries

/-- The inline table whose opening brace was taken. -/
def readInlineTable (readValue : ValueReader) : ValueReader := fun text => do
  match skipSpaces text with
  | '\x7d' :: rest => return (.table .inline [], rest)
  | rest =>
    let (pairs, rest) ← readPairs readValue rest.length rest
    return (← inlineTable pairs, rest)

/-- The value at the start of a text, with arrays and inline tables nested at most `depth` deep. -/
def readValue (depth : Nat) (text : List Char) : Option (Value × List Char) :=
  match depth, text with
  | depth + 1, '[' :: rest => readArray (readValue depth) rest
  | depth + 1, '\x7b' :: rest => readInlineTable (readValue depth) rest
  | 0, '[' :: _ | 0, '\x7b' :: _ => none
  | _, _ => readScalar text

/-! ## Tables -/

/-- A document under construction: the tables that are finished, and the current table with the
header it has. -/
structure Draft where
  done : Entries := []
  /-- The path in the header; the whole document has none. -/
  path : List String := []
  /-- The header has double brackets. -/
  isElement : Bool := false
  entries : Entries := []

namespace Draft

def finish (draft : Draft) : Option Entries :=
  match draft.path.getLast? with
  | none => some draft.entries
  | some key =>
    (Entries.descend .implied (fun _ parent =>
      let table := Value.table .header draft.entries
      if draft.isElement then
        match parent.lookup key with
        | some (.tables elements) =>
          some ((), Entries.replace parent key (.tables (elements ++ [table])))
        | _ => none
      else some ((), parent ++ [(key, table)]))
      draft.path.dropLast .header draft.done).map Prod.snd

/-- Gives a value to a key of the current table. -/
def put (draft : Draft) (pair : Pair) : Option Draft := do
  let entries ← Entries.insert .dotted .header draft.entries pair.path pair.key pair.value
  return { draft with entries }

/-- Starts a table. A table that was only implied so far keeps its entries. -/
def startTable (draft : Draft) (path : List String) (key : String) : Option Draft := do
  let (entries, done) ← Entries.descend .implied (fun _ parent =>
    match parent.lookup key with
    | none => some ([], parent)
    -- the entries move to the current table and come back when it is finished
    | some (.table .implied entries) => some (entries, Entries.without parent key)
    | some _ => none) path .header (← draft.finish)
  return ⟨done, path ++ [key], false, entries⟩

/-- Starts a further table under a key that has only such tables. -/
def startElement (draft : Draft) (path : List String) (key : String) : Option Draft := do
  let ((), done) ← Entries.descend .implied (fun _ parent =>
    match parent.lookup key with
    | none => some ((), parent ++ [(key, .tables [])])
    | some (.tables _) => some ((), parent)
    | some _ => none) path .header (← draft.finish)
  return ⟨done, path ++ [key], true, []⟩

end Draft

/-! ## Lines -/

/-- Takes one line that is not blank. -/
def readLine (draft : Draft) (text : List Char) : Option (Draft × List Char) := do
  match text with
  | '[' :: '[' :: rest =>
    let ((path, key), rest) ← readKey rest
    let rest ← expect ']' (← expect ']' rest)
    return (← draft.startElement path key, ← afterLine rest)
  | '[' :: rest =>
    let ((path, key), rest) ← readKey rest
    let rest ← expect ']' rest
    return (← draft.startTable path key, ← afterLine rest)
  | _ =>
    let (pair, rest) ← readPair (readValue (maxDepth - 1)) text
    return (← draft.put pair, ← afterLine rest)

/-- Takes at most `count` lines up to the end of the text. -/
def readLines : Nat → Draft → List Char → Option Draft
  | 0, draft, text => if text.isEmpty then some draft else none
  | count + 1, draft, text =>
    match skipSpaces text with
    | [] => some draft
    | '#' :: rest => do readLines count draft (← afterLine ('#' :: rest))
    | rest =>
      match afterBreak rest with
      | some rest => readLines count draft rest
      | none => do
        let (draft, rest) ← readLine draft rest
        readLines count draft rest

/-- A text without the mark that may stand at the start of a file. -/
def skipMark : List Char → List Char
  | '\uFEFF' :: rest => rest
  | text => text

/-- The entries of the document that a text stands for. -/
def parse (text : String) : Option Entries := do
  let characters := skipMark text.toList
  (← readLines characters.length {} characters).finish

end CallFork.Toml
