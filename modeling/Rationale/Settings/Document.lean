/-
  Rationale — settings files.

  A settings file is a list of lines: a key with its value, or the header of
  the table that the lines below it belong to; blank lines and comments do not
  count.  A key is one part or several with points between them.  A value in
  brackets or braces may have parts of its own.

  * `parse?` gives the outermost table, in which tables and lists are
    `SettingValue.compound`;
  * keys and values are nested to less than `depthLimit` levels.
-/
import Rationale.Settings.Literal
import Rationale.Settings.Table

namespace Rationale.SettingsFile

/-- A key has fewer parts than this, and a value fewer brackets around it. -/
def depthLimit : Nat := 80

/-! ## Keys -/

def isKeyChar (c : Char) : Bool :=
  c.isAlphanum || c = '_' || c = '-'

/-- One part of a key, in quotes or not. -/
def keyPart? (cs : List Char) : Option (String × List Char) :=
  match cs with
  | '"' :: _ | '\x27' :: _ => quoted? cs
  | _ =>
    let key := cs.takeWhile isKeyChar
    if key = [] then none else some (String.ofList key, cs.dropWhile isKeyChar)

/-- The parts of a key, with blanks around each, in at most `fuel` steps: those
    before the last, and the last. -/
def keyParts? : (fuel : Nat) → List Char → Option ((List String × String) × List Char)
  | 0, _ => none
  | fuel + 1, cs => do
    let (part, cs) ← keyPart? (skip cs)
    match skip cs with
    | '.' :: cs => do
      let ((path, key), cs) ← keyParts? fuel cs
      return ((part :: path, key), cs)
    | cs => return (([], part), cs)

def key? (cs : List Char) : Option ((List String × String) × List Char) :=
  keyParts? (depthLimit - 1) cs

/-- A key and the value sign behind it. -/
def assigned? (cs : List Char) : Option ((List String × String) × List Char) := do
  let (key, cs) ← key? cs
  match cs with
  | '=' :: cs => return (key, skip cs)
  | _ => none

/-! ## Values -/

/-- The rest behind blanks, line breaks and comments. -/
def dropLines (inComment : Bool) : List Char → List Char
  | [] => []
  | '\r' :: '\n' :: cs => dropLines false cs
  | c :: cs =>
    if c = '\n' then dropLines false cs
    else if inComment then
      if isPlain c then dropLines true cs else c :: cs
    else if isBlank c then dropLines false cs
    else if c = '#' then dropLines true cs
    else c :: cs

mutual

/-- A value with fewer than `depth` brackets around any part of it, in at most
    `fuel` steps. -/
def value? : (fuel depth : Nat) → List Char → Option (SettingValue × List Char)
  | 0, _, _ => none
  | _ + 1, _, '"' :: cs => (text? ('"' :: cs)).map fun (s, cs) => (.text s, cs)
  | _ + 1, _, '\x27' :: cs => (text? ('\x27' :: cs)).map fun (s, cs) => (.text s, cs)
  | fuel + 1, depth, '[' :: cs =>
    if depth ≤ 1 then none
    else (elementsFrom? fuel (depth - 1) cs).map (.compound, ·)
  | fuel + 1, depth, '\x7b' :: cs =>
    if depth ≤ 1 then none
    else
      match skip cs with
      | '\x7d' :: cs => some (.compound, cs)
      | cs => (entriesFrom? fuel (depth - 1) [] cs).map (.compound, ·)
  | _ + 1, _, cs => word? cs

/-- The rest behind elements and the bracket that ends them; a comma may come
    before it. -/
def elementsFrom? : (fuel depth : Nat) → List Char → Option (List Char)
  | 0, _, _ => none
  | fuel + 1, depth, cs =>
    match dropLines false cs with
    | ']' :: cs => some cs
    | cs => do
      let (_, cs) ← value? fuel depth cs
      match dropLines false cs with
      | ',' :: cs => elementsFrom? fuel depth cs
      | ']' :: cs => some cs
      | _ => none

/-- The rest behind entries, to be added to `items`, and the brace that ends
    them. -/
def entriesFrom? : (fuel depth : Nat) → Items → List Char → Option (List Char)
  | 0, _, _, _ => none
  | fuel + 1, depth, items, cs => do
    let ((path, key), cs) ← assigned? cs
    let (v, cs) ← value? fuel depth cs
    let items ← Items.addValue? path key v .header items
    match skip cs with
    | ',' :: cs => entriesFrom? fuel depth items cs
    | '\x7d' :: cs => some cs
    | _ => none

end

/-! ## Lines -/

/-- The rest behind what may stand at the end of a line: blanks, a comment and
    the line break, or the end of the file. -/
def lineEnd? (cs : List Char) : Option (List Char) :=
  let cs := match skip cs with
    | '#' :: cs => cs.dropWhile isPlain
    | cs => cs
  match cs with
  | [] => some []
  | cs => newline? cs

/-- The tables read so far, and the header of the one that is open; without a
    header it is the outermost. -/
structure Progress where
  items : Items
  header : List String

/-- Adds a value to the open table. -/
def Progress.add? (p : Progress) (path : List String) (key : String) (v : SettingValue) :
    Option Progress := do
  let add : Origin → Items → Option Items := Items.addValue? path key v
  return { p with items := ← Items.update? false add p.header .header p.items }

/-- Reads one line. -/
def line? (p : Progress) (cs : List Char) : Option (Progress × List Char) :=
  match skip cs with
  | '[' :: '[' :: cs => do
    let ((path, key), cs) ← key? cs
    match cs with
    | ']' :: ']' :: cs => do
      let items ← Items.openElement? path key p.items
      return (⟨items, path ++ [key]⟩, ← lineEnd? cs)
    | _ => none
  | '[' :: cs => do
    let ((path, key), cs) ← key? cs
    match cs with
    | ']' :: cs => do
      let items ← Items.openTable? path key p.items
      return (⟨items, path ++ [key]⟩, ← lineEnd? cs)
    | _ => none
  | cs =>
    match lineEnd? cs with
    | some cs => some (p, cs)
    | none => do
      let ((path, key), cs) ← assigned? cs
      let (v, cs) ← value? (2 * cs.length + 2) depthLimit cs
      return (← p.add? path key v, ← lineEnd? cs)

/-- Reads lines up to the end, in at most `fuel` steps. -/
def lines? : (fuel : Nat) → Progress → List Char → Option Progress
  | _, p, [] => some p
  | 0, _, _ => none
  | fuel + 1, p, cs => do
    let (p, cs) ← line? p cs
    lines? fuel p cs

/-- The text without a byte order mark. -/
def dropMark : List Char → List Char
  | '\ufeff' :: cs => cs
  | cs => cs

/-- The values of a file, by their keys; up to two byte order marks are passed
    over. -/
def parse? (text : String) : Option (List (String × SettingValue)) := do
  let cs := dropMark (dropMark text.toList)
  let p ← lines? cs.length ⟨[], []⟩ cs
  return p.items.map fun (key, item) => (key, item.toValue)

end Rationale.SettingsFile
