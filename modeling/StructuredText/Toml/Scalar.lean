import StructuredText.Toml.Number

/-!
The parts of a line of TOML: blanks, comments, strings and keys. A reader gives what it read and the
text after it, or `none` where the text does not have the form.
-/

namespace StructuredText.Toml

def isBlank (c : Char) : Bool :=
  c = ' ' || c = '\t'

/-- The characters that comments and strings may hold: all but controls. -/
def isAllowed (c : Char) : Bool :=
  c = '\t' || (0x20 ≤ c.toNat && c.toNat ≠ 0x7f)

def dropBlanks (cs : List Char) : List Char :=
  cs.dropWhile isBlank

/-- The text after the blanks, line ends and comments in front of it. The flag tells whether the
text starts within a comment. -/
def dropGap : (inComment : Bool) → List Char → List Char
  | _, '\n' :: cs => dropGap false cs
  | _, '\r' :: '\n' :: cs => dropGap false cs
  | true, c :: cs => if isAllowed c then dropGap true cs else c :: cs
  | false, c :: cs =>
    if c = '#' then dropGap true cs else if isBlank c then dropGap false cs else c :: cs
  | _, [] => []

/-- The text after the end of the current line, before which only blanks and a comment stand. -/
def endLine? (cs : List Char) : Option (List Char) :=
  let cs := dropBlanks cs
  let cs := if cs.head? = some '#' then cs.dropWhile isAllowed else cs
  match cs with
  | [] => some []
  | '\n' :: rest => some rest
  | '\r' :: '\n' :: rest => some rest
  | _ => none

/-! ### Strings -/

/-- The characters that a backslash and a letter stand for. -/
def escape? : Char → Option Char
  | 'b' => some '\x08'
  | 't' => some '\t'
  | 'n' => some '\n'
  | 'f' => some '\x0c'
  | 'r' => some '\r'
  | 'e' => some '\x1b'
  | '"' => some '"'
  | '\\' => some '\\'
  | _ => none

/-- How many hexadecimal digits follow a letter that starts a code point. -/
def codeLength? : Char → Option Nat
  | 'x' => some 2
  | 'u' => some 4
  | 'U' => some 8
  | _ => none

/-- The character of a code point that is given in digits. -/
def codePoint? (digits : List Char) : Option Char := do
  let n ← natural? 16 digits
  if h : n.isValidChar then some (Char.ofNatAux n h) else none

/-- Where a string is read from and how it ends. -/
structure StringForm where
  quote : Char
  /-- Whether the string may go over several lines, and then ends with three quotes. -/
  multiline : Bool
  /-- Whether a backslash starts an escape. -/
  escapes : Bool

/-- The text after a line break, if there is one in front. -/
def dropLineBreak? : List Char → Option (List Char)
  | '\n' :: cs => some cs
  | '\r' :: '\n' :: cs => some cs
  | _ => none

/-- The text after the blanks and line breaks in front of it. -/
def dropLines : List Char → List Char
  | '\r' :: '\n' :: cs => dropLines cs
  | c :: cs => if isBlank c || c = '\n' then dropLines cs else c :: cs
  | [] => []

/-- The text after a backslash at the end of a line: it goes on at the next thing that is neither
blank nor a line break. -/
def dropFold? (cs : List Char) : Option (List Char) :=
  (dropLineBreak? (dropBlanks cs)).map dropLines

/-- How many quotes stand in front, three at most. -/
def quotes (quote : Char) (cs : List Char) : Nat :=
  ((cs.take 3).takeWhile (· = quote)).length

/-- Whether a string ends here: the quotes that still belong to it, and the text after it. Before
the three quotes that end a string of several lines there may be two more. -/
def closing? (form : StringForm) (cs : List Char) : Option (List Char × List Char) :=
  if !form.multiline then if quotes form.quote cs = 0 then none else some ([], cs.drop 1)
  else if quotes form.quote cs = 3 then
    let extra := min 2 (quotes form.quote (cs.drop 3))
    some (List.replicate extra form.quote, cs.drop (3 + extra))
  else none

/-- A character of a string, or none for a fold, and the text after it. -/
def stringChar? (form : StringForm) (cs : List Char) : Option (Option Char × List Char) :=
  match cs with
  | [] => none
  | c :: rest =>
    if c = '\\' && form.escapes then
      match rest with
      | [] => none
      | e :: after =>
        match escape? e, codeLength? e with
        | some c, _ => some (some c, after)
        | none, some n =>
          if (after.take n).length = n then do
            return (some (← codePoint? (after.take n)), after.drop n)
          else none
        | none, none =>
          if form.multiline then (dropFold? rest).map fun rest => (none, rest) else none
    else
      match if form.multiline then dropLineBreak? cs else none with
      | some rest => some (some '\n', rest)
      | none => if isAllowed c then some (some c, rest) else none

/-- The text of a string from behind its opening quotes on. It has at most as many characters as the
number says. -/
def stringBody : Nat → StringForm → List Char → Option (List Char × List Char)
  | 0, _, _ => none
  | n + 1, form, cs =>
    match closing? form cs with
    | some last => some last
    | none => do
      let (c, rest) ← stringChar? form cs
      let (body, rest) ← stringBody n form rest
      return (c.toList ++ body, rest)

/-- A string with three quotes; a line break right behind them does not count. -/
def multilineString (form : StringForm) (cs : List Char) : Option (List Char × List Char) :=
  stringBody (cs.length + 1) form ((dropLineBreak? cs).getD cs)

def lineString (form : StringForm) (cs : List Char) : Option (List Char × List Char) :=
  stringBody (cs.length + 1) form cs

/-- A string on one line, as keys may be. -/
def plainString : List Char → Option (List Char × List Char)
  | '"' :: cs => lineString ⟨'"', false, true⟩ cs
  | '\'' :: cs => lineString ⟨'\'', false, false⟩ cs
  | _ => none

def string : List Char → Option (List Char × List Char)
  | '"' :: '"' :: '"' :: cs => multilineString ⟨'"', true, true⟩ cs
  | '\'' :: '\'' :: '\'' :: cs => multilineString ⟨'\'', true, false⟩ cs
  | cs => plainString cs

/-! ### Keys -/

def continuesBareKey (c : Char) : Bool :=
  c.isAlphanum || c = '_' || c = '-'

def simpleKey (cs : List Char) : Option (Key × List Char) :=
  let bare := cs.takeWhile continuesBareKey
  if bare.isEmpty then plainString cs else some (bare, cs.dropWhile continuesBareKey)

/-- A key with points between its names, of which there are at most as many as the number says. -/
def dottedKey : Nat → List Char → Option (List Key × List Char)
  | 0, _ => none
  | n + 1, cs => do
    let (key, rest) ← simpleKey (dropBlanks cs)
    match dropBlanks rest with
    | '.' :: rest => do
      let (keys, rest) ← dottedKey n rest
      return (key :: keys, rest)
    | rest => return ([key], rest)

end StructuredText.Toml
