import StructuredText.Token.Kind

/-!
The reserved words. A keyword is written in any letter case; the folding that decides this is the
simple one of Unicode, under which the long s (U+017F) is an `s` and the Kelvin sign (U+212A) a `k`.
-/

namespace StructuredText.Keyword

/-- Letter case forgotten, as far as the spelling of a keyword can tell. -/
def fold (c : Char) : Char :=
  if c = '\u017f' then 's'
  else if c = '\u212a' then 'k'
  else c.toLower

/-- The folded spellings. Longer ones stand first, so the first that fits a text is the longest;
`var_stat` is a second spelling of `var_static`. -/
def spellings : List (List Char × TokenKind) :=
  [("end_function_block".toList, .kwEndFunctionBlock),
    ("function_block".toList, .kwFunctionBlock),
    ("end_function".toList, .kwEndFunction),
    ("var_external".toList, .kwVarExternal),
    ("end_program".toList, .kwEndProgram),
    ("var_output".toList, .kwVarOutput),
    ("var_in_out".toList, .kwVarInOut),
    ("var_static".toList, .kwVarStatic),
    ("var_global".toList, .kwVarGlobal),
    ("end_struct".toList, .kwEndStruct),
    ("var_input".toList, .kwVarInput),
    ("function".toList, .kwFunction),
    ("var_temp".toList, .kwVarTemp),
    ("var_stat".toList, .kwVarStatic),
    ("constant".toList, .kwConstant),
    ("end_type".toList, .kwEndType),
    ("end_case".toList, .kwEndCase),
    ("program".toList, .kwProgram),
    ("end_var".toList, .kwEndVar),
    ("struct".toList, .kwStruct),
    ("end_if".toList, .kwEndIf),
    ("return".toList, .kwReturn),
    ("array".toList, .kwArray),
    ("elsif".toList, .kwElsif),
    ("false".toList, .kwFalse),
    ("type".toList, .kwType),
    ("then".toList, .kwThen),
    ("else".toList, .kwElse),
    ("case".toList, .kwCase),
    ("true".toList, .kwTrue),
    ("var".toList, .kwVar),
    ("and".toList, .kwAnd),
    ("xor".toList, .kwXor),
    ("not".toList, .kwNot),
    ("mod".toList, .kwMod),
    ("of".toList, .kwOf),
    ("if".toList, .kwIf),
    ("or".toList, .kwOr)]

theorem spellings_longest_first :
    spellings.Pairwise fun a b => b.1.length ≤ a.1.length := by
  decide

/-- How many characters at the front of a text agree with the word. -/
def agreement : List Char → List Char → Nat
  | w :: ws, c :: cs => if fold c = w then agreement ws cs + 1 else 0
  | _, _ => 0

/-- Whether a text starts with the word. -/
def fits : List Char → List Char → Bool
  | [], _ => true
  | _ :: _, [] => false
  | w :: ws, c :: cs => fold c = w && fits ws cs

/-- The longest keyword at the front of a text, with its kind. -/
def longest? (cs : List Char) : Option (List Char × TokenKind) :=
  spellings.find? fun w => fits w.1 cs

/-- How far a text goes on like some keyword. -/
def reach (cs : List Char) : Nat :=
  spellings.foldl (fun n w => max n (agreement w.1 cs)) 0

end StructuredText.Keyword

namespace StructuredText.TokenKind

/-- The canonical spelling of a keyword, in lower case. -/
def spelling? : TokenKind → Option String
  | .kwProgram => some "program"
  | .kwEndProgram => some "end_program"
  | .kwFunction => some "function"
  | .kwEndFunction => some "end_function"
  | .kwFunctionBlock => some "function_block"
  | .kwEndFunctionBlock => some "end_function_block"
  | .kwVar => some "var"
  | .kwVarInput => some "var_input"
  | .kwVarOutput => some "var_output"
  | .kwVarInOut => some "var_in_out"
  | .kwVarTemp => some "var_temp"
  | .kwVarStatic => some "var_static"
  | .kwVarGlobal => some "var_global"
  | .kwVarExternal => some "var_external"
  | .kwEndVar => some "end_var"
  | .kwConstant => some "constant"
  | .kwType => some "type"
  | .kwEndType => some "end_type"
  | .kwStruct => some "struct"
  | .kwEndStruct => some "end_struct"
  | .kwArray => some "array"
  | .kwOf => some "of"
  | .kwIf => some "if"
  | .kwThen => some "then"
  | .kwElsif => some "elsif"
  | .kwElse => some "else"
  | .kwEndIf => some "end_if"
  | .kwCase => some "case"
  | .kwEndCase => some "end_case"
  | .kwReturn => some "return"
  | .kwAnd => some "and"
  | .kwOr => some "or"
  | .kwXor => some "xor"
  | .kwNot => some "not"
  | .kwMod => some "mod"
  | .kwTrue => some "true"
  | .kwFalse => some "false"
  | _ => none

def isKeyword (k : TokenKind) : Bool :=
  k.spelling?.isSome

end StructuredText.TokenKind
