import StructuredText.Token.Basic
import StructuredText.Tree.Forest

/-!
From an outline, which has only the significant tokens and only their kinds, to the full tree of a
text. A node starts at its first significant token and ends at its last one: the trivia before a
node goes to the node around it, and what is left at the end goes to the root.
-/

namespace StructuredText

/-- The shape of a parsed text: its nodes, and the kind of each significant token. -/
abbrev Outline := Forest TokenKind

namespace Outline

/-- Puts the tokens of a text into an outline, and gives back those that stand after its last
leaf. A node without leaves takes no token, so that trivia stays out of it and of what it ends. -/
def weave : Outline → List Token → Forest Token × List Token
  | .nil, tokens => (.nil, tokens)
  | .leaf kind rest, tokens =>
    let trivia := tokens.takeWhile Token.isTrivia
    match tokens.dropWhile Token.isTrivia with
    | [] =>
      let (after, left) := weave rest []
      (Forest.ofLeaves trivia ++ after, left)
    | token :: tokens =>
      let (after, left) := weave rest tokens
      (Forest.ofLeaves trivia ++ .leaf { token with kind } after, left)
  | .node kind children rest, tokens =>
    let trivia := if children.isBare then [] else tokens.takeWhile Token.isTrivia
    let tokens := if children.isBare then tokens else tokens.dropWhile Token.isTrivia
    let (inside, tokens) := weave children tokens
    let (after, left) := weave rest tokens
    (Forest.ofLeaves trivia ++ .node kind inside after, left)

/-- The children of the root over the tokens of a whole text. -/
def fill (outline : Outline) (tokens : List Token) : Forest Token :=
  let (inside, left) := outline.weave tokens
  inside ++ Forest.ofLeaves left

end Outline

end StructuredText
